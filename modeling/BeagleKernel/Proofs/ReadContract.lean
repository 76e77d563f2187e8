import BeagleKernel.Proofs.Coded

/-!
# What a read promises

A read returns on any disk, within the caller's buffer and the file (`fat32Read_within`). What it
returns is the count of the bytes it has read, except at a cluster that is rejected: its code takes
the place of the count even when the handle has advanced (`readContract_iff`).
-/

namespace BeagleKernel.Fat32

/-- What a read leaves that got `m` bytes and returned `r`. -/
structure ReadResult (file : Fat32File) (buffer : ℕ → UInt8) (size : Int32) (m : ℕ) (r : Int32)
    (st : ReadState) : Prop where
  le : m ≤ readSize file size
  fileSize : st.file.fileSize = file.fileSize
  fileOffset : st.file.fileOffset.toNat = file.fileOffset.toNat + m
  bytes : ∀ j < m, codedByte file.fs file.startCluster (file.fileOffset.toNat + j) =
    some (st.buffer j)
  outside : ∀ j, m ≤ j → st.buffer j = buffer j
  full : m = readSize file size → r = (UInt32.ofNat m).toInt32
  unread : m < readSize file size →
    codedByte file.fs file.startCluster (file.fileOffset.toNat + m) = none
  rejected : m < readSize file size →
    Rejected file.fs file.startCluster (file.fileOffset.toNat + m) → r < 0
  counted : m < readSize file size →
    ¬ Rejected file.fs file.startCluster (file.fileOffset.toNat + m) → 0 < m →
    r = (UInt32.ofNat m).toInt32
  nothing : m < readSize file size → m = 0 → r < 0

/-- A read that falls short returns an error, or its count if it has got something. -/
theorem ReadResult.short {file : Fat32File} {buffer : ℕ → UInt8} {size : Int32} {m : ℕ} {r : Int32}
    {st : ReadState} (h : ReadResult file buffer size m r st) (hlt : m < readSize file size) :
    r < 0 ∨ 0 < m ∧ r = (UInt32.ofNat m).toInt32 := by
  by_cases hrej : Rejected file.fs file.startCluster (file.fileOffset.toNat + m)
  · exact .inl (h.rejected hlt hrej)
  rcases Nat.eq_zero_or_pos m with h0 | hpos
  · exact .inl (h.nothing hlt h0)
  · exact .inr ⟨hpos, h.counted hlt hrej hpos⟩

section

variable {file : Fat32File} (hbps : file.fs.bytesPerSector = 512)
  (hspc : 1 ≤ file.fs.sectorsPerCluster.toNat)

include hbps hspc

theorem fat32Read_result (buffer : ℕ → UInt8) (size : Int32) :
    ∃ m r st, (fat32Read file buffer size).val = .ok (r, st) ∧
      ReadResult file buffer size m r st := by
  rcases Nat.eq_zero_or_pos (readSize file size) with h0 | hpos
  · refine ⟨0, 0, ⟨file, buffer, 0, size.toUInt32⟩, by rw [fat32Read_zero h0]; rfl, ?_⟩
    exact ⟨Nat.zero_le _, rfl, rfl, fun j hj => by omega, fun _ _ => rfl, fun _ => rfl,
      fun h => by omega, fun h => by omega, fun h => by omega, fun h => by omega⟩
  have hrem := readStart_remaining file buffer size
  obtain ⟨m, r, st, hval, hm, hadv, hdel, hall, hshort⟩ := readClusters_end file.fs hbps hspc
    (readSize file size + 1) (readStart file buffer size) (by omega)
    (readStart_bounded file buffer size hpos) rfl
  rw [hrem] at hm hall hshort
  have hbytes : st.bytesRead.toNat = m := by
    rw [hadv.bytesRead]
    exact Nat.zero_add m
  have hcount : st.bytesRead = UInt32.ofNat m := by
    rw [← hbytes, UInt32.ofNat_toNat]
  have hoff : st.file.fileOffset.toNat = file.fileOffset.toNat + m := hadv.fileOffset
  refine ⟨m, r, st, by rw [fat32Read_pos hpos, hval], hm, ?_, hoff, fun j hj => ?_, fun j hj => ?_,
    fun h => ?_, fun h => ?_, fun h hrej => ?_, fun h hrej h0 => ?_, fun h h0 => ?_⟩
  · rw [hadv.file]
    rfl
  · have := hdel j hj
    rwa [show (readStart file buffer size).bytesRead.toNat + j = j from Nat.zero_add j] at this
  · refine hadv.outside j fun hj' => ?_
    have hle : j < 0 + m := hj'.2
    omega
  · rw [hall h, hcount]
  · rw [← hoff]
    exact (hshort h).unread
  · rw [← hoff] at hrej
    exact (hshort h).rejected hrej
  · rw [← hoff] at hrej
    rw [(hshort h).counted hrej (by rw [hbytes]; exact h0), hcount]
  · exact (hshort h).nothing (by rw [hbytes, h0])

/-- A read from within the file returns, with no index of a sector out of bounds, writes no byte of
the buffer past those asked for and left in the file, and stays within the file. -/
theorem fat32Read_within (hoff : file.fileOffset.toNat ≤ file.fileSize.toNat)
    (buffer : ℕ → UInt8) {size : Int32} (hsize : 0 ≤ size) :
    ∃ r st, (fat32Read file buffer size).val = .ok (r, st) ∧
      (∀ j : ℕ, min size.toInt.toNat (file.fileSize.toNat - file.fileOffset.toNat) ≤ j →
        st.buffer j = buffer j) ∧
      st.file.fileSize = file.fileSize ∧ st.file.fileOffset.toNat ≤ st.file.fileSize.toNat := by
  obtain ⟨m, r, st, hval, hres⟩ := fat32Read_result hbps hspc buffer size
  have hle := hres.le
  have hR : readSize file size =
      min size.toInt.toNat (file.fileSize.toNat - file.fileOffset.toNat) := by
    have := Int32.toNat_toUInt32 hsize
    rw [readSize, show size.toUInt32.toNat = size.toInt.toNat by omega]
  refine ⟨r, st, hval, fun j hj => hres.outside j (by omega), hres.fileSize, ?_⟩
  rw [hres.fileOffset, hres.fileSize]
  omega

end

/-- A disk of zeros: no cluster has a link. -/
def zeroDisk : Fat32Diskio := ⟨fun _ => some fun _ => 0⟩

theorem fat32Read_within_zeros :
    ∃ r st, (fat32Read (smallFile zeroDisk 3 600 0) (fun _ => 1) 600).val = .ok (r, st) ∧
      (∀ j : ℕ, min 600 600 ≤ j → st.buffer j = 1) ∧ st.file.fileSize = 600 ∧
      st.file.fileOffset.toNat ≤ st.file.fileSize.toNat :=
  @fat32Read_within (smallFile zeroDisk 3 600 0) rfl (by decide) (by decide) (fun _ => 1) 600
    (by decide)

/-! ## The contract -/

/-- With a code a read leaves the offset; with a count, which is at most the size, it has written
that many bytes of the buffer and advanced the offset by it. -/
def ReadContract (file : Fat32File) (size : Int32) : Prop :=
  ∃ bytes : ℕ → UInt8, ∀ buffer, ∃ r st, (fat32Read file buffer size).val = .ok (r, st) ∧
    (r < 0 → st.file.fileOffset = file.fileOffset) ∧
    (0 ≤ r → r ≤ size ∧ (st.file.fileOffset.toNat : ℤ) = file.fileOffset.toNat + r.toInt ∧
      ∀ j : ℕ, st.buffer j = if (j : ℤ) < r.toInt then bytes j else buffer j)

/-- The read comes to a cluster that is rejected with bytes read before it. -/
def RejectedLater (file : Fat32File) (size : Int32) : Prop :=
  ∃ k c, file.fileOffset.toNat < k * clusterBytes file.fs ∧
    k * clusterBytes file.fs < file.fileOffset.toNat + readSize file size ∧
    codedCluster file.fs file.startCluster k = some c ∧ clusterToSector file.fs c < 0 ∧
    ∀ j, file.fileOffset.toNat ≤ j → j < k * clusterBytes file.fs →
      (codedByte file.fs file.startCluster j).isSome

/-- Not one byte is there to be had, though there should be. -/
def NothingRead (file : Fat32File) (size : Int32) : Prop :=
  0 < readSize file size ∧ codedByte file.fs file.startCluster file.fileOffset.toNat = none

section

variable {file : Fat32File} {buffer : ℕ → UInt8} {size r : Int32} {m : ℕ} {st : ReadState}
  (hspc : 1 ≤ file.fs.sectorsPerCluster.toNat)

include hspc

/-- A read that gets to a rejected cluster with bytes read ends at its start. -/
theorem ReadResult.rejectedLater (h : ReadResult file buffer size m r st) (h0 : 0 < m)
    (hlt : m < readSize file size)
    (hrej : Rejected file.fs file.startCluster (file.fileOffset.toNat + m)) :
    RejectedLater file size := by
  obtain ⟨c, hc, hneg⟩ := hrej
  have hpos := clusterBytes_pos file.fs hspc
  set o := file.fileOffset.toNat with ho
  -- the byte before is of another cluster
  have hstart : (o + m) % clusterBytes file.fs = 0 := by
    by_contra hne
    have hprev : (o + (m - 1)) / clusterBytes file.fs = (o + m) / clusterBytes file.fs := by
      rw [show o + m = o + (m - 1) + 1 by omega] at hne ⊢
      exact (Nat.succ_div_of_not_dvd fun hd => hne (Nat.mod_eq_zero_of_dvd hd)).symm
    have hbyte := h.bytes (m - 1) (by omega)
    rw [codedByte, hprev, hc, Option.bind_some, if_neg (Int32.not_le.2 hneg)] at hbyte
    cases hbyte
  have hk : (o + m) / clusterBytes file.fs * clusterBytes file.fs = o + m :=
    Nat.div_mul_cancel (Nat.dvd_of_mod_eq_zero hstart)
  refine ⟨_, c, by omega, by omega, hc, hneg, fun j h1 h2 => ?_⟩
  have hbyte := h.bytes (j - o) (by omega)
  rw [show o + (j - o) = j by omega] at hbyte
  rw [hbyte]
  rfl

theorem ReadResult.neg_of_rejectedLater (h : ReadResult file buffer size m r st)
    (hrej : RejectedLater file size) : 0 < m ∧ r < 0 := by
  obtain ⟨k, c, hlo, hhi, hc, hneg, hserved⟩ := hrej
  have hpos := clusterBytes_pos file.fs hspc
  have hdiv : k * clusterBytes file.fs / clusterBytes file.fs = k := Nat.mul_div_cancel k hpos
  have hnone : codedByte file.fs file.startCluster (k * clusterBytes file.fs) = none := by
    rw [codedByte, hdiv, hc, Option.bind_some, if_neg (Int32.not_le.2 hneg)]
  have hm : file.fileOffset.toNat + m = k * clusterBytes file.fs := by
    rcases Nat.lt_trichotomy (file.fileOffset.toNat + m) (k * clusterBytes file.fs) with
      hlt | heq | hgt
    · have hsome := hserved _ (Nat.le_add_right _ _) hlt
      rw [h.unread (by omega)] at hsome
      cases hsome
    · exact heq
    · have hbyte := h.bytes (k * clusterBytes file.fs - file.fileOffset.toNat) (by omega)
      rw [Nat.add_sub_cancel' hlo.le, hnone] at hbyte
      cases hbyte
  refine ⟨by omega, h.rejected (by omega) ⟨c, ?_, hneg⟩⟩
  rw [hm, hdiv]
  exact hc

omit hspc in
theorem ReadResult.neg_of_nothingRead (h : ReadResult file buffer size m r st)
    (hnone : NothingRead file size) : m = 0 ∧ r < 0 := by
  have h0 : m = 0 := by
    by_contra hne
    have hbyte := h.bytes 0 (by omega)
    rw [Nat.add_zero, hnone.2] at hbyte
    cases hbyte
  exact ⟨h0, h.nothing (by rw [h0]; exact hnone.1) h0⟩

omit hspc in
theorem ReadResult.offset_eq (h : ReadResult file buffer size m r st) (h0 : m = 0) :
    st.file.fileOffset = file.fileOffset := by
  rw [← UInt32.toNat_inj, h.fileOffset, h0, Nat.add_zero]

/-- The count, unless the read came to a rejected cluster or got nothing. -/
theorem ReadResult.count (h : ReadResult file buffer size m r st)
    (hrej : ¬ RejectedLater file size) (hr : 0 < m ∨ m = readSize file size) :
    r = (UInt32.ofNat m).toInt32 := by
  rcases h.le.eq_or_lt with heq | hlt
  · exact h.full heq
  · have h0 : 0 < m := hr.resolve_right (by omega)
    exact h.counted hlt (fun hc => hrej (h.rejectedLater hspc h0 hlt hc)) h0

omit hspc in
theorem ReadResult.le_size (h : ReadResult file buffer size m r st) (hsize : 0 ≤ size) :
    (m : ℤ) ≤ size.toInt := by
  have hle := h.le
  have hR : readSize file size ≤ size.toUInt32.toNat := min_le_left _ _
  have := Int32.toNat_toUInt32 hsize
  omega

theorem ReadResult.count_toInt (h : ReadResult file buffer size m r st)
    (hrej : ¬ RejectedLater file size) (hr : 0 < m ∨ m = readSize file size)
    (hsize : 0 ≤ size) : r.toInt = m := by
  have hm := h.le_size hsize
  have hlt := size.toInt_lt
  have hnat : (UInt32.ofNat m).toNat = m := UInt32.toNat_ofNat_lt (by omega)
  rw [h.count hspc hrej hr, UInt32.toInt_toInt32 (by omega), hnat]

omit hspc in
/-- A read that returned the count kept the contract. -/
theorem ReadResult.counts (h : ReadResult file buffer size m r st) (hsize : 0 ≤ size)
    (hr : r.toInt = m) : r ≤ size ∧
      (st.file.fileOffset.toNat : ℤ) = file.fileOffset.toNat + r.toInt ∧
      ∀ j : ℕ, st.buffer j = if (j : ℤ) < r.toInt then
        (codedByte file.fs file.startCluster (file.fileOffset.toNat + j)).getD 0 else buffer j := by
  refine ⟨?_, ?_, fun j => ?_⟩
  · rw [Int32.le_iff_toInt_le, hr]
    exact h.le_size hsize
  · rw [h.fileOffset, hr, Int.natCast_add]
  · rw [hr]
    split_ifs with hj
    · rw [h.bytes j (Int.ofNat_lt.1 hj)]
      rfl
    · exact h.outside j (by omega)

end

theorem not_contract_of_rejectedLater {file : Fat32File} {size : Int32}
    (hbps : file.fs.bytesPerSector = 512) (hspc : 1 ≤ file.fs.sectorsPerCluster.toNat)
    (hrej : RejectedLater file size) : ¬ ReadContract file size := by
  rintro ⟨bytes, h⟩
  obtain ⟨r, st, hval, hneg, -⟩ := h fun _ => 0
  obtain ⟨m, r', st', hval', hres⟩ := fat32Read_result hbps hspc (fun _ => 0) size
  rw [hval] at hval'
  cases hval'
  obtain ⟨h0, hr⟩ := hres.neg_of_rejectedLater hspc hrej
  have hoff := hres.fileOffset
  rw [hneg hr] at hoff
  omega

/-- A read keeps its contract exactly if it comes to no rejected cluster with bytes already read
and, where its size is negative, there is no byte to be had. -/
theorem readContract_iff {file : Fat32File} (hbps : file.fs.bytesPerSector = 512)
    (hspc : 1 ≤ file.fs.sectorsPerCluster.toNat) (size : Int32) :
    ReadContract file size ↔ ¬ RejectedLater file size ∧ (0 ≤ size ∨ NothingRead file size) := by
  constructor
  · intro h
    refine ⟨fun hrej => not_contract_of_rejectedLater hbps hspc hrej h, ?_⟩
    obtain ⟨bytes, h⟩ := h
    obtain ⟨r, st, hval, hneg, hcount⟩ := h fun _ => 0
    obtain ⟨m, r', st', hval', hres⟩ := fat32Read_result hbps hspc (fun _ => 0) size
    rw [hval] at hval'
    cases hval'
    by_cases hr : 0 ≤ r
    · exact .inl (Int32.le_trans hr (hcount hr).1)
    have hr' := Int32.not_le.1 hr
    have h0 : m = 0 := by
      have hoff := hres.fileOffset
      rw [hneg hr'] at hoff
      omega
    have hlt : m < readSize file size := by
      refine Nat.lt_of_le_of_ne hres.le fun heq => hr ?_
      rw [hres.full heq, h0]
      decide
    have hnone := hres.unread hlt
    rw [h0] at hlt hnone
    exact .inr ⟨hlt, hnone⟩
  · rintro ⟨hrej, hsize⟩
    refine ⟨fun j => (codedByte file.fs file.startCluster (file.fileOffset.toNat + j)).getD 0,
      fun buffer => ?_⟩
    obtain ⟨m, r, st, hval, hres⟩ := fat32Read_result hbps hspc buffer size
    refine ⟨r, st, hval, ?_⟩
    rcases hsize with hsize | hnone
    · rcases Nat.eq_zero_or_pos m with h0 | hpos
      · refine ⟨fun _ => hres.offset_eq h0, fun hr => ?_⟩
        have hall : m = readSize file size := by
          by_contra hne
          have hlt : m < readSize file size := Nat.lt_of_le_of_ne hres.le hne
          exact absurd (hres.nothing hlt h0) (Int32.not_lt.2 hr)
        exact hres.counts hsize (hres.count_toInt hspc hrej (.inr hall) hsize)
      · have hcount := hres.count_toInt hspc hrej (.inl hpos) hsize
        refine ⟨fun hr => ?_, fun _ => hres.counts hsize hcount⟩
        have := Int32.lt_iff_toInt_lt.1 hr
        rw [hcount] at this
        exact absurd this (by simp)
    · obtain ⟨h0, hr⟩ := hres.neg_of_nothingRead hnone
      exact ⟨fun _ => hres.offset_eq h0, fun hr' => absurd hr (Int32.not_lt.2 hr')⟩

theorem readContract_one_byte : ReadContract (smallFile zeroDisk 3 1 0) 1 := by
  refine (readContract_iff rfl (by decide) 1).2 ⟨?_, .inl (by decide)⟩
  rintro ⟨k, -, hlo, hhi, -⟩
  have h1 : 0 < k * 512 := hlo
  have h2 : k * 512 < 0 + 1 := hhi
  omega

/-- A file of 600 bytes whose first cluster links nowhere: its read returns an error with the
offset advanced by 512. -/
theorem rejected_cluster_advances :
    ¬ ∀ (file : Fat32File) (size : Int32), file.fs.bytesPerSector = 512 →
      1 ≤ file.fs.sectorsPerCluster.toNat → file.fileOffset.toNat ≤ file.fileSize.toNat →
      ReadContract file size := by
  intro h
  refine not_contract_of_rejectedLater rfl (by decide) ?_
    (h (smallFile zeroDisk 3 600 0) 600 rfl (by decide) (by decide))
  refine ⟨1, fat32ErrorCorruptedFs.toUInt32, by decide, by decide, ?_, by decide, fun j _ hj => ?_⟩
  · rw [codedCluster, if_pos ⟨by decide, fun m hm => absurd hm (Nat.not_lt_zero m)⟩]
    rfl
  · have hj' : j / clusterBytes (smallFs zeroDisk) = 0 := Nat.div_eq_of_lt (by
      rwa [Nat.one_mul] at hj)
    have hc : codedCluster (smallFs zeroDisk) 3 0 = some 3 :=
      if_pos ⟨by decide, fun m hm => absurd hm (Nat.not_lt_zero m)⟩
    change (codedByte (smallFs zeroDisk) 3 j).isSome
    rw [codedByte, hj', hc, Option.bind_some, if_pos (by decide)]
    rfl

end BeagleKernel.Fat32
