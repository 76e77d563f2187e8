import BeagleKernel.Proofs.ReadRun

/-!
# A read past a broken link

A broken link's code is a number like any other to the next lookup, so a read follows the links
of the chain exactly where none of the codes gets that far.
-/

namespace BeagleKernel.Fat32

theorem chain_none_of_broken {fs : Fat32Fs} {start d : UInt32} {p : ℕ}
    (hp : chain fs start p = some d) (hd : link fs d = none) : chain fs start (p + 1) = none := by
  rw [← hd]
  exact walk_succ_of _ hp

theorem not_followsLinks_of_access {file : Fat32File} {size : Int32} (buffer : ℕ → UInt8)
    {p : ℕ} {d : UInt32}
    (hp : chain file.fs file.startCluster p = some d) (hd : link file.fs d = none)
    (h : ∃ a ∈ (fat32Read file buffer size).log, a.pos = p + 1) :
    ¬ FollowsLinks file buffer size := by
  rintro ⟨r, st, -, -, -, hlog⟩
  obtain ⟨a, ha, hpos⟩ := h
  have := hlog a ha
  unfold OnChain at this
  rw [hpos, chain_none_of_broken hp hd] at this
  cases this

section Iff

variable {file : Fat32File} {size : Int32} (buffer : ℕ → UInt8)
  (hbps : file.fs.bytesPerSector = 512) (hspc : 1 ≤ file.fs.sectorsPerCluster.toNat)
  (hstart : 3 ≤ file.startCluster.toNat)

include hbps hspc hstart

theorem followsLinks_of_stops (hsize : 0 ≤ size) (hpos : 0 < readSize file size)
    (hw : WalkStops file.fs file.startCluster file.fileOffset.toNat (readSize file size)) :
    FollowsLinks file buffer size := by
  have hrem := readStart_remaining file buffer size
  have hcb := clusterBytes_pos file.fs hspc
  obtain ⟨m, r, st, hval, hm, hadv, hdel, hr, -, -, hlog⟩ := readClusters_run file.fs hbps hspc
    hstart (readSize file size + 1) (readStart file buffer size) (by omega)
    (readStart_bounded file buffer size hpos) rfl (by rw [hrem]; exact hw)
  have hlt := Int32.toUInt32_lt hsize
  have hle : readSize file size ≤ size.toUInt32.toNat := min_le_left _ _
  have hbytes : st.bytesRead.toNat = m := by
    rw [hadv.bytesRead]
    exact Nat.zero_add m
  have hcount : ∀ j : ℕ, (j : ℤ) < r.toInt → 0 ≤ r → j < m := by
    intro j hj hr0
    rcases hr with hr | rfl
    · exact absurd hr0 (Int32.not_le.2 hr)
    · rw [UInt32.toInt_toInt32 (by omega), hbytes] at hj
      omega
  have hnn : 0 < r.toInt → 0 ≤ r := by
    intro h
    rw [Int32.le_iff_toInt_le]
    exact h.le
  rw [← fat32Read_pos hpos buffer] at hval hlog
  refine ⟨r, st, hval, fun hr0 j hj => ?_, fun p d hp hd hr0 => ?_, hlog⟩
  · have := hdel j (hcount j hj hr0)
    rwa [show (readStart file buffer size).bytesRead.toNat + j = j from Nat.zero_add j] at this
  · -- the last byte delivered is one of a cluster the chain has
    have hr1 : ((r.toInt - 1).toNat : ℤ) = r.toInt - 1 := Int.toNat_of_nonneg (by omega)
    have hlast := hdel _ (hcount (r.toInt - 1).toNat (by omega) (hnn hr0))
    by_contra hgt
    have hfar : (p + 1) * clusterBytes file.fs ≤
        file.fileOffset.toNat + (r.toInt - 1).toNat := by
      rw [Int.not_le] at hgt
      have : ((p + 1) * clusterBytes file.fs : ℕ) <
          (file.fileOffset.toNat : ℤ) + r.toInt := by exact_mod_cast hgt
      omega
    have hnone := walk_none_of_le (link file.fs)
      ((Nat.le_div_iff_mul_le hcb).2 hfar) (chain_none_of_broken hp hd)
    have : chain file.fs file.startCluster
        ((file.fileOffset.toNat + (r.toInt - 1).toNat) / clusterBytes file.fs) = none := hnone
    change chainByte file.fs file.startCluster
      (file.fileOffset.toNat + (r.toInt - 1).toNat) = _ at hlast
    rw [chainByte, this] at hlast
    cases hlast

/-- A read follows the links of the chain exactly where it has nothing to read or stops at every
broken link. -/
theorem followsLinks_iff_stops (hsize : 0 ≤ size) :
    FollowsLinks file buffer size ↔ readSize file size = 0 ∨
      WalkStops file.fs file.startCluster file.fileOffset.toNat (readSize file size) := by
  rcases Nat.eq_zero_or_pos (readSize file size) with h0 | hpos
  · refine iff_of_true ⟨0, ⟨file, buffer, 0, size.toUInt32⟩, ?_, fun _ j hj => ?_,
      fun p d _ _ hr => ?_, fun a ha => ?_⟩ (.inl h0)
    · rw [fat32Read_zero h0]
      rfl
    · rw [Int32.toInt_zero] at hj
      omega
    · rw [Int32.toInt_zero] at hr
      omega
    · rw [fat32Read_zero h0] at ha
      simp at ha
  · refine ⟨fun h => .inr ?_, ?_⟩
    · have hrem := readStart_remaining file buffer size
      have hb := readStart_bounded file buffer size hpos
      constructor
      · intro p d hp hd hfar
        by_contra hne
        refine not_followsLinks_of_access buffer hp hd ?_ h
        rw [fat32Read_pos hpos buffer]
        exact readClusters_far file.fs hbps hspc hstart hp hd hne _ _ rfl (by omega) hfar
      · intro p d hp hd hge hlt hserved
        by_contra hrej
        refine not_followsLinks_of_access buffer hp hd ?_ h
        rw [fat32Read_pos hpos buffer]
        exact readClusters_reaches file.fs hbps hspc hstart hp hd (Int32.not_lt.1 hrej) _ _
          (by omega) hb rfl (by omega) hge (by rw [hrem]; exact hlt) hserved
    · rintro (h | h)
      · omega
      · exact followsLinks_of_stops buffer hbps hspc hstart hsize hpos h

end Iff

/-! ## A bad cluster two links before the one wanted -/

/-- A FAT whose cluster 3 links to a bad cluster, on a card large enough to have the sector the
code of that link is looked up in. -/
def badLinkDisk : Fat32Diskio where
  readSector s :=
    if s = 32 then some fun i =>
      if i = 12 then 0xF7 else if i = 13 ∨ i = 14 then 0xFF else if i = 15 then 0x0F else 0
    else if s = 8388639 then some fun i => if i = 508 then 5 else 0
    else some fun _ => 0

/-- The walk to the third cluster of a file whose second is marked bad looks up cluster
`0xFFFFFFFF`. -/
theorem bad_link_looked_up :
    ¬ ∀ (file : Fat32File) (buffer : ℕ → UInt8) (size : Int32), file.fs.bytesPerSector = 512 →
      1 ≤ file.fs.sectorsPerCluster.toNat → 3 ≤ file.startCluster.toNat → 0 ≤ size →
      FollowsLinks file buffer size := by
  intro h
  have hfollow := h (smallFile badLinkDisk 3 2048 1024) (fun _ => 0) 512 rfl (by decide)
    (by decide) (by decide)
  have hd : link (smallFs badLinkDisk) 3 = none := by decide
  have hp : chain (smallFs badLinkDisk) 3 0 = some 3 := rfl
  refine @not_followsLinks_of_access (smallFile badLinkDisk 3 2048 1024) _ _ _ _ hp hd ?_ hfollow
  rw [fat32Read_pos (by decide)]
  exact readClusters_far _ rfl (by decide) (by decide) hp hd (by decide) _ _ rfl
    (by rw [readStart_remaining]; decide) (by decide)

theorem followsLinks_iff_stops_bad_link :
    ¬ FollowsLinks (smallFile badLinkDisk 3 2048 1024) (fun _ => 0) 512 := by
  rw [followsLinks_iff_stops (fun _ => 0) rfl (by decide) (by decide) (by decide)]
  rintro (h | h)
  · exact absurd h (by decide)
  · exact absurd (h.far 0 3 rfl (by decide) (by decide)) (by decide)

end BeagleKernel.Fat32
