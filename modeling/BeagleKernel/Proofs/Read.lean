import BeagleKernel.Proofs.Chain

/-!
# A read in rounds

A round of `fat32_read` advances the handle, the caller's buffer and the counts together
(`Advanced`), by all that is wanted of a cluster or up to the first sector that cannot be read.
-/

namespace BeagleKernel.Fat32

variable (fs : Fat32Fs)

/-- The counts of a read leave room for what remains. -/
structure Bounded (st : ReadState) : Prop where
  bytesRead : st.bytesRead.toNat + st.remaining.toNat < 2 ^ 32
  fileOffset : st.file.fileOffset.toNat + st.remaining.toNat < 2 ^ 32

/-- `st'` is `st` after `m` more bytes. -/
structure Advanced (st st' : ReadState) (m : ℕ) : Prop where
  file : st'.file = { st.file with
    fileOffset := st'.file.fileOffset, currentCluster := st'.file.currentCluster }
  fileOffset : st'.file.fileOffset.toNat = st.file.fileOffset.toNat + m
  bytesRead : st'.bytesRead.toNat = st.bytesRead.toNat + m
  remaining : st'.remaining.toNat + m = st.remaining.toNat
  outside : ∀ j, ¬ (st.bytesRead.toNat ≤ j ∧ j < st.bytesRead.toNat + m) →
    st'.buffer j = st.buffer j

theorem Advanced.refl (st : ReadState) : Advanced st st 0 where
  file := rfl
  fileOffset := rfl
  bytesRead := rfl
  remaining := rfl
  outside _ _ := rfl

theorem Advanced.trans {st st' st'' : ReadState} {m n : ℕ} (h : Advanced st st' m)
    (h' : Advanced st' st'' n) : Advanced st st'' (m + n) where
  file := by
    rw [h'.file, h.file]
  fileOffset := by
    rw [h'.fileOffset, h.fileOffset, Nat.add_assoc]
  bytesRead := by
    rw [h'.bytesRead, h.bytesRead, Nat.add_assoc]
  remaining := by
    rw [← h.remaining, ← h'.remaining]
    omega
  outside j hj := by
    rw [h'.outside j (by rw [h.bytesRead]; omega), h.outside j (by omega)]

theorem Advanced.bounded {st st' : ReadState} {m : ℕ} (h : Advanced st st' m)
    (hb : Bounded st) : Bounded st' where
  bytesRead := by
    have := hb.bytesRead
    have := h.remaining
    rw [h.bytesRead]
    omega
  fileOffset := by
    have := hb.fileOffset
    have := h.remaining
    rw [h.fileOffset]
    omega

theorem Advanced.startCluster_eq {st st' : ReadState} {m : ℕ} (h : Advanced st st' m) :
    st'.file.startCluster = st.file.startCluster := by
  rw [h.file]

/-- The bytes a read takes from `st` to `st'` are those of `bytes`, by their offset in the
file. -/
def Delivers (bytes : ℕ → Option UInt8) (st st' : ReadState) (m : ℕ) : Prop :=
  ∀ j < m, bytes (st.file.fileOffset.toNat + j) = some (st'.buffer (st.bytesRead.toNat + j))

theorem Delivers.trans {bytes : ℕ → Option UInt8} {st st' st'' : ReadState} {m n : ℕ}
    (h : Delivers bytes st st' m) (ha : Advanced st st' m) (h' : Delivers bytes st' st'' n)
    (ha' : Advanced st' st'' n) : Delivers bytes st st'' (m + n) := by
  intro j hj
  by_cases hm : j < m
  · rw [h j hm, ha'.outside _ (by rw [ha.bytesRead]; omega)]
  · have := h' (j - m) (by omega)
    rw [ha.fileOffset, ha.bytesRead] at this
    rw [show st.file.fileOffset.toNat + j = st.file.fileOffset.toNat + m + (j - m) by omega, this,
      show st.bytesRead.toNat + m + (j - m) = st.bytesRead.toNat + j by omega]

theorem copyBytes_spec (src : Sector) {offset n : UInt32} {st : ReadState}
    (hfit : offset.toNat + n.toNat ≤ fat32SectorSize) (hn : n.toNat ≤ st.remaining.toNat)
    (hb : Bounded st) :
    ∃ st', copyBytes src offset n st = pure st' ∧ Advanced st st' n.toNat ∧
      st'.file.currentCluster = st.file.currentCluster ∧
      ∀ j < n.toNat, st'.buffer (st.bytesRead.toNat + j) = src.byte (offset.toNat + j) := by
  have h1 := hb.bytesRead
  have h2 := hb.fileOffset
  unfold copyBytes
  rw [if_pos hfit]
  refine ⟨_, rfl, ⟨rfl, UInt32.toNat_add_of_lt (by omega), UInt32.toNat_add_of_lt (by omega), ?_,
    ?_⟩, rfl, ?_⟩
  · simp only []
    rw [UInt32.toNat_sub_of_toNat_le hn]
    omega
  · intro j hj
    simp only [blit]
    rw [if_neg hj]
  · intro j hj
    simp only [blit]
    rw [if_pos (by omega), Nat.add_sub_cancel_left]

/-- What `fat32_read` returns where a sector cannot be read. -/
def shortCount (st : ReadState) : Int32 :=
  if st.bytesRead > 0 then st.bytesRead.toInt32 else fat32ErrorIo

/-- How the sectors of a cluster are read, `toRead` bytes of it from byte `q` on: all of them, or
those before the first that cannot be read. -/
def SectorsRead (pos : ℕ) (cluster start : UInt32) (q toRead : ℕ) (st : ReadState)
    (x : Prog (Flow (UInt32 × ReadState) (Int32 × ReadState))) : Prop :=
  ∃ m st', m ≤ toRead ∧ Advanced st st' m ∧ st'.file.currentCluster = st.file.currentCluster ∧
    (∀ j < m, sectorByte fs start (q + j) = some (st'.buffer (st.bytesRead.toNat + j))) ∧
    (∀ a ∈ x.log, ∃ s, a = .data pos cluster s) ∧
    ((m = toRead ∧ x.val = .ok (.next (0, st'))) ∨
      (m < toRead ∧ sectorByte fs start (q + m) = none ∧
        x.val = .ok (.ret (shortCount st', st'))))

theorem sectorByte_of_lt {start : UInt32} {s i j : ℕ} (h : i + j < fat32SectorSize) :
    sectorByte fs start (s * fat32SectorSize + i + j) =
      (fs.disk.readSector (start + UInt32.ofNat s)).map fun b => b.byte (i + j) := by
  unfold sectorByte
  rw [show (s * fat32SectorSize + i + j) / fat32SectorSize = s by
      simp only [fat32SectorSize] at h ⊢; omega,
    show (s * fat32SectorSize + i + j) % fat32SectorSize = i + j by
      simp only [fat32SectorSize] at h ⊢; omega]

theorem readSectors_spec (hbps : fs.bytesPerSector = 512) (pos : ℕ) (cluster start : UInt32)
    (fuel s : ℕ) (offset toRead : UInt32) (st : ReadState) (hf : toRead.toNat < fuel)
    (hoff : offset.toNat < fat32SectorSize)
    (hfit : s * fat32SectorSize + offset.toNat + toRead.toNat ≤ clusterBytes fs)
    (hb : Bounded st) (hrem : toRead.toNat ≤ st.remaining.toNat) :
    SectorsRead fs pos cluster start (s * fat32SectorSize + offset.toNat) toRead.toNat st
      (readSectors fs pos cluster start fuel (start + UInt32.ofNat s) offset toRead st) := by
  induction fuel generalizing s offset toRead st with
  | zero => omega
  | succ fuel ih =>
    rw [readSectors]
    by_cases h0 : toRead = 0
    · rw [if_pos h0]
      subst h0
      exact ⟨0, st, le_rfl, .refl st, rfl, fun j hj => by omega, fun a ha => by simp at ha,
        .inl ⟨rfl, rfl⟩⟩
    rw [if_neg h0]
    have hpos := UInt32.ne_zero_iff.1 h0
    rcases hr : fs.disk.readSector (start + UInt32.ofNat s) with _ | src
    · refine ⟨0, st, Nat.zero_le _, .refl st, rfl, fun j hj => by omega, ?_, .inr ⟨hpos, ?_, ?_⟩⟩
      · intro a ha
        simp only [Fat32Fs.readSector, Traced.event_bind, Access.sector, hr, List.mem_cons] at ha
        rcases ha with rfl | ha
        · exact ⟨_, rfl⟩
        · simp at ha
      · rw [sectorByte_of_lt fs hoff, hr]
        rfl
      · simp only [Fat32Fs.readSector, Traced.event_bind, Access.sector, hr]
        rfl
    -- the bytes of this sector, and the rest
    set n : UInt32 := if toRead < fs.bytesPerSector.toUInt32 - offset then toRead
      else fs.bytesPerSector.toUInt32 - offset with hn
    have hnNat : n.toNat = min toRead.toNat (fat32SectorSize - offset.toNat) := by
      rw [hn, UInt32.min_toNat, UInt32.toNat_sub_of_toNat_le, hbps]
      · rfl
      · rw [hbps]
        exact hoff.le
    simp only [fat32SectorSize] at hoff hfit
    replace hnNat : n.toNat ≤ toRead.toNat ∧ n.toNat + offset.toNat ≤ 512 ∧
        (n.toNat = toRead.toNat ∨ n.toNat + offset.toNat = 512) := by
      simp only [fat32SectorSize] at hnNat
      omega
    obtain ⟨st₁, hcopy, hadv, hcur, hbytes⟩ := copyBytes_spec src
      (show offset.toNat + n.toNat ≤ fat32SectorSize by simp only [fat32SectorSize]; omega)
      (by omega) hb
    have hfirst : ∀ j < n.toNat, sectorByte fs start (s * 512 + offset.toNat + j)
        = some (st₁.buffer (st.bytesRead.toNat + j)) := by
      intro j hj
      rw [hbytes j hj, show s * 512 = s * fat32SectorSize from rfl,
        sectorByte_of_lt fs (by simp only [fat32SectorSize]; omega), hr]
      rfl
    have hleft : (toRead - n).toNat = toRead.toNat - n.toNat :=
      UInt32.toNat_sub_of_toNat_le (by omega)
    simp only [Fat32Fs.readSector, Traced.event_bind, Access.sector, hr, ← hn, hcopy,
      Traced.pure_bind]
    clear_value n
    have hidx : start + UInt32.ofNat s + 1 - start = UInt32.ofNat (s + 1) := by
      rw [UInt32.add_assoc, UInt32.add_comm start, UInt32.add_sub_cancel, UInt32.ofNat_add]
      rfl
    have hspc := fs.sectorsPerCluster.toNat_lt
    have hcb : clusterBytes fs = 512 * fs.sectorsPerCluster.toNat := rfl
    have hlast : UInt32.ofNat (s + 1) ≥ fs.sectorsPerCluster.toUInt32 ↔
        fs.sectorsPerCluster.toNat ≤ s + 1 := by
      rw [ge_iff_le, UInt32.le_iff_toNat_le, UInt32.toNat_ofNat_lt (by omega),
        UInt8.toNat_toUInt32]
    rw [hidx]
    by_cases hend : fs.sectorsPerCluster.toNat ≤ s + 1
    · rw [if_pos (hlast.2 hend)]
      have hall : n.toNat = toRead.toNat := by omega
      refine ⟨n.toNat, st₁, by omega, hadv, hcur, hfirst, ?_, .inl ⟨hall, ?_⟩⟩
      · intro a ha
        rcases List.mem_cons.1 ha with rfl | ha
        · exact ⟨_, rfl⟩
        · simp at ha
      · have hz : toRead - n = 0 := UInt32.toNat_inj.1 (by rw [hleft, UInt32.toNat_zero]; omega)
        rw [Traced.val_pure, hz]
    · rw [if_neg (fun h => hend (hlast.1 h)), UInt32.add_assoc, show UInt32.ofNat s + 1 =
        UInt32.ofNat (s + 1) from (UInt32.ofNat_add s 1).symm]
      have hfit' : (s + 1) * fat32SectorSize + (0 : UInt32).toNat + (toRead - n).toNat
          ≤ clusterBytes fs := by
        rw [UInt32.toNat_zero, Nat.add_zero, hleft, hcb]
        simp only [fat32SectorSize]
        omega
      obtain ⟨m, st₂, hm, hadv₂, hcur₂, hrest, hlog, hres⟩ := ih (s + 1) 0 (toRead - n) st₁
        (by omega) (by decide) hfit'
        (hadv.bounded hb) (by have := hadv.remaining; omega)
      have hq : ∀ j, n.toNat + j < toRead.toNat →
          (s + 1) * fat32SectorSize + (0 : UInt32).toNat + j =
            s * 512 + offset.toNat + (n.toNat + j) := by
        intro j hj
        rw [UInt32.toNat_zero, Nat.add_zero]
        simp only [fat32SectorSize]
        omega
      refine ⟨n.toNat + m, st₂, by omega, hadv.trans hadv₂, hcur₂.trans hcur, ?_, ?_, ?_⟩
      · intro j hj
        by_cases hjn : j < n.toNat
        · rw [show s * fat32SectorSize = s * 512 from rfl, hfirst j hjn,
            hadv₂.outside _ (by rw [hadv.bytesRead]; omega)]
        · have := hrest (j - n.toNat) (by omega)
          rw [hq _ (by omega), hadv.bytesRead] at this
          rw [show s * fat32SectorSize = s * 512 from rfl,
            show j = n.toNat + (j - n.toNat) by omega, this, Nat.add_assoc]
      · intro a ha
        rcases List.mem_cons.1 ha with rfl | ha
        · exact ⟨_, rfl⟩
        · exact hlog a ha
      · rcases hres with ⟨hm', hv⟩ | ⟨hm', hnone, hv⟩
        · exact .inl ⟨by omega, hv⟩
        · refine .inr ⟨by omega, ?_, hv⟩
          rw [← hnone, hq m (by omega)]

theorem readSectors_first (pos : ℕ) (cluster start sector offset : UInt32) (fuel : ℕ)
    (st : ReadState) {toRead : UInt32} (h : toRead ≠ 0) :
    .data pos cluster sector ∈
      (readSectors fs pos cluster start (fuel + 1) sector offset toRead st).log := by
  rw [readSectors, if_neg h, Fat32Fs.readSector, Traced.event_bind]
  exact List.mem_cons_self

/-! ## A round -/

theorem udiv_of_pos {a b : UInt32} (h : 0 < b.toNat) : udiv a b = pure (a / b) := by
  unfold udiv
  rw [if_neg (UInt32.ne_zero_iff.2 h)]

theorem umod_of_pos {a b : UInt32} (h : 0 < b.toNat) : umod a b = pure (a % b) := by
  unfold umod
  rw [if_neg (UInt32.ne_zero_iff.2 h)]

theorem clusterToSector_nonneg {c : UInt32} (h : 0 ≤ clusterToSector fs c) :
    clusterToSector fs c = (clusterStart fs c).toInt32 := by
  unfold clusterToSector at h ⊢
  split_ifs at h ⊢
  · exact absurd h (by decide)
  · rfl

/-- `cluster_size`. -/
def clusterSizeOf : UInt32 := fs.bytesPerSector.toUInt32 * fs.sectorsPerCluster.toUInt32

theorem clusterSizeOf_toNat (hbps : fs.bytesPerSector = 512) :
    (clusterSizeOf fs).toNat = clusterBytes fs := by
  have := fs.sectorsPerCluster.toNat_lt
  have h : (512 : UInt16).toUInt32.toNat = 512 := rfl
  unfold clusterSizeOf clusterBytes
  rw [hbps, UInt32.toNat_mul_of_lt, h, UInt8.toNat_toUInt32]
  rw [h, UInt8.toNat_toUInt32]
  omega

/-- How many bytes of its cluster a round wants. -/
def wanted (st : ReadState) : ℕ :=
  min st.remaining.toNat (clusterBytes fs - st.file.fileOffset.toNat % clusterBytes fs)

/-- What a round does from its target cluster `c` on. -/
def ClusterRead (pos : ℕ) (c : UInt32) (st : ReadState)
    (x : Prog (Flow ReadState (Int32 × ReadState))) : Prop :=
  ∃ m st', m ≤ wanted fs st ∧ Advanced st st' m ∧
    (∀ j < m, clusterByte fs c (st.file.fileOffset.toNat % clusterBytes fs + j) =
      some (st'.buffer (st.bytesRead.toNat + j))) ∧
    (∀ a ∈ x.log, ∃ s, a = .data pos c s) ∧ (∃ s, .data pos c s ∈ x.log) ∧
    ((m = wanted fs st ∧ x.val = .ok (.next st')) ∨
      (m < wanted fs st ∧
        clusterByte fs c (st.file.fileOffset.toNat % clusterBytes fs + m) = none ∧
        x.val = .ok (.ret (shortCount st', st'))))

theorem clusterBytes_pos (hspc : 1 ≤ fs.sectorsPerCluster.toNat) : 0 < clusterBytes fs := by
  unfold clusterBytes
  simp only [fat32SectorSize]
  omega

section Round

variable (hbps : fs.bytesPerSector = 512) (hspc : 1 ≤ fs.sectorsPerCluster.toNat)
  {st : ReadState}

include hbps hspc

theorem clusterSizeOf_pos : 0 < (clusterSizeOf fs).toNat := by
  rw [clusterSizeOf_toNat fs hbps]
  exact clusterBytes_pos fs hspc

theorem readRound_error {e : Int32} {l : List Access}
    (h : getClusterAtIndex fs st.file.startCluster (st.file.fileOffset / clusterSizeOf fs) =
      ⟨.ok (.error e), l⟩) :
    readRound fs (clusterSizeOf fs) st =
      ⟨.ok (.ret (if st.bytesRead > 0 then st.bytesRead.toInt32 else e, st)), l⟩ := by
  have hcs := clusterSizeOf_pos fs hbps hspc
  unfold readRound
  rw [umod_of_pos hcs, Traced.pure_bind, udiv_of_pos hcs, Traced.pure_bind,
    Traced.bind_of_ok (by rw [h]), h]
  simp

theorem readRound_ok {c : UInt32} {l : List Access}
    (h : getClusterAtIndex fs st.file.startCluster (st.file.fileOffset / clusterSizeOf fs) =
      ⟨.ok (.ok c), l⟩) :
    readRound fs (clusterSizeOf fs) st =
      ⟨(readCluster fs (clusterSizeOf fs) (st.file.fileOffset % clusterSizeOf fs)
          (st.file.fileOffset / clusterSizeOf fs) c st).val,
        l ++ (readCluster fs (clusterSizeOf fs) (st.file.fileOffset % clusterSizeOf fs)
          (st.file.fileOffset / clusterSizeOf fs) c st).log⟩ := by
  have hcs := clusterSizeOf_pos fs hbps hspc
  unfold readRound
  rw [umod_of_pos hcs, Traced.pure_bind, udiv_of_pos hcs, Traced.pure_bind,
    Traced.bind_of_ok (by rw [h]), h]

omit hbps hspc in
theorem readCluster_reject {c clusterOffset clusterIndex : UInt32}
    (h : clusterToSector fs c < 0) :
    readCluster fs (clusterSizeOf fs) clusterOffset clusterIndex c st =
      pure (.ret (clusterToSector fs c, st)) := by
  simp only [readCluster]
  rw [if_pos h]

omit hbps hspc in
theorem finishCluster_next (idx c : UInt32) (st : ReadState) :
    finishCluster fs idx c (.next (0, st)) =
      pure (.next { st with file := { st.file with currentCluster := c } }) := rfl

omit hbps hspc in
theorem Advanced.setCurrent {st st' : ReadState} {m : ℕ} (h : Advanced st st' m) (c : UInt32) :
    Advanced st { st' with file := { st'.file with currentCluster := c } } m where
  file := by
    rw [h.file]
  fileOffset := h.fileOffset
  bytesRead := h.bytesRead
  remaining := h.remaining
  outside := h.outside

/-- A round reads what is wanted of its target cluster from the sector of its offset on. -/
theorem readCluster_eq (st : ReadState) {c : UInt32} (h : 0 ≤ clusterToSector fs c) (idx : UInt32) :
    ∃ offset toRead : UInt32, toRead.toNat = wanted fs st ∧
      offset.toNat = st.file.fileOffset.toNat % clusterBytes fs % fat32SectorSize ∧
      readCluster fs (clusterSizeOf fs) (st.file.fileOffset % clusterSizeOf fs) idx c st =
        readSectors fs idx.toNat c (clusterStart fs c) (toRead.toNat + 1)
          (clusterStart fs c +
            UInt32.ofNat (st.file.fileOffset.toNat % clusterBytes fs / fat32SectorSize))
          offset toRead st >>= finishCluster fs idx c := by
  have hcs := clusterSizeOf_toNat fs hbps
  have h512 : fs.bytesPerSector.toUInt32 = 512 := by rw [hbps]; rfl
  have hlt := Nat.mod_lt st.file.fileOffset.toNat (clusterBytes_pos fs hspc)
  have hcb : clusterBytes fs < 2 ^ 32 := by
    rw [← hcs]
    exact UInt32.toNat_lt _
  set q : UInt32 := st.file.fileOffset % clusterSizeOf fs with hq
  have hqNat : q.toNat = st.file.fileOffset.toNat % clusterBytes fs := by
    rw [hq, UInt32.toNat_mod, hcs]
  set toRead : UInt32 := if st.remaining < clusterSizeOf fs - q then st.remaining
    else clusterSizeOf fs - q with hto
  have hdiv : q / 512 = UInt32.ofNat (q.toNat / fat32SectorSize) := by
    rw [← UInt32.toNat_inj, UInt32.toNat_div,
      UInt32.toNat_ofNat_lt (by simp only [fat32SectorSize]; omega)]
    rfl
  refine ⟨q % 512, toRead, ?_, ?_, ?_⟩
  · rw [hto, UInt32.min_toNat, UInt32.toNat_sub_of_toNat_le (by omega), hcs, hqNat]
    rfl
  · rw [UInt32.toNat_mod, hqNat]
    rfl
  · rw [← hqNat]
    simp only [readCluster]
    rw [if_neg (Int32.not_lt.2 h), h512, umod_of_pos (by decide), Traced.pure_bind,
      udiv_of_pos (by decide), Traced.pure_bind, clusterToSector_nonneg fs h,
      UInt32.toUInt32_toInt32, ← hto, hdiv]

theorem readCluster_spec {c : UInt32} (h : 0 ≤ clusterToSector fs c) (hb : Bounded st)
    (hrem : 0 < st.remaining.toNat) (idx : UInt32) :
    ClusterRead fs idx.toNat c st (readCluster fs (clusterSizeOf fs)
      (st.file.fileOffset % clusterSizeOf fs) idx c st) := by
  obtain ⟨offset, toRead, hto, hoff, hrun⟩ := readCluster_eq fs hbps hspc st h idx
  set q := st.file.fileOffset.toNat % clusterBytes fs with hq
  have hlt : q < clusterBytes fs := Nat.mod_lt _ (clusterBytes_pos fs hspc)
  have hsplit : q / fat32SectorSize * fat32SectorSize + offset.toNat = q := by
    rw [hoff, Nat.div_add_mod']
  have hwant : wanted fs st ≤ st.remaining.toNat ∧ wanted fs st ≤ clusterBytes fs - q :=
    ⟨min_le_left _ _, min_le_right _ _⟩
  obtain ⟨m, st', hm, hadv, hcur, hbytes, hlog, hres⟩ := readSectors_spec fs hbps idx.toNat c
    (clusterStart fs c) (toRead.toNat + 1) (q / fat32SectorSize) offset toRead st (by omega)
    (by rw [hoff]; exact Nat.mod_lt _ (by decide)) (by rw [hsplit]; omega) hb (by omega)
  rw [hsplit] at hbytes hres
  rw [hto] at hm
  have hne : toRead ≠ 0 := by
    rw [UInt32.ne_zero_iff, hto]
    exact lt_min hrem (by omega)
  have hfirst := readSectors_first fs idx.toNat c (clusterStart fs c)
    (clusterStart fs c + UInt32.ofNat (q / fat32SectorSize)) offset toRead.toNat st hne
  rw [hrun]
  rcases hres with ⟨hm', hv⟩ | ⟨hm', hnone, hv⟩
  · refine ⟨m, _, hm, hadv.setCurrent c, hbytes, ?_, ?_, .inl ⟨hm'.trans hto, ?_⟩⟩
    · rw [Traced.log_bind_of_ok hv, finishCluster_next, Traced.log_pure, List.append_nil]
      exact hlog
    · rw [Traced.log_bind_of_ok hv]
      exact ⟨_, List.mem_append_left _ hfirst⟩
    · rw [Traced.val_bind_of_ok hv, finishCluster_next, Traced.val_pure]
  · refine ⟨m, st', hm, hadv, hbytes, ?_, ?_, .inr ⟨by omega, hnone, ?_⟩⟩
    · rw [Traced.log_bind_of_ok hv]
      simpa [finishCluster] using hlog
    · rw [Traced.log_bind_of_ok hv]
      exact ⟨_, List.mem_append_left _ hfirst⟩
    · rw [Traced.val_bind_of_ok hv]
      rfl

end Round

end BeagleKernel.Fat32
