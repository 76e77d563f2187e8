import BeagleKernel.Proofs.Coded

/-!
# What a read reads

A read of a file looks up the clusters of its walk before the one it is for, and reads the sectors
of that one that are wanted (`mem_fat32Read`). Reads of one byte get to each of them
(`fat32Read_looks_up`, `fat32Read_reads`).
-/

namespace BeagleKernel.Fat32

variable (fs : Fat32Fs)

/-- An access of a read in a file of `size` bytes: the lookup of the `k`-th cluster of its walk, or
the `i`-th sector of that cluster. -/
inductive ReadsFile (start : UInt32) (size : ℕ) : Access → Prop
  | entry {k : ℕ} : (codedCluster fs start (k + 1)).isSome → (k + 1) * clusterBytes fs < size →
      ReadsFile start size
        (.fat k ((nextCode fs)^[k] start) (fatSector fs ((nextCode fs)^[k] start)))
  | sector {k : ℕ} {c : UInt32} {i : ℕ} : codedCluster fs start k = some c →
      0 ≤ clusterToSector fs c → i < fs.sectorsPerCluster.toNat →
      k * clusterBytes fs + fat32SectorSize * i < size →
      ReadsFile start size (.data k c (clusterStart fs c + UInt32.ofNat i))

variable {fs} {a : Access} {start index : UInt32}

/-! ## The walk -/

theorem codedCluster_succ_isSome {k : ℕ} : (codedCluster fs start (k + 1)).isSome ↔
    3 ≤ start.toNat ∧ ∀ m < k, (nextCode fs)^[m + 1] start ≠ fat32EocMarker := by
  unfold codedCluster
  rw [Nat.add_sub_cancel]
  split_ifs with h
  · exact iff_of_true rfl h
  · exact iff_of_false (by simp) h

theorem mem_clusterAtIndexLoop : ∀ {left : ℕ} {i c : UInt32}, i.toNat + left = index.toNat →
    (a ∈ (clusterAtIndexLoop fs index left i c).log ↔
      ∃ m < left, (∀ j < m, (nextCode fs)^[j + 1] c ≠ fat32EocMarker) ∧
        a = .fat (i.toNat + m) ((nextCode fs)^[m] c) (fatSector fs ((nextCode fs)^[m] c)))
  | 0, i, c, _ => by simp [clusterAtIndexLoop]
  | left + 1, i, c, hi => by
    have hlt := index.toNat_lt
    have hi1 : (i + 1).toNat = i.toNat + 1 := UInt32.toNat_add_of_lt (by simp; omega)
    have hm1 : (index - 1).toNat = index.toNat - 1 :=
      UInt32.toNat_sub_of_toNat_le (by simp; omega)
    have hlast : i < index - 1 ↔ 0 < left := by
      rw [UInt32.lt_iff_toNat_lt, hm1]
      omega
    have ih := @mem_clusterAtIndexLoop left (i + 1) (nextCode fs c) (by omega)
    rw [clusterAtIndexLoop, fat32GetNextCluster_eq, Traced.log_bind_of_ok rfl]
    simp only [hlast, List.singleton_append, List.mem_cons]
    constructor
    · rintro (rfl | h)
      · exact ⟨0, Nat.succ_pos _, by simp, rfl⟩
      · split_ifs at h with hstop
        · simp at h
        obtain ⟨m, hm, hne, rfl⟩ := ih.1 h
        refine ⟨m + 1, Nat.succ_lt_succ hm, ?_, ?_⟩
        · rintro (_ | j) hj
          · exact fun he => hstop ⟨he, by omega⟩
          · exact hne j (Nat.lt_of_succ_lt_succ hj)
        · rw [hi1, Nat.add_right_comm]
          rfl
    · rintro ⟨_ | m, hm, hne, rfl⟩
      · exact .inl rfl
      · have hgo : ¬ (nextCode fs c = fat32EocMarker ∧ 0 < left) :=
          fun h => hne 0 (Nat.succ_pos _) h.1
        rw [if_neg hgo]
        refine .inr (ih.2 ⟨m, Nat.lt_of_succ_lt_succ hm, fun j hj => hne (j + 1) (by omega), ?_⟩)
        rw [hi1, Nat.add_right_comm]
        rfl

theorem mem_getClusterAtIndex : a ∈ (getClusterAtIndex fs start index).log ↔
    ∃ m < index.toNat, (codedCluster fs start (m + 1)).isSome ∧
      a = .fat m ((nextCode fs)^[m] start) (fatSector fs ((nextCode fs)^[m] start)) := by
  by_cases hstart : 3 ≤ start.toNat
  · rw [getClusterAtIndex_loop fs hstart, mem_clusterAtIndexLoop (Nat.zero_add _)]
    simp only [codedCluster_succ_isSome, hstart, true_and, UInt32.toNat_zero, Nat.zero_add]
  · have hle : start ≤ 2 := by
      rw [UInt32.le_iff_toNat_le]
      simp only [UInt32.reduceToNat]
      omega
    unfold getClusterAtIndex
    rw [if_pos hle]
    simp only [codedCluster_succ_isSome, hstart, false_and, and_false, exists_false, iff_false]
    simp

/-! ## A round -/

section Round

variable (hbps : fs.bytesPerSector = 512)

include hbps

theorem mem_readSectors {pos : ℕ} {c start : UInt32} :
    ∀ {fuel s : ℕ} {offset toRead : UInt32} {st : ReadState}, offset.toNat < fat32SectorSize →
      a ∈ (readSectors fs pos c start fuel (start + UInt32.ofNat s) offset toRead st).log →
      ∃ i, fat32SectorSize * i < fat32SectorSize * s + offset.toNat + toRead.toNat ∧
        a = .data pos c (start + UInt32.ofNat i)
  | 0, _, _, _, _, _, h => by simp [readSectors] at h
  | fuel + 1, s, offset, toRead, st, hoff, h => by
    rw [readSectors] at h
    by_cases h0 : toRead = 0
    · simp [h0] at h
    rw [if_neg h0] at h
    have hpos := UInt32.ne_zero_iff.1 h0
    simp only [Fat32Fs.readSector, Traced.event_bind, Access.sector, List.mem_cons] at h
    rcases h with rfl | h
    · exact ⟨s, by omega, rfl⟩
    rcases hr : fs.disk.readSector (start + UInt32.ofNat s) with _ | src
    · simp [hr] at h
    simp only [hr] at h
    set n : UInt32 := if toRead < fs.bytesPerSector.toUInt32 - offset then toRead
      else fs.bytesPerSector.toUInt32 - offset with hn
    have hnNat : n.toNat = min toRead.toNat (fat32SectorSize - offset.toNat) := by
      rw [hn, UInt32.min_toNat, UInt32.toNat_sub_of_toNat_le, hbps]
      · rfl
      · rw [hbps]
        exact hoff.le
    have hleft : (toRead - n).toNat = toRead.toNat - n.toNat :=
      UInt32.toNat_sub_of_toNat_le (by omega)
    rcases Traced.mem_log_bind.1 h with h | ⟨st₁, -, h⟩
    · unfold copyBytes at h
      split_ifs at h <;> simp at h
    split_ifs at h
    · simp at h
    rw [UInt32.add_assoc, show UInt32.ofNat s + 1 = UInt32.ofNat (s + 1) from
      (UInt32.ofNat_add s 1).symm] at h
    have hzero : ¬ toRead - n = 0 := by
      intro hz
      rw [hz] at h
      cases fuel <;> simp [readSectors] at h
    have hleft0 := UInt32.ne_zero_iff.1 hzero
    obtain ⟨i, hi, rfl⟩ := mem_readSectors (by decide) h
    refine ⟨i, ?_, rfl⟩
    rw [UInt32.toNat_zero, Nat.mul_succ] at hi
    omega

variable (hspc : 1 ≤ fs.sectorsPerCluster.toNat) {st : ReadState}

include hspc

theorem mem_readCluster {c : UInt32} (h : 0 ≤ clusterToSector fs c) (hb : Bounded st)
    (hrem : 0 < st.remaining.toNat) (idx : UInt32)
    (ha : a ∈ (readCluster fs (clusterSizeOf fs) (st.file.fileOffset % clusterSizeOf fs) idx c
      st).log) :
    ∃ i < fs.sectorsPerCluster.toNat,
      fat32SectorSize * i < st.file.fileOffset.toNat % clusterBytes fs + st.remaining.toNat ∧
      a = .data idx.toNat c (clusterStart fs c + UInt32.ofNat i) := by
  obtain ⟨-, -, -, -, -, hdata, -, -⟩ := readCluster_spec fs hbps hspc h hb hrem idx
  obtain ⟨sector, rfl⟩ := hdata a ha
  obtain ⟨offset, toRead, hto, hoff, hrun⟩ := readCluster_eq fs hbps hspc st h idx
  set q := st.file.fileOffset.toNat % clusterBytes fs with hq
  have hlt : q < clusterBytes fs := Nat.mod_lt _ (clusterBytes_pos fs hspc)
  have hwant : wanted fs st ≤ st.remaining.toNat ∧ wanted fs st ≤ clusterBytes fs - q :=
    ⟨min_le_left _ _, min_le_right _ _⟩
  have hdm := Nat.div_add_mod q fat32SectorSize
  rw [hrun] at ha
  rcases Traced.mem_log_bind.1 ha with ha | ⟨flow, -, ha⟩
  · obtain ⟨i, hi, heq⟩ := mem_readSectors hbps
      (by rw [hoff]; exact Nat.mod_lt _ (by decide)) ha
    rw [hoff, hto, hdm] at hi
    have hcb : clusterBytes fs = fat32SectorSize * fs.sectorsPerCluster.toNat := rfl
    refine ⟨i, ?_, by omega, heq⟩
    exact Nat.lt_of_mul_lt_mul_left (show fat32SectorSize * i < _ by rw [← hcb]; omega)
  · -- the end of a round reads no data
    rcases flow with ⟨left, st'⟩ | r
    · simp only [finishCluster] at ha
      split_ifs at ha
      · rw [fat32GetNextCluster_eq] at ha
        rcases Traced.mem_log_bind.1 ha with ha | ⟨next, -, ha⟩
        · simp at ha
        · split_ifs at ha <;> simp at ha
      · simp at ha
    · simp [finishCluster] at ha

theorem readRound_reads {size : ℕ} (hb : Bounded st) (hrem : 0 < st.remaining.toNat)
    (hst : st.file.startCluster = start)
    (hsize : st.file.fileOffset.toNat + st.remaining.toNat ≤ size) :
    (∀ a ∈ (readRound fs (clusterSizeOf fs) st).log, ReadsFile fs start size a) ∧
      ∀ st', (readRound fs (clusterSizeOf fs) st).val = .ok (.next st') →
        ∃ m, Advanced st st' m := by
  have hdm := Nat.div_add_mod' st.file.fileOffset.toNat (clusterBytes fs)
  have hidx : (st.file.fileOffset / clusterSizeOf fs).toNat =
      st.file.fileOffset.toNat / clusterBytes fs := by
    rw [UInt32.toNat_div, clusterSizeOf_toNat fs hbps]
  have hwalk : ∀ a ∈ (getClusterAtIndex fs start (st.file.fileOffset / clusterSizeOf fs)).log,
      ReadsFile fs start size a := by
    intro a ha
    obtain ⟨m, hm, hsome, rfl⟩ := mem_getClusterAtIndex.1 ha
    refine .entry hsome ?_
    have : (m + 1) * clusterBytes fs ≤
        st.file.fileOffset.toNat / clusterBytes fs * clusterBytes fs :=
      Nat.mul_le_mul_right _ (by omega)
    omega
  rcases hc : codedCluster fs start (st.file.fileOffset / clusterSizeOf fs).toNat with _ | c
  · obtain ⟨e, -, hget⟩ := getClusterAtIndex_coded_none fs hc
    have hround := @readRound_error fs hbps hspc st e
      (getClusterAtIndex fs start (st.file.fileOffset / clusterSizeOf fs)).log (by
        rw [hst, ← hget])
    rw [hround]
    exact ⟨hwalk, fun st' h => by cases h⟩
  have hget := getClusterAtIndex_coded_some fs hc
  have hround := @readRound_ok fs hbps hspc st c
    (getClusterAtIndex fs start (st.file.fileOffset / clusterSizeOf fs)).log (by
      rw [hst, ← hget])
  rw [hround]
  by_cases hrej : clusterToSector fs c < 0
  · rw [readCluster_reject fs hrej]
    refine ⟨fun a ha => hwalk a ?_, fun st' h => by cases h⟩
    simpa using ha
  have hacc := Int32.not_lt.1 hrej
  constructor
  · intro a ha
    rcases List.mem_append.1 ha with ha | ha
    · exact hwalk a ha
    · obtain ⟨i, hi, hlt, rfl⟩ := mem_readCluster hbps hspc hacc hb hrem _ ha
      refine .sector hc hacc hi ?_
      rw [hidx]
      omega
  · intro st' h
    obtain ⟨m, st₁, -, hadv, -, -, -, hres⟩ := readCluster_spec fs hbps hspc hacc hb hrem
      (st.file.fileOffset / clusterSizeOf fs)
    rcases hres with ⟨-, hv⟩ | ⟨-, -, hv⟩
    · rw [hv] at h
      cases h
      exact ⟨m, hadv⟩
    · rw [hv] at h
      cases h

theorem mem_readClusters {size : ℕ} : ∀ {fuel : ℕ} {st : ReadState},
    Bounded st → st.file.startCluster = start →
    st.file.fileOffset.toNat + st.remaining.toNat ≤ size →
    a ∈ (readClusters fs (clusterSizeOf fs) fuel st).log → ReadsFile fs start size a
  | 0, _, _, _, _, h => by simp [readClusters] at h
  | fuel + 1, st, hb, hst, hsize, h => by
    rcases Nat.eq_zero_or_pos st.remaining.toNat with h0 | hrem
    · rw [readClusters_done h0] at h
      simp at h
    obtain ⟨hlog, hnext⟩ := readRound_reads hbps hspc hb hrem hst hsize
    rw [readClusters, if_neg (UInt32.ne_zero_iff.2 hrem)] at h
    rcases Traced.mem_log_bind.1 h with h | ⟨st' | r, hv, h⟩
    · exact hlog a h
    · obtain ⟨m, hadv⟩ := hnext st' hv
      have hrem' := hadv.remaining
      exact mem_readClusters (hadv.bounded hb) (by rw [hadv.startCluster_eq, hst])
        (by rw [hadv.fileOffset]; omega) h
    · simp at h

end Round

/-! ## `fat32_read` -/

section Read

variable {file : Fat32File} (hbps : file.fs.bytesPerSector = 512)
  (hspc : 1 ≤ file.fs.sectorsPerCluster.toNat)

include hbps hspc

theorem mem_fat32Read {buffer : ℕ → UInt8} {size : Int32}
    (h : a ∈ (fat32Read file buffer size).log) :
    ReadsFile file.fs file.startCluster file.fileSize.toNat a := by
  rcases Nat.eq_zero_or_pos (readSize file size) with h0 | hpos
  · rw [fat32Read_zero h0] at h
    simp at h
  · rw [fat32Read_pos hpos] at h
    refine mem_readClusters hbps hspc (readStart_bounded file buffer size hpos) rfl ?_ h
    rw [readStart_remaining]
    have : readSize file size ≤ file.fileSize.toNat - file.fileOffset.toNat := min_le_right _ _
    show file.fileOffset.toNat + _ ≤ _
    have : file.fileOffset.toNat < file.fileSize.toNat := by
      have := (Nat.lt_min.1 hpos).2
      omega
    omega

omit hbps hspc in
theorem readRound_subset {offset : ℕ} (hoff : offset < file.fileSize.toNat)
    (buffer : ℕ → UInt8) :
    (readRound file.fs (clusterSizeOf file.fs)
      (readStart { file with fileOffset := UInt32.ofNat offset } buffer 1)).log ⊆
      (fat32Read { file with fileOffset := UInt32.ofNat offset } buffer 1).log := by
  have hlt := file.fileSize.toNat_lt
  have hsize : readSize { file with fileOffset := UInt32.ofNat offset } 1 = 1 := by
    have h1 : (1 : Int32).toUInt32.toNat = 1 := rfl
    unfold readSize
    rw [h1, UInt32.toNat_ofNat_lt (by omega)]
    simp only []
    omega
  have hrem := readStart_remaining { file with fileOffset := UInt32.ofNat offset } buffer 1
  rw [fat32Read_pos (by omega), readClusters, if_neg (UInt32.ne_zero_iff.2 (by omega))]
  exact fun a ha => Traced.mem_log_bind.2 (.inl ha)

theorem ReadsFile.read (h : ReadsFile file.fs file.startCluster file.fileSize.toNat a) :
    ∃ offset, ∀ buffer, a ∈ (fat32Read { file with fileOffset := offset } buffer 1).log := by
  have hpos := clusterBytes_pos file.fs hspc
  have hlt := file.fileSize.toNat_lt
  have hidx : ∀ offset < file.fileSize.toNat,
      (UInt32.ofNat offset / clusterSizeOf file.fs).toNat = offset / clusterBytes file.fs := by
    intro offset ho
    rw [UInt32.toNat_div, clusterSizeOf_toNat file.fs hbps, UInt32.toNat_ofNat_lt (by omega)]
  cases h with
  | @entry k hsome hk =>
    refine ⟨UInt32.ofNat ((k + 1) * clusterBytes file.fs), fun buffer => ?_⟩
    refine readRound_subset hk buffer ?_
    have hcs := clusterSizeOf_pos file.fs hbps hspc
    unfold readRound
    rw [umod_of_pos hcs, Traced.pure_bind, udiv_of_pos hcs, Traced.pure_bind]
    refine Traced.mem_log_bind.2 (.inl (mem_getClusterAtIndex.2 ⟨k, ?_, hsome, rfl⟩))
    show k < (UInt32.ofNat ((k + 1) * clusterBytes file.fs) / clusterSizeOf file.fs).toNat
    rw [hidx _ hk, Nat.mul_div_cancel _ hpos]
    exact Nat.lt_succ_self k
  | @sector k c i hc hacc hi hk =>
    set o := k * clusterBytes file.fs + fat32SectorSize * i with ho
    have hcb : clusterBytes file.fs = fat32SectorSize * file.fs.sectorsPerCluster.toNat := rfl
    have hin : fat32SectorSize * i < clusterBytes file.fs := by
      rw [hcb]
      exact Nat.mul_lt_mul_of_pos_left hi (by decide)
    have hdiv : o / clusterBytes file.fs = k := by
      rw [ho, Nat.mul_comm, Nat.mul_add_div hpos, Nat.div_eq_of_lt hin, Nat.add_zero]
    have hmod : o % clusterBytes file.fs = fat32SectorSize * i := by
      rw [ho, Nat.mul_comm, Nat.mul_add_mod, Nat.mod_eq_of_lt hin]
    refine ⟨UInt32.ofNat o, fun buffer => readRound_subset hk buffer ?_⟩
    set st := readStart { file with fileOffset := UInt32.ofNat o } buffer 1 with hst
    have hoff : st.file.fileOffset.toNat = o := UInt32.toNat_ofNat_lt (by omega)
    have hk' : (st.file.fileOffset / clusterSizeOf file.fs).toNat = k := by
      rw [← hdiv]
      exact hidx o hk
    have hrem : 0 < st.remaining.toNat := by
      rw [hst, readStart_remaining]
      refine lt_min (by decide) ?_
      show 0 < file.fileSize.toNat - st.file.fileOffset.toNat
      omega
    rw [← hk'] at hc ⊢
    have hget := getClusterAtIndex_coded_some file.fs hc
    rw [@readRound_ok file.fs hbps hspc st c
      (getClusterAtIndex file.fs file.startCluster (st.file.fileOffset / clusterSizeOf file.fs)).log
      (by rw [← hget]; rfl)]
    refine List.mem_append_right _ ?_
    obtain ⟨offset, toRead, hto, -, hrun⟩ := readCluster_eq file.fs hbps hspc st hacc
      (st.file.fileOffset / clusterSizeOf file.fs)
    have hne : toRead ≠ 0 := by
      rw [UInt32.ne_zero_iff, hto]
      exact lt_min hrem (by rw [hoff, hmod]; omega)
    rw [hrun, hoff, hmod, Nat.mul_div_cancel_left _ (by decide)]
    exact Traced.mem_log_bind.2 (.inl (readSectors_first _ _ _ _ _ _ _ _ hne))

end Read

end BeagleKernel.Fat32
