import BeagleKernel.Proofs.ReadRun

/-!
# A read from any start

What a read delivers from a start cluster that heads no sound chain: the clusters of the walk as
`get_cluster_at_index` makes it, in which the code of a broken link is a cluster like any other
(`codedCluster`). On a sound chain that walk is the chain (`codedByte_of_clusters`).
-/

namespace BeagleKernel.Fat32

variable (fs : Fat32Fs)

/-- The target of a walk, where it has one: an end of chain stops it unless it is the last link. -/
def codedCluster (start : UInt32) (n : ℕ) : Option UInt32 :=
  if 3 ≤ start.toNat ∧ ∀ m < n - 1, (nextCode fs)^[m + 1] start ≠ fat32EocMarker then
    some ((nextCode fs)^[n] start)
  else none

/-- The `j`-th byte of a read from `start`. -/
def codedByte (start : UInt32) (j : ℕ) : Option UInt8 :=
  (codedCluster fs start (j / clusterBytes fs)).bind fun c =>
    if 0 ≤ clusterToSector fs c then clusterByte fs c (j % clusterBytes fs) else none

/-! ## The walk -/

theorem clusterAtIndexLoop_coded (index : UInt32) :
    ∀ {left : ℕ} {i c : UInt32}, i.toNat + left = index.toNat →
      ((∀ m < left - 1, (nextCode fs)^[m + 1] c ≠ fat32EocMarker) →
        (clusterAtIndexLoop fs index left i c).val = .ok (.ok ((nextCode fs)^[left] c))) ∧
      ((∃ m < left - 1, (nextCode fs)^[m + 1] c = fat32EocMarker) →
        (clusterAtIndexLoop fs index left i c).val = .ok (.error fat32ErrorCorruptedFs))
  | 0, i, c, _ => ⟨fun _ => rfl, by rintro ⟨m, hm, -⟩; omega⟩
  | left + 1, i, c, hi => by
    have hlt := index.toNat_lt
    have hi1 : (i + 1).toNat = i.toNat + 1 := UInt32.toNat_add_of_lt (by simp; omega)
    have hm1 : (index - 1).toNat = index.toNat - 1 :=
      UInt32.toNat_sub_of_toNat_le (by simp; omega)
    have hlast : i < index - 1 ↔ 0 < left := by
      rw [UInt32.lt_iff_toNat_lt, hm1]
      omega
    obtain ⟨ihok, iherr⟩ := @clusterAtIndexLoop_coded index left (i + 1)
      (nextCode fs c) (by omega)
    rw [clusterAtIndexLoop, fat32GetNextCluster_eq, Traced.val_bind_of_ok rfl]
    simp only [hlast]
    constructor
    · intro h
      have hne : ¬ (nextCode fs c = fat32EocMarker ∧ 0 < left) := fun h' =>
        h 0 (by omega) h'.1
      rw [if_neg hne]
      exact ihok fun m hm => h (m + 1) (by omega)
    · rintro ⟨m, hm, he⟩
      by_cases h0 : nextCode fs c = fat32EocMarker
      · rw [if_pos ⟨h0, by omega⟩]
        rfl
      · rw [if_neg (fun h' => h0 h'.1)]
        cases m with
        | zero => exact absurd he h0
        | succ m => exact iherr ⟨m, by omega, he⟩

theorem getClusterAtIndex_coded_some {start index c : UInt32}
    (h : codedCluster fs start index.toNat = some c) :
    (getClusterAtIndex fs start index).val = .ok (.ok c) := by
  unfold codedCluster at h
  split_ifs at h with hcond
  cases h
  rw [getClusterAtIndex_loop fs hcond.1]
  exact (clusterAtIndexLoop_coded fs index (Nat.zero_add _)).1 hcond.2

theorem getClusterAtIndex_coded_none {start index : UInt32}
    (h : codedCluster fs start index.toNat = none) :
    ∃ e, e < 0 ∧ (getClusterAtIndex fs start index).val = .ok (.error e) := by
  by_cases hstart : 3 ≤ start.toNat
  · have hex : ∃ m < index.toNat - 1, (nextCode fs)^[m + 1] start = fat32EocMarker := by
      unfold codedCluster at h
      split_ifs at h with hcond
      by_contra hnot
      exact hcond ⟨hstart, fun m hm he => hnot ⟨m, hm, he⟩⟩
    refine ⟨fat32ErrorCorruptedFs, by decide, ?_⟩
    rw [getClusterAtIndex_loop fs hstart]
    exact (clusterAtIndexLoop_coded fs index (Nat.zero_add _)).2 hex
  · refine ⟨fat32ErrorBadParameter, by decide, ?_⟩
    unfold getClusterAtIndex
    rw [if_pos]
    · rfl
    · rw [UInt32.le_iff_toNat_le]
      simp only [UInt32.reduceToNat]
      omega

theorem iterate_nextCode {start c : UInt32} :
    ∀ {n : ℕ}, chain fs start n = some c → (nextCode fs)^[n] start = c
  | 0, h => by
    cases h
    rfl
  | n + 1, h => by
    obtain ⟨b, hb, hlink⟩ := Option.bind_eq_some_iff.1 h
    rw [Function.iterate_succ_apply', iterate_nextCode hb, nextCode_of_link fs hlink]

theorem codedCluster_of_chain {start c : UInt32} {n : ℕ} (hstart : 3 ≤ start.toNat)
    (h : chain fs start n = some c) : codedCluster fs start n = some c := by
  unfold codedCluster
  rw [if_pos, iterate_nextCode fs h]
  refine ⟨hstart, fun m hm he => ?_⟩
  obtain ⟨b, hb⟩ := Option.isSome_iff_exists.1
    (walk_isSome_of_le (link fs) (show m + 1 ≤ n by omega) (a := start) (by
      show (chain fs start n).isSome
      rw [h]; rfl))
  obtain ⟨d, -, hlink⟩ := Option.bind_eq_some_iff.1 hb
  rw [iterate_nextCode fs hb] at he
  subst he
  exact absurd (link_lt fs hlink).2 (by decide)

theorem codedByte_of_served {start : UInt32} {j : ℕ} (hstart : 3 ≤ start.toNat)
    (h : Served fs start j) : codedByte fs start j = chainByte fs start j := by
  obtain ⟨c, hc, hacc, -⟩ := h
  unfold codedByte chainByte
  rw [codedCluster_of_chain fs hstart hc, hc, Option.bind_some, Option.bind_some, if_pos hacc]

/-! ## The read -/

/-- A read that ends well, or short of a byte that is not there to be had from `start`. -/
def CodedRun (start : UInt32) (st : ReadState) (x : Prog (Int32 × ReadState)) : Prop :=
  ∃ m r st', x.val = .ok (r, st') ∧ m ≤ st.remaining.toNat ∧ Advanced st st' m ∧
    Delivers (codedByte fs start) st st' m ∧ (r < 0 ∨ r = st'.bytesRead.toInt32) ∧
    (m = st.remaining.toNat → r = st'.bytesRead.toInt32) ∧
    (m < st.remaining.toNat → codedByte fs start (st.file.fileOffset.toNat + m) = none)

/-- The cluster a round at offset `o` is for is one `cluster_to_sector` rejects. -/
def Rejected (start : UInt32) (o : ℕ) : Prop :=
  ∃ c, codedCluster fs start (o / clusterBytes fs) = some c ∧ clusterToSector fs c < 0

/-- What a read that ends short at `st` returns: the code of a rejected cluster whatever it has
read, the count otherwise, or an error if that is zero. -/
structure EndsShort (start : UInt32) (st : ReadState) (r : Int32) : Prop where
  unread : codedByte fs start st.file.fileOffset.toNat = none
  rejected : Rejected fs start st.file.fileOffset.toNat → r < 0
  counted : ¬ Rejected fs start st.file.fileOffset.toNat → 0 < st.bytesRead.toNat →
    r = st.bytesRead.toInt32
  nothing : st.bytesRead.toNat = 0 → r < 0

/-- How a read ends. -/
def ReadEnd (start : UInt32) (st : ReadState) (x : Prog (Int32 × ReadState)) : Prop :=
  ∃ m r st', x.val = .ok (r, st') ∧ m ≤ st.remaining.toNat ∧ Advanced st st' m ∧
    Delivers (codedByte fs start) st st' m ∧
    (m = st.remaining.toNat → r = st'.bytesRead.toInt32) ∧
    (m < st.remaining.toNat → EndsShort fs start st' r)

theorem EndsShort.neg_or_count {start : UInt32} {st : ReadState} {r : Int32}
    (h : EndsShort fs start st r) : r < 0 ∨ r = st.bytesRead.toInt32 := by
  by_cases hrej : Rejected fs start st.file.fileOffset.toNat
  · exact .inl (h.rejected hrej)
  rcases Nat.eq_zero_or_pos st.bytesRead.toNat with h0 | hpos
  · exact .inl (h.nothing h0)
  · exact .inr (h.counted hrej hpos)

theorem codedByte_of_cluster {start c : UInt32} {o j : ℕ}
    (hc : codedCluster fs start (o / clusterBytes fs) = some c) (hacc : 0 ≤ clusterToSector fs c)
    (hj : o % clusterBytes fs + j < clusterBytes fs) :
    codedByte fs start (o + j) = clusterByte fs c (o % clusterBytes fs + j) := by
  obtain ⟨hdiv, hmod⟩ := Nat.add_div_mod_of_lt hj
  rw [codedByte, hdiv, hmod, hc, Option.bind_some, if_pos hacc]

theorem count_or_error {st : ReadState} {e : Int32} (he : e < 0) {start : UInt32}
    (hnone : codedByte fs start st.file.fileOffset.toNat = none)
    (hacc : ¬ Rejected fs start st.file.fileOffset.toNat) :
    EndsShort fs start st (if st.bytesRead > 0 then st.bytesRead.toInt32 else e) where
  unread := hnone
  rejected h := absurd h hacc
  counted _ hpos := if_pos (by rwa [gt_iff_lt, UInt32.lt_iff_toNat_lt])
  nothing h0 := by
    rw [if_neg]
    · exact he
    · rw [gt_iff_lt, UInt32.lt_iff_toNat_lt, h0]
      exact Nat.lt_irrefl _

theorem readEnd_of_ret {start : UInt32} {st : ReadState} {r : Int32} (fuel : ℕ)
    (hrem : 0 < st.remaining.toNat)
    (h : (readRound fs (clusterSizeOf fs) st).val = .ok (.ret (r, st)))
    (hr : EndsShort fs start st r) :
    ReadEnd fs start st (readClusters fs (clusterSizeOf fs) (fuel + 1) st) := by
  refine ⟨0, r, st, ?_, Nat.zero_le _, .refl st, fun j hj => by omega, fun h0 => by omega,
    fun _ => hr⟩
  rw [readClusters_ret hrem h]

theorem readEnd_of_no_cluster (hbps : fs.bytesPerSector = 512)
    (hspc : 1 ≤ fs.sectorsPerCluster.toNat) {st : ReadState} (fuel : ℕ)
    (hrem : 0 < st.remaining.toNat)
    (hc : codedCluster fs st.file.startCluster (st.file.fileOffset / clusterSizeOf fs).toNat =
      none) :
    ReadEnd fs st.file.startCluster st (readClusters fs (clusterSizeOf fs) (fuel + 1) st) := by
  obtain ⟨e, he, hget⟩ := getClusterAtIndex_coded_none fs hc
  have hround := @readRound_error fs hbps hspc st e _ (by rw [← hget])
  rw [UInt32.toNat_div, clusterSizeOf_toNat fs hbps] at hc
  refine readEnd_of_ret fs fuel hrem (by rw [hround]) (count_or_error fs he ?_ ?_)
  · rw [codedByte, hc]
    rfl
  · rintro ⟨c, hc', -⟩
    rw [hc] at hc'
    cases hc'

theorem readEnd_of_rejected (hbps : fs.bytesPerSector = 512)
    (hspc : 1 ≤ fs.sectorsPerCluster.toNat) {st : ReadState} {c : UInt32} (fuel : ℕ)
    (hrem : 0 < st.remaining.toNat)
    (hc : codedCluster fs st.file.startCluster (st.file.fileOffset / clusterSizeOf fs).toNat =
      some c)
    (hrej : clusterToSector fs c < 0) :
    ReadEnd fs st.file.startCluster st (readClusters fs (clusterSizeOf fs) (fuel + 1) st) := by
  have hget := getClusterAtIndex_coded_some fs hc
  have hround := @readRound_ok fs hbps hspc st c _ (by rw [← hget])
  rw [readCluster_reject fs hrej] at hround
  rw [UInt32.toNat_div, clusterSizeOf_toNat fs hbps] at hc
  have hrejected : Rejected fs st.file.startCluster st.file.fileOffset.toNat := ⟨c, hc, hrej⟩
  refine readEnd_of_ret fs fuel hrem (by rw [hround]; rfl)
    ⟨?_, fun _ => hrej, fun h => absurd hrejected h, fun _ => hrej⟩
  rw [codedByte, hc, Option.bind_some, if_neg (Int32.not_le.2 hrej)]

theorem readClusters_end (hbps : fs.bytesPerSector = 512)
    (hspc : 1 ≤ fs.sectorsPerCluster.toNat) {start : UInt32} (fuel : ℕ) (st : ReadState)
    (hf : st.remaining.toNat < fuel) (hb : Bounded st) (hst : st.file.startCluster = start) :
    ReadEnd fs start st (readClusters fs (clusterSizeOf fs) fuel st) := by
  induction fuel generalizing st with
  | zero => omega
  | succ fuel ih =>
    have hpos := clusterBytes_pos fs hspc
    rcases Nat.eq_zero_or_pos st.remaining.toNat with h0 | hrem
    · refine ⟨0, st.bytesRead.toInt32, st, ?_, Nat.zero_le _, .refl st, fun j hj => by omega,
        fun _ => rfl, fun h => by omega⟩
      rw [readClusters_done h0]
      rfl
    subst hst
    set o := st.file.fileOffset.toNat with ho
    set start := st.file.startCluster
    set idx := st.file.fileOffset / clusterSizeOf fs with hidx
    have hmod := Nat.mod_lt o hpos
    rcases hc : codedCluster fs start idx.toNat with _ | c
    · exact readEnd_of_no_cluster fs hbps hspc fuel hrem hc
    by_cases hrej : clusterToSector fs c < 0
    · exact readEnd_of_rejected fs hbps hspc fuel hrem hc hrej
    have hacc := Int32.not_lt.1 hrej
    have hget := getClusterAtIndex_coded_some fs hc
    have hround := @readRound_ok fs hbps hspc st c (getClusterAtIndex fs start idx).log
      (by rw [← hget])
    rw [hidx, UInt32.toNat_div, clusterSizeOf_toNat fs hbps, ← ho] at hc
    have hwle : wanted fs st ≤ st.remaining.toNat := min_le_left _ _
    have hwle' : wanted fs st ≤ clusterBytes fs - o % clusterBytes fs := min_le_right _ _
    obtain ⟨m, st₁, hm, hadv, hbytes, -, -, hres⟩ := readCluster_spec fs hbps hspc hacc hb hrem idx
    have hdel : Delivers (codedByte fs start) st st₁ m := by
      intro j hj
      rw [← ho, codedByte_of_cluster fs hc hacc (by omega), hbytes j hj]
    rcases hres with ⟨rfl, hv⟩ | ⟨hlt, hnone, hv⟩
    · -- the whole cluster, and the rest from the next one on
      have hv' : (readRound fs (clusterSizeOf fs) st).val = .ok (.next st₁) := by
        rw [hround, hv]
      have hrem₁ := hadv.remaining
      have hwpos : 0 < wanted fs st :=
        lt_min hrem (show 0 < clusterBytes fs - o % clusterBytes fs by omega)
      obtain ⟨n, r, st₂, hval, hn, hadv₂, hdel₂, hall, hshort⟩ := ih st₁ (by omega)
        (hadv.bounded hb) hadv.startCluster_eq
      refine ⟨wanted fs st + n, r, st₂, ?_, by omega, hadv.trans hadv₂,
        hdel.trans hadv hdel₂ hadv₂, fun h => hall (by omega), fun h => hshort (by omega)⟩
      rw [readClusters_next hrem hv', hval]
    · -- a sector that cannot be read
      have hv' : (readRound fs (clusterSizeOf fs) st).val =
          .ok (.ret (shortCount st₁, st₁)) := by
        rw [hround, hv]
      have hoff := hadv.fileOffset
      refine ⟨m, shortCount st₁, st₁, ?_, by omega, hadv, hdel, fun h => by omega,
        fun _ => count_or_error fs (by decide) ?_ ?_⟩
      · rw [readClusters_ret hrem hv']
      · rw [hoff, ← ho, codedByte_of_cluster fs hc hacc (by omega), hnone]
      · -- the bytes short of the end of the cluster are all of `c`
        rintro ⟨c', hc', hneg⟩
        have hin : o % clusterBytes fs + m < clusterBytes fs := by omega
        rw [hoff, ← ho, (Nat.add_div_mod_of_lt hin).1, hc] at hc'
        cases hc'
        exact hrej hneg

theorem readClusters_coded (hbps : fs.bytesPerSector = 512)
    (hspc : 1 ≤ fs.sectorsPerCluster.toNat) {start : UInt32} (fuel : ℕ) (st : ReadState)
    (hf : st.remaining.toNat < fuel) (hb : Bounded st) (hst : st.file.startCluster = start) :
    CodedRun fs start st (readClusters fs (clusterSizeOf fs) fuel st) := by
  obtain ⟨m, r, st', hval, hm, hadv, hdel, hall, hshort⟩ :=
    readClusters_end fs hbps hspc fuel st hf hb hst
  refine ⟨m, r, st', hval, hm, hadv, hdel, ?_, hall, fun hlt => ?_⟩
  · rcases hm.eq_or_lt with heq | hlt
    · exact .inr (hall heq)
    · exact (hshort hlt).neg_or_count
  · rw [← hadv.fileOffset]
    exact (hshort hlt).unread

/-- A read of `n` bytes from the start of a file that has them returns `n` and the bytes `bytes`
exactly where those are the bytes to be had from its start cluster. -/
theorem fat32Read_all_iff {file : Fat32File} (hbps : file.fs.bytesPerSector = 512)
    (hspc : 1 ≤ file.fs.sectorsPerCluster.toNat) (hoff : file.fileOffset = 0) {size : UInt32}
    (h0 : 0 < size.toNat) (hlt : size.toNat < 2 ^ 31) (buffer : ℕ → UInt8) (bytes : ℕ → UInt8) :
    (∃ st, (fat32Read file buffer size.toInt32).val = .ok (size.toInt32, st) ∧
      ∀ j < size.toNat, st.buffer j = bytes j) ↔
    size.toNat ≤ file.fileSize.toNat ∧
      ∀ j < size.toNat, codedByte file.fs file.startCluster j = some (bytes j) := by
  have hread : readSize file size.toInt32 = min size.toNat file.fileSize.toNat := by
    unfold readSize
    rw [hoff, UInt32.toUInt32_toInt32, UInt32.toNat_zero, Nat.sub_zero]
  rcases Nat.eq_zero_or_pos (readSize file size.toInt32) with hz | hpos
  · refine iff_of_false ?_ (fun h => by omega)
    rintro ⟨st, hval, -⟩
    rw [fat32Read_zero hz] at hval
    have : size.toInt32.toInt = 0 := by
      cases hval
      rfl
    rw [UInt32.toInt_toInt32 hlt] at this
    omega
  have hrem := readStart_remaining file buffer size.toInt32
  obtain ⟨m, r, st, hval, hm, hadv, hdel, hr, hall, hshort⟩ := readClusters_coded file.fs hbps hspc
    (readSize file size.toInt32 + 1) (readStart file buffer size.toInt32) (by omega)
    (readStart_bounded file buffer size.toInt32 hpos) rfl
  rw [hrem] at hm hall hshort
  have hbytes : st.bytesRead.toNat = m := by
    rw [hadv.bytesRead]
    exact Nat.zero_add m
  have hoff' : (readStart file buffer size.toInt32).file.fileOffset.toNat = 0 := by
    show file.fileOffset.toNat = 0
    rw [hoff]
    rfl
  have hdel' : ∀ j < m, codedByte file.fs file.startCluster j = some (st.buffer j) := by
    intro j hj
    have := hdel j hj
    rwa [hoff', Nat.zero_add, show (readStart file buffer size.toInt32).bytesRead.toNat + j = j from
      Nat.zero_add j] at this
  rw [hoff', Nat.zero_add] at hshort
  rw [fat32Read_pos hpos]
  constructor
  · rintro ⟨st', hval', hbuf⟩
    rw [hval] at hval'
    cases hval'
    have hr' : size.toInt32 = st.bytesRead.toInt32 :=
      hr.resolve_left (Int32.not_lt.2 (UInt32.toInt32_nonneg.2 hlt))
    have hsz : size.toNat = m := by
      rw [← hbytes, ← UInt32.toUInt32_toInt32 size, hr', UInt32.toUInt32_toInt32]
    exact ⟨by omega, fun j hj => by rw [hdel' j (by omega), hbuf j hj]⟩
  · rintro ⟨hle, hcoded⟩
    have hsz : readSize file size.toInt32 = size.toNat := by omega
    have hmeq : m = size.toNat := by
      by_contra hne
      have : codedByte file.fs file.startCluster m = none := hshort (by omega)
      rw [hcoded m (by omega)] at this
      cases this
    refine ⟨st, ?_, fun j hj => ?_⟩
    · rw [hval, hall (by omega)]
      congr 2
      rw [← UInt32.toUInt32_toInt32 size, ← UInt32.toNat_inj.1 (hbytes.trans hmeq),
        UInt32.toUInt32_toInt32]
    · have := hdel' j (by omega)
      rw [hcoded j hj] at this
      exact (Option.some.inj this).symm

end BeagleKernel.Fat32
