import BeagleKernel.Proofs.Read

/-!
# A read along the chain

While no code of a broken link is taken for a cluster (`WalkStops`), a read delivers the bytes of
the chain, from the handle's offset on, up to the first that is not there to be had
(`readClusters_run`). The codes are told from clusters in two places only: an end of chain before
the last link of a walk, and a target `cluster_to_sector` rejects.
-/

namespace BeagleKernel.Fat32

variable (fs : Fat32Fs)

/-- The `j`-th byte of the chain is there to be had: its cluster is one the volume has, and its
sector can be read. -/
def Served (start : UInt32) (j : ℕ) : Prop :=
  ∃ c, chain fs start (j / clusterBytes fs) = some c ∧ 0 ≤ clusterToSector fs c ∧
    (clusterByte fs c (j % clusterBytes fs)).isSome

/-- A read of `n` bytes from offset `o` on takes the code of no broken link for a cluster: where
the link after the `p`-th cluster leads nowhere, either the first walk stops there, at an end of
chain, or the read gets no further than the cluster after it, whose number is rejected. -/
structure WalkStops (start : UInt32) (o n : ℕ) : Prop where
  far : ∀ p d, chain fs start p = some d → link fs d = none → p + 2 ≤ o / clusterBytes fs →
    nextCode fs d = fat32EocMarker
  near : ∀ p d, chain fs start p = some d → link fs d = none → o / clusterBytes fs ≤ p + 1 →
    (p + 1) * clusterBytes fs < o + n →
    (∀ j, o ≤ j → j < (p + 1) * clusterBytes fs → Served fs start j) →
    clusterToSector fs (nextCode fs d) < 0

theorem chainByte_of_chain {start c : UInt32} {o j : ℕ}
    (hc : chain fs start (o / clusterBytes fs) = some c)
    (hj : o % clusterBytes fs + j < clusterBytes fs) :
    chainByte fs start (o + j) = clusterByte fs c (o % clusterBytes fs + j) := by
  obtain ⟨hdiv, hmod⟩ := Nat.add_div_mod_of_lt hj
  rw [chainByte, hdiv, hmod, hc]
  rfl

theorem served_of_chain {start c : UInt32} {o j : ℕ}
    (hc : chain fs start (o / clusterBytes fs) = some c)
    (hj : o % clusterBytes fs + j < clusterBytes fs) :
    Served fs start (o + j) ↔ 0 ≤ clusterToSector fs c ∧
      (clusterByte fs c (o % clusterBytes fs + j)).isSome := by
  obtain ⟨hdiv, hmod⟩ := Nat.add_div_mod_of_lt hj
  rw [Served, hdiv, hmod, hc]
  simp

/-- What is left to read once a cluster is done with stops where the whole did. -/
theorem WalkStops.shift {start c : UInt32} {o n w : ℕ} (hpos : 0 < clusterBytes fs)
    (hw : WalkStops fs start o (w + n)) (hc : chain fs start (o / clusterBytes fs) = some c)
    (hle : o % clusterBytes fs + w ≤ clusterBytes fs)
    (hserved : ∀ j, o ≤ j → j < o + w → Served fs start j) :
    WalkStops fs start (o + w) n where
  far p d hp hd hlt := by
    -- the chain gets to the cluster at `o`, so it does not break before
    have hnone := walk_succ_of (link fs) hp
    rw [hd] at hnone
    have hdiv : (o + w) / clusterBytes fs ≤ o / clusterBytes fs + 1 := by
      have h1 : o + w ≤ clusterBytes fs * (o / clusterBytes fs + 1) := by
        have := Nat.div_add_mod o (clusterBytes fs)
        rw [Nat.mul_add]
        omega
      calc (o + w) / clusterBytes fs
          ≤ clusterBytes fs * (o / clusterBytes fs + 1) / clusterBytes fs :=
            Nat.div_le_div_right h1
        _ = o / clusterBytes fs + 1 := Nat.mul_div_cancel_left _ hpos
    have := walk_none_of_le (link fs) (show p + 1 ≤ o / clusterBytes fs by omega) hnone
    unfold chain at hc
    rw [this] at hc
    cases hc
  near p d hp hd hge hlt hall := by
    have : o / clusterBytes fs ≤ (o + w) / clusterBytes fs :=
      Nat.div_le_div_right (Nat.le_add_right _ _)
    refine hw.near p d hp hd (by omega) (by omega) fun j h1 h2 => ?_
    by_cases hj : j < o + w
    · exact hserved j h1 hj
    · exact hall j (by omega) h2

/-! ## Rounds in sequence -/

section Sequence

variable {fs}

theorem readClusters_done {clusterSize : UInt32} {fuel : ℕ} {st : ReadState}
    (h : st.remaining.toNat = 0) :
    readClusters fs clusterSize (fuel + 1) st = pure (st.bytesRead.toInt32, st) := by
  rw [readClusters, if_pos]
  exact UInt32.toNat_inj.1 h

theorem readClusters_ret {clusterSize : UInt32} {fuel : ℕ} {st : ReadState}
    {r : Int32 × ReadState} (h : 0 < st.remaining.toNat)
    (hv : (readRound fs clusterSize st).val = .ok (.ret r)) :
    readClusters fs clusterSize (fuel + 1) st =
      ⟨.ok r, (readRound fs clusterSize st).log⟩ := by
  rw [readClusters, if_neg (UInt32.ne_zero_iff.2 h), Traced.bind_of_ok hv]
  simp

theorem readClusters_next {clusterSize : UInt32} {fuel : ℕ} {st st' : ReadState}
    (h : 0 < st.remaining.toNat) (hv : (readRound fs clusterSize st).val = .ok (.next st')) :
    readClusters fs clusterSize (fuel + 1) st =
      ⟨(readClusters fs clusterSize fuel st').val,
        (readRound fs clusterSize st).log ++ (readClusters fs clusterSize fuel st').log⟩ := by
  rw [readClusters, if_neg (UInt32.ne_zero_iff.2 h), Traced.bind_of_ok hv]

end Sequence

/-- A read that ends well, or short of a byte that is not there to be had. -/
def ReadRun (start : UInt32) (st : ReadState) (x : Prog (Int32 × ReadState)) : Prop :=
  ∃ m r st', x.val = .ok (r, st') ∧ m ≤ st.remaining.toNat ∧ Advanced st st' m ∧
    Delivers (chainByte fs start) st st' m ∧ (r < 0 ∨ r = st'.bytesRead.toInt32) ∧
    (m = st.remaining.toNat → r = st'.bytesRead.toInt32) ∧
    (m < st.remaining.toNat → ¬ Served fs start (st.file.fileOffset.toNat + m)) ∧
    ∀ a ∈ x.log, OnChain fs start a

section Run

variable (hbps : fs.bytesPerSector = 512) (hspc : 1 ≤ fs.sectorsPerCluster.toNat)
  {start : UInt32} (hstart : 3 ≤ start.toNat)

include hbps hspc hstart

omit hbps hspc hstart in
/-- A read whose first round returns at once ends short. -/
theorem readRun_of_ret {st : ReadState} {r : Int32} {l : List Access} (fuel : ℕ)
    (hrem : 0 < st.remaining.toNat)
    (h : readRound fs (clusterSizeOf fs) st = ⟨.ok (.ret (r, st)), l⟩)
    (hr : r < 0 ∨ r = st.bytesRead.toInt32)
    (hserved : ¬ Served fs start st.file.fileOffset.toNat)
    (hl : ∀ a ∈ l, OnChain fs start a) :
    ReadRun fs start st (readClusters fs (clusterSizeOf fs) (fuel + 1) st) := by
  refine ⟨0, r, st, ?_, Nat.zero_le _, .refl st, fun j hj => by omega, hr, fun h0 => by omega,
    fun _ => hserved, ?_⟩
  · rw [readClusters_ret hrem (by rw [h])]
  · rw [readClusters_ret hrem (by rw [h]), h]
    exact hl

theorem readRun_of_no_cluster {st : ReadState} (fuel : ℕ) (hrem : 0 < st.remaining.toNat)
    (hst : st.file.startCluster = start)
    (hw : WalkStops fs start st.file.fileOffset.toNat st.remaining.toNat)
    (hc : chain fs start (st.file.fileOffset / clusterSizeOf fs).toNat = none) :
    ReadRun fs start st (readClusters fs (clusterSizeOf fs) (fuel + 1) st) := by
  set o := st.file.fileOffset.toNat with ho
  set idx := st.file.fileOffset / clusterSizeOf fs with hidx
  have hidxNat : idx.toNat = o / clusterBytes fs := by
    rw [hidx, UInt32.toNat_div, clusterSizeOf_toNat fs hbps]
  obtain ⟨p, d, hp, hpd, hd⟩ := walk_break (link fs) hc
  have hnot : ¬ Served fs start o := by
    rintro ⟨c, hc', -⟩
    rw [← hidxNat, hc] at hc'
    cases hc'
  have hlog : ∀ n, ∀ a ∈ walkLog fs start 0 n, OnChain fs start a := fun n =>
    walkLog_chain fs (show chain fs start 0 = some start from rfl)
  rcases Nat.lt_or_ge (p + 1) idx.toNat with hlt | hge
  · have hget := getClusterAtIndex_eoc fs hstart hpd hd hlt
      (hw.far p d hpd hd (by rw [← hidxNat]; omega))
    rw [← hst] at hget
    refine readRun_of_ret fs fuel hrem (readRound_error fs hbps hspc hget) ?_
      hnot (by rw [hst]; exact hlog _)
    split_ifs
    · exact .inr rfl
    · exact .inl (by decide)
  · have hlast : p + 1 = idx.toNat := by omega
    have hget := getClusterAtIndex_last fs hstart hpd hd hlast
    rw [← hst] at hget
    have hle : (p + 1) * clusterBytes fs ≤ o := by
      rw [hlast, hidxNat]
      exact Nat.div_mul_le_self o (clusterBytes fs)
    have hrej := hw.near p d hpd hd (by omega) (by omega) (fun j h1 h2 => by omega)
    have hround := readRound_ok fs hbps hspc hget
    rw [readCluster_reject fs hrej] at hround
    refine readRun_of_ret fs fuel hrem hround (.inl hrej) hnot ?_
    rw [hst, Traced.log_pure, List.append_nil]
    exact hlog _

theorem readRun_of_rejected {st : ReadState} {c : UInt32} (fuel : ℕ)
    (hrem : 0 < st.remaining.toNat) (hst : st.file.startCluster = start)
    (hc : chain fs start (st.file.fileOffset / clusterSizeOf fs).toNat = some c)
    (hrej : clusterToSector fs c < 0) :
    ReadRun fs start st (readClusters fs (clusterSizeOf fs) (fuel + 1) st) := by
  have hget := getClusterAtIndex_chain fs hstart hc
  rw [← hst] at hget
  have hround := readRound_ok fs hbps hspc hget
  rw [readCluster_reject fs hrej] at hround
  rw [UInt32.toNat_div, clusterSizeOf_toNat fs hbps] at hc
  refine readRun_of_ret fs fuel hrem hround (.inl hrej) ?_ ?_
  · rintro ⟨c', hc', hacc, -⟩
    rw [hc] at hc'
    cases hc'
    exact absurd hacc (Int32.not_le.2 hrej)
  · rw [hst, Traced.log_pure, List.append_nil]
    exact walkLog_chain fs (show chain fs start 0 = some start from rfl)

theorem readClusters_run (fuel : ℕ) (st : ReadState) (hf : st.remaining.toNat < fuel)
    (hb : Bounded st) (hst : st.file.startCluster = start)
    (hw : WalkStops fs start st.file.fileOffset.toNat st.remaining.toNat) :
    ReadRun fs start st (readClusters fs (clusterSizeOf fs) fuel st) := by
  induction fuel generalizing st with
  | zero => omega
  | succ fuel ih =>
    have hpos := clusterBytes_pos fs hspc
    rcases Nat.eq_zero_or_pos st.remaining.toNat with h0 | hrem
    · refine ⟨0, st.bytesRead.toInt32, st, ?_, Nat.zero_le _, .refl st, fun j hj => by omega,
        .inr rfl, fun _ => rfl, fun h => by omega, ?_⟩
      · rw [readClusters_done h0]
        rfl
      · rw [readClusters_done h0]
        intro a ha
        simp at ha
    set o := st.file.fileOffset.toNat with ho
    set idx := st.file.fileOffset / clusterSizeOf fs with hidx
    have hidxNat : idx.toNat = o / clusterBytes fs := by
      rw [hidx, UInt32.toNat_div, clusterSizeOf_toNat fs hbps]
    rcases hc : chain fs start idx.toNat with _ | c
    · exact readRun_of_no_cluster fs hbps hspc hstart fuel hrem hst hw hc
    · by_cases hrej : clusterToSector fs c < 0
      · exact readRun_of_rejected fs hbps hspc hstart fuel hrem hst hc hrej
      have hacc := Int32.not_lt.1 hrej
      have hlog : ∀ a ∈ walkLog fs start 0 idx.toNat, OnChain fs start a :=
        walkLog_chain fs (show chain fs start 0 = some start from rfl)
      have hget := getClusterAtIndex_chain fs hstart hc
      rw [← hst] at hget
      have hround := readRound_ok fs hbps hspc hget
      rw [hidxNat] at hc
      have hinside : ∀ j < wanted fs st, o % clusterBytes fs + j < clusterBytes fs := by
        intro j hj
        have := min_le_right st.remaining.toNat (clusterBytes fs - o % clusterBytes fs)
        have hw' : wanted fs st ≤ clusterBytes fs - o % clusterBytes fs := this
        omega
      obtain ⟨m, st₁, hm, hadv, hbytes, hdata, -, hres⟩ :=
        readCluster_spec fs hbps hspc hacc hb hrem idx
      have hdel : Delivers (chainByte fs start) st st₁ m := by
        intro j hj
        rw [← ho, chainByte_of_chain fs hc (hinside j (by omega)), hbytes j hj]
      have hround_log : ∀ a ∈ (readRound fs (clusterSizeOf fs) st).log, OnChain fs start a := by
        intro a ha
        rw [hround, hst] at ha
        rcases List.mem_append.1 ha with ha | ha
        · exact hlog a ha
        · obtain ⟨s, rfl⟩ := hdata a ha
          rw [← hidxNat] at hc
          exact hc
      have hwle : wanted fs st ≤ st.remaining.toNat := min_le_left _ _
      rcases hres with ⟨rfl, hv⟩ | ⟨hlt, hnone, hv⟩
      · -- the whole cluster, and the rest from the next one on
        have hv' : (readRound fs (clusterSizeOf fs) st).val = .ok (.next st₁) := by
          rw [hround, hv]
        have hrem₁ := hadv.remaining
        have hwpos : 0 < wanted fs st := by
          have := Nat.mod_lt o hpos
          exact lt_min hrem (show 0 < clusterBytes fs - o % clusterBytes fs by omega)
        have hserved : ∀ j, o ≤ j → j < o + wanted fs st → Served fs start j := by
          intro j h1 h2
          rw [show j = o + (j - o) by omega,
            served_of_chain fs hc (hinside (j - o) (by omega))]
          exact ⟨hacc, by rw [hbytes _ (by omega)]; rfl⟩
        have hw' : WalkStops fs start o (wanted fs st + st₁.remaining.toNat) := by
          rwa [Nat.add_comm, hrem₁]
        have hend : o % clusterBytes fs + wanted fs st ≤ clusterBytes fs := by
          have := hinside (wanted fs st - 1) (by omega)
          omega
        obtain ⟨n, r, st₂, hval, hn, hadv₂, hdel₂, hr, hall, hshort, hlog₂⟩ := ih st₁ (by omega)
          (hadv.bounded hb) (by rw [hadv.startCluster_eq, hst])
          (by rw [hadv.fileOffset]; exact hw'.shift fs hpos hc hend hserved)
        refine ⟨wanted fs st + n, r, st₂, ?_, by omega, hadv.trans hadv₂,
          hdel.trans hadv hdel₂ hadv₂, hr, fun h => hall (by omega), fun h => ?_, ?_⟩
        · rw [readClusters_next hrem hv', hval]
        · have := hshort (by omega)
          rwa [hadv.fileOffset, Nat.add_assoc] at this
        · rw [readClusters_next hrem hv']
          intro a ha
          rcases List.mem_append.1 ha with ha | ha
          · exact hround_log a ha
          · exact hlog₂ a ha
      · -- a sector that cannot be read
        have hv' : (readRound fs (clusterSizeOf fs) st).val =
            .ok (.ret (shortCount st₁, st₁)) := by
          rw [hround, hv]
        refine ⟨m, shortCount st₁, st₁, ?_, by omega, hadv, hdel, ?_, fun h => by omega,
          fun _ h => ?_, ?_⟩
        · rw [readClusters_ret hrem hv']
        · unfold shortCount
          split_ifs
          · exact .inr rfl
          · exact .inl (by decide)
        · rw [← ho, served_of_chain fs hc (hinside m hlt), hnone] at h
          exact absurd h.2 (by simp)
        · rw [readClusters_ret hrem hv']
          exact hround_log

theorem readRound_full {st : ReadState} {c : UInt32} (hb : Bounded st)
    (hrem : 0 < st.remaining.toNat) (hst : st.file.startCluster = start)
    (hc : chain fs start (st.file.fileOffset.toNat / clusterBytes fs) = some c)
    (hserved : ∀ j < wanted fs st, Served fs start (st.file.fileOffset.toNat + j)) :
    ∃ st', (readRound fs (clusterSizeOf fs) st).val = .ok (.next st') ∧
      Advanced st st' (wanted fs st) := by
  have hpos := clusterBytes_pos fs hspc
  set o := st.file.fileOffset.toNat with ho
  have hidx : (st.file.fileOffset / clusterSizeOf fs).toNat = o / clusterBytes fs := by
    rw [UInt32.toNat_div, clusterSizeOf_toNat fs hbps]
  have hmod := Nat.mod_lt o hpos
  have hwpos : 0 < wanted fs st :=
    lt_min hrem (show 0 < clusterBytes fs - o % clusterBytes fs by omega)
  have hwle : wanted fs st ≤ clusterBytes fs - o % clusterBytes fs := min_le_right _ _
  have hacc : 0 ≤ clusterToSector fs c := by
    have := hserved 0 hwpos
    exact ((served_of_chain fs hc (by omega)).1 this).1
  have hget := @getClusterAtIndex_chain fs start (st.file.fileOffset / clusterSizeOf fs) hstart _
    (by rw [hidx]; exact hc)
  rw [← hst] at hget
  obtain ⟨m, st₁, hm, hadv, -, -, -, hres⟩ := readCluster_spec fs hbps hspc hacc hb hrem
    (st.file.fileOffset / clusterSizeOf fs)
  rcases hres with ⟨rfl, hv⟩ | ⟨hlt, hnone, hv⟩
  · exact ⟨st₁, by rw [readRound_ok fs hbps hspc hget, hv], hadv⟩
  · have := ((served_of_chain fs hc (by omega)).1 (hserved m hlt)).2
    rw [hnone] at this
    simp at this

/-- A read that gets to the code of a broken link, and `cluster_to_sector` does not reject it,
reads from it. -/
theorem readClusters_reaches {p : ℕ} {d : UInt32} (hp : chain fs start p = some d)
    (hd : link fs d = none) (hacc : 0 ≤ clusterToSector fs (nextCode fs d)) (fuel : ℕ)
    (st : ReadState) (hf : st.remaining.toNat < fuel) (hb : Bounded st)
    (hst : st.file.startCluster = start) (hrem : 0 < st.remaining.toNat)
    (hge : st.file.fileOffset.toNat / clusterBytes fs ≤ p + 1)
    (hlt : (p + 1) * clusterBytes fs < st.file.fileOffset.toNat + st.remaining.toNat)
    (hserved : ∀ j, st.file.fileOffset.toNat ≤ j → j < (p + 1) * clusterBytes fs →
      Served fs start j) :
    ∃ a ∈ (readClusters fs (clusterSizeOf fs) fuel st).log, a.pos = p + 1 := by
  induction fuel generalizing st with
  | zero => omega
  | succ fuel ih =>
    have hpos := clusterBytes_pos fs hspc
    set o := st.file.fileOffset.toNat with ho
    have hidx : (st.file.fileOffset / clusterSizeOf fs).toNat = o / clusterBytes fs := by
      rw [UInt32.toNat_div, clusterSizeOf_toNat fs hbps]
    have hdm := Nat.div_add_mod o (clusterBytes fs)
    have hmod := Nat.mod_lt o hpos
    rcases hge.eq_or_lt with heq | hle
    · -- the round whose target is the code
      have hget := getClusterAtIndex_last fs hstart
        hp hd (show p + 1 = (st.file.fileOffset / clusterSizeOf fs).toNat by omega)
      rw [← hst] at hget
      have hround := readRound_ok fs hbps hspc hget
      obtain ⟨m, st₁, -, -, -, -, ⟨s, hs⟩, hres⟩ := readCluster_spec fs hbps hspc hacc hb hrem
        (st.file.fileOffset / clusterSizeOf fs)
      have hmem : .data (p + 1) (nextCode fs d) s ∈
          (readRound fs (clusterSizeOf fs) st).log := by
        rw [hround, ← heq, ← hidx]
        exact List.mem_append_right _ hs
      rcases hres with ⟨-, hv⟩ | ⟨-, -, hv⟩
      · rw [readClusters_next hrem (by rw [hround, hv])]
        exact ⟨_, List.mem_append_left _ hmem, rfl⟩
      · rw [readClusters_ret hrem (by rw [hround, hv])]
        exact ⟨_, hmem, rfl⟩
    · -- a round before it
      obtain ⟨c, hc⟩ := Option.isSome_iff_exists.1 (walk_isSome_of_le (link fs)
        (show o / clusterBytes fs ≤ p by omega) (a := start) (by
          show (chain fs start p).isSome
          rw [hp]; rfl))
      have hwle : wanted fs st ≤ clusterBytes fs - o % clusterBytes fs := min_le_right _ _
      have hnext : o + wanted fs st ≤ (p + 1) * clusterBytes fs := by
        have : (o / clusterBytes fs + 1) * clusterBytes fs ≤ (p + 1) * clusterBytes fs :=
          Nat.mul_le_mul_right _ hle
        rw [Nat.add_mul, Nat.mul_comm] at this
        omega
      obtain ⟨st₁, hv, hadv⟩ := readRound_full fs hbps hspc hstart hb hrem hst hc
        (fun j hj => hserved _ (by omega) (by omega))
      have hrem₁ := hadv.remaining
      have hwpos : 0 < wanted fs st :=
        lt_min hrem (show 0 < clusterBytes fs - o % clusterBytes fs by omega)
      obtain ⟨a, ha, hpos_eq⟩ := ih st₁ (by omega) (hadv.bounded hb)
        (by rw [hadv.startCluster_eq, hst]) (by omega)
        (by
          rw [hadv.fileOffset]
          exact (Nat.div_le_div_right hnext).trans_eq (Nat.mul_div_cancel _ hpos))
        (by rw [hadv.fileOffset]; omega)
        (fun j h1 h2 => hserved j (by rw [hadv.fileOffset] at h1; omega) h2)
      rw [readClusters_next hrem hv]
      exact ⟨a, List.mem_append_right _ ha, hpos_eq⟩

/-- A read whose first walk passes a broken link looks its code up. -/
theorem readClusters_far {p : ℕ} {d : UInt32} (hp : chain fs start p = some d)
    (hd : link fs d = none) (hne : nextCode fs d ≠ fat32EocMarker) (fuel : ℕ) (st : ReadState)
    (hst : st.file.startCluster = start) (hrem : 0 < st.remaining.toNat)
    (hfar : p + 2 ≤ st.file.fileOffset.toNat / clusterBytes fs) :
    ∃ a ∈ (readClusters fs (clusterSizeOf fs) (fuel + 1) st).log, a.pos = p + 1 := by
  have hcs := clusterSizeOf_pos fs hbps hspc
  have hidx : (st.file.fileOffset / clusterSizeOf fs).toNat =
      st.file.fileOffset.toNat / clusterBytes fs := by
    rw [UInt32.toNat_div, clusterSizeOf_toNat fs hbps]
  have hmem := getClusterAtIndex_broken fs hstart
    hp hd (show p + 1 < (st.file.fileOffset / clusterSizeOf fs).toNat by omega) hne
  rw [← hst] at hmem
  refine ⟨.fat (p + 1) (nextCode fs d) (fatSector fs (nextCode fs d)), ?_, rfl⟩
  rw [readClusters, if_neg (UInt32.ne_zero_iff.2 hrem)]
  refine Traced.mem_log_bind.2 (.inl ?_)
  unfold readRound
  rw [umod_of_pos hcs, Traced.pure_bind, udiv_of_pos hcs, Traced.pure_bind]
  exact Traced.mem_log_bind.2 (.inl hmem)

end Run

/-! ## `fat32_read` -/

/-- The bytes a read is to deliver. -/
def readSize (file : Fat32File) (size : Int32) : ℕ :=
  min size.toUInt32.toNat (file.fileSize.toNat - file.fileOffset.toNat)

theorem fat32Read_zero {file : Fat32File} {size : Int32} (h : readSize file size = 0)
    (buffer : ℕ → UInt8) :
    fat32Read file buffer size = pure (0, ⟨file, buffer, 0, size.toUInt32⟩) := by
  have hor : file.fileOffset ≥ file.fileSize ∨ size = 0 := by
    unfold readSize at h
    rw [ge_iff_le, UInt32.le_iff_toNat_le, ← Int32.toUInt32_eq_zero, ← UInt32.toNat_inj]
    rcases Nat.min_eq_zero_iff.1 h with h | h
    · exact .inr h
    · exact .inl (by omega)
  unfold fat32Read
  rw [if_pos hor]

/-- The state a read starts from. -/
def readStart (file : Fat32File) (buffer : ℕ → UInt8) (size : Int32) : ReadState :=
  ⟨file, buffer, 0, UInt32.ofNat (readSize file size)⟩

theorem readStart_remaining (file : Fat32File) (buffer : ℕ → UInt8) (size : Int32) :
    (readStart file buffer size).remaining.toNat = readSize file size := by
  have := size.toUInt32.toNat_lt
  have h : readSize file size ≤ size.toUInt32.toNat := min_le_left _ _
  exact UInt32.toNat_ofNat_lt (by omega)

theorem readStart_bounded (file : Fat32File) (buffer : ℕ → UInt8) (size : Int32)
    (h : 0 < readSize file size) : Bounded (readStart file buffer size) where
  bytesRead := by
    show 0 + (readStart file buffer size).remaining.toNat < 2 ^ 32
    rw [Nat.zero_add]
    exact UInt32.toNat_lt _
  fileOffset := by
    rw [readStart_remaining]
    have := file.fileSize.toNat_lt
    have h2 : readSize file size ≤ file.fileSize.toNat - file.fileOffset.toNat := min_le_right _ _
    show file.fileOffset.toNat + readSize file size < 2 ^ 32
    omega

theorem fat32Read_pos {file : Fat32File} {size : Int32} (h : 0 < readSize file size)
    (buffer : ℕ → UInt8) :
    fat32Read file buffer size = readClusters file.fs (clusterSizeOf file.fs)
      (readSize file size + 1) (readStart file buffer size) := by
  obtain ⟨hs, ho⟩ := Nat.lt_min.1 h
  have hor : ¬ (file.fileOffset ≥ file.fileSize ∨ size = 0) := by
    rw [ge_iff_le, UInt32.le_iff_toNat_le, ← Int32.toUInt32_eq_zero, ← UInt32.toNat_inj]
    rintro (h | h)
    · omega
    · rw [h] at hs
      exact absurd hs (by decide)
  have hmax : (file.fileSize - file.fileOffset).toNat =
      file.fileSize.toNat - file.fileOffset.toNat := UInt32.toNat_sub_of_toNat_le (by omega)
  have hrem : (if size.toUInt32 > file.fileSize - file.fileOffset then
      file.fileSize - file.fileOffset else size.toUInt32) = UInt32.ofNat (readSize file size) := by
    have hmin := UInt32.min_toNat (file.fileSize - file.fileOffset) size.toUInt32
    rw [hmax, Nat.min_comm] at hmin
    exact UInt32.toNat_inj.1 (hmin.trans (readStart_remaining file buffer size).symm)
  unfold fat32Read
  simp only []
  rw [if_neg hor, hrem]
  rw [show (UInt32.ofNat (readSize file size)).toNat = readSize file size from
    readStart_remaining file buffer size]
  rfl

end BeagleKernel.Fat32
