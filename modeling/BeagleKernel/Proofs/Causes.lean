import BeagleKernel.Proofs.Endless

/-!
# The cause an open reports

`read_dir_entry` returns -1 both for an end mark and for a sector it cannot read, and `fat32_open`
makes no file or no path of any code. So what it reports is the cause of the failure exactly if the
searches it makes come to no sector that cannot be read, and those in vain follow their directory
to its end (`trueCause_iff`).
-/

namespace BeagleKernel.Fat32

variable (fs : Fat32Fs) (name : Fin 11 → UInt8)

/-- A cluster with the end of its directory: an end mark that no entry with the name comes before,
or the end of the chain. -/
def EndsIn (c : UInt32) : Prop :=
  (∃ e, FirstNot (Passed name) (clusterSlots fs c) e ∧ e.EndMark) ∨
    PassesCluster fs (Passed name) c ∧ ∃ v, fatEntry fs c = some v ∧ IsEndOfChain v

/-- The `n`-th cluster of the directory ends it, and no cluster before has the name. -/
structure DirectoryEnd (start : UInt32) (n : ℕ) (c : UInt32) : Prop where
  chain : chain fs start n = some c
  passes : ∀ k < n, ∀ d, Fat32.chain fs start k = some d → PassesCluster fs (Passed name) d
  ends : EndsIn fs name c

/-- The reads of a search go through the directory at `start` to its end. -/
def ReachedEnd (start : UInt32) (log : List Access) : Prop :=
  start = fat32EocMarker ∨ ∃ n c, DirectoryEnd fs name start n c ∧
    ∀ k ≤ n, ∀ d, chain fs start k = some d → ∃ a ∈ log, a.pos = k ∧ a.cluster = d

/-- An open that returns no file or no path has made no read that failed, and a search in vain
that went through its directory to the end; one that has made a read that failed returns an I/O
error. -/
def TrueCause (path : CString) (file : Fat32File) (prior : ℕ → UInt8) : Prop :=
  ∀ fuel r file', (fat32Open fuel fs path file prior).val = .ok (r, file') →
    (r = fat32ErrorNoFile ∨ r = fat32ErrorNoPath →
      (∀ a ∈ (fat32Open fuel fs path file prior).log, (fs.disk.readSector a.sector).isSome) ∧
      ∃ names name es, SearchedFor (parseFat32Path path prior) (names ++ [name]) ∧
        Trail fs fs.rootCluster names es ∧
        (¬ ∃ e, Found fs (trailEnd fs.rootCluster es) (formatNameToFat32 name) e) ∧
        ReachedEnd fs (formatNameToFat32 name) (trailEnd fs.rootCluster es)
          (readDirEntry fuel fs (dirAfter noDir es) name).log) ∧
    ((∃ a ∈ (fat32Open fuel fs path file prior).log, fs.disk.readSector a.sector = none) →
      r = fat32ErrorIo)

/-- A search comes to a sector that cannot be read. -/
def MeetsUnreadable (start : UInt32) : Prop :=
  ∃ d a, Visits fs (Passed name) start d ∧ Reads fs (Passed name) d a ∧
    fs.disk.readSector a.sector = none

/-- A search comes to an end mark. -/
def MeetsEndMark (start : UInt32) : Prop :=
  ∃ d, Visits fs (Passed name) start d ∧
    ∃ e, FirstNot (Passed name) (clusterSlots fs d) e ∧ e.EndMark

/-- All clusters of the directory after the first, up to its end, are below 256. -/
def LowToEnd (start : UInt32) : Prop :=
  ∃ n c, DirectoryEnd fs name start n c ∧
    ∀ k, 0 < k → k ≤ n → ∀ d, chain fs start k = some d → d.toNat < 256

/-! ## Slots -/

section

variable {fs name}

theorem passesSector_iff {s : UInt32} :
    PassesSector fs (Passed name) s ↔ scanSlots name (sectorSlots fs s) = .next := by
  unfold PassesSector sectorSlots
  rcases hs : fs.disk.readSector s with _ | b
  · simp [scanSlots]
  · rw [scanSlots_map_some_next]
    simp

theorem passesCluster_iff {c : UInt32} :
    PassesCluster fs (Passed name) c ↔ scanSlots name (clusterSlots fs c) = .next := by
  rw [scanSlots_eq_next_iff, clusterSlots, PassesCluster]
  constructor
  · intro h x hx
    obtain ⟨i, hi, hx⟩ := List.mem_flatMap.1 hx
    exact (scanSlots_eq_next_iff _).1 (passesSector_iff.1 (h i (List.mem_range.1 hi))) x hx
  · intro h i hi
    refine passesSector_iff.2 ((scanSlots_eq_next_iff _).2 fun x hx => h x ?_)
    exact List.mem_flatMap.2 ⟨i, List.mem_range.2 hi, hx⟩

theorem scanSlots_unread_iff (target : UInt32) : ∀ n k : ℕ,
    scanSlots name ((List.range' k n).flatMap fun i =>
      sectorSlots fs (target + UInt32.ofNat i)) = .unread ↔
    ∃ i, k ≤ i ∧ i < k + n ∧
      (∀ j, k ≤ j → j < i → PassesSector fs (Passed name) (target + UInt32.ofNat j)) ∧
      fs.disk.readSector (target + UInt32.ofNat i) = none
  | 0, k => by
    refine iff_of_false SlotScan.noConfusion ?_
    rintro ⟨i, h1, h2, -⟩
    omega
  | n + 1, k => by
    rw [List.range'_succ, List.flatMap_cons, scanSlots_append]
    by_cases hp : PassesSector fs (Passed name) (target + UInt32.ofNat k)
    · rw [passesSector_iff.1 hp]
      simp only []
      rw [scanSlots_unread_iff target n (k + 1)]
      constructor
      · rintro ⟨i, h1, h2, hpass, hnone⟩
        refine ⟨i, by omega, by omega, fun j h1 h2 => ?_, hnone⟩
        rcases h1.eq_or_lt with rfl | hlt
        · exact hp
        · exact hpass j hlt h2
      · rintro ⟨i, h1, h2, hpass, hnone⟩
        rcases h1.eq_or_lt with rfl | hlt
        · obtain ⟨b, hb, -⟩ := hp
          rw [hnone] at hb
          cases hb
        · exact ⟨i, hlt, by omega, fun j h1 h2 => hpass j (by omega) h2, hnone⟩
    · constructor
      · intro h
        refine ⟨k, le_rfl, by omega, fun j h1 h2 => by omega, ?_⟩
        rcases hs : fs.disk.readSector (target + UInt32.ofNat k) with _ | b
        · rfl
        · rw [passesSector_iff] at hp
          unfold sectorSlots at h hp
          simp only [hs] at h hp
          rcases hr : scanSlots name (b.dirEntries.map some) with _ | _ | _ | e
          · exact absurd hr hp
          · rw [hr] at h
            cases h
          · exact absurd hr (scanSlots_map_some_ne_unread _)
          · rw [hr] at h
            cases h
      · rintro ⟨i, h1, h2, hpass, hnone⟩
        rcases h1.eq_or_lt with rfl | hlt
        · rw [sectorSlots, hnone]
          rfl
        · exact absurd (hpass k le_rfl hlt) hp

theorem clusterSlots_unread_iff {c : UInt32} : scanSlots name (clusterSlots fs c) = .unread ↔
    ∃ i < fs.sectorsPerCluster.toNat,
      (∀ j < i, PassesSector fs (Passed name) (clusterStart fs c + UInt32.ofNat j)) ∧
      fs.disk.readSector (clusterStart fs c + UInt32.ofNat i) = none := by
  rw [clusterSlots, List.range_eq_range', scanSlots_unread_iff]
  constructor
  · rintro ⟨i, -, hi, hpass, hnone⟩
    exact ⟨i, by omega, fun j hj => hpass j (Nat.zero_le j) hj, hnone⟩
  · rintro ⟨i, hi, hpass, hnone⟩
    exact ⟨i, Nat.zero_le i, by omega, fun j _ hj => hpass j hj, hnone⟩

/-! ## How a search ends -/

/-- A search ends at the cluster it does not go on from. -/
theorem Visits.search {start d : UInt32} (h : Visits fs (Passed name) start d)
    (hstop : scanSlots name (clusterSlots fs d) ≠ .next ∨ lowLink fs d = none) :
    ∃ n, ∀ fuel > n, ∀ pos, (scanClusters fs name fuel pos start).val =
      .ok (match scanSlots name (clusterSlots fs d) with
        | .found e => .ok e
        | .endMark => .error endOfEntries
        | _ => .error fat32ErrorIo) := by
  induction h with
  | @here c hc =>
    refine ⟨0, fun fuel hf pos => ?_⟩
    obtain ⟨m, rfl⟩ : ∃ m, fuel = m + 1 := ⟨fuel - 1, by omega⟩
    by_cases hnext : scanSlots name (clusterSlots fs c) = .next
    · rw [scanClusters_next fs hc hnext, hstop.resolve_left (not_not.2 hnext), hnext]
    · exact scanClusters_stop fs hc hnext
  | next hc hp hl _ ih =>
    obtain ⟨n, hn⟩ := ih hstop
    refine ⟨n + 1, fun fuel hf pos => ?_⟩
    obtain ⟨m, rfl⟩ : ∃ m, fuel = m + 1 := ⟨fuel - 1, by omega⟩
    rw [scanClusters_next fs hc (passesCluster_iff.1 hp), hl]
    exact hn m (by omega) (pos + 1)

/-- A search that returns comes to a cluster it does not go on from, if it has one to begin
with. -/
theorem visits_of_returns {r : Except Int32 Fat32DirectoryEntry} :
    ∀ {fuel pos : ℕ} {c : UInt32}, (scanClusters fs name fuel pos c).val = .ok r →
      c = fat32EocMarker ∨ ∃ d, Visits fs (Passed name) c d ∧
        (scanSlots name (clusterSlots fs d) ≠ .next ∨ lowLink fs d = none)
  | 0, _, _, h => by cases h
  | fuel + 1, pos, c, h => by
    by_cases hc : c = fat32EocMarker
    · exact .inl hc
    by_cases hnext : scanSlots name (clusterSlots fs c) = .next
    · rw [scanClusters_next fs hc hnext] at h
      rcases hl : lowLink fs c with _ | d
      · exact .inr ⟨c, .here hc, .inr hl⟩
      · simp only [hl] at h
        rcases visits_of_returns h with hd | ⟨e, hvis, he⟩
        · exact absurd hd (lowLink_ne_eoc fs hl)
        · exact .inr ⟨e, .next hc (passesCluster_iff.2 hnext) hl hvis, he⟩
    · exact .inr ⟨c, .here hc, .inl hnext⟩

theorem meetsUnreadable_of_stop {start d : UInt32} (h : Visits fs (Passed name) start d)
    (hstop : scanSlots name (clusterSlots fs d) = .unread ∨
      scanSlots name (clusterSlots fs d) = .next ∧ lowLink fs d = none) :
    MeetsUnreadable fs name start := by
  rcases hstop with hun | ⟨hnext, hl⟩
  · obtain ⟨i, hi, hpass, hnone⟩ := clusterSlots_unread_iff.1 hun
    exact ⟨d, .data 0 d _, h, .inl ⟨0, i, hi, hpass, rfl⟩, hnone⟩
  · refine ⟨d, .fat 0 d _, h, .inr ⟨passesCluster_iff.2 hnext, 0, rfl⟩, ?_⟩
    exact Option.map_eq_none_iff.1 ((lowLink_eq fs d).symm.trans hl)

/-- A search in vain that has a cluster to begin with comes to a sector that cannot be read or to
an end mark. -/
theorem meets_of_vain {fuel : ℕ} {start : UInt32} {r : Except Int32 Fat32DirectoryEntry}
    (h : (scanClusters fs name fuel 0 start).val = .ok r) (hnone : ¬ ∃ e, Found fs start name e) :
    start = fat32EocMarker ∨ MeetsUnreadable fs name start ∨ MeetsEndMark fs name start := by
  rcases visits_of_returns h with hc | ⟨d, hvis, hstop⟩
  · exact .inl hc
  right
  rcases hr : scanSlots name (clusterSlots fs d) with _ | _ | _ | e
  · exact .inl (meetsUnreadable_of_stop hvis (.inr ⟨hr, hstop.resolve_left (not_not.2 hr)⟩))
  · exact .inr ⟨d, hvis, (scanSlots_eq_endMark_iff _).1 hr⟩
  · exact .inl (meetsUnreadable_of_stop hvis (.inl hr))
  · obtain ⟨n, hn⟩ := hvis.search hstop
    have hval := hn (n + 1) (Nat.lt_succ_self n) 0
    rw [hr] at hval
    exact absurd ⟨e, found_of_scanClusters fs hval⟩ hnone

theorem vain_of_meets {start : UInt32}
    (h : MeetsUnreadable fs name start ∨ MeetsEndMark fs name start) :
    (∃ n, ∀ fuel > n, ∃ code, (scanClusters fs name fuel 0 start).val = .ok (.error code)) ∧
      ¬ ∃ e, Found fs start name e := by
  have hval : ∃ n, ∀ fuel > n, ∃ code,
      (scanClusters fs name fuel 0 start).val = .ok (.error code) := by
    rcases h with ⟨d, a, hvis, hreads, hnone⟩ | ⟨d, hvis, hmark⟩
    · rcases hreads with ⟨pos, i, hi, hpass, rfl⟩ | ⟨hp, pos, rfl⟩
      · have hun : scanSlots name (clusterSlots fs d) = .unread :=
          clusterSlots_unread_iff.2 ⟨i, hi, hpass, hnone⟩
        obtain ⟨n, hn⟩ := hvis.search (.inl (by rw [hun]; exact SlotScan.noConfusion))
        exact ⟨n, fun fuel hf => ⟨_, by rw [hn fuel hf 0, hun]⟩⟩
      · have hl : lowLink fs d = none := by
          rw [lowLink_eq]
          exact Option.map_eq_none_iff.2 hnone
        obtain ⟨n, hn⟩ := hvis.search (.inr hl)
        exact ⟨n, fun fuel hf => ⟨_, by rw [hn fuel hf 0, passesCluster_iff.1 hp]⟩⟩
    · have hend := (scanSlots_eq_endMark_iff _).2 hmark
      obtain ⟨n, hn⟩ := hvis.search (.inl (by rw [hend]; exact SlotScan.noConfusion))
      exact ⟨n, fun fuel hf => ⟨_, by rw [hn fuel hf 0, hend]⟩⟩
  refine ⟨hval, ?_⟩
  rintro ⟨e, he⟩
  obtain ⟨n, hn⟩ := hval
  obtain ⟨k, hk⟩ := he.scanClusters
  obtain ⟨code, hcode⟩ := hn (max k (n + 1)) (Nat.lt_of_succ_le (le_max_right _ _))
  rw [hk _ (le_max_left _ _)] at hcode
  cases hcode

/-! ## The places of reads -/

theorem walk_of_mem_log {visit : EntryLoop} {Pass : Fat32DirectoryEntry → Prop}
    (hvisit : ∀ es, visit es = none ↔ ∀ d ∈ es, Pass d) {notFound : Int32} {a : Access} :
    ∀ {fuel pos : ℕ} {c : UInt32}, a ∈ (visitClusters visit notFound fs fuel pos c).log →
      ∃ k, a.pos = pos + k ∧ walk (lowLink fs) c k = some a.cluster
  | 0, _, _, h => by simp [visitClusters] at h
  | fuel + 1, pos, c, h => by
    have hsectors : a ∈ (visitSectors visit fs pos c (clusterStart fs c)
        (List.range fs.sectorsPerCluster.toNat)).log →
        ∃ k, a.pos = pos + k ∧ walk (lowLink fs) c k = some a.cluster := by
      intro h
      rw [List.range_eq_range'] at h
      obtain ⟨i, -, -, -, rfl⟩ := (mem_visitSectors hvisit).1 h
      exact ⟨0, rfl, rfl⟩
    by_cases hc : c = fat32EocMarker
    · simp [visitClusters, hc] at h
    by_cases hp : PassesCluster fs Pass c
    · rw [visitClusters_log_next hvisit hc hp, List.mem_append, List.mem_cons] at h
      rcases h with h | rfl | h
      · exact hsectors h
      · exact ⟨0, rfl, rfl⟩
      · rcases hl : lowLink fs c with _ | d
        · simp [hl] at h
        · simp only [hl] at h
          obtain ⟨k, hpos, hwalk⟩ := walk_of_mem_log hvisit h
          refine ⟨k + 1, by omega, ?_⟩
          rw [walk_succ', hl]
          exact hwalk
    · rw [visitClusters_log_stop hvisit hc hp] at h
      exact hsectors h

theorem log_subset_of_walk {visit : EntryLoop} {Pass : Fat32DirectoryEntry → Prop}
    (hvisit : ∀ es, visit es = none ↔ ∀ d ∈ es, Pass d) (notFound : Int32) {d : UInt32} :
    ∀ {k : ℕ} {c : UInt32}, c ≠ fat32EocMarker → walk (lowLink fs) c k = some d →
      (∀ j < k, ∀ e, walk (lowLink fs) c j = some e → PassesCluster fs Pass e) → ∀ fuel pos,
      (visitClusters visit notFound fs fuel (pos + k) d).log ⊆
        (visitClusters visit notFound fs (fuel + k) pos c).log
  | 0, _, _, h, _, _, _ => by
    cases h
    exact List.Subset.refl _
  | k + 1, c, hc, h, hpass, fuel, pos => by
    rw [walk_succ'] at h
    obtain ⟨b, hl, hb⟩ := Option.bind_eq_some_iff.1 h
    have hsub := log_subset_of_walk hvisit notFound (lowLink_ne_eoc fs hl) hb
      (fun j hj e he => hpass (j + 1) (by omega) e (by rw [walk_succ', hl]; exact he)) fuel
      (pos + 1)
    rw [← Nat.add_assoc fuel, visitClusters_log_next hvisit hc (hpass 0 (by omega) c rfl), hl]
    intro a ha
    refine List.mem_append_right _ (List.mem_cons_of_mem _ (hsub ?_))
    rwa [Nat.add_assoc, Nat.add_comm 1]

theorem exists_read {visit : EntryLoop} {Pass : Fat32DirectoryEntry → Prop}
    (hvisit : ∀ es, visit es = none ↔ ∀ d ∈ es, Pass d) (notFound : Int32) {d : UInt32}
    (hd : d ≠ fat32EocMarker) (fuel pos : ℕ) :
    ∃ a ∈ (visitClusters visit notFound fs (fuel + 1) pos d).log, a.pos = pos ∧ a.cluster = d := by
  rcases Nat.eq_zero_or_pos fs.sectorsPerCluster.toNat with h0 | hpos
  · have hp : PassesCluster fs Pass d := fun i hi => by omega
    rw [visitClusters_log_next hvisit hd hp]
    exact ⟨_, List.mem_append_right _ List.mem_cons_self, rfl, rfl⟩
  · refine ⟨.data pos d (clusterStart fs d + UInt32.ofNat 0), visitSectors_subset hvisit hd ?_, rfl,
      rfl⟩
    rw [List.range_eq_range']
    exact (mem_visitSectors hvisit).2 ⟨0, le_rfl, by omega, fun j _ hj => by omega, rfl⟩

/-! ## The end of a directory -/

/-- Where the clusters are below 256, the walk by low bytes is the chain. -/
theorem walk_of_low {start : UInt32} {n : ℕ}
    (h : ∀ k, 0 < k → k ≤ n → ∀ d, chain fs start k = some d → d.toNat < 256) :
    ∀ {k : ℕ} {d : UInt32}, k ≤ n → chain fs start k = some d →
      walk (lowLink fs) start k = some d
  | 0, _, _, hd => hd
  | k + 1, d, hk, hd => by
    obtain ⟨b, hb, hlink⟩ := Option.bind_eq_some_iff.1 hd
    have hlt := h (k + 1) (Nat.succ_pos k) hk d hd
    obtain ⟨d', hl, hmod⟩ := lowLink_of_fatEntry ((link_eq_some_iff fs).1 hlink).1
    rw [Nat.mod_eq_of_lt hlt, UInt32.toNat_inj] at hmod
    rw [walk_succ_of _ (walk_of_low h (Nat.le_of_succ_le hk) hb), hl, hmod]

theorem walk_lt {start d : UInt32} {k : ℕ} (hk : 0 < k)
    (h : walk (lowLink fs) start k = some d) : d.toNat < 256 := by
  obtain ⟨k, rfl⟩ : ∃ m, k = m + 1 := ⟨k - 1, by omega⟩
  obtain ⟨b, -, hl⟩ := Option.bind_eq_some_iff.1 h
  exact lowLink_lt fs hl

theorem chain_ne_eoc {start d : UInt32} {k : ℕ} (hstart : start ≠ fat32EocMarker)
    (h : chain fs start k = some d) : d ≠ fat32EocMarker := by
  obtain _ | k := k
  · cases h
    exact hstart
  · obtain ⟨b, -, hlink⟩ := Option.bind_eq_some_iff.1 h
    rintro rfl
    exact absurd (link_lt fs hlink).2 (by decide)

end

section

variable {fs} {dir : Fat32DirEntry} {nm : List UInt8} {fuel : ℕ}

theorem reachedEnd_iff {r : Int32 × Fat32DirEntry}
    (hstart : searchStart fs dir ≠ fat32EocMarker)
    (h : (readDirEntry fuel fs dir nm).val = .ok r) :
    ReachedEnd fs (formatNameToFat32 nm) (searchStart fs dir) (readDirEntry fuel fs dir nm).log ↔
      LowToEnd fs (formatNameToFat32 nm) (searchStart fs dir) := by
  have hvisit := @nameEntries_eq_none_iff (formatNameToFat32 nm)
  constructor
  · rintro (heoc | ⟨n, c, hend, hcover⟩)
    · exact absurd heoc hstart
    refine ⟨n, c, hend, fun k h0 hk d hd => ?_⟩
    obtain ⟨a, ha, hpos, hcluster⟩ := hcover k hk d hd
    rw [readDirEntry_log] at ha
    obtain ⟨k', hk', hwalk⟩ := walk_of_mem_log hvisit ha
    obtain rfl : k' = k := by omega
    rw [hcluster] at hwalk
    exact walk_lt h0 hwalk
  · rintro ⟨n, c, hend, hlow⟩
    refine .inr ⟨n, c, hend, fun k hk d hd => ?_⟩
    -- a larger bound has the same reads
    rw [← readDirEntry_mono fs h (show fuel ≤ fuel + 1 + k by omega), readDirEntry_log]
    obtain ⟨a, ha, hpos, hcluster⟩ := @exists_read fs _ _ hvisit fat32ErrorNoFile _
      (chain_ne_eoc hstart hd) fuel (0 + k)
    refine ⟨a, log_subset_of_walk hvisit fat32ErrorNoFile hstart (walk_of_low hlow hk hd)
      (fun j hj e he => ?_) (fuel + 1) 0 ha, by omega, hcluster⟩
    obtain ⟨e', he'⟩ := Option.isSome_iff_exists.1 (walk_isSome_of_le (link fs)
      (show j ≤ n by omega) (a := searchStart fs dir) (by
        show (chain fs (searchStart fs dir) n).isSome
        rw [hend.chain]
        rfl))
    have := walk_of_low hlow (show j ≤ n by omega) he'
    rw [he, Option.some.injEq] at this
    subst this
    exact hend.passes j (by omega) e he'

theorem vain_unique {path : Fat32Path} {name name' : List UInt8} :
    ∀ {names names' : List (List UInt8)} {es es' : List Fat32DirectoryEntry} {start : UInt32}
      {i : ℕ},
      (∀ j (h : j < (names ++ [name]).length), path.component (i + j) = pure (names ++ [name])[j]) →
      (∀ j (h : j < (names' ++ [name']).length),
        path.component (i + j) = pure (names' ++ [name'])[j]) →
      Trail fs start names es → Trail fs start names' es' →
      (¬ ∃ e, Found fs (trailEnd start es) (formatNameToFat32 name) e) →
      (¬ ∃ e, Found fs (trailEnd start es') (formatNameToFat32 name') e) →
      name = name' ∧ es = es'
  | [], [], [], [], _, i, h, h', _, _, _, _ => by
    have h0 := (h 0 (by simp)).symm.trans (h' 0 (by simp))
    exact ⟨Except.ok.inj (congrArg Traced.val h0), rfl⟩
  | [], n' :: names', [], e' :: es', start, i, h, h', _, ht', hv, _ => by
    have h0 := (h 0 (by simp)).symm.trans (h' 0 (by simp))
    have hname : name = n' := Except.ok.inj (congrArg Traced.val h0)
    subst hname
    exact absurd ⟨e', ht'.1⟩ hv
  | n :: names, [], e :: es, [], start, i, h, h', ht, _, _, hv' => by
    have h0 := (h 0 (by simp)).symm.trans (h' 0 (by simp))
    have hname : n = name' := Except.ok.inj (congrArg Traced.val h0)
    subst hname
    exact absurd ⟨e, ht.1⟩ hv'
  | n :: names, n' :: names', e :: es, e' :: es', start, i, h, h', ht, ht', hv, hv' => by
    have h0 := (h 0 (by simp)).symm.trans (h' 0 (by simp))
    have hname : n = n' := Except.ok.inj (congrArg Traced.val h0)
    subst hname
    obtain rfl := ht.1.unique fs ht'.1
    obtain ⟨hname, rfl⟩ := @vain_unique path name name' names names' es es' e.startCluster (i + 1)
      (fun j hj => by
        rw [Nat.add_assoc, Nat.add_comm 1]
        exact h (j + 1) (by simpa using hj))
      (fun j hj => by
        rw [Nat.add_assoc, Nat.add_comm 1]
        exact h' (j + 1) (by simpa using hj)) ht.2 ht'.2 hv hv'
    exact ⟨hname, rfl⟩

theorem fat32Open_of_meets {path : CString} (file : Fat32File) {prior : ℕ → UInt8}
    (hinit : fs.isInitialized) {names : List (List UInt8)} {es : List Fat32DirectoryEntry}
    (hnames : SearchedFor (parseFat32Path path prior) (names ++ [nm]))
    (htrail : Trail fs fs.rootCluster names es)
    (h : MeetsUnreadable fs (formatNameToFat32 nm) (trailEnd fs.rootCluster es) ∨
      MeetsEndMark fs (formatNameToFat32 nm) (trailEnd fs.rootCluster es)) :
    ∃ k, ∀ fuel ≥ k, ∃ code, (code = fat32ErrorNoFile ∨ code = fat32ErrorNoPath) ∧
      (fat32Open fuel fs path file prior).val = .ok (code, file) := by
  obtain ⟨⟨n, hn⟩, hnone⟩ := vain_of_meets h
  refine fat32Open_stuck file hinit hnames htrail fun fuel (hf : fuel > n) => ?_
  obtain ⟨code, hcode⟩ := hn fuel hf
  rw [← searchStart_trail] at hcode hnone
  have hread : (readDirEntry fuel fs (dirAfter noDir es) nm).val =
      .ok (code, dirAfter noDir es) := by
    rw [readDirEntry, Traced.val_bind_of_ok hcode]
    rfl
  exact ⟨code, _, hread, readDirEntry_ne_zero fs hnone hread⟩

theorem exists_unreadable {start : UInt32} (h : MeetsUnreadable fs (formatNameToFat32 nm) start)
    (hstart : searchStart fs dir = start) : ∃ n, ∀ fuel > n,
      ∃ a ∈ (readDirEntry fuel fs dir nm).log, fs.disk.readSector a.sector = none := by
  obtain ⟨d, a, hvis, hreads, hnone⟩ := h
  obtain ⟨n, hn⟩ := hvis.reads nameEntries_eq_none_iff fat32ErrorNoFile
  refine ⟨n, fun fuel hf => ?_⟩
  obtain ⟨p, hdata, hfat⟩ := hn fuel hf 0
  rw [readDirEntry_log, hstart]
  rcases hreads with ⟨pos, i, hi, hpass, rfl⟩ | ⟨hp, pos, rfl⟩
  · exact ⟨_, hdata i hi hpass, hnone⟩
  · exact ⟨_, hfat hp, hnone⟩

theorem not_trueCause_of_unreadable {path : CString} (file : Fat32File) (prior : ℕ → UInt8)
    (hinit : fs.isInitialized) {names : List (List UInt8)} {es : List Fat32DirectoryEntry}
    (hnames : SearchedFor (parseFat32Path path prior) (names ++ [nm]))
    (htrail : Trail fs fs.rootCluster names es)
    (h : MeetsUnreadable fs (formatNameToFat32 nm) (trailEnd fs.rootCluster es)) :
    ¬ TrueCause fs path file prior := by
  intro htrue
  obtain ⟨k, hk⟩ := fat32Open_of_meets file hinit hnames htrail (.inl h)
  obtain ⟨k', hk'⟩ := fat32Open_reads file hinit hnames htrail
  obtain ⟨n, hn⟩ := exists_unreadable h (searchStart_trail es)
  obtain ⟨a, ha, hnone⟩ := hn (max k (max k' (n + 1))) (by omega)
  obtain ⟨code, hcode, hval⟩ := hk (max k (max k' (n + 1))) (by omega)
  have hio := (htrue _ _ _ hval).2 ⟨a, hk' _ (by omega) ha, hnone⟩
  subst hio
  exact absurd hcode (by decide)

theorem lowToEnd_of_trueCause {path : CString} {file : Fat32File} {prior : ℕ → UInt8}
    (htrue : TrueCause fs path file prior) (hinit : fs.isInitialized) {names : List (List UInt8)}
    {es : List Fat32DirectoryEntry}
    (hnames : SearchedFor (parseFat32Path path prior) (names ++ [nm]))
    (htrail : Trail fs fs.rootCluster names es)
    (h : MeetsEndMark fs (formatNameToFat32 nm) (trailEnd fs.rootCluster es)) :
    LowToEnd fs (formatNameToFat32 nm) (trailEnd fs.rootCluster es) := by
  obtain ⟨k, hk⟩ := fat32Open_of_meets file hinit hnames htrail (.inr h)
  obtain ⟨code, hcode, hval⟩ := hk k le_rfl
  obtain ⟨-, names', name', es', hnames', htrail', hvain', hreached⟩ := (htrue _ _ _ hval).1 hcode
  obtain ⟨rfl, rfl⟩ := vain_unique hnames'.split.1 hnames.split.1 htrail' htrail hvain'
    (vain_of_meets (.inr h)).2
  obtain ⟨d, hvis, -⟩ := h
  obtain ⟨r, hread⟩ := fat32Open_returned hinit hval hnames htrail
  rw [← searchStart_trail] at hreached ⊢ hvis
  have hstart : searchStart fs (dirAfter noDir es') ≠ fat32EocMarker := by
    cases hvis <;> assumption
  exact (reachedEnd_iff hstart hread).1 hreached

end

/-- An open reports the cause of its failure exactly if no search it makes comes to a sector that
cannot be read, and each that comes to an end mark is in a directory whose clusters are all below
256, up to its end. -/
theorem trueCause_iff (fs : Fat32Fs) (path : CString) (file : Fat32File) (prior : ℕ → UInt8) :
    TrueCause fs path file prior ↔ (fs.isInitialized → ∀ names name es,
      SearchedFor (parseFat32Path path prior) (names ++ [name]) → Trail fs fs.rootCluster names es →
      ¬ MeetsUnreadable fs (formatNameToFat32 name) (trailEnd fs.rootCluster es) ∧
      (MeetsEndMark fs (formatNameToFat32 name) (trailEnd fs.rootCluster es) →
        LowToEnd fs (formatNameToFat32 name) (trailEnd fs.rootCluster es))) := by
  constructor
  · intro h hinit names name es hnames htrail
    exact ⟨fun hun => not_trueCause_of_unreadable file prior hinit hnames htrail hun h,
      lowToEnd_of_trueCause h hinit hnames htrail⟩
  · intro h fuel r file' hval
    rcases hinit : fs.isInitialized with _ | _
    · -- an open before the mount makes no read
      simp only [fat32Open, hinit] at hval ⊢
      cases hval
      refine ⟨fun hr => absurd hr (by decide), ?_⟩
      rintro ⟨a, ha, -⟩
      exact absurd ha List.not_mem_nil
    replace h := h hinit
    have hall : ∀ a ∈ (fat32Open fuel fs path file prior).log,
        (fs.disk.readSector a.sector).isSome := by
      intro a ha
      obtain ⟨names, name, es, hnames, htrail, ha⟩ := mem_fat32Open ha
      rw [readDirEntry_log, searchStart_trail] at ha
      obtain ⟨d, hvis, hreads⟩ := visitClusters_reads nameEntries_eq_none_iff ha
      rw [Option.isSome_iff_ne_none]
      exact fun hnone => (h names name es hnames htrail).1 ⟨d, a, hvis, hreads, hnone⟩
    refine ⟨fun hr => ⟨hall, ?_⟩, ?_⟩
    · obtain ⟨names, name, es, hnames, htrail, code, d, hread, hcode⟩ := fat32Open_vain hval hr
      obtain ⟨hun, hlow⟩ := h names name es hnames htrail
      have hvain : ¬ ∃ e, Found fs (trailEnd fs.rootCluster es) (formatNameToFat32 name) e := by
        rintro ⟨e, he⟩
        rw [← searchStart_trail] at he
        exact hcode (Prod.mk.inj (he.readDirEntry_eq fs hread)).1
      refine ⟨names, name, es, hnames, htrail, hvain, ?_⟩
      by_cases hstart : trailEnd fs.rootCluster es = fat32EocMarker
      · exact .inl hstart
      obtain ⟨a, hscan, -⟩ := Traced.val_bind_eq_ok.1 hread
      rw [searchStart_trail] at hscan
      have hend := ((meets_of_vain hscan hvain).resolve_left hstart).resolve_left hun
      rw [← searchStart_trail] at hstart hlow hend ⊢
      exact (reachedEnd_iff hstart hread).2 (hlow hend)
    · rintro ⟨a, ha, hnone⟩
      have := hall a ha
      rw [hnone] at this
      cases this

/-- A card with no sector that can be read but the first reports a file that is not there. -/
theorem unreadable_root_no_file :
    ¬ ∀ disk mem fs, fat32Mount disk mem = .mounted fs → ∀ path file prior,
      keptComponents path ≠ [] → TrueCause fs path file prior := by
  intro h
  have hkept : keptComponents ⟨[0x42], by decide⟩ = [] ++ [0x42] :: [] := by decide
  have hun : MeetsUnreadable (cardFs fun _ => none) (formatNameToFat32 [0x42])
      (trailEnd (cardFs fun _ => none).rootCluster []) :=
    ⟨2, .data 0 2 2, .here (by decide), .inl ⟨0, 0, by decide, fun j hj => by omega, rfl⟩, rfl⟩
  have htrail : Trail (cardFs fun _ => none) (cardFs fun _ => none).rootCluster [] [] := trivial
  exact not_trueCause_of_unreadable (smallFile ⟨fun _ => none⟩ 0 0 0) (fun _ => 0) rfl
    (searchedFor_kept hkept _) htrail hun
    (h _ _ _ (cardFs_mounted fun _ => none) _ _ _ (by rw [hkept]; decide))

end BeagleKernel.Fat32
