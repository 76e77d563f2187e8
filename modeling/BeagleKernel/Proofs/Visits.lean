import BeagleKernel.Fat32.Label
import BeagleKernel.Proofs.Open

/-!
# What a directory loop reads

The loop over a directory reads each cluster it gets to up to the first sector with an entry it
does not pass, and looks up the next cluster where it passes them all (`visitClusters_reads`,
`Visits.reads`).
-/

namespace BeagleKernel.Fat32

section

variable (fs : Fat32Fs) (Pass : Fat32DirectoryEntry → Prop)

/-- The sector can be read, and all its entries pass. -/
def PassesSector (s : UInt32) : Prop :=
  ∃ b, fs.disk.readSector s = some b ∧ ∀ d ∈ b.dirEntries, Pass d

def PassesCluster (c : UInt32) : Prop :=
  ∀ i < fs.sectorsPerCluster.toNat, PassesSector fs Pass (clusterStart fs c + UInt32.ofNat i)

/-- The clusters a directory loop gets to from `c` on, by the low bytes of the links. -/
inductive Visits : UInt32 → UInt32 → Prop
  | here {c} : c ≠ fat32EocMarker → Visits c c
  | next {c d e} : c ≠ fat32EocMarker → PassesCluster fs Pass c → lowLink fs c = some d →
      Visits d e → Visits c e

/-- An access of the loop at a cluster: one of its sectors, all those before having passed, or,
with all of them passed, its FAT entry. -/
def Reads (c : UInt32) (a : Access) : Prop :=
  (∃ pos, ∃ i < fs.sectorsPerCluster.toNat,
    (∀ j < i, PassesSector fs Pass (clusterStart fs c + UInt32.ofNat j)) ∧
      a = .data pos c (clusterStart fs c + UInt32.ofNat i)) ∨
  (PassesCluster fs Pass c ∧ ∃ pos, a = .fat pos c (fatSector fs c))

end

variable {fs : Fat32Fs} {Pass : Fat32DirectoryEntry → Prop} {visit : EntryLoop} {notFound : Int32}
  {pos : ℕ} {c target : UInt32} {a : Access}

theorem fat32ReadFatEntry_log (pos : ℕ) (c : UInt32) :
    (fat32ReadFatEntry fs pos c).log = [.fat pos c (fatSector fs c)] := by
  unfold fat32ReadFatEntry Fat32Fs.readSector
  rw [Traced.event_bind]
  simp only [Access.sector]
  rcases fs.disk.readSector (fatSector fs c) with _ | s
  · rfl
  · simp only [index_entryOffset, Traced.pure_bind]
    split_ifs <;> rfl

section

variable (hvisit : ∀ es, visit es = none ↔ ∀ d ∈ es, Pass d)

include hvisit

theorem visitSectors_next {sectors : List ℕ} :
    (visitSectors visit fs pos c target sectors).val = .ok (.next ()) ↔
      ∀ i ∈ sectors, PassesSector fs Pass (target + UInt32.ofNat i) := by
  induction sectors with
  | nil => simp [visitSectors]
  | cons i sectors ih =>
    simp only [visitSectors, Fat32Fs.readSector, Traced.event_bind, List.forall_mem_cons,
      Access.sector]
    rcases hb : fs.disk.readSector (target + UInt32.ofNat i) with _ | b
    · simp [PassesSector, hb]
    rcases hr : visit b.dirEntries with _ | r
    · have hpass : PassesSector fs Pass (target + UInt32.ofNat i) := ⟨b, hb, (hvisit _).1 hr⟩
      simp only [hr, hpass, true_and, ih]
    · have hnot : ¬ PassesSector fs Pass (target + UInt32.ofNat i) := by
        rintro ⟨b', hb', hpass⟩
        rw [hb, Option.some.injEq] at hb'
        rw [hb', (hvisit _).2 hpass] at hr
        cases hr
      simp [hr, hnot]

theorem mem_visitSectors : ∀ {n k : ℕ},
    a ∈ (visitSectors visit fs pos c target (List.range' k n)).log ↔
      ∃ i, k ≤ i ∧ i < k + n ∧
        (∀ j, k ≤ j → j < i → PassesSector fs Pass (target + UInt32.ofNat j)) ∧
        a = .data pos c (target + UInt32.ofNat i)
  | 0, k => by
    simp only [List.range'_zero, visitSectors, Traced.log_pure, List.not_mem_nil, false_iff]
    rintro ⟨i, hk, hi, -⟩
    omega
  | n + 1, k => by
    have ih := @mem_visitSectors n (k + 1)
    rw [List.range'_succ]
    simp only [visitSectors, Fat32Fs.readSector, Traced.event_bind, Access.sector, List.mem_cons]
    constructor
    · rintro (rfl | ha)
      · exact ⟨k, le_rfl, by omega, fun j hk hj => by omega, rfl⟩
      rcases hb : fs.disk.readSector (target + UInt32.ofNat k) with _ | b
      · simp [hb] at ha
      rcases hr : visit b.dirEntries with _ | r
      · simp only [hb, hr] at ha
        obtain ⟨i, hk, hi, hpass, rfl⟩ := ih.1 ha
        refine ⟨i, by omega, by omega, fun j hkj hj => ?_, rfl⟩
        rcases hkj.eq_or_lt with rfl | hlt
        · exact ⟨b, hb, (hvisit _).1 hr⟩
        · exact hpass j hlt hj
      · simp [hb, hr] at ha
    · rintro ⟨i, hk, hi, hpass, rfl⟩
      rcases hk.eq_or_lt with rfl | hlt
      · exact .inl rfl
      · obtain ⟨b, hb, hb'⟩ := hpass k le_rfl hlt
        simp only [hb, (hvisit _).2 hb']
        exact .inr (ih.2 ⟨i, hlt, by omega, fun j hkj hj => hpass j (by omega) hj, rfl⟩)

theorem visitClusters_log_next {fuel : ℕ} (hc : c ≠ fat32EocMarker)
    (h : PassesCluster fs Pass c) :
    (visitClusters visit notFound fs (fuel + 1) pos c).log =
      (visitSectors visit fs pos c (clusterStart fs c)
          (List.range fs.sectorsPerCluster.toNat)).log ++
        .fat pos c (fatSector fs c) :: (match lowLink fs c with
          | none => []
          | some d => (visitClusters visit notFound fs fuel (pos + 1) d).log) := by
  have hs : (visitSectors visit fs pos c (clusterStart fs c)
      (List.range fs.sectorsPerCluster.toNat)).val = .ok (.next ()) :=
    (visitSectors_next hvisit).2 fun i hi => h i (List.mem_range.1 hi)
  rw [visitClusters, if_neg hc, sectorTarget_eq, Traced.log_bind_of_ok hs]
  simp only []
  rw [Traced.log_bind_of_ok (fat32ReadFatEntry_val fs pos c), fat32ReadFatEntry_log]
  rcases hl : lowLink fs c with _ | d
  · rfl
  · have hlt := lowLink_lt fs hl
    simp only [List.singleton_append]
    rw [if_neg (Int32.not_lt.2 (UInt32.toInt32_nonneg.2 (by omega))), UInt32.toUInt32_toInt32]

theorem visitClusters_log_stop {fuel : ℕ} (hc : c ≠ fat32EocMarker)
    (h : ¬ PassesCluster fs Pass c) :
    (visitClusters visit notFound fs (fuel + 1) pos c).log =
      (visitSectors visit fs pos c (clusterStart fs c)
          (List.range fs.sectorsPerCluster.toNat)).log := by
  rw [visitClusters, if_neg hc, sectorTarget_eq]
  rcases hs : (visitSectors visit fs pos c (clusterStart fs c)
      (List.range fs.sectorsPerCluster.toNat)).val with e | ⟨⟨⟩⟩ | r
  · rw [Traced.bind_of_error hs]
  · exact absurd (fun i hi => (visitSectors_next hvisit).1 hs i (List.mem_range.2 hi)) h
  · rw [Traced.log_bind_of_ok hs]
    exact List.append_nil _

theorem reads_of_mem_visitSectors
    (h : a ∈ (visitSectors visit fs pos c (clusterStart fs c)
      (List.range fs.sectorsPerCluster.toNat)).log) : Reads fs Pass c a := by
  rw [List.range_eq_range'] at h
  obtain ⟨i, -, hi, hpass, rfl⟩ := (mem_visitSectors hvisit).1 h
  exact .inl ⟨pos, i, by omega, fun j hj => hpass j (Nat.zero_le _) hj, rfl⟩

theorem visitClusters_reads : ∀ {fuel pos : ℕ} {c : UInt32},
    a ∈ (visitClusters visit notFound fs fuel pos c).log →
      ∃ d, Visits fs Pass c d ∧ Reads fs Pass d a
  | 0, _, _, h => by simp [visitClusters] at h
  | fuel + 1, pos, c, h => by
    by_cases hc : c = fat32EocMarker
    · simp [visitClusters, hc] at h
    by_cases hp : PassesCluster fs Pass c
    · rw [visitClusters_log_next hvisit hc hp, List.mem_append, List.mem_cons] at h
      rcases h with h | rfl | h
      · exact ⟨c, .here hc, reads_of_mem_visitSectors hvisit h⟩
      · exact ⟨c, .here hc, .inr ⟨hp, pos, rfl⟩⟩
      · rcases hl : lowLink fs c with _ | d
        · simp [hl] at h
        · simp only [hl] at h
          obtain ⟨e, hv, hr⟩ := visitClusters_reads h
          exact ⟨e, .next hc hp hl hv, hr⟩
    · rw [visitClusters_log_stop hvisit hc hp] at h
      exact ⟨c, .here hc, reads_of_mem_visitSectors hvisit h⟩

theorem visitSectors_subset {fuel : ℕ} (hc : c ≠ fat32EocMarker) :
    (visitSectors visit fs pos c (clusterStart fs c)
        (List.range fs.sectorsPerCluster.toNat)).log ⊆
      (visitClusters visit notFound fs (fuel + 1) pos c).log := by
  by_cases hp : PassesCluster fs Pass c
  · rw [visitClusters_log_next hvisit hc hp]
    exact List.subset_append_left _ _
  · rw [visitClusters_log_stop hvisit hc hp]
    exact List.Subset.refl _

omit hvisit in
theorem Visits.ne_eoc {d : UInt32} (h : Visits fs Pass c d) : d ≠ fat32EocMarker := by
  induction h with
  | here hc => exact hc
  | next _ _ _ _ ih => exact ih

theorem Visits.log_subset (notFound : Int32) {d : UInt32} (h : Visits fs Pass c d) :
    ∃ n, ∀ fuel pos, ∃ p, (visitClusters visit notFound fs fuel p d).log ⊆
      (visitClusters visit notFound fs (fuel + n) pos c).log := by
  induction h with
  | here _ => exact ⟨0, fun fuel pos => ⟨pos, List.Subset.refl _⟩⟩
  | next hc hp hl _ ih =>
    obtain ⟨n, hn⟩ := ih
    refine ⟨n + 1, fun fuel pos => ?_⟩
    obtain ⟨p, hsub⟩ := hn fuel (pos + 1)
    refine ⟨p, fun a ha => ?_⟩
    rw [← Nat.add_assoc, visitClusters_log_next hvisit hc hp, hl]
    exact List.mem_append_right _ (List.mem_cons_of_mem _ (hsub ha))

/-- It reads every sector of such a cluster that comes after sectors that pass, and the FAT entry
of one that passes, with any large enough bound. -/
theorem Visits.reads (notFound : Int32) {d : UInt32} (h : Visits fs Pass c d) :
    ∃ n, ∀ fuel > n, ∀ pos, ∃ p,
      (∀ i < fs.sectorsPerCluster.toNat,
        (∀ j < i, PassesSector fs Pass (clusterStart fs d + UInt32.ofNat j)) →
        .data p d (clusterStart fs d + UInt32.ofNat i) ∈
          (visitClusters visit notFound fs fuel pos c).log) ∧
      (PassesCluster fs Pass d → .fat p d (fatSector fs d) ∈
        (visitClusters visit notFound fs fuel pos c).log) := by
  obtain ⟨n, hn⟩ := h.log_subset hvisit notFound
  refine ⟨n, fun fuel hf pos => ?_⟩
  obtain ⟨m, rfl⟩ : ∃ m, fuel = m + 1 + n := ⟨fuel - n - 1, by omega⟩
  obtain ⟨p, hsub⟩ := hn (m + 1) pos
  refine ⟨p, fun i hi hpass => hsub ?_, fun hp => hsub ?_⟩
  · refine visitSectors_subset hvisit h.ne_eoc ?_
    rw [List.range_eq_range']
    exact (mem_visitSectors hvisit).2 ⟨i, Nat.zero_le _, by omega, fun j _ hj => hpass j hj, rfl⟩
  · rw [visitClusters_log_next hvisit h.ne_eoc hp]
    exact List.mem_append_right _ List.mem_cons_self

end

/-! ## The two loops -/

/-- An entry `fat32_readlabel` goes on from. -/
def NoLabel (d : Fat32DirectoryEntry) : Prop := ¬ d.EndMark ∧ (d.Live → ¬ d.IsLabel)

theorem isLabel_iff (d : Fat32DirectoryEntry) : d.IsLabel ↔ d.attr &&& fat32AttrVollabel ≠ 0 := by
  have h : ∀ b : BitVec 8, b &&& 8#8 = 8#8 ↔ b &&& 8#8 ≠ 0#8 := by decide
  rw [Fat32DirectoryEntry.IsLabel, Ne, ← UInt8.toBitVec_inj, ← UInt8.toBitVec_inj,
    UInt8.toBitVec_and]
  exact h d.attr.toBitVec

theorem deleted_ne_empty : fat32EntryDeleted ≠ fat32EntryEmpty := by decide

theorem labelEntries_eq_none_iff : ∀ es, labelEntries es = none ↔ ∀ d ∈ es, NoLabel d
  | [] => by simp [labelEntries]
  | e :: es => by
    rw [labelEntries, List.forall_mem_cons, ← labelEntries_eq_none_iff es, NoLabel, isLabel_iff,
      Fat32DirectoryEntry.EndMark, Fat32DirectoryEntry.Live]
    split_ifs with hempty hdel hlabel
    · simp [hempty]
    · simp [hdel, deleted_ne_empty]
    · simp [hempty, hdel, hlabel]
    · simp [hempty, hlabel]

theorem nameEntries_eq_none_iff {name : Fin 11 → UInt8} :
    ∀ es, nameEntries name es = none ↔ ∀ d ∈ es, Passed name d
  | [] => by simp [nameEntries, scanEntries]
  | e :: es => by
    have ih := @nameEntries_eq_none_iff name es
    simp only [nameEntries] at ih
    rw [nameEntries, scanEntries, List.forall_mem_cons, ← ih, Passed,
      Fat32DirectoryEntry.EndMark, Fat32DirectoryEntry.Live]
    split_ifs with hempty hdel hname
    · simp [hempty]
    · simp [hdel, deleted_ne_empty]
    · simp [hempty, hdel, hname]
    · simp [hempty, Ne.symm hname]

end BeagleKernel.Fat32
