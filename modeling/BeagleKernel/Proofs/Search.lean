import BeagleKernel.Fat32.Directory
import BeagleKernel.Lib.Bytes
import BeagleKernel.Proofs.Chain

/-!
# A directory search

The three loops of `read_dir_entry` go through the slots of the directory one after the other
(`scanSlots`), so a search finds an entry exactly where that is the first with the name along the
low bytes of the links (`scanClusters_found_iff`), and a larger bound on its clusters changes
nothing.
-/

namespace BeagleKernel.Fat32

/-- How the loops of a search go through slots; a slot that cannot be read stops them. -/
inductive SlotScan
  | next
  | endMark
  | unread
  | found (e : Fat32DirectoryEntry)

def scanSlots (name : Fin 11 → UInt8) : List (Option Fat32DirectoryEntry) → SlotScan
  | [] => .next
  | none :: _ => .unread
  | some d :: slots =>
    if d.filename 0 = fat32EntryEmpty then .endMark
    else if d.filename 0 = fat32EntryDeleted then scanSlots name slots
    else if name = d.filename then .found d
    else scanSlots name slots

variable {name : Fin 11 → UInt8}

theorem scanSlots_passed {d : Fat32DirectoryEntry} (h : Passed name d)
    (slots : List (Option Fat32DirectoryEntry)) :
    scanSlots name (some d :: slots) = scanSlots name slots := by
  obtain ⟨hmark, hname⟩ := h
  change ¬ d.filename 0 = fat32EntryEmpty at hmark
  rw [scanSlots, if_neg hmark]
  by_cases hdel : d.filename 0 = fat32EntryDeleted
  · rw [if_pos hdel]
  · rw [if_neg hdel, if_neg (fun h => hname ⟨hmark, hdel⟩ h.symm)]

theorem scanSlots_hit {d : Fat32DirectoryEntry} (h : d.Live) (hn : d.filename = name)
    (slots : List (Option Fat32DirectoryEntry)) :
    scanSlots name (some d :: slots) = .found d := by
  rw [scanSlots, if_neg h.1, if_neg h.2, if_pos hn.symm]

theorem scanSlots_append :
    ∀ slots rest : List (Option Fat32DirectoryEntry), scanSlots name (slots ++ rest) =
      match scanSlots name slots with
      | .next => scanSlots name rest
      | r => r
  | [], _ => rfl
  | none :: _, _ => rfl
  | some d :: slots, rest => by
    simp only [List.cons_append, scanSlots]
    split_ifs
    · rfl
    · exact scanSlots_append slots rest
    · rfl
    · exact scanSlots_append slots rest

theorem scanSlots_eq_found_iff {e : Fat32DirectoryEntry} :
    ∀ slots : List (Option Fat32DirectoryEntry), scanSlots name slots = .found e ↔
      e.Live ∧ e.filename = name ∧ FirstNot (Passed name) slots e
  | [] => by
    refine iff_of_false (by simp [scanSlots]) ?_
    rintro ⟨-, -, pre, post, h, -⟩
    cases pre <;> cases h
  | none :: slots => by
    refine iff_of_false (by simp [scanSlots]) ?_
    rintro ⟨-, -, pre, post, h, hpre⟩
    cases pre with
    | nil => cases h
    | cons x pre =>
      obtain ⟨d, rfl, -⟩ := hpre x List.mem_cons_self
      cases h
  | some d :: slots => by
    by_cases hp : Passed name d
    · rw [scanSlots_passed hp, scanSlots_eq_found_iff slots]
      refine and_congr_right fun hlive => and_congr_right fun hname => ⟨?_, ?_⟩
      · rintro ⟨pre, post, rfl, hpre⟩
        refine ⟨some d :: pre, post, rfl, fun x hx => ?_⟩
        rcases List.mem_cons.1 hx with rfl | hx
        · exact ⟨d, rfl, hp⟩
        · exact hpre x hx
      · rintro ⟨pre, post, h, hpre⟩
        cases pre with
        | nil =>
          cases h
          exact absurd hname (hp.2 hlive)
        | cons x pre =>
          cases h
          exact ⟨pre, post, rfl, fun x hx => hpre x (List.mem_cons_of_mem _ hx)⟩
    · by_cases hhit : d.Live ∧ d.filename = name
      · rw [scanSlots_hit hhit.1 hhit.2]
        constructor
        · rintro ⟨⟩
          exact ⟨hhit.1, hhit.2, [], slots, rfl, by simp⟩
        · rintro ⟨-, -, pre, post, h, hpre⟩
          cases pre with
          | nil => cases h; rfl
          | cons x pre =>
            cases h
            obtain ⟨d', h', hd'⟩ := hpre _ List.mem_cons_self
            cases h'
            exact absurd hd' hp
      · -- an end mark: neither passed nor in use
        have hmark : d.EndMark := by
          by_contra hm
          exact hp ⟨hm, fun hl hn => hhit ⟨hl, hn⟩⟩
        refine iff_of_false ?_ ?_
        · change d.filename 0 = fat32EntryEmpty at hmark
          rw [scanSlots, if_pos hmark]
          exact SlotScan.noConfusion
        · rintro ⟨hlive, hname, pre, post, h, hpre⟩
          cases pre with
          | nil => cases h; exact hhit ⟨hlive, hname⟩
          | cons x pre =>
            cases h
            obtain ⟨d', h', hd'⟩ := hpre _ List.mem_cons_self
            cases h'
            exact hp hd'

theorem scanSlots_eq_next_iff :
    ∀ slots : List (Option Fat32DirectoryEntry), scanSlots name slots = .next ↔
      ∀ x ∈ slots, ∃ d, x = some d ∧ Passed name d
  | [] => by simp [scanSlots]
  | none :: slots => by simp [scanSlots]
  | some d :: slots => by
    rw [List.forall_mem_cons]
    by_cases hp : Passed name d
    · rw [scanSlots_passed hp, scanSlots_eq_next_iff slots]
      exact (and_iff_right ⟨d, rfl, hp⟩).symm
    · refine iff_of_false (fun h => hp ?_) ?_
      · rw [scanSlots] at h
        split_ifs at h with hmark hdel hname
        · exact ⟨hmark, fun hlive => absurd hdel hlive.2⟩
        · exact ⟨hmark, fun _ hn => hname hn.symm⟩
      · rintro ⟨⟨d', hd', hp'⟩, -⟩
        cases hd'
        exact hp hp'

theorem scanSlots_eq_endMark_iff :
    ∀ slots : List (Option Fat32DirectoryEntry), scanSlots name slots = .endMark ↔
      ∃ e, FirstNot (Passed name) slots e ∧ e.EndMark
  | [] => by
    refine iff_of_false SlotScan.noConfusion ?_
    rintro ⟨e, ⟨pre, post, h, -⟩, -⟩
    cases pre <;> cases h
  | none :: slots => by
    refine iff_of_false SlotScan.noConfusion ?_
    rintro ⟨e, ⟨pre, post, h, hpre⟩, -⟩
    cases pre with
    | nil => cases h
    | cons x pre =>
      obtain ⟨d, rfl, -⟩ := hpre x List.mem_cons_self
      cases h
  | some d :: slots => by
    by_cases hp : Passed name d
    · rw [scanSlots_passed hp, scanSlots_eq_endMark_iff slots]
      constructor
      · rintro ⟨e, ⟨pre, post, rfl, hpre⟩, hmark⟩
        exact ⟨e, ⟨some d :: pre, post, rfl, List.forall_mem_cons.2 ⟨⟨d, rfl, hp⟩, hpre⟩⟩, hmark⟩
      · rintro ⟨e, ⟨pre, post, h, hpre⟩, hmark⟩
        cases pre with
        | nil =>
          cases h
          exact absurd hmark hp.1
        | cons x pre =>
          cases h
          exact ⟨e, ⟨pre, post, rfl, fun x hx => hpre x (List.mem_cons_of_mem _ hx)⟩, hmark⟩
    · constructor
      · intro h
        rw [scanSlots] at h
        split_ifs at h with hmark hdel hname
        · exact ⟨d, ⟨[], slots, rfl, by simp⟩, hmark⟩
        · exact absurd ⟨hmark, fun hlive => absurd hdel hlive.2⟩ hp
        · exact absurd ⟨hmark, fun _ hn => hname hn.symm⟩ hp
      · rintro ⟨e, ⟨pre, post, h, hpre⟩, hmark⟩
        cases pre with
        | nil =>
          cases h
          exact if_pos hmark
        | cons x pre =>
          cases h
          obtain ⟨d', hd', hp'⟩ := hpre _ List.mem_cons_self
          cases hd'
          exact absurd hp' hp

/-! ## The loops -/

theorem scanEntries_eq :
    ∀ es : List Fat32DirectoryEntry, scanSlots name (es.map some) =
      match scanEntries name es with
      | .next => .next
      | .endMark => .endMark
      | .found e => .found e
  | [] => rfl
  | e :: es => by
    simp only [List.map_cons, scanSlots, scanEntries]
    split_ifs
    · rfl
    · exact scanEntries_eq es
    · rfl
    · exact scanEntries_eq es

/-- What a scan of slots is to the loop it stands for. -/
def SlotScan.toFlow : SlotScan → Flow Unit (Except Int32 Fat32DirectoryEntry)
  | .next => .next ()
  | .endMark => .ret (.error endOfEntries)
  | .unread => .ret (.error fat32ErrorIo)
  | .found e => .ret (.ok e)

variable (fs : Fat32Fs)

theorem sectorTarget_eq (c : UInt32) : sectorTarget fs c = clusterStart fs c :=
  UInt32.add_comm _ _

theorem scanSectors_eq (pos : ℕ) (c target : UInt32) :
    ∀ sectors : List ℕ, (scanSectors fs name pos c target sectors).val =
      .ok (scanSlots name (sectors.flatMap fun i =>
        sectorSlots fs (target + UInt32.ofNat i))).toFlow
  | [] => rfl
  | i :: sectors => by
    rw [List.flatMap_cons, scanSlots_append, scanSectors]
    simp only [Fat32Fs.readSector, Traced.event_bind, Access.sector, sectorSlots]
    rcases fs.disk.readSector (target + UInt32.ofNat i) with _ | b
    · rfl
    · simp only [scanEntries_eq]
      rcases scanEntries name b.dirEntries with _ | _ | e
      · exact scanSectors_eq pos c target sectors
      · rfl
      · rfl

theorem index_entryOffset (s : Sector) (c : UInt32) :
    s.index (entryOffset c) = pure (s.byte (entryOffset c)) :=
  index_of_lt (by have := entryOffset_lt c; omega)

theorem lowLink_lt {c d : UInt32} (h : lowLink fs c = some d) : d.toNat < 256 := by
  obtain ⟨v, -, rfl⟩ := Option.map_eq_some_iff.1 h
  rw [UInt32.toNat_mod]
  exact Nat.mod_lt _ (by decide)

/-- The low byte of an entry is the first of its four. -/
theorem lowLink_eq (c : UInt32) : lowLink fs c =
    (fs.disk.readSector (fatSector fs c)).map fun s => (s.byte (entryOffset c)).toUInt32 := by
  rw [lowLink, fatEntry_eq, Option.map_map]
  congr 1
  funext s
  have hb := (s.byte (entryOffset c)).toNat_lt
  rw [Function.comp_apply, ← UInt32.toNat_inj, UInt32.toNat_mod, Sector.le32, UInt32.toNat_and,
    UInt32.toNat_le32, UInt8.toNat_toUInt32,
    show (0x0FFFFFFF : UInt32).toNat = 2 ^ 28 - 1 from rfl, Nat.and_two_pow_sub_one_eq_mod]
  simp only [UInt32.reduceToNat]
  omega

theorem and_low (b : UInt8) : b.toUInt32 &&& 0x0FFFFFFF = b.toUInt32 := by
  rw [← UInt32.toNat_inj, UInt32.toNat_and, UInt8.toNat_toUInt32]
  have := b.toNat_lt
  exact (Nat.and_two_pow_sub_one_eq_mod b.toNat 28).trans (Nat.mod_eq_of_lt (by omega))

theorem fat32ReadFatEntry_val (pos : ℕ) (c : UInt32) :
    (fat32ReadFatEntry fs pos c).val = .ok (match lowLink fs c with
      | none => fat32ErrorIo
      | some d => d.toInt32) := by
  unfold fat32ReadFatEntry Fat32Fs.readSector
  rw [Traced.event_bind, lowLink_eq]
  simp only [Access.sector]
  rcases fs.disk.readSector (fatSector fs c) with _ | s
  · rfl
  · have hlt : (s.byte (entryOffset c)).toUInt32.toNat < 256 := by
      rw [UInt8.toNat_toUInt32]
      exact UInt8.toNat_lt _
    simp only [index_entryOffset, Traced.pure_bind, and_low, Option.map_some]
    rw [if_neg (by rw [ge_iff_le, UInt32.le_iff_toNat_le]; simp only [UInt32.reduceToNat]; omega),
      if_neg (by rw [← UInt32.toNat_inj]; simp only [UInt32.reduceToNat]; omega)]
    rfl

theorem scanClusters_next {fuel pos : ℕ} {c : UInt32} (hc : c ≠ fat32EocMarker)
    (h : scanSlots name (clusterSlots fs c) = .next) :
    (scanClusters fs name (fuel + 1) pos c).val = match lowLink fs c with
      | none => .ok (.error fat32ErrorIo)
      | some d => (scanClusters fs name fuel (pos + 1) d).val := by
  have hs := @scanSectors_eq name fs pos c (sectorTarget fs c)
    (List.range fs.sectorsPerCluster.toNat)
  rw [sectorTarget_eq] at hs
  change (scanSectors fs name pos c (clusterStart fs c) _).val =
    .ok (scanSlots name (clusterSlots fs c)).toFlow at hs
  rw [h] at hs
  rw [scanClusters, if_neg hc, sectorTarget_eq, Traced.val_bind_of_ok hs]
  simp only [SlotScan.toFlow]
  rw [Traced.val_bind_of_ok (fat32ReadFatEntry_val fs pos c)]
  rcases hl : lowLink fs c with _ | d
  · rfl
  · have hlt := lowLink_lt fs hl
    rw [if_neg (Int32.not_lt.2 (UInt32.toInt32_nonneg.2 (by omega))), UInt32.toUInt32_toInt32]

theorem scanClusters_stop {fuel pos : ℕ} {c : UInt32} (hc : c ≠ fat32EocMarker)
    (h : scanSlots name (clusterSlots fs c) ≠ .next) :
    (scanClusters fs name (fuel + 1) pos c).val =
      .ok (match scanSlots name (clusterSlots fs c) with
        | .found e => .ok e
        | .endMark => .error endOfEntries
        | _ => .error fat32ErrorIo) := by
  have hs := @scanSectors_eq name fs pos c (sectorTarget fs c)
    (List.range fs.sectorsPerCluster.toNat)
  rw [sectorTarget_eq] at hs
  change (scanSectors fs name pos c (clusterStart fs c) _).val =
    .ok (scanSlots name (clusterSlots fs c)).toFlow at hs
  rw [scanClusters, if_neg hc, sectorTarget_eq, Traced.val_bind_of_ok hs]
  rcases hr : scanSlots name (clusterSlots fs c) with _ | _ | _ | e
  · exact absurd hr h
  all_goals rfl

theorem lowLink_ne_eoc {c d : UInt32} (h : lowLink fs c = some d) : d ≠ fat32EocMarker := by
  rintro rfl
  exact absurd (lowLink_lt fs h) (by decide)

/-- A search whose slots stop it ends there. -/
theorem scanClusters_ends :
    ∀ {fuel pos : ℕ} {c : UInt32}, c ≠ fat32EocMarker →
      scanSlots name (dirSlots fs (lowLink fs) c fuel) ≠ .next →
      (scanClusters fs name fuel pos c).val =
        .ok (match scanSlots name (dirSlots fs (lowLink fs) c fuel) with
          | .found e => .ok e
          | .endMark => .error endOfEntries
          | _ => .error fat32ErrorIo)
  | 0, _, _, _, h => absurd rfl h
  | fuel + 1, pos, c, hc, h => by
    rw [dirSlots, scanSlots_append] at h ⊢
    by_cases hs : scanSlots name (clusterSlots fs c) = .next
    · rw [scanClusters_next fs hc hs]
      simp only [hs] at h ⊢
      rcases hl : lowLink fs c with _ | d
      · rfl
      · simp only [hl] at h
        exact scanClusters_ends (lowLink_ne_eoc fs hl) h
    · rw [scanClusters_stop fs hc hs]
      rcases hr : scanSlots name (clusterSlots fs c) with _ | _ | _ | e
      · exact absurd hr hs
      all_goals rfl

/-- One they do not stop uses up its bound. -/
theorem scanClusters_runs_on :
    ∀ {fuel pos : ℕ} {c : UInt32}, c ≠ fat32EocMarker →
      scanSlots name (dirSlots fs (lowLink fs) c fuel) = .next →
      (scanClusters fs name fuel pos c).val = .error .fuel
  | 0, _, _, _, _ => rfl
  | fuel + 1, pos, c, hc, h => by
    rw [dirSlots, scanSlots_append] at h
    rcases hs : scanSlots name (clusterSlots fs c) with _ | _ | _ | e
    · rw [scanClusters_next fs hc hs]
      simp only [hs] at h
      rcases hl : lowLink fs c with _ | d
      · rw [hl] at h
        cases h
      · simp only [hl] at h
        exact scanClusters_runs_on (lowLink_ne_eoc fs hl) h
    all_goals
      rw [hs] at h
      cases h

theorem scanClusters_found_iff {e : Fat32DirectoryEntry} {fuel pos : ℕ} {c : UInt32}
    (hc : c ≠ fat32EocMarker) :
    (scanClusters fs name fuel pos c).val = .ok (.ok e) ↔
      scanSlots name (dirSlots fs (lowLink fs) c fuel) = .found e := by
  by_cases h : scanSlots name (dirSlots fs (lowLink fs) c fuel) = .next
  · rw [scanClusters_runs_on fs hc h, h]
    simp
  · rw [scanClusters_ends fs hc h]
    rcases hr : scanSlots name (dirSlots fs (lowLink fs) c fuel) with _ | _ | _ | e'
    · exact absurd hr h
    all_goals simp

theorem scanClusters_eoc (fuel pos : ℕ) (e : Fat32DirectoryEntry) :
    (scanClusters fs name fuel pos fat32EocMarker).val ≠ .ok (.ok e) := by
  cases fuel with
  | zero => simp [scanClusters]
  | succ fuel => simp [scanClusters]

/-! ## The entry found -/

theorem dirSlots_prefix (next : UInt32 → Option UInt32) :
    ∀ {k n : ℕ} {c : UInt32}, k ≤ n → ∃ rest, dirSlots fs next c n = dirSlots fs next c k ++ rest
  | 0, _, _, _ => ⟨_, rfl⟩
  | k + 1, 0, _, h => by omega
  | k + 1, n + 1, c, h => by
    rcases hc : next c with _ | d
    · exact ⟨[], by simp [dirSlots, hc]⟩
    · obtain ⟨rest, hrest⟩ := dirSlots_prefix next (c := d) (Nat.le_of_succ_le_succ h)
      exact ⟨rest, by simp [dirSlots, hc, hrest]⟩

/-- Where the slots of the first clusters stop a scan, those of the others do not count. -/
theorem scanSlots_dirSlots_of_le (next : UInt32 → Option UInt32) {k n : ℕ} {c : UInt32}
    (hle : k ≤ n) (h : scanSlots name (dirSlots fs next c k) ≠ .next) :
    scanSlots name (dirSlots fs next c n) = scanSlots name (dirSlots fs next c k) := by
  obtain ⟨rest, hrest⟩ := dirSlots_prefix fs next (c := c) hle
  rw [hrest, scanSlots_append]
  split
  · rename_i hnext
    exact absurd hnext h
  · rfl

theorem FirstNot.append {P : Fat32DirectoryEntry → Prop} {e : Fat32DirectoryEntry}
    {slots : List (Option Fat32DirectoryEntry)} (h : FirstNot P slots e)
    (rest : List (Option Fat32DirectoryEntry)) : FirstNot P (slots ++ rest) e := by
  obtain ⟨pre, post, rfl, hpre⟩ := h
  exact ⟨pre, post ++ rest, by simp, hpre⟩

theorem scanClusters_mono {r : Except Int32 Fat32DirectoryEntry} :
    ∀ {fuel fuel' pos : ℕ} {c : UInt32}, (scanClusters fs name fuel pos c).val = .ok r →
      fuel ≤ fuel' → scanClusters fs name fuel' pos c = scanClusters fs name fuel pos c
  | 0, _, _, _, h, _ => by cases h
  | fuel + 1, 0, _, _, _, hle => by omega
  | fuel + 1, fuel' + 1, pos, c, h, hle => by
    rw [scanClusters] at h
    rw [scanClusters, scanClusters]
    split_ifs at h ⊢ with hc
    · rfl
    obtain ⟨flow, hs, h⟩ := Traced.val_bind_eq_ok.1 h
    rw [Traced.bind_of_ok hs, Traced.bind_of_ok hs]
    rcases flow with ⟨⟨⟩⟩ | r'
    · simp only [] at h ⊢
      obtain ⟨n, hn, h⟩ := Traced.val_bind_eq_ok.1 h
      rw [Traced.bind_of_ok hn, Traced.bind_of_ok hn]
      split_ifs at h ⊢
      · rfl
      · rw [scanClusters_mono h (Nat.le_of_succ_le_succ hle)]
    · rfl

theorem found_of_scanClusters {fuel pos : ℕ} {c : UInt32} {e : Fat32DirectoryEntry}
    (h : (scanClusters fs name fuel pos c).val = .ok (.ok e)) : Found fs c name e := by
  have hc : c ≠ fat32EocMarker := by
    rintro rfl
    exact scanClusters_eoc fs fuel pos e h
  obtain ⟨hlive, hname, hfirst⟩ :=
    (scanSlots_eq_found_iff _).1 ((scanClusters_found_iff fs hc).1 h)
  exact ⟨hc, hlive, hname, fuel, hfirst⟩

theorem Found.scanClusters {c : UInt32} {e : Fat32DirectoryEntry} (h : Found fs c name e) :
    ∃ k, ∀ fuel ≥ k, ∀ pos, (scanClusters fs name fuel pos c).val = .ok (.ok e) := by
  obtain ⟨hc, hlive, hname, k, hfirst⟩ := h
  refine ⟨k, fun fuel hf pos => (scanClusters_found_iff fs hc).2 ?_⟩
  obtain ⟨rest, hrest⟩ := dirSlots_prefix fs (lowLink fs) (c := c) hf
  rw [scanSlots_eq_found_iff, hrest]
  exact ⟨hlive, hname, hfirst.append rest⟩

theorem Found.unique {c : UInt32} {e e' : Fat32DirectoryEntry} (h : Found fs c name e)
    (h' : Found fs c name e') : e = e' := by
  obtain ⟨k, hk⟩ := h.scanClusters
  obtain ⟨k', hk'⟩ := h'.scanClusters
  have := (hk (max k k') (le_max_left _ _) 0).symm.trans (hk' (max k k') (le_max_right _ _) 0)
  cases this
  rfl

end BeagleKernel.Fat32
