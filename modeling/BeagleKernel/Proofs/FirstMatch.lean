import BeagleKernel.Proofs.Readers
import BeagleKernel.Proofs.Visits

/-!
# A directory search is a linear search

The three loops of `read_dir_entry` are one search of the entries of its clusters, one after the
other, for the first in use that has the name (`readDirEntry_first`). Two of its guards come before
the entries: an end-of-chain marker for a start cluster has none, and a deleted entry has no name,
even if it is spelled like the one looked for.
-/

namespace BeagleKernel.Fat32

/-- The entries of a cluster whose sectors can be read. -/
def clusterEntries (fs : Fat32Fs) (c : UInt32) : List Fat32DirectoryEntry :=
  (List.range fs.sectorsPerCluster.toNat).flatMap fun i =>
    ((fs.disk.readSector (clusterStart fs c + UInt32.ofNat i)).map (·.dirEntries)).getD []

/-- The clusters `fat32_read_fat_entry` leads through from `start` on, on a disk that can be
read. -/
structure Follows (fs : Fat32Fs) (start : UInt32) (c : ℕ → UInt32) : Prop where
  reads : ∀ s, (fs.disk.readSector s).isSome
  start : c 0 = start
  next : ∀ i pos, (fat32ReadFatEntry fs pos (c i)).val = .ok (c (i + 1)).toInt32

/-- The entries of the first `n` clusters. -/
def entriesOf (fs : Fat32Fs) (c : ℕ → UInt32) (n : ℕ) : List Fat32DirectoryEntry :=
  (List.range n).flatMap fun i => clusterEntries fs (c i)

/-- `e` is the first of the entries in use with the name, and no end mark comes before it. -/
def FirstMatch (name : Fin 11 → UInt8) (es : List Fat32DirectoryEntry)
    (e : Fat32DirectoryEntry) : Prop :=
  ∃ pre post, es = pre ++ e :: post ∧ e.Live ∧ e.filename = name ∧
    ∀ d ∈ pre, ¬ d.EndMark ∧ ¬ (d.Live ∧ d.filename = name)

/-- The search in `dir` for `name` returns, with the first match among `es` if there is one, and
otherwise with a code and `dir` as it was. -/
def Searches (fs : Fat32Fs) (dir : Fat32DirEntry) (name : List UInt8)
    (es : List Fat32DirectoryEntry) : Prop :=
  ∃ k, ∀ fuel ≥ k, ∃ r dir', (readDirEntry fuel fs dir name).val = .ok (r, dir') ∧
    ((∃ e, FirstMatch (formatNameToFat32 name) es e ∧ r = 0 ∧ dir' = e.toDirEntry) ∨
      (∀ e, ¬ FirstMatch (formatNameToFat32 name) es e) ∧ r ≠ 0 ∧ dir' = dir)

section

variable {fs : Fat32Fs} {start : UInt32} {c : ℕ → UInt32} {name : Fin 11 → UInt8}

theorem flatMap_sectorSlots (h : ∀ s, (fs.disk.readSector s).isSome) (target : UInt32) :
    ∀ is : List ℕ, (is.flatMap fun i => sectorSlots fs (target + UInt32.ofNat i)) =
      (is.flatMap fun i => ((fs.disk.readSector (target + UInt32.ofNat i)).map
        (·.dirEntries)).getD []).map some
  | [] => rfl
  | i :: is => by
    obtain ⟨b, hb⟩ := Option.isSome_iff_exists.1 (h (target + UInt32.ofNat i))
    rw [List.flatMap_cons, List.flatMap_cons, List.map_append, flatMap_sectorSlots h target is,
      sectorSlots, hb]
    rfl

theorem clusterSlots_eq (h : ∀ s, (fs.disk.readSector s).isSome) (c : UInt32) :
    clusterSlots fs c = (clusterEntries fs c).map some :=
  flatMap_sectorSlots h _ _

theorem Follows.lowLink (h : Follows fs start c) (i : ℕ) :
    Fat32.lowLink fs (c i) = some (c (i + 1)) := by
  have hn := h.next i 0
  obtain ⟨s, hs⟩ := Option.isSome_iff_exists.1 (h.reads (fatSector fs (c i)))
  obtain ⟨d, hd⟩ : ∃ d, Fat32.lowLink fs (c i) = some d := ⟨_, by rw [lowLink_eq, hs]; rfl⟩
  rw [fat32ReadFatEntry_val, hd] at hn
  have heq := congrArg Int32.toUInt32 (Except.ok.inj hn)
  rw [UInt32.toUInt32_toInt32, UInt32.toUInt32_toInt32] at heq
  rw [hd, heq]

theorem Follows.tail (h : Follows fs start c) : Follows fs (c 1) fun i => c (i + 1) :=
  ⟨h.reads, rfl, fun i pos => h.next (i + 1) pos⟩

theorem Follows.dirSlots :
    ∀ {n : ℕ} {start : UInt32} {c : ℕ → UInt32}, Follows fs start c →
      Fat32.dirSlots fs (Fat32.lowLink fs) start n = (entriesOf fs c n).map some
  | 0, _, _, _ => rfl
  | n + 1, start, c, h => by
    have ht := h.tail.dirSlots (n := n)
    have hl := h.lowLink 0
    rw [h.start] at hl
    have hes : entriesOf fs c (n + 1) =
        clusterEntries fs (c 0) ++ entriesOf fs (fun i => c (i + 1)) n := by
      rw [entriesOf, List.range_succ_eq_map, List.flatMap_cons, List.flatMap_map]
      rfl
    rw [Fat32.dirSlots, hl, hes, List.map_append, ← ht, clusterSlots_eq h.reads, h.start]

theorem firstNot_map_some {e : Fat32DirectoryEntry} {es : List Fat32DirectoryEntry} :
    (e.Live ∧ e.filename = name ∧ FirstNot (Passed name) (es.map some) e) ↔
      FirstMatch name es e := by
  have hpass : ∀ d : Fat32DirectoryEntry,
      Passed name d ↔ ¬ d.EndMark ∧ ¬ (d.Live ∧ d.filename = name) := fun d => by
    rw [Passed, not_and]
  constructor
  · rintro ⟨hlive, hname, pre, post, h, hpre⟩
    obtain ⟨pre', rest, rfl, rfl, hrest⟩ := List.map_eq_append_iff.1 h
    obtain ⟨e', post', rfl, he, -⟩ := List.map_eq_cons_iff.1 hrest
    cases he
    refine ⟨pre', post', rfl, hlive, hname, fun d hd => (hpass d).1 ?_⟩
    obtain ⟨d', hd', hp⟩ := hpre (some d) (List.mem_map_of_mem hd)
    cases hd'
    exact hp
  · rintro ⟨pre, post, rfl, hlive, hname, hpre⟩
    refine ⟨hlive, hname, pre.map some, post.map some, by simp, fun x hx => ?_⟩
    obtain ⟨d, hd, rfl⟩ := List.mem_map.1 hx
    exact ⟨d, rfl, (hpass d).2 (hpre d hd)⟩

theorem scanSlots_map_some_next {es : List Fat32DirectoryEntry} :
    scanSlots name (es.map some) = .next ↔ ∀ d ∈ es, Passed name d := by
  rw [scanSlots_eq_next_iff]
  simp

theorem scanSlots_map_some_ne_unread (es : List Fat32DirectoryEntry) :
    scanSlots name (es.map some) ≠ .unread := by
  rw [scanEntries_eq]
  rcases scanEntries name es with _ | _ | e <;> exact SlotScan.noConfusion

end

variable {fs : Fat32Fs} {dir : Fat32DirEntry} {name : List UInt8} {c : ℕ → UInt32} {n : ℕ}

/-- If the entries of the clusters `c 0` to `c n` of a directory have an end mark or an entry in
use with the name, the search returns the first such entry that no end mark comes before, or
else a code. -/
theorem readDirEntry_first (h : Follows fs (searchStart fs dir) c) (hstart : c 0 ≠ fat32EocMarker)
    (hstop : ∃ d ∈ entriesOf fs c (n + 1),
      d.EndMark ∨ (d.Live ∧ d.filename = formatNameToFat32 name)) :
    Searches fs dir name (entriesOf fs c (n + 1)) := by
  rw [h.start] at hstart
  refine ⟨n + 1, fun fuel hf => ?_⟩
  obtain ⟨d, hd, hstops⟩ := hstop
  have hne : scanSlots (formatNameToFat32 name) ((entriesOf fs c (n + 1)).map some) ≠ .next := by
    rw [Ne, scanSlots_map_some_next]
    intro hall
    obtain ⟨hmark, hname⟩ := hall d hd
    exact hstops.elim hmark fun hlive => hname hlive.1 hlive.2
  rw [← h.dirSlots] at hne
  have hscan := scanSlots_dirSlots_of_le fs (lowLink fs) hf hne
  have hval := @scanClusters_ends _ fs fuel 0 _ hstart (hscan.trans_ne hne)
  rw [hscan, h.dirSlots] at hval
  rw [h.dirSlots] at hne
  unfold readDirEntry
  have hfirst : ∀ e, scanSlots (formatNameToFat32 name) ((entriesOf fs c (n + 1)).map some) =
      .found e ↔ FirstMatch (formatNameToFat32 name) (entriesOf fs c (n + 1)) e := fun e => by
    rw [scanSlots_eq_found_iff, firstNot_map_some]
  rw [Traced.val_bind_of_ok hval]
  rcases hr : scanSlots (formatNameToFat32 name) ((entriesOf fs c (n + 1)).map some) with
    _ | _ | _ | e
  · exact absurd hr hne
  · refine ⟨endOfEntries, dir, rfl, .inr ⟨fun e he => ?_, by decide, rfl⟩⟩
    rw [(hfirst e).2 he] at hr
    cases hr
  · exact absurd hr (scanSlots_map_some_ne_unread _)
  · exact ⟨0, e.toDirEntry, rfl, .inl ⟨e, (hfirst e).1 hr, rfl, rfl⟩⟩

/-! ## Cards of one byte -/

/-- A sector of one byte all over. -/
def constSector (b : UInt8) : Sector := fun _ => b

theorem constSector_dirEntries {b : UInt8} {d : Fat32DirectoryEntry}
    (h : d ∈ (constSector b).dirEntries) : (d.filename = fun _ => b) ∧ d.attr = b := by
  obtain ⟨k, hk, rfl⟩ := List.mem_map.1 h
  rw [List.mem_range, show entriesPerSector = 16 from rfl] at hk
  have hbyte : ∀ i < 12, (constSector b).byte (dirEntrySize * k + i) = b := fun i hi =>
    dif_pos (show dirEntrySize * k + i < fat32SectorSize by
      simp only [dirEntrySize, fat32SectorSize]; omega)
  exact ⟨funext fun i => hbyte i (by omega), hbyte 11 (by decide)⟩

/-- The volume whose sectors but the first have one byte all over. -/
def constFs (b : UInt8) : Fat32Fs := cardFs fun _ => some (constSector b)

theorem constFs_readSector {b : UInt8} {s : UInt32} (h : s ≠ 0) :
    (constFs b).disk.readSector s = some (constSector b) :=
  if_neg h

theorem constFs_reads (b : UInt8) (s : UInt32) : ((constFs b).disk.readSector s).isSome := by
  by_cases h : s = 0
  · subst h
    rfl
  · rw [constFs_readSector h]
    rfl

theorem lowLink_constFs (b : UInt8) (c : UInt32) : lowLink (constFs b) c = some b.toUInt32 := by
  have hs : fatSector (constFs b) c ≠ 0 := by
    have hlt := (c * 4).toNat_lt
    have h512 : (c * 4 / 512).toNat = (c * 4).toNat / 512 := UInt32.toNat_div _ _
    have h1 : (constFs b).fatStartSector.toNat = 1 := rfl
    rw [UInt32.ne_zero_iff, fatSector, UInt32.toNat_add_of_lt (by omega)]
    omega
  rw [lowLink_eq, constFs_readSector hs, Option.map_some, Sector.byte,
    dif_pos (show entryOffset c < fat32SectorSize by have := entryOffset_lt c; omega)]
  rfl

theorem clusterEntries_constFs {b : UInt8} {c : UInt32} (h : c ≠ 0) :
    clusterEntries (constFs b) c = (constSector b).dirEntries := by
  have hs : clusterStart (constFs b) c + UInt32.ofNat 0 = c := by
    show (c - 2) * 1 + 2 + UInt32.ofNat 0 = c
    rw [UInt32.mul_one, UInt32.sub_add_cancel]
    exact UInt32.add_zero c
  show [0].flatMap _ = _
  rw [List.flatMap_singleton, hs, constFs_readSector h]
  rfl

theorem constFs_follows (b : UInt8) (start : UInt32) :
    Follows (constFs b) start fun i => if i = 0 then start else b.toUInt32 where
  reads := constFs_reads b
  start := rfl
  next i pos := by
    rw [fat32ReadFatEntry_val, lowLink_constFs]
    rfl

/-- On such a volume a search of the root that passes one entry never ends. -/
theorem constFs_endless {b : UInt8} {name : List UInt8} (hb : b ≠ 0)
    (hpass : ∀ d ∈ (constSector b).dirEntries, Passed (formatNameToFat32 name) d) (fuel : ℕ) :
    (readDirEntry fuel (constFs b) noDir name).val = .error .fuel := by
  have hnext : scanSlots (formatNameToFat32 name)
      (dirSlots (constFs b) (lowLink (constFs b)) 2 fuel) = .next := by
    rw [(constFs_follows b 2).dirSlots, scanSlots_map_some_next]
    intro d hd
    obtain ⟨i, -, hd⟩ := List.mem_flatMap.1 hd
    have hc : (if i = 0 then 2 else b.toUInt32) ≠ 0 := by
      split_ifs
      · decide
      · exact fun h => hb (UInt8.toNat_inj.1 (by rw [← UInt8.toNat_toUInt32, h]; rfl))
    rw [clusterEntries_constFs hc] at hd
    exact hpass d hd
  have hrun := @scanClusters_runs_on _ (constFs b) fuel 0 2 (by decide) hnext
  rw [readDirEntry, show searchStart (constFs b) noDir = 2 from rfl, Traced.bind_of_error hrun]

/-- `AAAAAAAA.AAA`, for `b` the letter. -/
def fullName (b : UInt8) : List UInt8 := List.replicate 8 b ++ dot :: List.replicate 3 b

/-- A deleted entry spelled like the name does not end the search, and one that starts at the
end-of-chain marker finds nothing. -/
theorem deleted_name_not_found :
    (∃ fs dir name c, Follows fs (searchStart fs dir) c ∧ c 0 ≠ fat32EocMarker ∧
      (∃ d ∈ entriesOf fs c 1, d.filename = formatNameToFat32 name) ∧
      ¬ Searches fs dir name (entriesOf fs c 1)) ∧
    ∃ fs dir name c, Follows fs (searchStart fs dir) c ∧
      (∃ d ∈ entriesOf fs c 1, d.Live ∧ d.filename = formatNameToFat32 name) ∧
      ¬ Searches fs dir name (entriesOf fs c 1) := by
  have hmem : ∀ b, (constSector b).dirEntry 0 ∈ (constSector b).dirEntries := fun b =>
    List.mem_map_of_mem (List.mem_range.2 (by decide))
  have hentries : ∀ b start, start ≠ 0 →
      entriesOf (constFs b) (fun i => if i = 0 then start else b.toUInt32) 1 =
        (constSector b).dirEntries := fun b start h => by
    rw [← clusterEntries_constFs h]
    exact List.flatMap_singleton _ _
  constructor
  · have hname : formatNameToFat32 (fullName 0xE5) = fun _ => 0xE5 := by decide
    refine ⟨constFs 0xE5, noDir, fullName 0xE5, _, constFs_follows 0xE5 2, by decide, ?_, ?_⟩
    · rw [hentries _ _ (by decide), hname]
      exact ⟨_, hmem _, (constSector_dirEntries (hmem _)).1⟩
    · rintro ⟨k, hk⟩
      obtain ⟨r, dir', hval, -⟩ := hk k le_rfl
      rw [constFs_endless (by decide)] at hval
      · cases hval
      · intro d hd
        have hd' := (constSector_dirEntries hd).1
        exact ⟨by rw [Fat32DirectoryEntry.EndMark, hd']; decide,
          fun hlive => absurd (congrFun hd' 0) hlive.2⟩
  · have hname : formatNameToFat32 (fullName 0x41) = fun _ => 0x41 := by decide
    refine ⟨constFs 0x41, ⟨fat32AttrDirectory, 0, fat32EocMarker, true⟩, fullName 0x41, _,
      constFs_follows 0x41 fat32EocMarker, ?_, ?_⟩
    · rw [hentries _ _ (by decide), hname]
      exact ⟨_, hmem _, by decide, (constSector_dirEntries (hmem _)).1⟩
    · rintro ⟨k, hk⟩
      obtain ⟨r, dir', hval, hres⟩ := hk (k + 1) (Nat.le_succ k)
      rw [hentries _ _ (by decide), hname] at hres
      have hmatch : FirstMatch (fun _ => 0x41) (constSector 0x41).dirEntries
          ((constSector 0x41).dirEntry 0) :=
        ⟨[], _, rfl, by decide, (constSector_dirEntries (hmem _)).1, by simp⟩
      rcases hres with ⟨e, -, rfl, -⟩ | ⟨hnone, -⟩
      · cases hval
      · exact hnone _ hmatch

/-- A search for a name that every entry has. -/
theorem readDirEntry_first_full :
    Searches (constFs 0x41) noDir (fullName 0x41)
      (entriesOf (constFs 0x41) (fun i => if i = 0 then 2 else (0x41 : UInt8).toUInt32) 1) :=
  readDirEntry_first (constFs_follows 0x41 2) (by decide) ⟨(constSector 0x41).dirEntry 0, by
    refine List.mem_flatMap.2 ⟨0, List.mem_range.2 Nat.one_pos, ?_⟩
    rw [clusterEntries_constFs (by decide)]
    exact List.mem_map_of_mem (List.mem_range.2 (by decide)), .inr (by decide)⟩

end BeagleKernel.Fat32
