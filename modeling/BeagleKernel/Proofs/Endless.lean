import BeagleKernel.Proofs.FirstMatch
import BeagleKernel.Proofs.Searches

/-!
# Directory scans that do not end

A scan has no bound of its own. On a disk that can be read, the link of a cluster is a byte and
never the end-of-chain marker, so the scan ends only at an entry it does not pass: where the
clusters it visits have none it goes round in them for good (`scans_return_iff`).
-/

namespace BeagleKernel.Fat32

/-- A scan from `start` comes to an entry it does not pass, or has no cluster to begin with. -/
def ScanEnds (fs : Fat32Fs) (Pass : Fat32DirectoryEntry → Prop) (start : UInt32) : Prop :=
  start = fat32EocMarker ∨ ∃ d, Visits fs Pass start d ∧ ¬ PassesCluster fs Pass d

section

variable {fs : Fat32Fs} {Pass : Fat32DirectoryEntry → Prop} {visit : EntryLoop} {notFound : Int32}
  {c target : UInt32}

theorem visitSectors_returns {pos : ℕ} : ∀ sectors : List ℕ,
    ∃ r, (visitSectors visit fs pos c target sectors).val = .ok r
  | [] => ⟨_, rfl⟩
  | i :: sectors => by
    simp only [visitSectors, Fat32Fs.readSector, Traced.event_bind, Access.sector]
    rcases fs.disk.readSector (target + UInt32.ofNat i) with _ | b
    · exact ⟨_, rfl⟩
    rcases hv : visit b.dirEntries with _ | r
    · simp only [hv]
      exact visitSectors_returns sectors
    · simp only [hv]
      exact ⟨_, rfl⟩

section

variable (hvisit : ∀ es, visit es = none ↔ ∀ d ∈ es, Pass d)

include hvisit

theorem visitClusters_next {fuel pos : ℕ} (hc : c ≠ fat32EocMarker)
    (h : PassesCluster fs Pass c) :
    (visitClusters visit notFound fs (fuel + 1) pos c).val = match lowLink fs c with
      | none => .ok (.error fat32ErrorIo)
      | some d => (visitClusters visit notFound fs fuel (pos + 1) d).val := by
  have hs : (visitSectors visit fs pos c (clusterStart fs c)
      (List.range fs.sectorsPerCluster.toNat)).val = .ok (.next ()) :=
    (visitSectors_next hvisit).2 fun i hi => h i (List.mem_range.1 hi)
  rw [visitClusters, if_neg hc, sectorTarget_eq, Traced.val_bind_of_ok hs]
  simp only []
  rw [Traced.val_bind_of_ok (fat32ReadFatEntry_val fs pos c)]
  rcases hl : lowLink fs c with _ | d
  · rfl
  · have hlt := lowLink_lt fs hl
    simp only []
    rw [if_neg (Int32.not_lt.2 (UInt32.toInt32_nonneg.2 (by omega))), UInt32.toUInt32_toInt32]

theorem visitClusters_stop {fuel pos : ℕ} (hc : c ≠ fat32EocMarker)
    (h : ¬ PassesCluster fs Pass c) :
    ∃ r, (visitClusters visit notFound fs (fuel + 1) pos c).val = .ok r := by
  obtain ⟨flow, hs⟩ := @visitSectors_returns fs visit c (clusterStart fs c) pos
    (List.range fs.sectorsPerCluster.toNat)
  rw [visitClusters, if_neg hc, sectorTarget_eq, Traced.val_bind_of_ok hs]
  rcases flow with ⟨⟨⟩⟩ | r
  · exact absurd (fun i hi => (visitSectors_next hvisit).1 hs i (List.mem_range.2 hi)) h
  · exact ⟨r, rfl⟩

theorem Visits.returns {d : UInt32} (h : Visits fs Pass c d) (hd : ¬ PassesCluster fs Pass d) :
    ∃ n, ∀ fuel > n, ∀ pos, ∃ r, (visitClusters visit notFound fs fuel pos c).val = .ok r := by
  induction h with
  | here hc =>
    refine ⟨0, fun fuel hf pos => ?_⟩
    obtain ⟨m, rfl⟩ : ∃ m, fuel = m + 1 := ⟨fuel - 1, by omega⟩
    exact visitClusters_stop hvisit hc hd
  | next hc hp hl _ ih =>
    obtain ⟨n, hn⟩ := ih hd
    refine ⟨n + 1, fun fuel hf pos => ?_⟩
    obtain ⟨m, rfl⟩ : ∃ m, fuel = m + 1 := ⟨fuel - 1, by omega⟩
    rw [visitClusters_next hvisit hc hp, hl]
    exact hn m (by omega) (pos + 1)

theorem ScanEnds.returns (notFound : Int32) (h : ScanEnds fs Pass c) :
    ∃ n, ∀ fuel > n, ∃ r, (visitClusters visit notFound fs fuel 0 c).val = .ok r := by
  rcases h with rfl | ⟨d, hvis, hd⟩
  · refine ⟨0, fun fuel hf => ⟨.error notFound, ?_⟩⟩
    obtain ⟨m, rfl⟩ : ∃ m, fuel = m + 1 := ⟨fuel - 1, by omega⟩
    rw [visitClusters, if_pos rfl]
    rfl
  · obtain ⟨n, hn⟩ := hvis.returns hvisit hd
    exact ⟨n, fun fuel hf => hn fuel hf 0⟩

theorem scanEnds_of_returns (hreads : ∀ s, (fs.disk.readSector s).isSome)
    {r : Except Int32 Fat32DirectoryEntry} :
    ∀ {fuel pos : ℕ} {c : UInt32}, (visitClusters visit notFound fs fuel pos c).val = .ok r →
      ScanEnds fs Pass c
  | 0, _, _, h => by cases h
  | fuel + 1, pos, c, h => by
    by_cases hc : c = fat32EocMarker
    · exact .inl hc
    by_cases hp : PassesCluster fs Pass c
    · obtain ⟨s, hs⟩ := Option.isSome_iff_exists.1 (hreads (fatSector fs c))
      obtain ⟨d, hl⟩ : ∃ d, lowLink fs c = some d := ⟨_, by rw [lowLink_eq, hs]; rfl⟩
      rw [visitClusters_next hvisit hc hp, hl] at h
      rcases scanEnds_of_returns hreads h with hd | ⟨e, hvis, he⟩
      · exact absurd hd (lowLink_ne_eoc fs hl)
      · exact .inr ⟨e, .next hc hp hl hvis, he⟩
    · exact .inr ⟨c, .here hc, hp⟩

end

variable {name : List UInt8} {dir : Fat32DirEntry}

theorem ScanEnds.readDirEntry
    (h : ScanEnds fs (Passed (formatNameToFat32 name)) (searchStart fs dir)) :
    ∃ n, ∀ fuel > n, ∃ r, (readDirEntry fuel fs dir name).val = .ok r := by
  obtain ⟨n, hn⟩ := h.returns nameEntries_eq_none_iff fat32ErrorNoFile
  refine ⟨n, fun fuel hf => ?_⟩
  obtain ⟨r, hr⟩ := hn fuel hf
  rw [Fat32.readDirEntry, scanClusters_eq_visit, Traced.val_bind_of_ok hr]
  rcases r with code | e <;> exact ⟨_, rfl⟩

theorem scanEnds_of_readDirEntry (hreads : ∀ s, (fs.disk.readSector s).isSome) {fuel : ℕ}
    {r : Int32 × Fat32DirEntry} (h : (readDirEntry fuel fs dir name).val = .ok r) :
    ScanEnds fs (Passed (formatNameToFat32 name)) (searchStart fs dir) := by
  obtain ⟨a, ha, -⟩ := Traced.val_bind_eq_ok.1 h
  rw [scanClusters_eq_visit] at ha
  exact scanEnds_of_returns nameEntries_eq_none_iff hreads ha

end

/-! ## The open -/

/-- Of names, each is found after those before it, or one is not. -/
theorem trail_or_stuck (fs : Fat32Fs) : ∀ (names : List (List UInt8)) (start : UInt32),
    (∃ es, Trail fs start names es) ∨ ∃ found name rest es, names = found ++ name :: rest ∧
      Trail fs start found es ∧ ¬ ∃ e, Found fs (trailEnd start es) (formatNameToFat32 name) e
  | [], _ => .inl ⟨[], trivial⟩
  | name :: names, start => by
    by_cases hfound : ∃ e, Found fs start (formatNameToFat32 name) e
    · obtain ⟨e, he⟩ := hfound
      rcases trail_or_stuck fs names e.startCluster with
        ⟨es, hes⟩ | ⟨found, name', rest, es, rfl, hes, hnone⟩
      · exact .inl ⟨e :: es, he, hes⟩
      · exact .inr ⟨name :: found, name', rest, e :: es, rfl, ⟨he, hes⟩, hnone⟩
    · exact .inr ⟨[], name, names, [], rfl, trivial, hfound⟩

section

variable {fs : Fat32Fs} {path : CString} {names rest : List (List UInt8)} {name : List UInt8}
  {es : List Fat32DirectoryEntry} {file : Fat32File} {prior : ℕ → UInt8}

theorem searchedFor_kept (h : keptComponents path = names ++ name :: rest) (prior : ℕ → UInt8) :
    SearchedFor (parseFat32Path path prior) (names ++ [name]) := by
  have h' : keptComponents path = names ++ [name] ++ rest := by rw [h, List.append_assoc]; rfl
  refine ⟨fun _ => ?_, fun i hi => ?_⟩
  · rw [numComponents_parse, h']
    exact (List.prefix_append _ _).length_le
  · rw [component_parse path prior (by rw [h', List.length_append]; omega)]
    simp only [h']
    rw [List.getElem_append_left hi]

theorem searchStart_trail (es : List Fat32DirectoryEntry) :
    searchStart fs (dirAfter noDir es) = trailEnd fs.rootCluster es :=
  searchStart_dirAfter fs es noDir

/-- A search in vain on the trail ends the open. -/
theorem fat32Open_stuck (file : Fat32File) (hinit : fs.isInitialized)
    (hnames : SearchedFor (parseFat32Path path prior) (names ++ [name]))
    (htrail : Trail fs fs.rootCluster names es) {n : ℕ}
    (hvain : ∀ fuel > n, ∃ r d, (readDirEntry fuel fs (dirAfter noDir es) name).val = .ok (r, d) ∧
      r ≠ 0) :
    ∃ k, ∀ fuel ≥ k, ∃ code, (code = fat32ErrorNoFile ∨ code = fat32ErrorNoPath) ∧
      (fat32Open fuel fs path file prior).val = .ok (code, file) := by
  obtain ⟨k, hk⟩ := fat32Open_at file hinit hnames htrail
  refine ⟨max k (n + 1), fun fuel hf => ?_⟩
  obtain ⟨before, next, hbefore, hnext, heq⟩ := hk fuel (le_trans (le_max_left _ _) hf)
  obtain ⟨r, d, hread, hr⟩ := hvain fuel (le_trans (le_max_right _ _) hf)
  obtain ⟨code, hcode, hpure⟩ := hnext r d hr
  refine ⟨code, hcode, ?_⟩
  rw [heq, Traced.val_bind_of_ok hbefore, Traced.val_bind_of_ok hread, hpure]
  rfl

/-- The last search on the trail ends it too. -/
theorem fat32Open_last (file : Fat32File) (prior : ℕ → UInt8) (hinit : fs.isInitialized)
    (hkept : keptComponents path = names ++ [name]) (htrail : Trail fs fs.rootCluster names es)
    {n : ℕ} (hread : ∀ fuel > n, ∃ r, (readDirEntry fuel fs (dirAfter noDir es) name).val = .ok r) :
    ∃ fuel r, (fat32Open fuel fs path file prior).val = .ok r := by
  obtain ⟨k, hk⟩ := @openDirs_of_trail fs names es 0 noDir fs.rootCluster htrail
  obtain ⟨⟨r, target⟩, hr⟩ := hread (max k (n + 1)) (Nat.lt_of_succ_le (le_max_right _ _))
  have hdirs := hk (max k (n + 1)) (le_max_left _ _) (parseFat32Path path prior)
    (component_init hkept prior)
  refine ⟨max k (n + 1), ?_⟩
  unfold fat32Open
  simp only [hinit, Bool.not_true, Bool.false_eq_true, if_false, numComponents_snoc hkept,
    dirs_toNat (length_init_lt hkept)]
  rw [Traced.val_bind_of_ok hdirs]
  simp only [if_neg (Nat.succ_ne_zero _), Nat.add_sub_cancel, component_last hkept,
    Traced.pure_bind]
  rw [Traced.val_bind_of_ok hr]
  simp only []
  split_ifs <;> exact ⟨_, rfl⟩

/-- An open returns exactly if all the searches it comes to end. -/
theorem fat32Open_returns_iff (file : Fat32File) (prior : ℕ → UInt8) (hinit : fs.isInitialized)
    (hreads : ∀ s, (fs.disk.readSector s).isSome) (hne : keptComponents path ≠ []) :
    (∃ fuel r, (fat32Open fuel fs path file prior).val = .ok r) ↔
      ∀ names name rest, keptComponents path = names ++ name :: rest →
        ∀ es, Trail fs fs.rootCluster names es →
          ScanEnds fs (Passed (formatNameToFat32 name)) (trailEnd fs.rootCluster es) := by
  constructor
  · rintro ⟨fuel, r, hr⟩ names name rest hkept es htrail
    obtain ⟨a, hread⟩ := fat32Open_returned hinit hr (searchedFor_kept hkept prior) htrail
    rw [← searchStart_trail]
    exact scanEnds_of_readDirEntry hreads hread
  · intro h
    obtain ⟨names, name, hkept⟩ : ∃ names name, keptComponents path = names ++ [name] :=
      ⟨_, _, (List.dropLast_append_getLast hne).symm⟩
    rcases trail_or_stuck fs names fs.rootCluster with
      ⟨es, htrail⟩ | ⟨found, name', rest, es, rfl, htrail, hnone⟩
    · have hend := h names name [] hkept es htrail
      rw [← searchStart_trail] at hend
      obtain ⟨n, hn⟩ := hend.readDirEntry
      exact fat32Open_last file prior hinit hkept htrail hn
    · have hkept' : keptComponents path = found ++ name' :: (rest ++ [name]) := by
        rw [hkept, List.append_assoc]
        rfl
      have hend := h found name' _ hkept' es htrail
      rw [← searchStart_trail] at hend hnone
      obtain ⟨n, hn⟩ := hend.readDirEntry
      obtain ⟨k, hk⟩ := fat32Open_stuck file hinit (searchedFor_kept hkept' prior) htrail (n := n)
        fun fuel hf => by
          obtain ⟨⟨r, d⟩, hread⟩ := hn fuel hf
          exact ⟨r, d, hread, readDirEntry_ne_zero fs hnone hread⟩
      obtain ⟨code, -, hval⟩ := hk k le_rfl
      exact ⟨k, _, hval⟩

end

/-- On a disk that can be read, a search, an open of a path with a component and a look-up of the
label return exactly if each scan they come to meets an entry it does not pass. -/
theorem scans_return_iff (fs : Fat32Fs) (hinit : fs.isInitialized)
    (hreads : ∀ s, (fs.disk.readSector s).isSome) :
    (∀ dir name, (∃ fuel r, (readDirEntry fuel fs dir name).val = .ok r) ↔
      ScanEnds fs (Passed (formatNameToFat32 name)) (searchStart fs dir)) ∧
    (∀ path file prior, keptComponents path ≠ [] →
      ((∃ fuel r, (fat32Open fuel fs path file prior).val = .ok r) ↔
        ∀ names name rest, keptComponents path = names ++ name :: rest →
          ∀ es, Trail fs fs.rootCluster names es →
            ScanEnds fs (Passed (formatNameToFat32 name)) (trailEnd fs.rootCluster es))) ∧
    ∀ labelOut, (∃ fuel r, (fat32Readlabel fuel fs labelOut).val = .ok r) ↔
      ScanEnds fs NoLabel fs.rootCluster := by
  refine ⟨fun dir name => ⟨?_, fun h => ?_⟩, fun path file prior hne =>
    fat32Open_returns_iff file prior hinit hreads hne, fun labelOut => ⟨?_, fun h => ?_⟩⟩
  · rintro ⟨fuel, r, hr⟩
    exact scanEnds_of_readDirEntry hreads hr
  · obtain ⟨n, hn⟩ := h.readDirEntry
    exact ⟨n + 1, hn (n + 1) (Nat.lt_succ_self n)⟩
  · rintro ⟨fuel, r, hr⟩
    obtain ⟨a, ha, -⟩ := Traced.val_bind_eq_ok.1 hr
    exact scanEnds_of_returns labelEntries_eq_none_iff hreads ha
  · obtain ⟨n, hn⟩ := h.returns labelEntries_eq_none_iff fat32ErrorNoLabel
    obtain ⟨r, hr⟩ := hn (n + 1) (Nat.lt_succ_self n)
    refine ⟨n + 1, ?_⟩
    rw [fat32Readlabel, Traced.val_bind_of_ok hr]
    rcases r with code | e <;> exact ⟨_, rfl⟩

/-- A root directory full of `A`s, on a card full of them, is searched for good. -/
theorem full_directory_scanned_forever :
    ¬ ∀ disk mem fs, fat32Mount disk mem = .mounted fs → 1 ≤ fs.sectorsPerCluster.toNat →
      (∀ s, (fs.disk.readSector s).isSome) →
      (∀ dir name, ∃ fuel r, (readDirEntry fuel fs dir name).val = .ok r) ∧
      (∀ path file prior, keptComponents path ≠ [] →
        ∃ fuel r, (fat32Open fuel fs path file prior).val = .ok r) ∧
      ∀ labelOut, ∃ fuel r, (fat32Readlabel fuel fs labelOut).val = .ok r := by
  intro h
  obtain ⟨hdir, -⟩ := h _ _ _ (cardFs_mounted fun _ => some (constSector 0x41)) (by decide)
    (constFs_reads 0x41)
  obtain ⟨fuel, r, hr⟩ := hdir noDir [0x42]
  change (readDirEntry fuel (constFs 0x41) noDir [0x42]).val = .ok r at hr
  rw [constFs_endless (by decide)] at hr
  · cases hr
  · intro d hd
    have hd' := (constSector_dirEntries hd).1
    exact ⟨by rw [Fat32DirectoryEntry.EndMark, hd']; decide,
      fun _ hname => absurd (congrFun (hd'.symm.trans hname) 0) (by decide)⟩

/-- On a card of zeros a search, an open and the look-up of the label end at the first entry. -/
theorem scans_return_zeros :
    (∃ fuel r, (readDirEntry fuel (constFs 0) noDir [0x41]).val = .ok r) ∧
    (∃ fuel r, (fat32Open fuel (constFs 0) ⟨[0x41], by decide⟩ (smallFile ⟨fun _ => none⟩ 0 0 0)
      fun _ => 0).val = .ok r) ∧
    ∃ fuel r, (fat32Readlabel fuel (constFs 0) fun _ => 0).val = .ok r := by
  have hkept : keptComponents ⟨[0x41], by decide⟩ = [[0x41]] := by decide
  have hends (Pass : Fat32DirectoryEntry → Prop) (hmark : ∀ e, Pass e → ¬ e.EndMark) :
      ScanEnds (constFs 0) Pass 2 := by
    refine .inr ⟨2, .here (by decide), fun hpass => ?_⟩
    obtain ⟨b, hb, hall⟩ := hpass 0 (by decide)
    cases hb
    have h0 : 0 < entriesPerSector := by decide
    exact hmark _ (hall _ (List.mem_map_of_mem (List.mem_range.2 h0))) rfl
  obtain ⟨hsearch, hopen, hlabel⟩ := scans_return_iff (constFs 0) rfl (constFs_reads 0)
  refine ⟨(hsearch noDir [0x41]).2 (hends _ fun _ h => h.1), (hopen _ _ _ (by simp [hkept])).2 ?_,
    (hlabel _).2 (hends _ fun _ h => h.1)⟩
  intro names name rest hsplit es htrail
  rw [hkept] at hsplit
  -- the only component is searched for in the root
  rcases names with _ | ⟨first, names⟩
  · rcases es with _ | ⟨e, es⟩
    · exact hends _ fun _ h => h.1
    · exact htrail.elim
  · have hlen := congrArg List.length hsplit
    simp at hlen

end BeagleKernel.Fat32
