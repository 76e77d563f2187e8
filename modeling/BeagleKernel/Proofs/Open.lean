import BeagleKernel.Proofs.Path
import BeagleKernel.Proofs.Search

/-!
# What an open finds

`fat32_open` succeeds exactly where the searches for the captured components meet an entry each
and the last one is no directory (`fat32Open_ok`, `fat32Open_of_trail`); the handle is made from
that entry.
-/

namespace BeagleKernel.Fat32

variable (fs : Fat32Fs)

/-! ## One search -/

theorem scanClusters_error_ne {name : Fin 11 → UInt8} {code : Int32} :
    ∀ {fuel pos : ℕ} {c : UInt32},
      (scanClusters fs name fuel pos c).val = .ok (.error code) → code ≠ 0
  | 0, pos, c, h => by simp [scanClusters] at h
  | fuel + 1, pos, c, h => by
    by_cases hc : c = fat32EocMarker
    · subst hc
      have : fat32ErrorNoFile = code := by simpa [scanClusters] using h
      subst this
      decide
    by_cases hs : scanSlots name (clusterSlots fs c) = .next
    · rw [scanClusters_next fs hc hs] at h
      rcases hl : lowLink fs c with _ | d
      · rw [hl] at h
        cases h
        decide
      · rw [hl] at h
        exact scanClusters_error_ne h
    · rw [scanClusters_stop fs hc hs] at h
      rcases hr : scanSlots name (clusterSlots fs c) with _ | _ | _ | e
      · exact absurd hr hs
      · rw [hr] at h
        cases h
        decide
      · rw [hr] at h
        cases h
        decide
      · rw [hr] at h
        cases h

theorem found_of_readDirEntry {fuel : ℕ} {dir dir' : Fat32DirEntry} {name : List UInt8}
    (h : (readDirEntry fuel fs dir name).val = .ok (0, dir')) :
    ∃ e, dir' = e.toDirEntry ∧ Found fs (searchStart fs dir) (formatNameToFat32 name) e := by
  obtain ⟨r, hr, h⟩ := Traced.val_bind_eq_ok.1 h
  rcases r with code | e
  · cases h
    exact absurd rfl (scanClusters_error_ne fs hr)
  · cases h
    exact ⟨e, rfl, found_of_scanClusters fs hr⟩

theorem Found.readDirEntry {dir : Fat32DirEntry} {name : List UInt8} {e : Fat32DirectoryEntry}
    (h : Found fs (searchStart fs dir) (formatNameToFat32 name) e) :
    ∃ k, ∀ fuel ≥ k, (readDirEntry fuel fs dir name).val = .ok (0, e.toDirEntry) := by
  obtain ⟨k, hk⟩ := h.scanClusters
  refine ⟨k, fun fuel hf => ?_⟩
  rw [Fat32.readDirEntry, Traced.val_bind_of_ok (hk fuel hf 0)]
  rfl

theorem readDirEntry_mono {fuel fuel' : ℕ} {dir : Fat32DirEntry} {name : List UInt8}
    {r : Int32 × Fat32DirEntry} (h : (readDirEntry fuel fs dir name).val = .ok r)
    (hle : fuel ≤ fuel') : readDirEntry fuel' fs dir name = readDirEntry fuel fs dir name := by
  obtain ⟨a, ha, h⟩ := Traced.val_bind_eq_ok.1 h
  rw [readDirEntry, readDirEntry, scanClusters_mono fs ha hle]

theorem Found.readDirEntry_eq {fuel : ℕ} {dir : Fat32DirEntry} {name : List UInt8}
    {e : Fat32DirectoryEntry} {r : Int32 × Fat32DirEntry}
    (h : Found fs (searchStart fs dir) (formatNameToFat32 name) e)
    (hr : (Fat32.readDirEntry fuel fs dir name).val = .ok r) : r = (0, e.toDirEntry) := by
  obtain ⟨k, hk⟩ := h.readDirEntry
  have heq := readDirEntry_mono fs hr (le_max_left fuel k)
  rw [← heq, hk _ (le_max_right _ _)] at hr
  exact (Except.ok.inj hr).symm

theorem readDirEntry_ne_zero {fuel : ℕ} {dir dir' : Fat32DirEntry} {name : List UInt8} {r : Int32}
    (hnone : ¬ ∃ e, Found fs (searchStart fs dir) (formatNameToFat32 name) e)
    (h : (readDirEntry fuel fs dir name).val = .ok (r, dir')) : r ≠ 0 := by
  rintro rfl
  obtain ⟨e, -, hfound⟩ := found_of_readDirEntry fs h
  exact hnone ⟨e, hfound⟩

/-! ## The directories of the path -/

/-- The cluster a trail leads to. -/
def trailEnd (start : UInt32) (es : List Fat32DirectoryEntry) : UInt32 :=
  es.foldl (fun _ e => e.startCluster) start

/-- `current_dir` after a trail. -/
def dirAfter (dir : Fat32DirEntry) (es : List Fat32DirectoryEntry) : Fat32DirEntry :=
  es.foldl (fun _ e => e.toDirEntry) dir

theorem searchStart_dirAfter :
    ∀ (es : List Fat32DirectoryEntry) (dir : Fat32DirEntry),
      searchStart fs (dirAfter dir es) = trailEnd (searchStart fs dir) es
  | [], _ => rfl
  | e :: es, _ => searchStart_dirAfter es e.toDirEntry

theorem trail_snoc {name : List UInt8} {e : Fat32DirectoryEntry} :
    ∀ {names : List (List UInt8)} {es : List Fat32DirectoryEntry} {start : UInt32},
      Trail fs start (names ++ [name]) (es ++ [e]) ↔
        Trail fs start names es ∧ Found fs (trailEnd start es) (formatNameToFat32 name) e
  | [], [], start => by simp [Trail, trailEnd]
  | [], d :: es, start => by
    rcases es with _ | ⟨d', es⟩ <;> simp [Trail]
  | n :: names, [], start => by
    rcases names with _ | ⟨n', names⟩ <;> simp [Trail]
  | n :: names, d :: es, start => by
    simp only [List.cons_append, Trail, @trail_snoc name e names es, and_assoc]
    rfl

theorem length_of_trail :
    ∀ {names : List (List UInt8)} {es : List Fat32DirectoryEntry} {start : UInt32},
      Trail fs start names es → es.length = names.length
  | [], [], _, _ => rfl
  | [], _ :: _, _, h => h.elim
  | _ :: _, [], _, h => h.elim
  | _ :: _, _ :: _, _, h => congrArg (· + 1) (length_of_trail h.2)

variable {path : Fat32Path}

theorem trail_of_openDirs {fuel : ℕ} {dir' : Fat32DirEntry} {parent' : UInt32} :
    ∀ {names : List (List UInt8)} {i : ℕ} {dir : Fat32DirEntry} {parent : UInt32},
      (∀ j (h : j < names.length), path.component (i + j) = pure names[j]) →
      (openDirs fuel fs path names.length i dir parent).val = .ok (.ok (dir', parent')) →
      ∃ es, Trail fs (searchStart fs dir) names es ∧ dir' = dirAfter dir es ∧
        parent' = trailEnd parent es
  | [], i, dir, parent, _, h => by
    cases h
    exact ⟨[], trivial, rfl, rfl⟩
  | name :: names, i, dir, parent, hcomp, h => by
    have h0 := hcomp 0 (Nat.succ_pos _)
    rw [Nat.add_zero, List.getElem_cons_zero] at h0
    rw [List.length_cons, openDirs, h0, Traced.pure_bind] at h
    obtain ⟨⟨r, d⟩, hread, h⟩ := Traced.val_bind_eq_ok.1 h
    simp only [] at h
    split_ifs at h with hr
    · cases h
    · rw [not_not] at hr
      subst hr
      obtain ⟨e, rfl, hfound⟩ := found_of_readDirEntry fs hread
      obtain ⟨es, htrail, hdir, hparent⟩ := trail_of_openDirs (i := i + 1) (fun j hj => by
        have := hcomp (j + 1) (Nat.succ_lt_succ hj)
        rwa [List.getElem_cons_succ, Nat.add_comm j 1, ← Nat.add_assoc] at this) h
      exact ⟨e :: es, ⟨hfound, htrail⟩, hdir, hparent⟩

theorem openDirs_error {fuel : ℕ} {code : Int32} :
    ∀ {left i : ℕ} {dir : Fat32DirEntry} {parent : UInt32},
      (openDirs fuel fs path left i dir parent).val = .ok (.error code) → code = fat32ErrorNoPath
  | 0, _, _, _, h => by cases h
  | left + 1, i, dir, parent, h => by
    obtain ⟨name, -, h⟩ := Traced.val_bind_eq_ok.1 h
    obtain ⟨⟨r, d⟩, -, h⟩ := Traced.val_bind_eq_ok.1 h
    simp only [] at h
    split_ifs at h
    · cases h
      rfl
    · exact openDirs_error h

theorem openDirs_mono {fuel fuel' : ℕ} {path : Fat32Path} (hle : fuel ≤ fuel')
    {r : Except Int32 (Fat32DirEntry × UInt32)} :
    ∀ {left i : ℕ} {dir : Fat32DirEntry} {parent : UInt32},
      (openDirs fuel fs path left i dir parent).val = .ok r →
        (openDirs fuel' fs path left i dir parent).val = .ok r
  | 0, _, _, _, h => h
  | left + 1, i, dir, parent, h => by
    obtain ⟨name, hname, h⟩ := Traced.val_bind_eq_ok.1 h
    obtain ⟨⟨code, d⟩, hread, h⟩ := Traced.val_bind_eq_ok.1 h
    rw [← readDirEntry_mono fs hread hle] at hread
    rw [openDirs, Traced.val_bind_of_ok hname, Traced.val_bind_of_ok hread]
    simp only [] at h ⊢
    split_ifs at h ⊢
    · exact h
    · exact openDirs_mono hle h

theorem openDirs_of_trail :
    ∀ {names : List (List UInt8)} {es : List Fat32DirectoryEntry} {i : ℕ} {dir : Fat32DirEntry}
      {parent : UInt32}, Trail fs (searchStart fs dir) names es →
      ∃ k, ∀ fuel ≥ k, ∀ path : Fat32Path,
        (∀ j (h : j < names.length), path.component (i + j) = pure names[j]) →
        (openDirs fuel fs path names.length i dir parent).val =
          .ok (.ok (dirAfter dir es, trailEnd parent es))
  | [], [], i, dir, parent, _ => ⟨0, fun _ _ _ _ => rfl⟩
  | name :: names, e :: es, i, dir, parent, h => by
    obtain ⟨k, hk⟩ := h.1.readDirEntry
    obtain ⟨k', hk'⟩ := @openDirs_of_trail names es (i + 1) e.toDirEntry
      e.startCluster h.2
    refine ⟨max k k', fun fuel hf path hcomp => ?_⟩
    have h0 := hcomp 0 (Nat.succ_pos _)
    rw [Nat.add_zero, List.getElem_cons_zero] at h0
    rw [List.length_cons, openDirs, h0, Traced.pure_bind,
      Traced.val_bind_of_ok (hk fuel (le_trans (le_max_left _ _) hf))]
    simp only []
    rw [if_neg (not_not.2 rfl)]
    refine hk' fuel (le_trans (le_max_right _ _) hf) path fun j hj => ?_
    have := hcomp (j + 1) (Nat.succ_lt_succ hj)
    rwa [List.getElem_cons_succ, Nat.add_comm j 1, ← Nat.add_assoc] at this

/-! ## The open -/

/-- The handle made from an entry. -/
def openedFile (file : Fat32File) (parent : UInt32) (name : List UInt8)
    (e : Fat32DirectoryEntry) : Fat32File :=
  { file with
    fs := fs
    startCluster := e.startCluster
    currentCluster := e.startCluster
    fileSize := e.fileSize
    parentDirCluster := parent
    fileOffset := 0
    formattedName := formatNameToFat32 name }

theorem dirs_toNat {n : ℕ} (h : n < 2 ^ 32 - 1) :
    (UInt32.ofNat (n + 1) - 1).toNat = n := by
  have h1 : (UInt32.ofNat (n + 1)).toNat = n + 1 := UInt32.toNat_ofNat_lt (by omega)
  rw [UInt32.toNat_sub_of_toNat_le] <;> rw [h1] <;> simp

section

variable {path : CString} {names : List (List UInt8)} {name : List UInt8}
  (hkept : keptComponents path = names ++ [name])

include hkept

theorem numComponents_snoc (prior : ℕ → UInt8) :
    (parseFat32Path path prior).numComponents = names.length + 1 := by
  rw [numComponents_parse, hkept, List.length_append, List.length_singleton]

theorem component_init (prior : ℕ → UInt8) (j : ℕ) (h : j < names.length) :
    (parseFat32Path path prior).component (0 + j) = pure names[j] := by
  rw [Nat.zero_add, component_parse path prior (by rw [hkept, List.length_append]; omega)]
  simp only [hkept]
  rw [List.getElem_append_left h]

theorem component_last (prior : ℕ → UInt8) :
    (parseFat32Path path prior).component names.length = pure name := by
  rw [component_parse path prior (by rw [hkept, List.length_append]; exact Nat.lt_succ_self _)]
  simp only [hkept]
  rw [List.getElem_append_right le_rfl, List.getElem_singleton]

theorem length_init_lt : names.length < 2 ^ 32 - 1 := by
  have := length_keptComponents path
  rw [hkept, List.length_append, List.length_singleton] at this
  simp only [fat32MaxComponents] at this
  omega

/-- An open that succeeds made its handle from the last entry of the trail of the captured
components. -/
theorem trail_of_fat32Open {fuel : ℕ} {file file' : Fat32File} {prior : ℕ → UInt8}
    (h : (fat32Open fuel fs path file prior).val = .ok (0, file')) :
    fs.isInitialized ∧ ∃ es e, Trail fs fs.rootCluster (names ++ [name]) (es ++ [e]) ∧
      ¬ e.IsDirectory ∧ file' = openedFile fs file (trailEnd fs.rootCluster es) name e := by
  unfold fat32Open at h
  simp only [numComponents_snoc hkept, dirs_toNat (length_init_lt hkept)] at h
  rcases hinit : fs.isInitialized with _ | _
  · rw [hinit] at h
    cases h
  simp only [hinit, Bool.not_true, Bool.false_eq_true, if_false] at h
  obtain ⟨r, hdirs, h⟩ := Traced.val_bind_eq_ok.1 h
  rcases r with code | ⟨dir, parent⟩
  · cases h
    exact absurd (openDirs_error fs hdirs) (by decide)
  obtain ⟨es, htrail, rfl, rfl⟩ := trail_of_openDirs fs (component_init hkept prior) hdirs
  simp only [Nat.add_sub_cancel, component_last hkept, Traced.pure_bind,
    if_neg (Nat.succ_ne_zero _)] at h
  obtain ⟨⟨r, target⟩, hread, h⟩ := Traced.val_bind_eq_ok.1 h
  simp only [] at h
  split_ifs at h with hr hdir
  · cases h
  · cases h
  rw [not_not] at hr
  subst hr
  cases h
  obtain ⟨e, rfl, hfound⟩ := found_of_readDirEntry fs hread
  rw [searchStart_dirAfter] at hfound
  exact ⟨rfl, es, e, (trail_snoc fs).2 ⟨htrail, hfound⟩, hdir, rfl⟩

/-- An open that gets to the end of a trail looks at the last entry of it. -/
theorem fat32Open_at_end (hinit : fs.isInitialized) {es : List Fat32DirectoryEntry}
    {e : Fat32DirectoryEntry} (h : Trail fs fs.rootCluster (names ++ [name]) (es ++ [e])) :
    ∃ k, ∀ fuel ≥ k, ∀ file prior, (fat32Open fuel fs path file prior).val =
      .ok (if e.IsDirectory then (fat32ErrorIsDir, file)
        else (0, openedFile fs file (trailEnd fs.rootCluster es) name e)) := by
  obtain ⟨htrail, hfound⟩ := (trail_snoc fs).1 h
  obtain ⟨k, hk⟩ := @openDirs_of_trail fs names es 0 noDir fs.rootCluster htrail
  have hfound' : Found fs (searchStart fs (dirAfter noDir es)) (formatNameToFat32 name) e := by
    rw [searchStart_dirAfter]
    exact hfound
  obtain ⟨k', hk'⟩ := hfound'.readDirEntry
  refine ⟨max k k', fun fuel hf file prior => ?_⟩
  have hdirs := hk fuel (le_trans (le_max_left _ _) hf) (parseFat32Path path prior)
    (component_init hkept prior)
  unfold fat32Open
  simp only [hinit, Bool.not_true, Bool.false_eq_true, if_false, numComponents_snoc hkept,
    dirs_toNat (length_init_lt hkept)]
  rw [Traced.val_bind_of_ok hdirs]
  simp only [if_neg (Nat.succ_ne_zero _), Nat.add_sub_cancel, component_last hkept,
    Traced.pure_bind]
  rw [Traced.val_bind_of_ok (hk' fuel (le_trans (le_max_right _ _) hf))]
  simp only []
  have hattr : e.toDirEntry.attributes &&& fat32AttrDirectory = fat32AttrDirectory ↔
      e.IsDirectory := Iff.rfl
  rw [if_neg (not_not.2 rfl)]
  split_ifs with hleft hright hright
  · rfl
  · exact absurd (hattr.1 hleft) hright
  · exact absurd (hattr.2 hright) hleft
  · rfl

/-- And an open succeeds where that entry is no directory. -/
theorem fat32Open_of_trail (hinit : fs.isInitialized) {es : List Fat32DirectoryEntry}
    {e : Fat32DirectoryEntry} (h : Trail fs fs.rootCluster (names ++ [name]) (es ++ [e]))
    (hdir : ¬ e.IsDirectory) :
    ∃ k, ∀ fuel ≥ k, ∀ file prior, (fat32Open fuel fs path file prior).val =
      .ok (0, openedFile fs file (trailEnd fs.rootCluster es) name e) := by
  obtain ⟨k, hk⟩ := fat32Open_at_end fs hkept hinit h
  refine ⟨k, fun fuel hf file prior => ?_⟩
  rw [hk fuel hf, if_neg hdir]

/-- What an open did that returned. -/
theorem fat32Open_cases (hinit : fs.isInitialized) {fuel : ℕ} {file file' : Fat32File}
    {prior : ℕ → UInt8} {r : Int32} (h : (fat32Open fuel fs path file prior).val = .ok (r, file')) :
    (r = fat32ErrorNoPath ∧ ∃ code, (openDirs fuel fs (parseFat32Path path prior) names.length 0
      noDir fs.rootCluster).val = .ok (.error code)) ∨
    ∃ es, Trail fs fs.rootCluster names es ∧
      (r = fat32ErrorNoFile ∨ ∃ e, Trail fs fs.rootCluster (names ++ [name]) (es ++ [e])) := by
  unfold fat32Open at h
  simp only [hinit, Bool.not_true, Bool.false_eq_true, if_false, numComponents_snoc hkept,
    dirs_toNat (length_init_lt hkept)] at h
  obtain ⟨a, hdirs, h⟩ := Traced.val_bind_eq_ok.1 h
  rcases a with code | ⟨dir, parent⟩
  · cases h
    exact .inl ⟨openDirs_error fs hdirs, _, hdirs⟩
  obtain ⟨es, htrail, rfl, rfl⟩ := trail_of_openDirs fs (component_init hkept prior) hdirs
  refine .inr ⟨es, htrail, ?_⟩
  simp only [Nat.add_sub_cancel, component_last hkept, Traced.pure_bind,
    if_neg (Nat.succ_ne_zero _)] at h
  obtain ⟨⟨code, target⟩, hread, h⟩ := Traced.val_bind_eq_ok.1 h
  by_cases hcode : code = 0
  · subst hcode
    obtain ⟨e, rfl, hfound⟩ := found_of_readDirEntry fs hread
    rw [searchStart_dirAfter] at hfound
    exact .inr ⟨e, (trail_snoc fs).2 ⟨htrail, hfound⟩⟩
  · simp only [] at h
    rw [if_pos hcode] at h
    cases h
    exact .inl rfl

end

/-- More fuel does not change an open that returned. -/
theorem fat32Open_mono {fuel fuel' : ℕ} {path : CString} {file : Fat32File} {prior : ℕ → UInt8}
    {r : Int32 × Fat32File} (h : (fat32Open fuel fs path file prior).val = .ok r)
    (hle : fuel ≤ fuel') : (fat32Open fuel' fs path file prior).val = .ok r := by
  unfold fat32Open at h ⊢
  split_ifs at h ⊢
  · exact h
  obtain ⟨dirs, hdirs, h⟩ := Traced.val_bind_eq_ok.1 h
  rw [Traced.val_bind_of_ok (openDirs_mono fs hle hdirs)]
  rcases dirs with code | ⟨dir, parent⟩
  · exact h
  simp only [] at h ⊢
  split_ifs at h ⊢
  · exact h
  obtain ⟨name, hname, h⟩ := Traced.val_bind_eq_ok.1 h
  obtain ⟨target, hread, h⟩ := Traced.val_bind_eq_ok.1 h
  rw [← readDirEntry_mono fs hread hle] at hread
  rw [Traced.val_bind_of_ok hname, Traced.val_bind_of_ok hread]
  exact h

theorem fat32Open_no_components {path : CString} (hkept : keptComponents path = []) {fuel : ℕ}
    {file file' : Fat32File} {prior : ℕ → UInt8} :
    (fat32Open fuel fs path file prior).val ≠ .ok (0, file') := by
  intro h
  have hnum : (parseFat32Path path prior).numComponents = 0 := by
    rw [numComponents_parse, hkept]
    rfl
  unfold fat32Open at h
  split_ifs at h
  · cases h
  simp only [] at h
  obtain ⟨r, hdirs, h⟩ := Traced.val_bind_eq_ok.1 h
  rcases r with code | ⟨dir, parent⟩
  · cases h
    exact absurd (openDirs_error fs hdirs) (by decide)
  · simp only [if_pos hnum] at h
    cases h

end BeagleKernel.Fat32
