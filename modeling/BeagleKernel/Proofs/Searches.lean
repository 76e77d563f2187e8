import BeagleKernel.Proofs.Visits

/-!
# What an open reads

`fat32_open` searches for one component after the other, each time in the directory the entries
found so far lead to. It reads what these searches read (`mem_fat32Open`, `fat32Open_reads`).
-/

namespace BeagleKernel.Fat32

/-- The first components `fat32_open` searches for. Without a component in the path it does not
stop at their number. -/
def SearchedFor (p : Fat32Path) (names : List (List UInt8)) : Prop :=
  (p.numComponents ≠ 0 → names.length ≤ p.numComponents) ∧
    ∀ i (h : i < names.length), p.component i = pure names[i]

variable {fs : Fat32Fs} {path : Fat32Path} {fuel : ℕ} {a : Access}

theorem component_of_ok {i : ℕ} {name : List UInt8} (h : (path.component i).val = .ok name) :
    path.component i = pure name := by
  unfold Fat32Path.component at h ⊢
  split_ifs at h ⊢
  · split at h
    · cases h
      rfl
    · cases h
  · cases h

theorem component_log (i : ℕ) : (path.component i).log = [] := by
  unfold Fat32Path.component
  split_ifs
  · split <;> rfl
  · rfl

theorem component_lt {i : ℕ} {name : List UInt8} (h : path.component i = pure name) :
    i < fat32MaxComponents := by
  by_contra hi
  unfold Fat32Path.component at h
  rw [if_neg hi] at h
  exact absurd (congrArg Traced.val h) (by simp)

theorem readDirEntry_log (dir : Fat32DirEntry) (name : List UInt8) :
    (readDirEntry fuel fs dir name).log =
      (visitClusters (nameEntries (formatNameToFat32 name)) fat32ErrorNoFile fs fuel 0
        (searchStart fs dir)).log := by
  unfold readDirEntry
  rw [scanClusters_eq_visit]
  rcases hv : (visitClusters (nameEntries (formatNameToFat32 name)) fat32ErrorNoFile fs fuel 0
    (searchStart fs dir)).val with e | code | e
  · rw [Traced.bind_of_error hv]
  · rw [Traced.log_bind_of_ok hv]
    exact List.append_nil _
  · rw [Traced.log_bind_of_ok hv]
    exact List.append_nil _

/-! ## The directories of the path -/

theorem mem_openDirs : ∀ {left i : ℕ} {dir : Fat32DirEntry} {parent : UInt32},
    a ∈ (openDirs fuel fs path left i dir parent).log → ∃ names name es, names.length < left ∧
      (∀ j (h : j < (names ++ [name]).length), path.component (i + j) = pure (names ++ [name])[j]) ∧
      Trail fs (searchStart fs dir) names es ∧
      a ∈ (readDirEntry fuel fs (dirAfter dir es) name).log
  | 0, _, _, _, h => by simp [openDirs] at h
  | left + 1, i, dir, parent, h => by
    rw [openDirs, Traced.mem_log_bind, component_log] at h
    rcases h with h | ⟨name, hname, h⟩
    · simp at h
    have hcomp := component_of_ok hname
    rcases Traced.mem_log_bind.1 h with h | ⟨⟨r, d⟩, hread, h⟩
    · refine ⟨[], name, [], Nat.succ_pos _, ?_, trivial, h⟩
      intro j hj
      obtain rfl : j = 0 := by simpa using hj
      exact hcomp
    · simp only [] at h
      split_ifs at h with hr
      · simp at h
      rw [not_not] at hr
      subst hr
      obtain ⟨e, rfl, hfound⟩ := found_of_readDirEntry fs hread
      obtain ⟨names, name', es, hlen, hnames, htrail, h⟩ := mem_openDirs h
      refine ⟨name :: names, name', e :: es, Nat.succ_lt_succ hlen, ?_, ⟨hfound, htrail⟩, h⟩
      rintro (_ | j) hj
      · exact hcomp
      · have := hnames j (by simpa using hj)
        rwa [Nat.add_assoc, Nat.add_comm 1] at this

/-- Along a trail the loop comes to the search for the next name, and with that in vain ends. -/
theorem openDirs_at {name : List UInt8} :
    ∀ {names : List (List UInt8)} {es : List Fat32DirectoryEntry} {left i : ℕ}
      {dir : Fat32DirEntry} {parent : UInt32}, names.length < left →
      (∀ j (h : j < (names ++ [name]).length), path.component (i + j) = pure (names ++ [name])[j]) →
      Trail fs (searchStart fs dir) names es → ∃ k, ∀ fuel ≥ k, ∃ (before : Prog Unit) (next : _),
        before.val = .ok () ∧ (∀ r d, r ≠ 0 → next (r, d) = pure (.error fat32ErrorNoPath)) ∧
        openDirs fuel fs path left i dir parent =
          before >>= fun _ => readDirEntry fuel fs (dirAfter dir es) name >>= next
  | [], [], left + 1, i, dir, parent, _, hcomp, _ => by
    refine ⟨0, fun fuel _ => ⟨pure (), fun rd => if rd.1 ≠ 0 then return .error fat32ErrorNoPath
      else openDirs fuel fs path left (i + 1) rd.2 rd.2.startCluster, rfl,
      fun r d hr => if_pos hr, ?_⟩⟩
    have h0 := hcomp 0 (by simp)
    rw [Nat.add_zero] at h0
    rw [openDirs, h0, Traced.pure_bind, Traced.pure_bind]
    rfl
  | n :: names, e :: es, left + 1, i, dir, parent, hlen, hcomp, htrail => by
    have h0 := hcomp 0 (by simp)
    rw [Nat.add_zero] at h0
    obtain ⟨k, hk⟩ := htrail.1.readDirEntry
    obtain ⟨k', hk'⟩ := @openDirs_at name names es left (i + 1) e.toDirEntry e.startCluster
      (Nat.lt_of_succ_lt_succ hlen) (fun j hj => by
        rw [Nat.add_assoc, Nat.add_comm 1]
        exact hcomp (j + 1) (by simpa using hj)) htrail.2
    refine ⟨max k k', fun fuel hf => ?_⟩
    obtain ⟨before, next, hbefore, hnext, heq⟩ := hk' fuel (le_trans (le_max_right _ _) hf)
    obtain ⟨first, hfirst, hbind⟩ :=
      Traced.bind_eq_after (hk fuel (le_trans (le_max_left _ _) hf))
    refine ⟨first >>= fun _ => before, next, ?_, hnext, ?_⟩
    · rw [Traced.val_bind_of_ok hfirst, hbefore]
    · rw [openDirs, h0, Traced.pure_bind, Traced.bind_assoc]
      simp only [List.cons_append, List.getElem_cons_zero]
      rw [hbind]
      simp only [ne_eq, not_true_eq_false, if_false]
      exact congrArg _ (funext fun _ => heq)

theorem openDirs_trail_eq {res : Except Int32 (Fat32DirEntry × UInt32)} :
    ∀ {names : List (List UInt8)} {es : List Fat32DirectoryEntry} {i : ℕ} {dir : Fat32DirEntry}
      {parent : UInt32}, (openDirs fuel fs path names.length i dir parent).val = .ok res →
      (∀ j (h : j < names.length), path.component (i + j) = pure names[j]) →
      Trail fs (searchStart fs dir) names es → res = .ok (dirAfter dir es, trailEnd parent es)
  | [], [], _, _, _, h, _, _ => (Except.ok.inj h).symm
  | n :: names, e :: es, i, dir, parent, h, hcomp, htrail => by
    have h0 := hcomp 0 (Nat.succ_pos _)
    rw [Nat.add_zero, List.getElem_cons_zero] at h0
    rw [List.length_cons, openDirs, h0, Traced.pure_bind] at h
    obtain ⟨r, hread, h⟩ := Traced.val_bind_eq_ok.1 h
    obtain rfl := htrail.1.readDirEntry_eq fs hread
    simp only [ne_eq, not_true_eq_false, if_false] at h
    refine @openDirs_trail_eq res names es (i + 1) e.toDirEntry e.startCluster h (fun j hj => ?_)
      htrail.2
    have := hcomp (j + 1) (Nat.succ_lt_succ hj)
    rwa [List.getElem_cons_succ, Nat.add_comm j 1, ← Nat.add_assoc] at this

/-- A loop that returns has come back from each search on the trail. -/
theorem openDirs_returned {name : List UInt8} {res : Except Int32 (Fat32DirEntry × UInt32)} :
    ∀ {names : List (List UInt8)} {es : List Fat32DirectoryEntry} {left i : ℕ}
      {dir : Fat32DirEntry} {parent : UInt32},
      (openDirs fuel fs path left i dir parent).val = .ok res → names.length < left →
      (∀ j (h : j < (names ++ [name]).length), path.component (i + j) = pure (names ++ [name])[j]) →
      Trail fs (searchStart fs dir) names es →
      ∃ r, (readDirEntry fuel fs (dirAfter dir es) name).val = .ok r
  | [], [], left + 1, i, dir, parent, h, _, hcomp, _ => by
    have h0 := hcomp 0 (by simp)
    rw [Nat.add_zero] at h0
    rw [openDirs, h0, Traced.pure_bind] at h
    obtain ⟨r, hread, -⟩ := Traced.val_bind_eq_ok.1 h
    exact ⟨r, hread⟩
  | n :: names, e :: es, left + 1, i, dir, parent, h, hlen, hcomp, htrail => by
    have h0 := hcomp 0 (by simp)
    rw [Nat.add_zero] at h0
    rw [openDirs, h0, Traced.pure_bind] at h
    obtain ⟨r, hread, h⟩ := Traced.val_bind_eq_ok.1 h
    obtain rfl := htrail.1.readDirEntry_eq fs hread
    simp only [ne_eq, not_true_eq_false, if_false] at h
    exact @openDirs_returned name res names es left (i + 1) e.toDirEntry e.startCluster h
      (Nat.lt_of_succ_lt_succ hlen) (fun j hj => by
        rw [Nat.add_assoc, Nat.add_comm 1]
        exact hcomp (j + 1) (by simpa using hj)) htrail.2

/-- A loop that returns a code has made a search in vain. -/
theorem openDirs_vain {code : Int32} :
    ∀ {left i : ℕ} {dir : Fat32DirEntry} {parent : UInt32},
      (openDirs fuel fs path left i dir parent).val = .ok (.error code) →
      ∃ names name es, names.length < left ∧
        (∀ j (h : j < (names ++ [name]).length),
          path.component (i + j) = pure (names ++ [name])[j]) ∧
        Trail fs (searchStart fs dir) names es ∧
        ∃ r d, (readDirEntry fuel fs (dirAfter dir es) name).val = .ok (r, d) ∧ r ≠ 0
  | 0, _, _, _, h => by cases h
  | left + 1, i, dir, parent, h => by
    obtain ⟨name, hname, h⟩ := Traced.val_bind_eq_ok.1 h
    have hcomp := component_of_ok hname
    obtain ⟨⟨r, d⟩, hread, h⟩ := Traced.val_bind_eq_ok.1 h
    simp only [] at h
    split_ifs at h with hr
    · refine ⟨[], name, [], Nat.succ_pos _, fun j hj => ?_, trivial, r, d, hread, hr⟩
      obtain rfl : j = 0 := by simpa using hj
      exact hcomp
    · rw [not_not] at hr
      subst hr
      obtain ⟨e, rfl, hfound⟩ := found_of_readDirEntry fs hread
      obtain ⟨names, name', es, hlen, hnames, htrail, hvain⟩ := openDirs_vain h
      refine ⟨name :: names, name', e :: es, Nat.succ_lt_succ hlen, ?_, ⟨hfound, htrail⟩, hvain⟩
      rintro (_ | j) hj
      · exact hcomp
      · have := hnames j (by simpa using hj)
        rwa [Nat.add_assoc, Nat.add_comm 1] at this

/-! ## The open -/

section

variable {path : CString} {prior : ℕ → UInt8} {file : Fat32File}

theorem dirs_of_parse :
    (UInt32.ofNat (parseFat32Path path prior).numComponents - 1).toNat =
      if (parseFat32Path path prior).numComponents = 0 then 2 ^ 32 - 1
      else (parseFat32Path path prior).numComponents - 1 := by
  have hle := length_keptComponents path
  rw [← numComponents_parse path prior] at hle
  rcases hn : (parseFat32Path path prior).numComponents with _ | n
  · rfl
  · rw [hn] at hle
    simp only [fat32MaxComponents] at hle
    rw [dirs_toNat (by omega), if_neg (Nat.succ_ne_zero n), Nat.succ_sub_one]

theorem searchedFor_of_loop {names : List (List UInt8)} {name : List UInt8}
    (hlen : names.length < if (parseFat32Path path prior).numComponents = 0 then 2 ^ 32 - 1
      else (parseFat32Path path prior).numComponents - 1)
    (hnames : ∀ j (h : j < (names ++ [name]).length),
      (parseFat32Path path prior).component (0 + j) = pure (names ++ [name])[j]) :
    SearchedFor (parseFat32Path path prior) (names ++ [name]) := by
  refine ⟨fun h0 => ?_, fun i hi => ?_⟩
  · rw [if_neg h0] at hlen
    rw [List.length_append, List.length_singleton]
    omega
  · have := hnames i hi
    rwa [Nat.zero_add] at this

theorem searchedFor_of_last {name : List UInt8} {dir : Fat32DirEntry} {parent : UInt32}
    (h0 : (parseFat32Path path prior).numComponents ≠ 0)
    (hopen : (openDirs fuel fs (parseFat32Path path prior)
      ((parseFat32Path path prior).numComponents - 1) 0 noDir fs.rootCluster).val =
        .ok (.ok (dir, parent)))
    (hname : ((parseFat32Path path prior).component
      ((parseFat32Path path prior).numComponents - 1)).val = .ok name) :
    ∃ names es, SearchedFor (parseFat32Path path prior) (names ++ [name]) ∧
      Trail fs fs.rootCluster names es ∧ dir = dirAfter noDir es := by
  have hne : keptComponents path ≠ [] := by
    intro hnil
    rw [numComponents_parse, hnil] at h0
    exact h0 rfl
  have hkept := (List.dropLast_append_getLast hne).symm
  have hname' := component_of_ok hname
  rw [numComponents_snoc hkept, Nat.add_sub_cancel] at hopen hname'
  obtain ⟨es, htrail, rfl, -⟩ := trail_of_openDirs fs (component_init hkept prior) hopen
  refine ⟨_, es, ⟨fun _ => ?_, fun i hi => ?_⟩, htrail, rfl⟩
  · rw [numComponents_snoc hkept, List.length_append, List.length_singleton]
  · rcases Nat.lt_or_ge i (keptComponents path).dropLast.length with hlt | hge
    · rw [List.getElem_append_left hlt]
      simpa using component_init hkept prior i hlt
    · obtain rfl : i = (keptComponents path).dropLast.length := by
        rw [List.length_append, List.length_singleton] at hi
        omega
      simpa using hname'

/-- An open reads what its searches read, each in the directory the ones before it lead to. -/
theorem mem_fat32Open (h : a ∈ (fat32Open fuel fs path file prior).log) :
    ∃ names name es, SearchedFor (parseFat32Path path prior) (names ++ [name]) ∧
      Trail fs fs.rootCluster names es ∧
      a ∈ (readDirEntry fuel fs (dirAfter noDir es) name).log := by
  unfold fat32Open at h
  split_ifs at h with hinit
  · simp at h
  simp only [dirs_of_parse] at h
  rcases Traced.mem_log_bind.1 h with h | ⟨r, hdirs, h⟩
  · obtain ⟨names, name, es, hlen, hnames, htrail, h⟩ := mem_openDirs h
    exact ⟨names, name, es, searchedFor_of_loop hlen hnames, htrail, h⟩
  rcases r with code | ⟨dir, parent⟩
  · simp at h
  simp only [] at h
  split_ifs at h with h0
  · simp at h
  rw [Traced.mem_log_bind, component_log] at h
  rcases h with h | ⟨name, hname, h⟩
  · simp at h
  rw [if_neg h0] at hdirs
  obtain ⟨names, es, hnames, htrail, rfl⟩ := searchedFor_of_last h0 hdirs hname
  refine ⟨names, name, es, hnames, htrail, ?_⟩
  rcases Traced.mem_log_bind.1 h with h | ⟨⟨r, target⟩, -, h⟩
  · exact h
  · simp only [] at h
    split_ifs at h <;> simp at h

/-- A name searched for is one of the loop's, or the last component. -/
theorem SearchedFor.split {names : List (List UInt8)} {name : List UInt8}
    (h : SearchedFor (parseFat32Path path prior) (names ++ [name])) :
    (∀ j (h : j < (names ++ [name]).length),
      (parseFat32Path path prior).component (0 + j) = pure (names ++ [name])[j]) ∧
    (parseFat32Path path prior).component names.length = pure name ∧
    (names.length < (if (parseFat32Path path prior).numComponents = 0 then 2 ^ 32 - 1
      else (parseFat32Path path prior).numComponents - 1) ∨
    (parseFat32Path path prior).numComponents ≠ 0 ∧
      (parseFat32Path path prior).numComponents - 1 = names.length) := by
  obtain ⟨hcount, hcomp⟩ := h
  have hlast := hcomp names.length (by simp)
  have h16 := component_lt hlast
  rw [List.getElem_concat_length rfl] at hlast
  rw [List.length_append, List.length_singleton] at hcount
  simp only [fat32MaxComponents] at h16
  refine ⟨fun j h => by rw [Nat.zero_add]; exact hcomp j h, hlast, ?_⟩
  split_ifs with h0
  · exact .inl (by omega)
  · have := hcount h0
    rcases Nat.lt_or_ge names.length ((parseFat32Path path prior).numComponents - 1) with hlt | hge
    · exact .inl hlt
    · exact .inr ⟨h0, by omega⟩

/-- Along a trail the open comes to the search for the next name, and with that in vain returns
the code for it. -/
theorem fat32Open_at (file : Fat32File) (hinit : fs.isInitialized)
    {names : List (List UInt8)} {name : List UInt8} {es : List Fat32DirectoryEntry}
    (hnames : SearchedFor (parseFat32Path path prior) (names ++ [name]))
    (htrail : Trail fs fs.rootCluster names es) :
    ∃ k, ∀ fuel ≥ k, ∃ (before : Prog Unit) (next : _), before.val = .ok () ∧
      (∀ r d, r ≠ 0 → ∃ code, (code = fat32ErrorNoFile ∨ code = fat32ErrorNoPath) ∧
        next (r, d) = pure (code, file)) ∧
      fat32Open fuel fs path file prior =
        before >>= fun _ => readDirEntry fuel fs (dirAfter noDir es) name >>= next := by
  obtain ⟨hcomp, hlast, hdirs⟩ := hnames.split
  unfold fat32Open
  simp only [hinit, Bool.not_true, Bool.false_eq_true, if_false, dirs_of_parse]
  rcases hdirs with hdirs | ⟨h0, hnum⟩
  · obtain ⟨k, hk⟩ := @openDirs_at fs (parseFat32Path path prior) name names es _ 0 noDir
      fs.rootCluster hdirs hcomp htrail
    refine ⟨k, fun fuel hf => ?_⟩
    obtain ⟨before, next, hbefore, hnext, heq⟩ := hk fuel hf
    rw [heq, Traced.bind_assoc]
    simp only [Traced.bind_assoc]
    refine ⟨before, _, hbefore, fun r d hr => ⟨fat32ErrorNoPath, .inr rfl, ?_⟩, rfl⟩
    rw [hnext r d hr]
    rfl
  · obtain ⟨k, hk⟩ := @openDirs_of_trail fs names es 0 noDir fs.rootCluster htrail
    refine ⟨k, fun fuel hf => ?_⟩
    obtain ⟨before, hbefore, hbind⟩ := Traced.bind_eq_after
      (hk fuel hf (parseFat32Path path prior) fun j hj => by
        have := hcomp j (by rw [List.length_append]; omega)
        rwa [List.getElem_append_left hj] at this)
    rw [if_neg h0, hnum, hbind]
    simp only [if_neg h0]
    rw [hlast]
    simp only [Traced.pure_bind]
    refine ⟨before, _, hbefore, fun r d hr => ⟨fat32ErrorNoFile, .inl rfl, ?_⟩, rfl⟩
    exact if_pos hr

/-- And it reads all that search does, with any large enough bound. -/
theorem fat32Open_reads (file : Fat32File) (hinit : fs.isInitialized)
    {names : List (List UInt8)} {name : List UInt8} {es : List Fat32DirectoryEntry}
    (hnames : SearchedFor (parseFat32Path path prior) (names ++ [name]))
    (htrail : Trail fs fs.rootCluster names es) : ∃ k, ∀ fuel ≥ k,
      (readDirEntry fuel fs (dirAfter noDir es) name).log ⊆
        (fat32Open fuel fs path file prior).log := by
  obtain ⟨k, hk⟩ := fat32Open_at file hinit hnames htrail
  refine ⟨k, fun fuel hf a ha => ?_⟩
  obtain ⟨before, next, hbefore, -, heq⟩ := hk fuel hf
  rw [heq]
  exact Traced.mem_log_bind.2 (.inr ⟨(), hbefore, Traced.mem_log_bind.2 (.inl ha)⟩)

theorem fat32Open_returned (hinit : fs.isInitialized) {names : List (List UInt8)}
    {name : List UInt8} {es : List Fat32DirectoryEntry} {res : Int32 × Fat32File}
    (h : (fat32Open fuel fs path file prior).val = .ok res)
    (hnames : SearchedFor (parseFat32Path path prior) (names ++ [name]))
    (htrail : Trail fs fs.rootCluster names es) :
    ∃ r, (readDirEntry fuel fs (dirAfter noDir es) name).val = .ok r := by
  obtain ⟨hcomp, hlast, hdirs⟩ := hnames.split
  unfold fat32Open at h
  simp only [hinit, Bool.not_true, Bool.false_eq_true, if_false, dirs_of_parse] at h
  obtain ⟨a, hopen, h⟩ := Traced.val_bind_eq_ok.1 h
  rcases hdirs with hdirs | ⟨h0, hnum⟩
  · exact openDirs_returned hopen hdirs hcomp htrail
  · rw [if_neg h0, hnum] at hopen
    have hinit' : ∀ j (h : j < names.length),
        (parseFat32Path path prior).component (0 + j) = pure names[j] := fun j hj => by
      have := hcomp j (by rw [List.length_append]; omega)
      rwa [List.getElem_append_left hj] at this
    obtain rfl := openDirs_trail_eq hopen hinit' htrail
    simp only [if_neg h0, hnum] at h
    rw [hlast, Traced.pure_bind] at h
    obtain ⟨r, hread, -⟩ := Traced.val_bind_eq_ok.1 h
    exact ⟨r, hread⟩

theorem fat32Open_vain {r : Int32} {file' : Fat32File}
    (h : (fat32Open fuel fs path file prior).val = .ok (r, file'))
    (hr : r = fat32ErrorNoFile ∨ r = fat32ErrorNoPath) :
    ∃ names name es, SearchedFor (parseFat32Path path prior) (names ++ [name]) ∧
      Trail fs fs.rootCluster names es ∧
      ∃ code d, (readDirEntry fuel fs (dirAfter noDir es) name).val = .ok (code, d) ∧
        code ≠ 0 := by
  unfold fat32Open at h
  split_ifs at h
  · cases h
    exact absurd hr (by decide)
  simp only [dirs_of_parse] at h
  obtain ⟨a, hdirs, h⟩ := Traced.val_bind_eq_ok.1 h
  rcases a with code | ⟨dir, parent⟩
  · obtain ⟨names, name, es, hlen, hnames, htrail, hvain⟩ := openDirs_vain hdirs
    exact ⟨names, name, es, searchedFor_of_loop hlen hnames, htrail, hvain⟩
  simp only [] at h
  split_ifs at h with h0
  · cases h
  rw [if_neg h0] at hdirs
  obtain ⟨name, hname, h⟩ := Traced.val_bind_eq_ok.1 h
  obtain ⟨names, es, hnames, htrail, rfl⟩ := searchedFor_of_last h0 hdirs hname
  obtain ⟨⟨code, target⟩, hread, h⟩ := Traced.val_bind_eq_ok.1 h
  simp only [] at h
  split_ifs at h with hcode hisdir
  · exact ⟨names, name, es, hnames, htrail, code, target, hread, hcode⟩
  all_goals
    cases h
    exact absurd hr (by decide)

end

end BeagleKernel.Fat32
