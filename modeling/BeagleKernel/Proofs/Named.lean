import BeagleKernel.Proofs.Open

/-!
# Opening the file named

The searches of an open go by the captured components, by eleven bytes and by the low bytes of the
FAT links. `opensOnlyNamed_iff` says when this leads to the file the path names: no component is
dropped or cut, and every entry met is one of the true directory, a directory on the way, and never
a label.
-/

namespace BeagleKernel.Fat32

variable (fs : Fat32Fs)

/-- Every handle opened for the path is that of a regular file its components spell. -/
def OpensOnlyNamed (path : CString) : Prop :=
  ∀ fuel file prior file', (fat32Open fuel fs path file prior).val = .ok (0, file') →
    ∃ e, Resolves fs fs.rootCluster (components path) e ∧
      file'.startCluster = e.startCluster ∧ file'.fileSize = e.fileSize

/-- Each entry is one of the directory the one before it heads. -/
def TrailListed : UInt32 → List Fat32DirectoryEntry → Prop
  | _, [] => True
  | start, e :: es => Listed fs start e ∧ TrailListed e.startCluster es

/-- A trail that goes where the path says. -/
structure TrueTrail (path : CString) (es : List Fat32DirectoryEntry) (e : Fat32DirectoryEntry) :
    Prop where
  kept : keptComponents path = components path
  fits : ∀ name ∈ components path, Fits83 name
  listed : TrailListed fs fs.rootCluster (es ++ [e])
  noLabel : ∀ d ∈ es ++ [e], ¬ d.IsLabel
  dirs : ∀ d ∈ es, d.IsDirectory

/-- The entries the components lead along, the last one the regular file they name. -/
inductive ResolvesAlong :
    UInt32 → List (List UInt8) → List Fat32DirectoryEntry → Fat32DirectoryEntry → Prop
  | file {dir name e} : Fits83 name → Listed fs dir e → formatNameToFat32 name = e.filename →
      ¬ e.IsLabel → ¬ e.IsDirectory → ResolvesAlong dir [name] [] e
  | dir {dir name d names ds e} : Fits83 name → Listed fs dir d →
      formatNameToFat32 name = d.filename → ¬ d.IsLabel → d.IsDirectory →
      ResolvesAlong d.startCluster names ds e → ResolvesAlong dir (name :: names) (d :: ds) e

variable {fs} in
theorem Resolves.along {start : UInt32} {names : List (List UInt8)} {e : Fat32DirectoryEntry}
    (h : Resolves fs start names e) : ∃ ds, ResolvesAlong fs start names ds e := by
  induction h with
  | file hfits hlisted hname hlabel hfile =>
    exact ⟨[], .file hfits hlisted hname hlabel hfile⟩
  | dir hfits hlisted hname hlabel hisdir _ ih =>
    obtain ⟨ds, hds⟩ := ih
    exact ⟨_ :: ds, .dir hfits hlisted hname hlabel hisdir hds⟩

namespace ResolvesAlong

variable {fs} {start : UInt32} {names : List (List UInt8)} {ds : List Fat32DirectoryEntry}
  {e : Fat32DirectoryEntry}

theorem resolves (h : ResolvesAlong fs start names ds e) : Resolves fs start names e := by
  induction h with
  | file hfits hlisted hname hlabel hfile => exact .file hfits hlisted hname hlabel hfile
  | dir hfits hlisted hname hlabel hisdir _ ih => exact .dir hfits hlisted hname hlabel hisdir ih

theorem length_eq (h : ResolvesAlong fs start names ds e) : names.length = ds.length + 1 := by
  induction h with
  | file => rfl
  | dir _ _ _ _ _ _ ih => rw [List.length_cons, List.length_cons, ih]

theorem facts (h : ResolvesAlong fs start names ds e) : (∀ name ∈ names, Fits83 name) ∧
    TrailListed fs start (ds ++ [e]) ∧ (∀ d ∈ ds ++ [e], ¬ d.IsLabel) ∧
      ∀ d ∈ ds, d.IsDirectory := by
  induction h with
  | file hfits hlisted _ hlabel _ =>
    exact ⟨List.forall_mem_singleton.2 hfits, ⟨hlisted, trivial⟩,
      List.forall_mem_singleton.2 hlabel, List.forall_mem_nil _⟩
  | dir hfits hlisted _ hlabel hisdir _ ih =>
    obtain ⟨hnames, hrest, hlabels, hdirs⟩ := ih
    exact ⟨List.forall_mem_cons.2 ⟨hfits, hnames⟩, ⟨hlisted, hrest⟩,
      List.forall_mem_cons.2 ⟨hlabel, hlabels⟩, List.forall_mem_cons.2 ⟨hisdir, hdirs⟩⟩

end ResolvesAlong

theorem resolvesAlong_of_trail {e : Fat32DirectoryEntry} (hfile : ¬ e.IsDirectory) :
    ∀ {names : List (List UInt8)} {es : List Fat32DirectoryEntry} {start : UInt32},
      Trail fs start names (es ++ [e]) → (∀ name ∈ names, Fits83 name) →
      TrailListed fs start (es ++ [e]) → (∀ d ∈ es ++ [e], ¬ d.IsLabel) →
      (∀ d ∈ es, d.IsDirectory) → ResolvesAlong fs start names es e
  | [name], [], start, htrail, hfits, hlisted, hlabel, _ => by
    have hname := hfits name List.mem_cons_self
    exact .file hname hlisted.1 htrail.1.2.2.1.symm (hlabel e List.mem_cons_self) hfile
  | name :: names, d :: es, start, htrail, hfits, hlisted, hlabel, hdirs => by
    have hrest := resolvesAlong_of_trail hfile htrail.2
      (fun n hn => hfits n (List.mem_cons_of_mem _ hn)) hlisted.2
      (fun d hd => hlabel d (List.mem_cons_of_mem _ hd))
      (fun d hd => hdirs d (List.mem_cons_of_mem _ hd))
    exact .dir (hfits name List.mem_cons_self) hlisted.1 htrail.1.2.2.1.symm
      (hlabel d List.mem_cons_self) (hdirs d List.mem_cons_self) hrest
  | [], [], _, htrail, _, _, _, _ => htrail.elim
  | [], _ :: _, _, htrail, _, _, _, _ => htrail.elim
  | _ :: _ :: _, [], _, htrail, _, _, _, _ => htrail.2.elim

/-- The parser keeps as many components as there are only by keeping them all. -/
theorem keptComponents_of_length {path : CString}
    (h : (keptComponents path).length = (components path).length) :
    keptComponents path = components path := by
  have hfilter := List.length_filter_le (fun name : List UInt8 =>
    decide (name.length < fat32MaxComponentLength)) (components path)
  rw [keptComponents, List.length_take] at h
  rw [keptComponents, List.take_of_length_le (by omega)]
  exact List.filter_sublist.eq_of_length (by omega)

/-- The trail is the one the path names exactly if it is a true one. -/
theorem trueTrail_iff {path : CString} {es : List Fat32DirectoryEntry} {e : Fat32DirectoryEntry}
    (htrail : Trail fs fs.rootCluster (keptComponents path) (es ++ [e])) (hfile : ¬ e.IsDirectory) :
    TrueTrail fs path es e ↔ ResolvesAlong fs fs.rootCluster (components path) es e := by
  constructor
  · intro h
    rw [h.kept] at htrail
    exact resolvesAlong_of_trail fs hfile htrail h.fits h.listed h.noLabel h.dirs
  · intro h
    obtain ⟨hfits, hlisted, hlabels, hdirs⟩ := h.facts
    have hlen := length_of_trail fs htrail
    rw [List.length_append, List.length_singleton, ← h.length_eq] at hlen
    exact ⟨keptComponents_of_length hlen.symm, hfits, hlisted, hlabels, hdirs⟩

theorem snoc_of_trail {start : UInt32} {names : List (List UInt8)}
    {es : List Fat32DirectoryEntry} {e : Fat32DirectoryEntry}
    (h : Trail fs start names (es ++ [e])) : ∃ init name, names = init ++ [name] := by
  have hlen := length_of_trail fs h
  have hne : names ≠ [] := by
    rintro rfl
    simp at hlen
  exact ⟨names.dropLast, names.getLast hne, (List.dropLast_append_getLast hne).symm⟩

/-- The handles opened for a path are those of the file it names exactly where the trail of the
captured components goes where the path says whenever it leads to a file, or, where it does not,
the path happens to lead along other entries to a file with the same start and size. -/
theorem opensOnlyNamed_iff (path : CString) :
    OpensOnlyNamed fs path ↔ (fs.isInitialized → ∀ es e,
      Trail fs fs.rootCluster (keptComponents path) (es ++ [e]) → ¬ e.IsDirectory →
      TrueTrail fs path es e ∨ ∃ ds e', ds ++ [e'] ≠ es ++ [e] ∧
        ResolvesAlong fs fs.rootCluster (components path) ds e' ∧
        e'.startCluster = e.startCluster ∧ e'.fileSize = e.fileSize) := by
  constructor
  · intro h hinit es e htrail hdir
    obtain ⟨init, name, hkept⟩ := snoc_of_trail fs htrail
    have htrail' := htrail
    rw [hkept] at htrail'
    obtain ⟨k, hopen⟩ := fat32Open_of_trail fs hkept hinit htrail' hdir
    obtain ⟨e', hres, hstart, hsize⟩ := h k (openedFile fs (smallFile fs.disk 0 0 0) 0 [] e)
      (fun _ => 0) _ (hopen k le_rfl _ _)
    obtain ⟨ds, halong⟩ := hres.along
    by_cases hsame : ds ++ [e'] = es ++ [e]
    · obtain ⟨rfl, rfl⟩ := List.append_singleton_inj.1 hsame
      exact .inl ((trueTrail_iff fs htrail hdir).2 halong)
    · exact .inr ⟨ds, e', hsame, halong, hstart.symm, hsize.symm⟩
  · intro h fuel file prior file' hopen
    rcases hk : keptComponents path with _ | ⟨n, ns⟩
    · exact absurd hopen (fat32Open_no_components fs hk)
    have hne : keptComponents path ≠ [] := by
      rw [hk]
      exact List.cons_ne_nil _ _
    have hkept := (List.dropLast_append_getLast hne).symm
    obtain ⟨hinit, es, e, htrail, hdir, rfl⟩ := trail_of_fat32Open fs hkept hopen
    rw [← hkept] at htrail
    rcases h hinit es e htrail hdir with htrue | ⟨ds, e', -, halong, hstart, hsize⟩
    · exact ⟨e, ((trueTrail_iff fs htrail hdir).1 htrue).resolves, rfl, rfl⟩
    · exact ⟨e', halong.resolves, hstart.symm, hsize.symm⟩

/-- A card whose root directory, in cluster 2, has one file `LONGFILE`. -/
def longfileDisk : Fat32Diskio where
  readSector s := some fun i =>
    if s = 33 then ([0x4C, 0x4F, 0x4E, 0x47, 0x46, 0x49, 0x4C, 0x45, 0x20, 0x20, 0x20, 0, 0, 0, 0,
      0, 0, 0, 0, 0, 0, 0, 0, 0, 0, 0, 3, 0, 5, 0, 0, 0] : List UInt8).getD i 0
    else 0

/-- The path `longfilename`. -/
def longfilename : CString where
  chars := [0x6C, 0x6F, 0x6E, 0x67, 0x66, 0x69, 0x6C, 0x65, 0x6E, 0x61, 0x6D, 0x65]
  noNul := by decide

/-- The path `longfilename` opens the file `LONGFILE`. -/
theorem longfilename_opens_longfile : ¬ ∀ fs path, OpensOnlyNamed fs path := by
  intro h
  have hopen : ∃ file', (fat32Open 1 (smallFs longfileDisk) longfilename
      (smallFile longfileDisk 0 0 0) fun _ => 0).val = .ok (0, file') := ⟨_, rfl⟩
  obtain ⟨file', hopen⟩ := hopen
  obtain ⟨e, hres, -⟩ := h _ _ _ _ _ _ hopen
  have hcomp : components longfilename = [longfilename.chars] := by decide
  rw [hcomp] at hres
  cases hres with
  | file hfits => exact absurd hfits.base.2 (by decide)
  | dir hfits => exact absurd hfits.base.2 (by decide)

end BeagleKernel.Fat32
