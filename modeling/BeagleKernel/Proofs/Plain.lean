import BeagleKernel.Fat32.Plain
import BeagleKernel.Proofs.Lookup

/-!
# What the searches find on a plain volume

In a plain directory the driver's search for a name meets the entry with this name, if the
directory lists one (`found_of_listed`), and nothing else (`listed_of_found`). So on a plain volume
a plain path leads where its components lead (`leadsTo_iff_resolves`).
-/

namespace BeagleKernel.Fat32

variable {fs : Fat32Fs} {dir : UInt32} {e : Fat32DirectoryEntry}

/-! ## Slots -/

theorem before_or_after {α : Type} {pre post pre' post' : List α} {a b : α}
    (h : pre ++ a :: post = pre' ++ b :: post') (hne : a ≠ b) :
    b ∈ pre ∨ ∃ mid, pre' = pre ++ a :: mid := by
  rcases List.append_eq_append_iff.1 h with ⟨mid, hsplit, hcons⟩ | ⟨mid, hsplit, hcons⟩
  · rcases mid with _ | ⟨x, mid⟩
    · exact absurd (List.cons.inj hcons).1 hne
    · obtain ⟨rfl, -⟩ := List.cons.inj hcons
      exact .inr ⟨mid, hsplit⟩
  · rcases mid with _ | ⟨x, mid⟩
    · exact absurd (List.cons.inj hcons).1.symm hne
    · obtain ⟨rfl, -⟩ := List.cons.inj hcons
      left
      rw [hsplit]
      exact List.mem_append_right _ List.mem_cons_self

theorem lowLink_of_link {c d : UInt32} (h : link fs c = some d) (hlow : d.toNat < 256) :
    lowLink fs c = some d := by
  rw [lowLink, ((link_eq_some_iff fs).1 h).1, Option.map_some, Option.some.injEq,
    ← UInt32.toNat_inj, UInt32.toNat_mod]
  exact Nat.mod_eq_of_lt hlow

/-- The slots of a cluster, and then none or those of the directory's rest. -/
theorem dirSlots_succ (next : UInt32 → Option UInt32) (dir : UInt32) (k : ℕ) : ∃ rest,
    dirSlots fs next dir (k + 1) = clusterSlots fs dir ++ rest ∧
      (next dir = none ∧ rest = [none] ∨ ∃ d, next dir = some d ∧ rest = dirSlots fs next d k) := by
  rw [dirSlots]
  rcases hnext : next dir with _ | d
  · exact ⟨_, rfl, .inl ⟨rfl, rfl⟩⟩
  · exact ⟨_, rfl, .inr ⟨d, rfl, rfl⟩⟩

/-- Where the links fit into their low bytes, the slots the search meets are those of the
directory, up to its end. -/
theorem dirSlots_low : ∀ {k : ℕ} {dir : UInt32} {pre post : List (Option Fat32DirectoryEntry)},
    (∀ k c d, chain fs dir k = some c → link fs c = some d → d.toNat < 256) →
    dirSlots fs (link fs) dir k = pre ++ some e :: post →
    ∃ post', dirSlots fs (lowLink fs) dir k = pre ++ some e :: post'
  | 0, _, pre, _, _, h => by cases pre <;> cases h
  | k + 1, dir, pre, post, hlow, h => by
    obtain ⟨rest, hrest, hnext⟩ := @dirSlots_succ fs (link fs) dir k
    have later : ∀ mid, pre = clusterSlots fs dir ++ mid → rest = mid ++ some e :: post →
        ∃ post', dirSlots fs (lowLink fs) dir (k + 1) = pre ++ some e :: post' := by
      rintro mid rfl hmid
      rcases hnext with ⟨-, rfl⟩ | ⟨d, hl, rfl⟩
      · have hmem : some e ∈ mid ++ some e :: post := List.mem_append_right _ List.mem_cons_self
        rw [← hmid] at hmem
        exact nomatch List.mem_singleton.1 hmem
      · obtain ⟨post', hpost⟩ := dirSlots_low (fun k c c' hc => hlow (k + 1) c c' (by
          rw [chain, walk_succ', hl]
          exact hc)) hmid
        refine ⟨post', ?_⟩
        rw [dirSlots, lowLink_of_link hl (hlow 0 dir d rfl hl), List.append_assoc]
        exact congrArg _ hpost
    rw [hrest] at h
    rcases List.append_eq_append_iff.1 h with ⟨mid, hpre, hmid⟩ | ⟨mid, hslots, hmid⟩
    · exact later mid hpre hmid
    · rcases mid with _ | ⟨x, mid⟩
      · exact later [] (by rw [hslots, List.append_nil, List.append_nil]) hmid.symm
      · cases hmid
        rw [dirSlots, hslots, List.append_assoc]
        exact ⟨_, rfl⟩

/-- The first of the slots with a name is met by the search for it. -/
theorem found_of_listed (h : PlainDirectory fs dir) (hlisted : Listed fs dir e)
    (hlabel : ¬ e.IsLabel) : Found fs dir e.filename e := by
  obtain ⟨hlive, k, pre, post, hslots, hpre⟩ := hlisted
  -- the first slot that holds the entry
  obtain ⟨first, rest, hsplit, hnot⟩ :=
    List.eq_append_cons_of_mem (List.mem_append_right pre (List.mem_singleton_self (some e)))
  have hfirst : ∀ x ∈ first, x ∈ pre := fun x hx => by
    have hmem : x ∈ pre ++ [some e] := by
      rw [hsplit]
      exact List.mem_append_left _ hx
    refine (List.mem_append.1 hmem).resolve_right fun hx' => hnot ?_
    rwa [← List.mem_singleton.1 hx']
  have hslots' : dirSlots fs (link fs) dir k = first ++ some e :: (rest ++ post) := by
    rw [hslots, ← List.singleton_append, ← List.append_assoc, hsplit, List.append_assoc,
      List.cons_append]
  obtain ⟨post', hlow⟩ := dirSlots_low h.low hslots'
  refine ⟨h.start, hlive, rfl, k, first, post', hlow, fun x hx => ?_⟩
  obtain ⟨d, rfl, hmark⟩ := hpre x (hfirst x hx)
  refine ⟨d, rfl, hmark, fun hd hname => hnot ?_⟩
  obtain ⟨before, after, hbefore⟩ := List.append_of_mem hx
  have hdlisted : Listed fs dir d := by
    refine ⟨hd, k, before, after ++ some e :: (rest ++ post), ?_, fun y hy => hpre y (hfirst y ?_)⟩
    · rw [hslots', hbefore, List.append_assoc, List.cons_append]
    · rw [hbefore]
      exact List.mem_append_left _ hy
  rwa [← h.names d e hdlisted ⟨hlive, k, pre, post, hslots, hpre⟩ hlabel hname]

/-- Before the end mark the search meets what the directory lists. -/
theorem listed_of_found (h : PlainDirectory fs dir) (hend : EndMarked fs dir)
    {name : Fin 11 → UInt8} (hfound : Found fs dir name e) : Listed fs dir e := by
  obtain ⟨-, hlive, -, n, pre, post, hslots, hpre⟩ := hfound
  obtain ⟨k, z, hz, before, after, hmark, hbefore⟩ := hend
  obtain ⟨after', hlow⟩ := dirSlots_low h.low hmark
  obtain ⟨rest, hrest⟩ := dirSlots_prefix fs (lowLink fs) (c := dir) (le_max_left n k)
  obtain ⟨rest', hrest'⟩ := dirSlots_prefix fs (lowLink fs) (c := dir) (le_max_right n k)
  rw [hslots, List.append_assoc, List.cons_append] at hrest
  rw [hlow, List.append_assoc, List.cons_append, hrest] at hrest'
  have hne : some e ≠ some z := by
    rintro ⟨⟩
    exact hlive.1 hz
  rcases before_or_after hrest' hne with hmem | ⟨mid, hsplit⟩
  · obtain ⟨d, hd, hpass⟩ := hpre _ hmem
    cases hd
    exact absurd hz hpass.1
  · refine ⟨hlive, k, pre, mid ++ some z :: after, ?_, fun x hx => hbefore x ?_⟩
    · rw [hmark, hsplit, List.append_assoc, List.cons_append]
    · rw [hsplit]
      exact List.mem_append_left _ hx

/-! ## Paths -/

/-- Where all directories are plain, the searches lead along the entries the components name. -/
theorem trail_of_resolves {names : List (List UInt8)} (h : Resolves fs dir names e)
    (hdirs : ∀ dir, Directory fs dir → PlainDirectory fs dir) (hdir : Directory fs dir) :
    ∃ es, Trail fs dir names (es ++ [e]) := by
  induction h with
  | file hfits hlisted hname hlabel hfile =>
    refine ⟨[], ?_, trivial⟩
    rw [hname]
    exact found_of_listed (hdirs _ hdir) hlisted hlabel
  | @dir dir name d names e hfits hlisted hname hlabel hisdir _ ih =>
    have hdot : d.filename 0 ≠ dot := by
      rw [← hname]
      exact hfits.formatted_ne_dot
    obtain ⟨es, htrail⟩ := ih (.sub hdir hlisted ⟨hisdir, hlabel, hdot⟩)
    refine ⟨d :: es, ?_, htrail⟩
    rw [hname]
    exact found_of_listed (hdirs _ hdir) hlisted hlabel

/-- And on a plain volume nowhere else, for the components of a plain path. -/
theorem resolves_of_trail (hvol : PlainVolume fs) (hfile : ¬ e.IsDirectory) :
    ∀ {names : List (List UInt8)} {es : List Fat32DirectoryEntry} {dir : UInt32},
      Directory fs dir → (∀ name ∈ names, Fits83 name) →
      (∀ dir, Directory fs dir → ∀ d, Listed fs dir d → d.IsLabel →
        ∀ name ∈ names, formatNameToFat32 name ≠ d.filename) →
      (∀ init rest, init ++ rest = names → rest ≠ [] → ∀ e', ¬ Resolves fs dir init e') →
      Trail fs dir names (es ++ [e]) → Resolves fs dir names e
  | [name], [], dir, hdir, hfits, hlabels, _, htrail => by
    obtain ⟨hplain, hend⟩ := hvol.directories dir hdir
    have hlisted := listed_of_found hplain hend htrail.1
    have hname : formatNameToFat32 name = e.filename := htrail.1.2.2.1.symm
    exact .file (hfits name List.mem_cons_self) hlisted hname
      (fun hl => hlabels dir hdir e hlisted hl name List.mem_cons_self hname) hfile
  | name :: next :: names, d :: es, dir, hdir, hfits, hlabels, hdirs, htrail => by
    obtain ⟨hplain, hend⟩ := hvol.directories dir hdir
    have hlisted := listed_of_found hplain hend htrail.1
    have hname : formatNameToFat32 name = d.filename := htrail.1.2.2.1.symm
    have hfit := hfits name List.mem_cons_self
    have hlabel : ¬ d.IsLabel := fun hl =>
      hlabels dir hdir d hlisted hl name List.mem_cons_self hname
    have hisdir : d.IsDirectory := by
      by_contra hnot
      exact hdirs [name] (next :: names) rfl (List.cons_ne_nil _ _) d
        (.file hfit hlisted hname hlabel hnot)
    have hdot : d.filename 0 ≠ dot := by
      rw [← hname]
      exact hfit.formatted_ne_dot
    refine .dir hfit hlisted hname hlabel hisdir (resolves_of_trail hvol hfile
      (.sub hdir hlisted ⟨hisdir, hlabel, hdot⟩) (fun n hn => hfits n (List.mem_cons_of_mem _ hn))
      (fun dir' hdir' d' hd' hl n hn => hlabels dir' hdir' d' hd' hl n (List.mem_cons_of_mem _ hn))
      (fun init rest hinit hne e' hres => ?_) htrail.2)
    refine hdirs (name :: init) rest (by rw [List.cons_append, hinit]) hne e' ?_
    exact .dir hfit hlisted hname hlabel hisdir hres
  | [], [], _, _, _, _, _, htrail => htrail.elim
  | [], _ :: _, _, _, _, _, _, htrail => htrail.elim
  | [_], _ :: es, _, _, _, _, _, htrail => by rcases es with _ | ⟨_, _⟩ <;> exact htrail.2.elim
  | _ :: _ :: _, [], _, _, _, _, _, htrail => htrail.2.elim

/-- The searches for the components of a path lead to a file. -/
def LeadsTo (fs : Fat32Fs) (path : CString) (e : Fat32DirectoryEntry) : Prop :=
  ¬ e.IsDirectory ∧ ∃ es, Trail fs fs.rootCluster (keptComponents path) (es ++ [e])

theorem leadsTo_iff_resolves {path : CString} (hvol : PlainVolume fs) (hpath : PlainPath fs path) :
    LeadsTo fs path e ↔ Resolves fs fs.rootCluster (components path) e := by
  rw [LeadsTo, keptComponents_eq hpath.count hpath.fits]
  constructor
  · rintro ⟨hfile, es, htrail⟩
    exact resolves_of_trail hvol hfile .root hpath.fits hpath.labels hpath.dirs htrail
  · intro h
    exact ⟨(h.listed .root).1,
      trail_of_resolves h (fun dir hdir => (hvol.directories dir hdir).1) .root⟩

/-! ## Files -/

/-- Up to the size of a plain file, what can be had from its start are the bytes of its chain, and
no cluster on the way is rejected. -/
theorem PlainFile.coded {start size : UInt32} (h : PlainFile fs start size) (hbelow : DataBelow fs)
    (hspc : 1 ≤ fs.sectorsPerCluster.toNat) {j : ℕ} (hj : j < size.toNat) :
    codedByte fs start j = chainByte fs start j ∧ ¬ Rejected fs start j := by
  obtain ⟨c, hc, hin⟩ := h.clusters _ (div_lt_clustersFor hspc hj)
  have hacc := clusterToSector_inVolume hspc hbelow hin
  have hcoded := codedCluster_of_chain fs (h.above (Nat.zero_lt_of_lt hj)) hc
  constructor
  · rw [codedByte, chainByte, hcoded, hc, Option.bind_some, Option.bind_some, if_pos hacc]
  · rintro ⟨c', hc', hneg⟩
    rw [hcoded] at hc'
    cases hc'
    exact Int32.not_lt.2 hacc hneg

end BeagleKernel.Fat32
