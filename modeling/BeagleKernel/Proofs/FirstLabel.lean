import BeagleKernel.Proofs.FirstMatch

/-!
# The label that is read

`fat32_readlabel` takes the first entry in use with the label bit (`labelEntries_eq_ok_iff`). An
entry of a long name has that bit too, among others, so the label is read only if it comes before
any of those (`returnsLabel_iff`).
-/

namespace BeagleKernel.Fat32

/-- `e` is the first of the entries in use with the property, and no end mark comes before it. -/
def FirstEntry (P : Fat32DirectoryEntry → Prop) (es : List Fat32DirectoryEntry)
    (e : Fat32DirectoryEntry) : Prop :=
  ∃ pre post, es = pre ++ e :: post ∧ e.Live ∧ P e ∧ ∀ d ∈ pre, ¬ d.EndMark ∧ ¬ (d.Live ∧ P d)

/-- The label of a volume, and not an entry of a long name. -/
def Fat32DirectoryEntry.IsVolumeLabel (e : Fat32DirectoryEntry) : Prop :=
  e.IsLabel ∧ e.attr ≠ fat32AttrLfn

/-- The first cluster of the root directory. -/
def rootEntries (fs : Fat32Fs) : List Fat32DirectoryEntry := clusterEntries fs fs.rootCluster

/-- A read of the label returns, with the name of the first volume label among the entries if there
is one, and otherwise with the code for none. -/
def ReturnsLabel (fs : Fat32Fs) (es : List Fat32DirectoryEntry) : Prop :=
  ∃ k, ∀ fuel ≥ k, ∀ labelOut, ∃ code out,
    (fat32Readlabel fuel fs labelOut).val = .ok (code, out) ∧
    ((∃ e, FirstEntry (·.IsVolumeLabel) es e ∧ code = fat32Success ∧
        ∀ i : Fin 11, out i = e.filename i) ∨
      (∀ e, ¬ FirstEntry (·.IsVolumeLabel) es e) ∧ code = fat32ErrorNoLabel)

/-- The first entry in use with the label bit is not one of a long name, or has the name of the
label there is. -/
def LabelFirst (es : List Fat32DirectoryEntry) : Prop :=
  ∀ d, FirstEntry (·.IsLabel) es d → d.attr = fat32AttrLfn →
    ∃ e, FirstEntry (·.IsVolumeLabel) es e ∧ e.filename = d.filename

/-- The same of a volume, whose root directory is not gone through if it starts at the end-of-chain
marker. -/
def LabelRead (fs : Fat32Fs) : Prop :=
  if fs.rootCluster = fat32EocMarker then ∀ e, ¬ FirstEntry (·.IsVolumeLabel) (rootEntries fs) e
  else LabelFirst (rootEntries fs)

section

variable {P Q : Fat32DirectoryEntry → Prop} {es : List Fat32DirectoryEntry}
  {d e : Fat32DirectoryEntry}

theorem not_firstEntry_nil : ¬ FirstEntry P [] e := by
  rintro ⟨pre, post, h, -⟩
  simp at h

theorem firstEntry_cons : FirstEntry P (d :: es) e ↔
    (d.Live ∧ P d ∧ e = d) ∨ (¬ d.EndMark ∧ ¬ (d.Live ∧ P d) ∧ FirstEntry P es e) := by
  constructor
  · rintro ⟨pre, post, h, hlive, hP, hpre⟩
    rcases pre with _ | ⟨d', pre⟩
    · obtain ⟨rfl, rfl⟩ := List.cons.inj h
      exact .inl ⟨hlive, hP, rfl⟩
    · obtain ⟨rfl, rfl⟩ := List.cons.inj h
      obtain ⟨hend, hnot⟩ := hpre d List.mem_cons_self
      exact .inr ⟨hend, hnot, pre, post, rfl, hlive, hP,
        fun x hx => hpre x (List.mem_cons_of_mem d hx)⟩
  · rintro (⟨hlive, hP, rfl⟩ | ⟨hend, hnot, pre, post, rfl, hlive, hP, hpre⟩)
    · exact ⟨[], es, rfl, hlive, hP, by simp⟩
    · refine ⟨d :: pre, post, rfl, hlive, hP, fun x hx => ?_⟩
      rcases List.mem_cons.1 hx with rfl | hx
      · exact ⟨hend, hnot⟩
      · exact hpre x hx

/-- Before an entry with a property comes a first one with a weaker property. -/
theorem FirstEntry.weaken (hQP : ∀ x, Q x → P x) : ∀ {es : List Fat32DirectoryEntry},
    FirstEntry Q es e → ∃ d, FirstEntry P es d
  | [], h => absurd h not_firstEntry_nil
  | x :: es, h => by
    by_cases hx : x.Live ∧ P x
    · exact ⟨x, firstEntry_cons.2 (.inl ⟨hx.1, hx.2, rfl⟩)⟩
    rcases firstEntry_cons.1 h with ⟨hlive, hQ, rfl⟩ | ⟨hend, -, h⟩
    · exact absurd ⟨hlive, hQP _ hQ⟩ hx
    · obtain ⟨d, hd⟩ := FirstEntry.weaken hQP h
      exact ⟨d, firstEntry_cons.2 (.inr ⟨hend, hx, hd⟩)⟩

theorem FirstEntry.strengthen (hQP : ∀ x, Q x → P x) (h : FirstEntry P es e) (hQ : Q e) :
    FirstEntry Q es e := by
  obtain ⟨pre, post, rfl, hlive, -, hpre⟩ := h
  refine ⟨pre, post, rfl, hlive, hQ, fun d hd => ?_⟩
  obtain ⟨hend, hnot⟩ := hpre d hd
  exact ⟨hend, fun hd => hnot ⟨hd.1, hQP d hd.2⟩⟩

end

theorem labelEntries_eq_ok_iff {e : Fat32DirectoryEntry} : ∀ {es : List Fat32DirectoryEntry},
    labelEntries es = some (.ok e) ↔ FirstEntry (·.IsLabel) es e
  | [] => iff_of_false nofun not_firstEntry_nil
  | d :: es => by
    rw [labelEntries, firstEntry_cons, ← labelEntries_eq_ok_iff, isLabel_iff,
      Fat32DirectoryEntry.EndMark, Fat32DirectoryEntry.Live]
    split_ifs with hempty hdel hlabel
    · simp [hempty]
    · simp [hdel, deleted_ne_empty]
    · simp [hempty, hdel, hlabel, eq_comm]
    · simp [hempty, hlabel]

theorem labelEntries_error {code : Int32} : ∀ {es : List Fat32DirectoryEntry},
    labelEntries es = some (.error code) → code = fat32ErrorNoLabel
  | d :: es, h => by
    rw [labelEntries] at h
    split_ifs at h
    · cases h
      rfl
    · exact labelEntries_error h
    · cases h
    · exact labelEntries_error h

theorem labelEntries_append : ∀ {es es' : List Fat32DirectoryEntry},
    labelEntries (es ++ es') = (labelEntries es).or (labelEntries es')
  | [], _ => rfl
  | d :: es, es' => by
    rw [List.cons_append, labelEntries, labelEntries]
    split_ifs
    · rfl
    · exact labelEntries_append
    · rfl
    · exact labelEntries_append

variable {fs : Fat32Fs}

/-- The loop over a cluster is the loop over its entries. -/
theorem visitSectors_label (hreads : ∀ s, (fs.disk.readSector s).isSome) {pos : ℕ}
    {c target : UInt32} : ∀ {sectors : List ℕ} {r : Except Int32 Fat32DirectoryEntry},
    labelEntries (sectors.flatMap fun i =>
      ((fs.disk.readSector (target + UInt32.ofNat i)).map (·.dirEntries)).getD []) = some r →
    (visitSectors labelEntries fs pos c target sectors).val = .ok (.ret r)
  | [], _, h => nomatch h
  | i :: sectors, r, h => by
    obtain ⟨b, hb⟩ := Option.isSome_iff_exists.1 (hreads (target + UInt32.ofNat i))
    rw [List.flatMap_cons, labelEntries_append, hb] at h
    simp only [visitSectors, Fat32Fs.readSector, Traced.event_bind, Access.sector, hb]
    rcases hl : labelEntries b.dirEntries with _ | r'
    · simp only []
      exact visitSectors_label hreads (by simpa [hl] using h)
    · have : r' = r := by simpa [hl] using h
      rw [this]
      rfl

theorem fat32Readlabel_val (hreads : ∀ s, (fs.disk.readSector s).isSome)
    (hroot : fs.rootCluster ≠ fat32EocMarker) {r : Except Int32 Fat32DirectoryEntry}
    (h : labelEntries (rootEntries fs) = some r) (fuel : ℕ) (labelOut : ℕ → UInt8) :
    (fat32Readlabel (fuel + 1) fs labelOut).val = .ok (match r with
      | .error code => (code, labelOut)
      | .ok e => (fat32Success, writeLabel labelOut e.filename)) := by
  have hvisit : (visitClusters labelEntries fat32ErrorNoLabel fs (fuel + 1) 0 fs.rootCluster).val =
      .ok r := by
    rw [visitClusters, if_neg hroot, sectorTarget_eq,
      Traced.val_bind_of_ok (visitSectors_label hreads h)]
    rfl
  rw [fat32Readlabel, Traced.val_bind_of_ok hvisit]
  rcases r with code | e
  · rfl
  · rfl

theorem fat32Readlabel_no_root (hroot : fs.rootCluster = fat32EocMarker) (fuel : ℕ)
    (labelOut : ℕ → UInt8) :
    (fat32Readlabel (fuel + 1) fs labelOut).val = .ok (fat32ErrorNoLabel, labelOut) := by
  rw [fat32Readlabel, visitClusters, if_pos hroot]
  rfl

/-- In a root directory that ends in its first cluster, the entries decide. -/
theorem returnsLabel_of_labelEntries (hreads : ∀ s, (fs.disk.readSector s).isSome)
    (hroot : fs.rootCluster ≠ fat32EocMarker) {r : Except Int32 Fat32DirectoryEntry}
    (h : labelEntries (rootEntries fs) = some r) :
    ReturnsLabel fs (rootEntries fs) ↔ LabelFirst (rootEntries fs) := by
  have hval := fat32Readlabel_val hreads hroot h
  constructor
  · rintro ⟨k, hk⟩ d hd hlfn
    rw [← labelEntries_eq_ok_iff, h] at hd
    cases hd
    obtain ⟨code, out, hcode, hlabel⟩ := hk (k + 1) (Nat.le_succ k) fun _ => 0
    rw [hval] at hcode
    obtain ⟨rfl, rfl⟩ := Prod.mk.inj (Except.ok.inj hcode)
    rcases hlabel with ⟨e, he, -, hname⟩ | ⟨-, hcode⟩
    · refine ⟨e, he, funext fun i => ?_⟩
      rw [← hname i, writeLabel, dif_pos i.isLt]
    · exact absurd hcode (by decide)
  · intro hfirst
    refine ⟨1, fun fuel hfuel labelOut => ?_⟩
    obtain ⟨fuel, rfl⟩ : ∃ n, fuel = n + 1 := ⟨fuel - 1, by omega⟩
    refine ⟨_, _, hval fuel labelOut, ?_⟩
    rcases r with code | d
    · refine .inr ⟨fun e he => ?_, labelEntries_error h⟩
      obtain ⟨d, hd⟩ := he.weaken fun _ hx => hx.1
      rw [labelEntries_eq_ok_iff.2 hd] at h
      cases h
    · have hd := labelEntries_eq_ok_iff.1 h
      have hwritten : ∀ i : Fin 11, writeLabel labelOut d.filename i = d.filename i := fun i =>
        dif_pos i.isLt
      by_cases hlfn : d.attr = fat32AttrLfn
      · obtain ⟨e, he, hname⟩ := hfirst d hd hlfn
        exact .inl ⟨e, he, rfl, fun i => (hwritten i).trans (congrFun hname i).symm⟩
      · obtain ⟨-, -, -, -, hlabel, -⟩ := id hd
        exact .inl ⟨d, hd.strengthen (fun _ hx => hx.1) ⟨hlabel, hlfn⟩, rfl, hwritten⟩

/-- The label is read exactly if no entry of a long name is taken for it. -/
theorem returnsLabel_iff (hreads : ∀ s, (fs.disk.readSector s).isSome)
    (hend : ∃ d ∈ rootEntries fs, d.EndMark) :
    ReturnsLabel fs (rootEntries fs) ↔ LabelRead fs := by
  rw [LabelRead]
  split_ifs with hroot
  · constructor
    · rintro ⟨k, hk⟩
      obtain ⟨code, out, hcode, hlabel⟩ := hk (k + 1) (Nat.le_succ k) fun _ => 0
      rw [fat32Readlabel_no_root hroot] at hcode
      obtain ⟨rfl, rfl⟩ := Prod.mk.inj (Except.ok.inj hcode)
      rcases hlabel with ⟨-, -, hcode, -⟩ | ⟨hnone, -⟩
      · exact absurd hcode (by decide)
      · exact hnone
    · intro hnone
      refine ⟨1, fun fuel hfuel labelOut => ?_⟩
      obtain ⟨fuel, rfl⟩ : ∃ n, fuel = n + 1 := ⟨fuel - 1, by omega⟩
      exact ⟨_, _, fat32Readlabel_no_root hroot fuel labelOut, .inr ⟨hnone, rfl⟩⟩
  · obtain ⟨d, hd, hmark⟩ := hend
    rcases h : labelEntries (rootEntries fs) with _ | r
    · exact absurd hmark ((labelEntries_eq_none_iff _).1 h d hd).1
    · exact returnsLabel_of_labelEntries hreads hroot h

/-! ## A card with one entry in its root -/

/-- A sector with an entry with the attributes, and an end mark after it. -/
def attrSector (attr : UInt8) : Sector := fun i =>
  if i = 11 then attr else if i < 11 then 0x41 else 0

def attrFs (attr : UInt8) : Fat32Fs := cardFs fun _ => some (attrSector attr)

theorem rootEntries_attrFs (attr : UInt8) : ∃ rest, rootEntries (attrFs attr) =
    (attrSector attr).dirEntry 0 :: (attrSector attr).dirEntry 1 :: rest := by
  have hone : List.range (attrFs attr).sectorsPerCluster.toNat = [0] := rfl
  have hsector : clusterStart (attrFs attr) (attrFs attr).rootCluster + UInt32.ofNat 0 = 2 := by
    simp [clusterStart, attrFs, cardFs]
  have hread : (attrFs attr).disk.readSector 2 = some (attrSector attr) := rfl
  rw [rootEntries, clusterEntries, hone, List.flatMap_singleton, hsector, hread]
  exact ⟨_, rfl⟩

theorem attrFs_reads (attr : UInt8) (s : UInt32) : ((attrFs attr).disk.readSector s).isSome := by
  show (if s = 0 then some cardBootSector else some (attrSector attr)).isSome
  split_ifs
  · rfl
  · rfl

theorem attrFs_ends (attr : UInt8) : ∃ d ∈ rootEntries (attrFs attr), d.EndMark := by
  obtain ⟨rest, hrest⟩ := rootEntries_attrFs attr
  exact ⟨(attrSector attr).dirEntry 1, by simp [hrest], rfl⟩

/-- The entry of a long name is returned for the label of a card that has none. -/
theorem long_name_returned : ¬ ∀ fs : Fat32Fs, (∀ s, (fs.disk.readSector s).isSome) →
    (∃ d ∈ rootEntries fs, d.EndMark) → ReturnsLabel fs (rootEntries fs) := by
  intro h
  obtain ⟨rest, hrest⟩ := rootEntries_attrFs fat32AttrLfn
  have hend : ((attrSector fat32AttrLfn).dirEntry 1).EndMark := by decide
  have hlfn : ((attrSector fat32AttrLfn).dirEntry 0).attr = fat32AttrLfn := by decide
  have hfirst : FirstEntry (·.IsLabel) (rootEntries (attrFs fat32AttrLfn))
      ((attrSector fat32AttrLfn).dirEntry 0) :=
    ⟨[], _, hrest, by decide, by decide, by simp⟩
  have hlabel := h _ (attrFs_reads fat32AttrLfn) (attrFs_ends fat32AttrLfn)
  rw [returnsLabel_of_labelEntries (attrFs_reads fat32AttrLfn) (by decide)
    (labelEntries_eq_ok_iff.2 hfirst)] at hlabel
  obtain ⟨e, he, -⟩ := hlabel _ hfirst hlfn
  rw [hrest, firstEntry_cons, firstEntry_cons] at he
  rcases he with ⟨-, hvol, -⟩ | ⟨-, -, ⟨hlive, -⟩ | ⟨hmark, -⟩⟩
  · exact hvol.2 hlfn
  · exact absurd hlive (by decide)
  · exact hmark hend

/-- The label of a card that has one is read. -/
theorem returnsLabel_iff_labelled :
    ReturnsLabel (attrFs fat32AttrVollabel) (rootEntries (attrFs fat32AttrVollabel)) := by
  refine (returnsLabel_iff (attrFs_reads _) (attrFs_ends _)).2 ?_
  have hroot : (attrFs fat32AttrVollabel).rootCluster ≠ fat32EocMarker := by decide
  obtain ⟨rest, hrest⟩ := rootEntries_attrFs fat32AttrVollabel
  rw [LabelRead, if_neg hroot]
  intro d hd hlfn
  rw [hrest, firstEntry_cons] at hd
  rcases hd with ⟨-, -, rfl⟩ | ⟨-, hnot, -⟩
  · exact absurd hlfn (by decide)
  · exact absurd ⟨by decide, by decide⟩ hnot

end BeagleKernel.Fat32
