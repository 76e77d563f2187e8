import BeagleKernel.Fat32.Dir

/-!
# The volume label

`fat32_readlabel` goes through the root directory as `read_dir_entry` goes through any, and looks
for another kind of entry. `visitClusters` is the loop of both, over what its entry loop does with
a sector: `none` where it goes on.
-/

namespace BeagleKernel.Fat32

abbrev fat32ErrorNoLabel : Int32 := -12

/-- The loop over entries, on the entries of one sector. -/
abbrev EntryLoop := List Fat32DirectoryEntry → Option (Except Int32 Fat32DirectoryEntry)

/-- The loop over a cluster's sectors, from those of `sectors` on. -/
def visitSectors (visit : EntryLoop) (fs : Fat32Fs) (pos : ℕ) (cluster target : UInt32) :
    List ℕ → Prog (Flow Unit (Except Int32 Fat32DirectoryEntry))
  | [] => return .next ()
  | sector :: sectors => do
    match ← fs.readSector (.data pos cluster (target + UInt32.ofNat sector)) with
    | none => return .ret (.error fat32ErrorIo)
    | some buffer =>
      match visit buffer.dirEntries with
      | some r => return .ret r
      | none => visitSectors visit fs pos cluster target sectors

/-- The loop over clusters; it ends with `notFound` at the end of the chain. -/
def visitClusters (visit : EntryLoop) (notFound : Int32) (fs : Fat32Fs) :
    (fuel pos : ℕ) → (current : UInt32) → Prog (Except Int32 Fat32DirectoryEntry)
  | 0, _, _ => Traced.fault .fuel
  | fuel + 1, pos, current =>
    if current = fat32EocMarker then return .error notFound
    else do
      match ← visitSectors visit fs pos current (sectorTarget fs current)
          (List.range fs.sectorsPerCluster.toNat) with
      | .ret r => return r
      | .next () =>
        let nextCluster ← fat32ReadFatEntry fs pos current
        if nextCluster < 0 then return .error nextCluster
        else visitClusters visit notFound fs fuel (pos + 1) nextCluster.toUInt32

/-- `fat32_readlabel`'s loop over entries. -/
def labelEntries : EntryLoop
  | [] => none
  | e :: es =>
    if e.filename 0 = fat32EntryEmpty then some (.error fat32ErrorNoLabel)
    else if e.filename 0 = fat32EntryDeleted then labelEntries es
    else if e.attr &&& fat32AttrVollabel ≠ 0 then some (.ok e)
    else labelEntries es

/-- What `fat32_readlabel` puts in `label_out`. -/
def writeLabel (labelOut : ℕ → UInt8) (filename : Fin 11 → UInt8) : ℕ → UInt8 := fun i =>
  if h : i < 11 then filename ⟨i, h⟩ else if i = 11 then 0 else labelOut i

/-- `fat32_readlabel`: its code, and the memory at `label_out` after it. -/
def fat32Readlabel (fuel : ℕ) (fs : Fat32Fs) (labelOut : ℕ → UInt8) :
    Prog (Int32 × (ℕ → UInt8)) := do
  match ← visitClusters labelEntries fat32ErrorNoLabel fs fuel 0 fs.rootCluster with
  | .error code => return (code, labelOut)
  | .ok e => return (fat32Success, writeLabel labelOut e.filename)

/-! ## The directory search -/

/-- `read_dir_entry`'s loop over entries. -/
def nameEntries (name : Fin 11 → UInt8) : EntryLoop := fun es =>
  match scanEntries name es with
  | .next => none
  | .endMark => some (.error endOfEntries)
  | .found e => some (.ok e)

variable {fs : Fat32Fs} {name : Fin 11 → UInt8}

theorem scanSectors_eq_visit {pos : ℕ} {c target : UInt32} : ∀ sectors : List ℕ,
    scanSectors fs name pos c target sectors =
      visitSectors (nameEntries name) fs pos c target sectors
  | [] => rfl
  | i :: sectors => by
    simp only [scanSectors, visitSectors, Fat32Fs.readSector, Traced.event_bind]
    rcases fs.disk.readSector (Access.data pos c (target + UInt32.ofNat i)).sector with _ | b
    · rfl
    · simp only [nameEntries]
      rcases scanEntries name b.dirEntries with _ | _ | e
      · simp only [scanSectors_eq_visit sectors]
      · rfl
      · rfl

/-- The search is that loop. -/
theorem scanClusters_eq_visit : ∀ {fuel pos : ℕ} {c : UInt32},
    scanClusters fs name fuel pos c =
      visitClusters (nameEntries name) fat32ErrorNoFile fs fuel pos c
  | 0, _, _ => rfl
  | fuel + 1, pos, c => by
    have hrest : scanClusters fs name fuel =
        visitClusters (nameEntries name) fat32ErrorNoFile fs fuel :=
      funext fun _ => funext fun _ => scanClusters_eq_visit
    rw [scanClusters, visitClusters, scanSectors_eq_visit]
    exact hrest ▸ rfl

end BeagleKernel.Fat32
