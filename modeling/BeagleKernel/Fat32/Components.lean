import BeagleKernel.Fat32.File

/-!
# The components an open reads

`fat32_open` once more, with an event for each access to `path_struct.components`. With its reads
of the disk alone it is the one of `File` (`fat32OpenEvents_keep`).
-/

namespace BeagleKernel.Fat32

/-- An access of `fat32_open`: to `components[i]`, or to the disk. -/
inductive OpenEvent
  | component (i : ℤ)
  | disk (a : Access)

def OpenEvent.disk? : OpenEvent → Option Access
  | component _ => none
  | disk a => some a

abbrev OpenProg := Traced OpenEvent Fault

/-- A call of a function that reads the disk. -/
def onDisk {α : Type} (x : Prog α) : OpenProg α := x.rename .disk

/-- `components[i]`, read as a string. -/
def Fat32Path.componentAt (path : Fat32Path) (i : ℤ) : OpenProg (List UInt8) := do
  Traced.event (.component i) ()
  if 0 ≤ i then onDisk (path.component i.toNat) else Traced.fault .outOfBounds

/-- The loop of `fat32_open`. -/
def openDirsEvents (fuel : ℕ) (fs : Fat32Fs) (path : Fat32Path) :
    (left i : ℕ) → (currentDir : Fat32DirEntry) → (parent : UInt32) →
      OpenProg (Except Int32 (Fat32DirEntry × UInt32))
  | 0, _, currentDir, parent => return .ok (currentDir, parent)
  | left + 1, i, currentDir, _ => do
    let name ← path.componentAt i
    let (r, dir) ← onDisk (readDirEntry fuel fs currentDir name)
    if r ≠ 0 then return .error fat32ErrorNoPath
    else openDirsEvents fuel fs path left (i + 1) dir dir.startCluster

/-- `fat32_open`. -/
def fat32OpenEvents (fuel : ℕ) (fs : Fat32Fs) (path : CString) (file : Fat32File)
    (prior : ℕ → UInt8) : OpenProg (Int32 × Fat32File) :=
  if !fs.isInitialized then return (fat32ErrorBadParameter, file)
  else do
    let pathStruct := parseFat32Path path prior
    let dirs := (UInt32.ofNat pathStruct.numComponents - 1).toNat
    match ← openDirsEvents fuel fs pathStruct dirs 0 noDir fs.rootCluster with
    | .error code => return (code, file)
    | .ok (currentDir, parentCluster) =>
      -- an `int` here, so without components the index is -1
      let targetIdx : ℤ := pathStruct.numComponents - 1
      let targetName ← pathStruct.componentAt targetIdx
      let (r, target) ← onDisk (readDirEntry fuel fs currentDir targetName)
      if r ≠ 0 then return (fat32ErrorNoFile, file)
      else if target.attributes &&& fat32AttrDirectory = fat32AttrDirectory then
        return (fat32ErrorIsDir, file)
      else do
        -- `format_name_to_fat32` reads the name again
        Traced.event (.component targetIdx) ()
        return (fat32Success,
          { file with
            fs := fs
            startCluster := target.startCluster
            currentCluster := target.startCluster
            fileSize := target.fileSize
            parentDirCluster := parentCluster
            fileOffset := 0
            formattedName := formatNameToFat32 targetName })

variable {fuel : ℕ} {fs : Fat32Fs} {path : Fat32Path}

@[simp] theorem onDisk_keep {α : Type} (x : Prog α) : (onDisk x).keep OpenEvent.disk? = x :=
  Traced.keep_rename (f := OpenEvent.disk) (g := OpenEvent.disk?) (fun _ => rfl) x

theorem componentAt_keep (i : ℤ) : (path.componentAt i).keep OpenEvent.disk? =
    if 0 ≤ i then path.component i.toNat else Traced.fault .outOfBounds := by
  rw [Fat32Path.componentAt, Traced.keep_bind, Traced.keep_event_of_none rfl, Traced.pure_bind]
  split_ifs
  · exact onDisk_keep _
  · rfl

theorem openDirsEvents_keep : ∀ {left i : ℕ} {dir : Fat32DirEntry} {parent : UInt32},
    (openDirsEvents fuel fs path left i dir parent).keep OpenEvent.disk? =
      openDirs fuel fs path left i dir parent
  | 0, _, _, _ => rfl
  | left + 1, i, dir, parent => by
    rw [openDirsEvents, openDirs, Traced.keep_bind, componentAt_keep,
      if_pos (Int.natCast_nonneg i), Int.toNat_natCast]
    simp only [Traced.keep_bind, onDisk_keep]
    refine congrArg _ (funext fun name => congrArg _ (funext fun rd => ?_))
    split_ifs
    · rfl
    · exact openDirsEvents_keep

/-- The reads of the disk and the result are those of the open. -/
theorem fat32OpenEvents_keep (path : CString) (file : Fat32File) (prior : ℕ → UInt8) :
    (fat32OpenEvents fuel fs path file prior).keep OpenEvent.disk? =
      fat32Open fuel fs path file prior := by
  unfold fat32OpenEvents fat32Open
  split_ifs
  · rfl
  simp only [Traced.keep_bind, openDirsEvents_keep]
  refine congrArg _ (funext fun res => ?_)
  rcases res with code | ⟨dir, parent⟩
  · rfl
  simp only [Traced.keep_bind, componentAt_keep, onDisk_keep]
  by_cases h0 : (parseFat32Path path prior).numComponents = 0
  · rw [if_pos h0, if_neg (by omega)]
    rfl
  · rw [if_neg h0, if_pos (by omega),
      show ((parseFat32Path path prior).numComponents - 1 : ℤ).toNat =
        (parseFat32Path path prior).numComponents - 1 by omega]
    refine congrArg _ (funext fun name => congrArg _ (funext fun rd => ?_))
    split_ifs
    · rfl
    · rfl
    · rw [Traced.keep_bind, Traced.keep_event_of_none rfl, Traced.pure_bind]
      rfl

end BeagleKernel.Fat32
