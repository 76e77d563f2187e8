import BeagleKernel.Fat32.Dir
import BeagleKernel.Fat32.Volume

/-!
# What a path names

The directories of a volume, read off the disk without the driver. A directory is the slots of the
clusters it is chained over, up to its end mark, and its entries those that are not deleted. The
components of a path lead from the root along the entries they spell (`Resolves`).

Beside it, what a search of the driver meets: it follows only the low byte of a link and takes the
first entry with its eleven bytes for what it looks for (`Trail`).
-/

namespace BeagleKernel.Fat32

/-! ## Paths -/

/-- The components of a path, after its leading dot. -/
def components (path : CString) : List (List UInt8) :=
  ((skipLeadingDot path.chars).splitOn slash).filter (· ≠ [])

/-- The components the parser has room for. -/
def keptComponents (path : CString) : List (List UInt8) :=
  ((components path).filter (·.length < fat32MaxComponentLength)).take fat32MaxComponents

/-- A name that fits the eight and three bytes of an entry. -/
structure Fits83 (name : List UInt8) : Prop where
  base : 1 ≤ (baseOf name).length ∧ (baseOf name).length ≤ 8
  ext : (extOf name).length ≤ 3
  oneDot : dot ∉ extOf name

/-! ## Entries -/

namespace Fat32DirectoryEntry

/-- An entry that is in use. -/
def Live (e : Fat32DirectoryEntry) : Prop :=
  e.filename 0 ≠ fat32EntryEmpty ∧ e.filename 0 ≠ fat32EntryDeleted

/-- The end mark of a directory. -/
def EndMark (e : Fat32DirectoryEntry) : Prop := e.filename 0 = fat32EntryEmpty

def IsDirectory (e : Fat32DirectoryEntry) : Prop :=
  e.attr &&& fat32AttrDirectory = fat32AttrDirectory

/-- A volume label, or a part of a long name: both have the label bit. -/
def IsLabel (e : Fat32DirectoryEntry) : Prop := e.attr &&& fat32AttrVollabel = fat32AttrVollabel

instance (e : Fat32DirectoryEntry) : Decidable e.Live := inferInstanceAs (Decidable (_ ∧ _))
instance (e : Fat32DirectoryEntry) : Decidable e.EndMark := inferInstanceAs (Decidable (_ = _))
instance (e : Fat32DirectoryEntry) : Decidable e.IsDirectory := inferInstanceAs (Decidable (_ = _))
instance (e : Fat32DirectoryEntry) : Decidable e.IsLabel := inferInstanceAs (Decidable (_ = _))

end Fat32DirectoryEntry

/-! ## Directories -/

variable (fs : Fat32Fs)

/-- The slots of a sector; those of a sector that cannot be read are `none`. -/
def sectorSlots (s : UInt32) : List (Option Fat32DirectoryEntry) :=
  match fs.disk.readSector s with
  | none => [none]
  | some b => b.dirEntries.map some

/-- The slots of a cluster. -/
def clusterSlots (c : UInt32) : List (Option Fat32DirectoryEntry) :=
  (List.range fs.sectorsPerCluster.toNat).flatMap fun i =>
    sectorSlots fs (clusterStart fs c + UInt32.ofNat i)

/-- The slots of the first `k` clusters `next` leads through from `start` on. -/
def dirSlots (next : UInt32 → Option UInt32) (start : UInt32) : ℕ →
    List (Option Fat32DirectoryEntry)
  | 0 => []
  | k + 1 => clusterSlots fs start ++ (match next start with
    | none => [none]
    | some c => dirSlots next c k)

/-- `e` is the first of the slots not to pass. -/
def FirstNot (Pass : Fat32DirectoryEntry → Prop) (slots : List (Option Fat32DirectoryEntry))
    (e : Fat32DirectoryEntry) : Prop :=
  ∃ pre post, slots = pre ++ some e :: post ∧ ∀ x ∈ pre, ∃ d, x = some d ∧ Pass d

/-- An entry of the directory that starts at a cluster: it is in use, and no end mark comes
before it. -/
def Listed (start : UInt32) (e : Fat32DirectoryEntry) : Prop :=
  e.Live ∧ ∃ k, FirstNot (fun d => ¬ d.EndMark) (dirSlots fs (link fs) start k) e

/-- The components lead along entries they spell, all directories but the last, to the regular
file `e`. -/
inductive Resolves : UInt32 → List (List UInt8) → Fat32DirectoryEntry → Prop
  | file {dir name e} : Fits83 name → Listed fs dir e → formatNameToFat32 name = e.filename →
      ¬ e.IsLabel → ¬ e.IsDirectory → Resolves dir [name] e
  | dir {dir name d names e} : Fits83 name → Listed fs dir d →
      formatNameToFat32 name = d.filename → ¬ d.IsLabel → d.IsDirectory →
      Resolves d.startCluster names e → Resolves dir (name :: names) e

/-! ## What a search meets -/

/-- The cluster the low byte of a FAT entry links to. -/
def lowLink (c : UInt32) : Option UInt32 := (fatEntry fs c).map (· % 256)

/-- A slot a search for a name goes on from. -/
def Passed (name : Fin 11 → UInt8) (d : Fat32DirectoryEntry) : Prop :=
  ¬ d.EndMark ∧ (d.Live → d.filename ≠ name)

/-- The first entry along the low bytes of the links that has the name. -/
def Found (start : UInt32) (name : Fin 11 → UInt8) (e : Fat32DirectoryEntry) : Prop :=
  start ≠ fat32EocMarker ∧ e.Live ∧ e.filename = name ∧
    ∃ k, FirstNot (Passed name) (dirSlots fs (lowLink fs) start k) e

/-- The entries the searches for the names meet, one after the other. -/
def Trail : UInt32 → List (List UInt8) → List Fat32DirectoryEntry → Prop
  | _, [], [] => True
  | dir, name :: names, e :: es =>
    Found fs dir (formatNameToFat32 name) e ∧ Trail e.startCluster names es
  | _, _, _ => False

end BeagleKernel.Fat32
