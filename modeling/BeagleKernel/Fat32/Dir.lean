import BeagleKernel.Fat32.Chain
import BeagleKernel.Fat32.Path
import Mathlib.Data.Fintype.Basic

/-!
# The directory search

`read_dir_entry`: the entries of a directory are met cluster by cluster, sector by sector and slot
by slot, until one has the name, an end mark is met or a read fails.
-/

namespace BeagleKernel.Fat32

/-- The fields of `Fat32DirectoryEntry` the driver reads. -/
structure Fat32DirectoryEntry where
  filename : Fin 11 → UInt8
  attr : UInt8
  firstClusterHigh : UInt16
  firstClusterLow : UInt16
  fileSize : UInt32

/-- `sizeof(Fat32DirectoryEntry)`. -/
abbrev dirEntrySize : ℕ := 32

abbrev entriesPerSector : ℕ := fat32SectorSize / dirEntrySize

/-- `dir_entry[entry]` over a sector buffer. -/
def Sector.dirEntry (s : Sector) (entry : ℕ) : Fat32DirectoryEntry where
  filename i := s.byte (dirEntrySize * entry + i)
  attr := s.byte (dirEntrySize * entry + 11)
  firstClusterHigh := s.le16 (dirEntrySize * entry + 20)
  firstClusterLow := s.le16 (dirEntrySize * entry + 26)
  fileSize := s.le32 (dirEntrySize * entry + 28)

/-- The entries of a sector, in order. -/
def Sector.dirEntries (s : Sector) : List Fat32DirectoryEntry :=
  (List.range entriesPerSector).map s.dirEntry

/-- `(firstClusterHigh << 16) | firstClusterLow`. -/
def Fat32DirectoryEntry.startCluster (e : Fat32DirectoryEntry) : UInt32 :=
  e.firstClusterHigh.toUInt32 <<< 16 ||| e.firstClusterLow.toUInt32

/-- What `read_dir_entry` puts in `current_dir`. -/
def Fat32DirectoryEntry.toDirEntry (e : Fat32DirectoryEntry) : Fat32DirEntry where
  attributes := e.attr
  fileSize := e.fileSize
  startCluster := e.startCluster
  isInitialized := true

/-- How a search goes on after some entries. -/
inductive Scan
  | next
  | endMark
  | found (e : Fat32DirectoryEntry)

/-- The loop over entries. -/
def scanEntries (name : Fin 11 → UInt8) : List Fat32DirectoryEntry → Scan
  | [] => .next
  | e :: es =>
    if e.filename 0 = fat32EntryEmpty then .endMark
    else if e.filename 0 = fat32EntryDeleted then scanEntries name es
    else if name = e.filename then .found e
    else scanEntries name es

/-- `read_dir_entry`'s `return -1` at an end mark. -/
abbrev endOfEntries : Int32 := -1

/-- The loop over a cluster's sectors, from those of `sectors` on. -/
def scanSectors (fs : Fat32Fs) (name : Fin 11 → UInt8) (pos : ℕ) (cluster target : UInt32) :
    List ℕ → Prog (Flow Unit (Except Int32 Fat32DirectoryEntry))
  | [] => return .next ()
  | sector :: sectors => do
    match ← fs.readSector (.data pos cluster (target + UInt32.ofNat sector)) with
    | none => return .ret (.error fat32ErrorIo)
    | some buffer =>
      match scanEntries name buffer.dirEntries with
      | .endMark => return .ret (.error endOfEntries)
      | .found e => return .ret (.ok e)
      | .next => scanSectors fs name pos cluster target sectors

/-- `first_data_sector + (current_cluster - 2) * sectors_per_cluster`. -/
def sectorTarget (fs : Fat32Fs) (cluster : UInt32) : UInt32 :=
  fs.firstDataSector + (cluster - 2) * fs.sectorsPerCluster.toUInt32

/-- The loop over clusters: the entry found, or the code returned. -/
def scanClusters (fs : Fat32Fs) (name : Fin 11 → UInt8) :
    (fuel pos : ℕ) → (current : UInt32) → Prog (Except Int32 Fat32DirectoryEntry)
  | 0, _, _ => Traced.fault .fuel
  | fuel + 1, pos, current =>
    if current = fat32EocMarker then return .error fat32ErrorNoFile
    else do
      match ← scanSectors fs name pos current (sectorTarget fs current)
          (List.range fs.sectorsPerCluster.toNat) with
      | .ret r => return r
      | .next () =>
        let nextCluster ← fat32ReadFatEntry fs pos current
        if nextCluster < 0 then return .error nextCluster
        else scanClusters fs name fuel (pos + 1) nextCluster.toUInt32

/-- The cluster `read_dir_entry` starts at. -/
def searchStart (fs : Fat32Fs) (currentDir : Fat32DirEntry) : UInt32 :=
  if currentDir.isInitialized then currentDir.startCluster else fs.rootCluster

/-- `read_dir_entry`: its code, and `current_dir` after it. -/
def readDirEntry (fuel : ℕ) (fs : Fat32Fs) (currentDir : Fat32DirEntry) (name : List UInt8) :
    Prog (Int32 × Fat32DirEntry) := do
  match ← scanClusters fs (formatNameToFat32 name) fuel 0 (searchStart fs currentDir) with
  | .error code => return (code, currentDir)
  | .ok e => return (0, e.toDirEntry)

end BeagleKernel.Fat32
