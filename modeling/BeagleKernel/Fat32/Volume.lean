import BeagleKernel.Fat32.File
import BeagleKernel.Lib.Walk
import Mathlib.Data.Int.Notation

/-!
# What is on the disk

The volume the driver is mounted on, read off the disk without the driver: the links of the FAT,
the chain a start cluster heads, and the bytes of a cluster and of a file. A FAT entry has 28 bits;
it links to another cluster unless its sector cannot be read, it is one of the reserved values 0
and 1, it marks a bad cluster or it ends the chain.
-/

namespace BeagleKernel.Fat32

variable (fs : Fat32Fs)

/-- The byte of the FAT a cluster's entry starts at, in 32 bits: an entry takes four. -/
def fatByte (c : UInt32) : ℕ := 4 * c.toNat % 2 ^ 32

/-- A cluster's FAT entry, where its sector can be read. -/
def fatEntry (c : UInt32) : Option UInt32 :=
  (fs.disk.readSector (fs.fatStartSector + UInt32.ofNat (fatByte c / fat32SectorSize))).map
    fun s => s.le32 (fatByte c % fat32SectorSize) &&& 0x0FFFFFFF

/-- The cluster the FAT links a cluster to. -/
def link (c : UInt32) : Option UInt32 :=
  (fatEntry fs c).filter fun v => 2 ≤ v ∧ v < 0x0FFFFFF7

/-- The `k`-th cluster of the chain `start` heads. -/
def chain (start : UInt32) (k : ℕ) : Option UInt32 := walk (link fs) start k

/-- The bytes of a cluster. -/
def clusterBytes : ℕ := fat32SectorSize * fs.sectorsPerCluster.toNat

/-- The `j`-th byte from the start of a sector on, where its sector can be read. -/
def sectorByte (start : UInt32) (j : ℕ) : Option UInt8 :=
  (fs.disk.readSector (start + UInt32.ofNat (j / fat32SectorSize))).map fun s =>
    s.byte (j % fat32SectorSize)

/-- The first sector of a cluster. -/
def clusterStart (c : UInt32) : UInt32 :=
  (c - 2) * fs.sectorsPerCluster.toUInt32 + fs.firstDataSector

/-- A cluster's `j`-th byte, where its sector can be read. -/
def clusterByte (c : UInt32) (j : ℕ) : Option UInt8 := sectorByte fs (clusterStart fs c) j

/-- The `j`-th byte of the chain `start` heads. -/
def chainByte (start : UInt32) (j : ℕ) : Option UInt8 :=
  (chain fs start (j / clusterBytes fs)).bind fun c => clusterByte fs c (j % clusterBytes fs)

/-- An access for a cluster of the chain, at its place. -/
def OnChain (start : UInt32) (a : Access) : Prop := chain fs start a.pos = some a.cluster

/-- A read delivers only bytes of the chain, goes no further than the last cluster linked, and
looks up and reads no cluster but those of the chain. -/
def FollowsLinks (file : Fat32File) (buffer : ℕ → UInt8) (size : Int32) : Prop :=
  ∃ r st, (fat32Read file buffer size).val = .ok (r, st) ∧
    (0 ≤ r → ∀ j : ℕ, (j : ℤ) < r.toInt →
      chainByte file.fs file.startCluster (file.fileOffset.toNat + j) = some (st.buffer j)) ∧
    (∀ p d, chain file.fs file.startCluster p = some d → link file.fs d = none → 0 < r.toInt →
      file.fileOffset.toNat + r.toInt ≤ (p + 1) * clusterBytes file.fs) ∧
    ∀ a ∈ (fat32Read file buffer size).log, OnChain file.fs file.startCluster a

/-- A cluster of the volume. -/
def InVolume (c : UInt32) : Prop := 2 ≤ c.toNat ∧ c.toNat < 2 + fs.totalClusters.toNat

/-- A mounted volume of 512-byte sectors on a disk that can be read, its data below `2 ^ 31`. -/
structure Readable : Prop where
  bytesPerSector : fs.bytesPerSector = 512
  sectorsPerCluster : 1 ≤ fs.sectorsPerCluster.toNat
  reads : ∀ s, (fs.disk.readSector s).isSome
  below : fs.firstDataSector.toNat + fs.totalClusters.toNat * fs.sectorsPerCluster.toNat ≤ 2 ^ 31

/-- The chain `start` heads has at least `n` clusters, all of the volume. -/
def HasClusters (start : UInt32) (n : ℕ) : Prop :=
  ∀ k < n, ∃ c, chain fs start k = some c ∧ InVolume fs c

/-- The content of a file: the clusters of its chain, truncated to its size. -/
def contents (start : UInt32) (size : ℕ) : List UInt8 :=
  (List.range size).map fun j => (chainByte fs start j).getD 0

/-! ## A small volume -/

/-- A volume of 100 one-sector clusters behind one FAT sector. -/
def smallFs (disk : Fat32Diskio) : Fat32Fs where
  disk := disk
  bytesPerSector := 512
  sectorsPerCluster := 1
  reservedSectorCount := 32
  numFats := 1
  sectorsPerFat := 1
  rootCluster := 2
  clusterSize := 512
  totalClusters := 100
  totalSectors := 133
  firstDataSector := 33
  fatStartSector := 32
  magic := fat32Magic

def smallFile (disk : Fat32Diskio) (start size offset : UInt32) : Fat32File where
  fs := smallFs disk
  formattedName _ := space
  startCluster := start
  currentCluster := start
  currentClusterIndex := 0
  fileSize := size
  fileOffset := offset
  parentDirCluster := 2

end BeagleKernel.Fat32
