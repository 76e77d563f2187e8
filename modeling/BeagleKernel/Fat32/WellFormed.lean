import BeagleKernel.Fat32.Cursor
import BeagleKernel.Fat32.Directory

/-!
# Well-formed volumes

A volume as a formatter and a careful writer leave it: every directory and every file has a chain
of clusters that ends, and a directory lists a name once. A label or a part of a long name may
share its eleven bytes with a file, since it is no name.
-/

namespace BeagleKernel.Fat32

variable (fs : Fat32Fs)

/-- The chain `start` heads is one of `n` clusters of the volume. -/
structure Chained (start : UInt32) (n : ℕ) : Prop where
  pos : 0 < n
  clusters : HasClusters fs start n
  ends : ∀ c, chain fs start (n - 1) = some c → ∃ v, fatEntry fs c = some v ∧ 0x0FFFFFF8 ≤ v

/-- The entry of a directory: neither a label, nor one of its links to itself and its parent. -/
def Fat32DirectoryEntry.IsSubdirectory (e : Fat32DirectoryEntry) : Prop :=
  e.IsDirectory ∧ ¬ e.IsLabel ∧ e.filename 0 ≠ dot

/-- The directories of a volume, by their first clusters. -/
inductive Directory : UInt32 → Prop
  | root : Directory fs.rootCluster
  | sub {dir d} : Directory dir → Listed fs dir d → d.IsSubdirectory → Directory d.startCluster

structure WellFormed : Prop where
  readable : Readable fs
  mounted : fs.isInitialized
  clusterSize : fs.clusterSize.toNat = clusterBytes fs
  numFats : 1 ≤ fs.numFats.toNat
  fatSize : 4 * (fs.totalClusters.toNat + 2) ≤ fat32SectorSize * fs.sectorsPerFat.toNat
  firstData : fs.firstDataSector.toNat =
    fs.fatStartSector.toNat + fs.numFats.toNat * fs.sectorsPerFat.toNat
  directories : ∀ dir, Directory fs dir → ∃ n, Chained fs dir n
  names : ∀ dir, Directory fs dir → ∀ e e', Listed fs dir e → Listed fs dir e' → ¬ e.IsLabel →
    ¬ e'.IsLabel → e.filename = e'.filename → e = e'
  files : ∀ dir, Directory fs dir → ∀ e, Listed fs dir e → ¬ e.IsLabel → ¬ e.IsDirectory →
    0 < e.fileSize.toNat →
    ∃ n, clustersFor fs e.fileSize.toNat ≤ n ∧ Chained fs e.startCluster n

/-- A path that names a file of a well-formed volume, within the limits of the driver. -/
structure NamesFile (path : CString) (e : Fat32DirectoryEntry) : Prop where
  volume : WellFormed fs
  count : (components path).length ≤ fat32MaxComponents
  resolves : Resolves fs fs.rootCluster (components path) e
  nonempty : 0 < e.fileSize.toNat
  size : e.fileSize.toNat < 2 ^ 31

/-- The file is opened by its path, and a read of all of it delivers its contents. -/
def OpensAndReads (path : CString) (e : Fat32DirectoryEntry) : Prop :=
  ∀ file prior buffer, ∃ fuel file' st,
    (fat32Open fuel fs path file prior).val = .ok (fat32Success, file') ∧
    (fat32Read file' buffer e.fileSize.toInt32).val = .ok (e.fileSize.toInt32, st) ∧
    bufferBytes st.buffer e.fileSize.toNat = contents fs e.startCluster e.fileSize.toNat

end BeagleKernel.Fat32
