import BeagleKernel.Fat32.WellFormed

/-!
# Volumes and paths the searches cannot mistake

Only the low byte of a link is followed, the chain of a directory is not seen to end, and a label
may be taken for a file. A plain volume gives none of this room, and a plain path names no more
than the driver can hold.
-/

namespace BeagleKernel.Fat32

variable (fs : Fat32Fs)

/-- A directory whose links fit into their low bytes, and in which nothing else, label or name, has
the eleven bytes of a name. -/
structure PlainDirectory (dir : UInt32) : Prop where
  start : dir ≠ fat32EocMarker
  low : ∀ k c d, chain fs dir k = some c → link fs c = some d → d.toNat < 256
  names : ∀ e e', Listed fs dir e → Listed fs dir e' → ¬ e'.IsLabel → e.filename = e'.filename →
    e = e'

/-- The directory has an end mark, and can be read up to it. -/
def EndMarked (dir : UInt32) : Prop :=
  ∃ k z, z.EndMark ∧ FirstNot (fun d => ¬ d.EndMark) (dirSlots fs (link fs) dir k) z

/-- A start cluster and a size of a file that has its clusters. Their sectors may be unreadable. -/
structure PlainFile (start size : UInt32) : Prop where
  above : 0 < size.toNat → 3 ≤ start.toNat
  below : size.toNat < 2 ^ 31
  clusters : HasClusters fs start (clustersFor fs size.toNat)

/-- The clusters of the volume lie below sector `2 ^ 31`. -/
def DataBelow : Prop :=
  fs.firstDataSector.toNat + fs.totalClusters.toNat * fs.sectorsPerCluster.toNat ≤ 2 ^ 31

structure PlainVolume : Prop where
  below : DataBelow fs
  directories : ∀ dir, Directory fs dir → PlainDirectory fs dir ∧ EndMarked fs dir
  files : ∀ dir, Directory fs dir → ∀ e, Listed fs dir e → ¬ e.IsLabel → ¬ e.IsDirectory →
    PlainFile fs e.startCluster e.fileSize

/-- A path of which nothing is dropped or cut, no component reads like a label, and no file is
taken for a directory. -/
structure PlainPath (path : CString) : Prop where
  count : (components path).length ≤ fat32MaxComponents
  fits : ∀ name ∈ components path, Fits83 name
  labels : ∀ dir, Directory fs dir → ∀ d, Listed fs dir d → d.IsLabel →
    ∀ name ∈ components path, formatNameToFat32 name ≠ d.filename
  dirs : ∀ names rest, names ++ rest = components path → rest ≠ [] →
    ∀ e, ¬ Resolves fs fs.rootCluster names e

end BeagleKernel.Fat32
