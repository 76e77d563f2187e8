import BeagleKernel.Fat32.Types

/-!
# Following a cluster chain

The two readers of a FAT entry, `fat32_get_next_cluster` for files and `fat32_read_fat_entry` for
directories, the walk to the cluster of a given index, and a cluster's first sector.
-/

namespace BeagleKernel.Fat32

/-- The byte of its FAT sector a cluster's entry starts at. -/
def entryOffset (cluster : UInt32) : ℕ := (cluster * 4 % 512).toNat

/-- The sector that holds a cluster's FAT entry. -/
def fatSector (fs : Fat32Fs) (cluster : UInt32) : UInt32 :=
  cluster * 4 / 512 + fs.fatStartSector

/-- `fat32_get_next_cluster`. Its errors are the negative codes as `uint32_t`. -/
def fat32GetNextCluster (fs : Fat32Fs) (pos : ℕ) (curr : UInt32) : Prog UInt32 := do
  match ← fs.readSector (.fat pos curr (fatSector fs curr)) with
  | none => return fat32ErrorIo.toUInt32
  | some buffer =>
    let off := entryOffset curr
    let b0 ← buffer.index off
    let b1 ← buffer.index (off + 1)
    let b2 ← buffer.index (off + 2)
    let b3 ← buffer.index (off + 3)
    let entry := b0.toUInt32 ||| b1.toUInt32 <<< 8 ||| b2.toUInt32 <<< 16 ||| b3.toUInt32 <<< 24
    let value := entry &&& 0x0FFFFFFF
    if value ≥ 0x0FFFFFF8 then return fat32EocMarker
    else if value = 0x0FFFFFF7 then return fat32ErrorIo.toUInt32
    else if value < 2 then return fat32ErrorCorruptedFs.toUInt32
    else return value

/-- The loop of `get_cluster_at_index`, `left` links from its end. -/
def clusterAtIndexLoop (fs : Fat32Fs) (index : UInt32) :
    (left : ℕ) → (i current : UInt32) → Prog (Except Int32 UInt32)
  | 0, _, current => return .ok current
  | left + 1, i, current => do
    let next ← fat32GetNextCluster fs i.toNat current
    -- an end of chain is an error only before the last link
    if next = fat32EocMarker ∧ i < index - 1 then return .error fat32ErrorCorruptedFs
    else clusterAtIndexLoop fs index left (i + 1) next

/-- `get_cluster_at_index`: `*target_cluster`, or the error code. -/
def getClusterAtIndex (fs : Fat32Fs) (startCluster index : UInt32) :
    Prog (Except Int32 UInt32) :=
  if startCluster ≤ 2 then return .error fat32ErrorBadParameter
  else clusterAtIndexLoop fs index index.toNat 0 startCluster

/-- `fat32_read_fat_entry`. -/
def fat32ReadFatEntry (fs : Fat32Fs) (pos : ℕ) (cluster : UInt32) : Prog Int32 := do
  match ← fs.readSector (.fat pos cluster (fatSector fs cluster)) with
  | none => return fat32ErrorIo
  | some buffer =>
    -- one byte of the entry, not four
    let b0 ← buffer.index (entryOffset cluster)
    let nextCluster := b0.toUInt32 &&& 0x0FFFFFFF
    if nextCluster ≥ 0x0FFFFFF8 then return fat32EocMarker.toInt32
    else if nextCluster = 0x0FFFFFF7 then return fat32ErrorIo
    else return nextCluster.toInt32

/-- `cluster_to_sector`. -/
def clusterToSector (fs : Fat32Fs) (cluster : UInt32) : Int32 :=
  if cluster < 2 ∨ cluster ≥ 2 + fs.totalClusters then fat32ErrorInvalidCluster
  else ((cluster - 2) * fs.sectorsPerCluster.toUInt32 + fs.firstDataSector).toInt32

end BeagleKernel.Fat32
