import BeagleKernel.Fat32.Mount
import BeagleKernel.Lib.Bytes
import Mathlib.Data.List.OfFn

/-!
# What a formatter writes

The packed structures of `fat32.h` with all their fields, and the bytes they are on the disk.
-/

namespace BeagleKernel.Fat32

/-- `Fat32BootSector`. -/
structure Fat32BootSector where
  jmpBoot : Fin 3 → UInt8
  oemName : Fin 8 → UInt8
  bytesPerSector : UInt16
  sectorsPerCluster : UInt8
  reservedSectors : UInt16
  numFATs : UInt8
  rootEntryCount : UInt16
  totalSectors16 : UInt16
  mediaType : UInt8
  sectorsPerFAT16 : UInt16
  sectorsPerTrack : UInt16
  numHeads : UInt16
  hiddenSectors : UInt32
  totalSectors32 : UInt32
  sectorsPerFAT32 : UInt32
  extFlags : UInt16
  fsVersion : UInt16
  rootCluster : UInt32
  fsInfo : UInt16
  backupBootSector : UInt16
  reserved : Fin 12 → UInt8
  driveNumber : UInt8
  reserved1 : UInt8
  bootSignature : UInt8
  volumeID : UInt32
  volumeLabel : Fin 11 → UInt8
  fsType : Fin 8 → UInt8
  bootCode : Fin 420 → UInt8
  bootSectorSig : UInt16

def Fat32BootSector.bytes (b : Fat32BootSector) : List UInt8 :=
  List.ofFn b.jmpBoot ++ (List.ofFn b.oemName ++ (le16Bytes b.bytesPerSector ++
    ([b.sectorsPerCluster] ++ (le16Bytes b.reservedSectors ++ ([b.numFATs] ++
    (le16Bytes b.rootEntryCount ++ (le16Bytes b.totalSectors16 ++ ([b.mediaType] ++
    (le16Bytes b.sectorsPerFAT16 ++ (le16Bytes b.sectorsPerTrack ++ (le16Bytes b.numHeads ++
    (le32Bytes b.hiddenSectors ++ (le32Bytes b.totalSectors32 ++ (le32Bytes b.sectorsPerFAT32 ++
    (le16Bytes b.extFlags ++ (le16Bytes b.fsVersion ++ (le32Bytes b.rootCluster ++
    (le16Bytes b.fsInfo ++ (le16Bytes b.backupBootSector ++ (List.ofFn b.reserved ++
    ([b.driveNumber] ++ ([b.reserved1] ++ ([b.bootSignature] ++ (le32Bytes b.volumeID ++
    (List.ofFn b.volumeLabel ++ (List.ofFn b.fsType ++ (List.ofFn b.bootCode ++
    le16Bytes b.bootSectorSig)))))))))))))))))))))))))))

/-- The sectors of the volume: the 16-bit count, or the 32-bit one when that is 0. -/
def Fat32BootSector.totalSectors (b : Fat32BootSector) : ℕ :=
  if b.totalSectors16 ≠ 0 then b.totalSectors16.toNat else b.totalSectors32.toNat

/-- The sectors before the data: the reserved ones and the FATs. -/
def Fat32BootSector.metadata (b : Fat32BootSector) : ℕ :=
  b.reservedSectors.toNat + b.numFATs.toNat * b.sectorsPerFAT32.toNat

/-- `MBRPartitionEntry`. -/
structure MBRPartitionEntry where
  bootFlag : UInt8
  startChs : Fin 3 → UInt8
  partitionType : UInt8
  endChs : Fin 3 → UInt8
  startSector : UInt32
  totalSectors : UInt32

def MBRPartitionEntry.bytes (p : MBRPartitionEntry) : List UInt8 :=
  [p.bootFlag] ++ (List.ofFn p.startChs ++ ([p.partitionType] ++ (List.ofFn p.endChs ++
    (le32Bytes p.startSector ++ le32Bytes p.totalSectors))))

/-- An entry of one of the two FAT32 types. -/
def MBRPartitionEntry.IsFat32 (p : MBRPartitionEntry) : Prop :=
  p.partitionType = 0x0B ∨ p.partitionType = 0x0C

/-- `MBR`. -/
structure MBR where
  bootstrap : Fin 446 → UInt8
  partitions : Fin 4 → MBRPartitionEntry
  signature : UInt16

def MBR.bytes (m : MBR) : List UInt8 :=
  List.ofFn m.bootstrap ++ ((List.ofFn m.partitions).flatMap (·.bytes) ++ le16Bytes m.signature)

/-- A sector with the bytes. -/
def sectorOf (bs : List UInt8) : Sector := fun i => bs.getD i 0

end BeagleKernel.Fat32
