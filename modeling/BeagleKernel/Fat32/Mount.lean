import BeagleKernel.Fat32.Types

/-!
# Mounting

`fat32_mount` reads sector 0, and the partition's first sector if it finds one, into the memory at
`sector_buffer`, and reads the fields it needs from there. The memory goes on after the 512 bytes.
-/

namespace BeagleKernel.Fat32

/-- The memory from `sector_buffer` on. -/
abbrev SectorMemory := ℕ → UInt8

/-- `read_sector(sector, sector_buffer)` with `s` in the sector. -/
def SectorMemory.load (mem : SectorMemory) (s : Sector) : SectorMemory :=
  fun i => if i < fat32SectorSize then s.byte i else mem i

/-- `read_unaligned_uint16`. -/
def readUnalignedUint16 (mem : SectorMemory) (p : ℕ) : UInt16 :=
  (mem p).toUInt16 ||| (mem (p + 1)).toUInt16 <<< 8

/-- `read_unaligned_uint32`. -/
def readUnalignedUint32 (mem : SectorMemory) (p : ℕ) : UInt32 :=
  (mem p).toUInt32 ||| (mem (p + 1)).toUInt32 <<< 8 ||| (mem (p + 2)).toUInt32 <<< 16 |||
    (mem (p + 3)).toUInt32 <<< 24

abbrev mbrSignature : UInt16 := 0xAA55
abbrev fat32BootSectorSignature : UInt32 := 0xAA55
abbrev fat32PartType1 : UInt8 := 0x0B
abbrev fat32PartType2 : UInt8 := 0x0C

/-! ## Offsets in the packed structures -/

/-- `&mbr->partitions[i]`. -/
abbrev partitionAt (i : ℕ) : ℕ := 446 + 16 * i
/-- `&mbr->partitions[i].partition_type`. -/
abbrev partitionTypeAt (i : ℕ) : ℕ := partitionAt i + 4
/-- `&mbr->partitions[i].start_sector`. -/
abbrev startSectorAt (i : ℕ) : ℕ := partitionAt i + 8
/-- `&mbr->signature` and `&boot_sector->bootSectorSig`. -/
abbrev signatureAt : ℕ := 510

abbrev sectorsPerClusterAt : ℕ := 13
abbrev reservedSectorsAt : ℕ := 14
abbrev numFatsAt : ℕ := 16
abbrev totalSectors16At : ℕ := 19
abbrev totalSectors32At : ℕ := 32
abbrev sectorsPerFat32At : ℕ := 36
abbrev rootClusterAt : ℕ := 44

/-! ## Finding the volume -/

def isFat32Partition (mem : SectorMemory) (i : ℕ) : Bool :=
  mem (partitionTypeAt i) == fat32PartType1 || mem (partitionTypeAt i) == fat32PartType2

/-- The start sector of the first FAT32 partition of an MBR. -/
def findPartition (mem : SectorMemory) : Option UInt32 :=
  if readUnalignedUint16 mem signatureAt = mbrSignature then
    ((List.range 4).find? (isFat32Partition mem)).map fun i =>
      readUnalignedUint32 mem (startSectorAt i)
  else none

/-- `check_sector0_for_fat32`. -/
def checkSector0ForFat32 (mem : SectorMemory) : Bool :=
  readUnalignedUint16 mem signatureAt == 0xAA55 &&
    readUnalignedUint32 mem sectorsPerFat32At != 0

/-- `validate_fat32_boot_sector`: it reads the 16-bit signature as 32 bits. -/
def validateFat32BootSector (mem : SectorMemory) : Int32 :=
  if readUnalignedUint32 mem signatureAt ≠ fat32BootSectorSignature then
    fat32ErrorInvalidBootSector
  else fat32Success

/-! ## The mounted filesystem -/

/-- `total_sectors` of the boot sector. -/
def totalSectorsOf (mem : SectorMemory) : UInt32 :=
  if readUnalignedUint16 mem totalSectors16At ≠ 0 then
    (readUnalignedUint16 mem totalSectors16At).toUInt32
  else readUnalignedUint32 mem totalSectors32At

/-- `initialize_fat32_fs`; `none` is a division by zero. -/
def initializeFat32Fs (disk : Fat32Diskio) (mem : SectorMemory) (start : UInt32) :
    Option Fat32Fs :=
  let sectorsPerCluster := mem sectorsPerClusterAt
  let reserved := readUnalignedUint16 mem reservedSectorsAt
  let numFats := mem numFatsAt
  let sectorsPerFat := readUnalignedUint32 mem sectorsPerFat32At
  let fatStart := start + reserved.toUInt32
  let firstData := fatStart + numFats.toUInt32 * sectorsPerFat
  let totalSectors := totalSectorsOf mem
  if sectorsPerCluster = 0 then none
  else some
    { disk := disk
      bytesPerSector := 512
      sectorsPerCluster := sectorsPerCluster
      reservedSectorCount := reserved
      numFats := numFats
      sectorsPerFat := sectorsPerFat
      rootCluster := readUnalignedUint32 mem rootClusterAt
      clusterSize := sectorsPerCluster.toUInt32 * 512
      totalClusters := (totalSectors - (firstData - start)) / sectorsPerCluster.toUInt32
      totalSectors := totalSectors
      firstDataSector := firstData
      fatStartSector := fatStart
      magic := fat32Magic }

/-- How a mount ends. -/
inductive Mount
  | error (code : Int32)
  | divByZero
  | mounted (fs : Fat32Fs)

/-- The end of `fat32_mount`, with the boot sector at `start` in memory. -/
def mountBootSector (disk : Fat32Diskio) (mem : SectorMemory) (start : UInt32) : Mount :=
  if validateFat32BootSector mem ≠ 0 then .error fat32ErrorInvalidBootSector
  else match initializeFat32Fs disk mem start with
    | none => .divByZero
    | some fs => .mounted fs

/-- `fat32_mount`, with `mem` in the memory from `sector_buffer` on. -/
def fat32Mount (disk : Fat32Diskio) (mem : SectorMemory) : Mount :=
  match disk.readSector 0 with
  | none => .error fat32ErrorIo
  | some s =>
    let mem := mem.load s
    match findPartition mem with
    | some start =>
      match disk.readSector start with
      | none => .error fat32ErrorIo
      | some b => mountBootSector disk (mem.load b) start
    | none =>
      if checkSector0ForFat32 mem then mountBootSector disk mem 0
      else .error fat32ErrorInvalidBootSector

/-- What `fat32_mount` leaves in the memory from `sector_buffer` on. -/
def fat32MountMemory (disk : Fat32Diskio) (mem : SectorMemory) : SectorMemory :=
  match disk.readSector 0 with
  | none => mem
  | some s =>
    let mem := mem.load s
    match findPartition mem with
    | some start =>
      match disk.readSector start with
      | none => mem
      | some b => mem.load b
    | none => mem

end BeagleKernel.Fat32
