import BeagleKernel.Common.Index
import BeagleKernel.Lib.Traced

/-!
# The FAT32 driver's data

The constants and structures of `fat32.h`. A pointer argument of the driver is the value it points
to, so its `NULL` guards have no counterpart here. `read_sector` is a function of the sector
number, `none` where it does not return 0, and each call is recorded with the cluster it is made
for and how many links that cluster is away from the start of its chain.
-/

namespace BeagleKernel.Fat32

abbrev fat32ErrorIo : Int32 := -1
abbrev fat32ErrorInvalidBootSector : Int32 := -2
abbrev fat32ErrorNoFile : Int32 := -3
abbrev fat32ErrorBadParameter : Int32 := -4
abbrev fat32ErrorCorruptedFs : Int32 := -5
abbrev fat32ErrorNoPath : Int32 := -8
abbrev fat32ErrorIsDir : Int32 := -9
abbrev fat32ErrorInvalidCluster : Int32 := -13
abbrev fat32Success : Int32 := 0

abbrev fat32Magic : UInt32 := 0xF32F32F3
abbrev fat32SectorSize : ℕ := 512
abbrev fat32MaxComponents : ℕ := 16
abbrev fat32MaxComponentLength : ℕ := 64

abbrev fat32AttrDirectory : UInt8 := 0x10
abbrev fat32AttrVollabel : UInt8 := 0x08
abbrev fat32AttrLfn : UInt8 := 0x0F

abbrev fat32EocMarker : UInt32 := 0x0FFFFFFF
abbrev fat32LastMarker : UInt32 := 0x0FFFFFF8

abbrev fat32EntryEmpty : UInt8 := 0x00
abbrev fat32EntryDeleted : UInt8 := 0xE5

/-- The bytes of one sector. -/
abbrev Sector := Fin fat32SectorSize → UInt8

/-- `fat32_diskio_t`. -/
structure Fat32Diskio where
  readSector : UInt32 → Option Sector

/-- `fat32_fs_t`, less `fsinfo_sector`, which nothing reads or writes. -/
structure Fat32Fs where
  disk : Fat32Diskio
  bytesPerSector : UInt16
  sectorsPerCluster : UInt8
  reservedSectorCount : UInt16
  numFats : UInt8
  sectorsPerFat : UInt32
  rootCluster : UInt32
  clusterSize : UInt32
  totalClusters : UInt32
  totalSectors : UInt32
  firstDataSector : UInt32
  fatStartSector : UInt32
  magic : UInt32

def Fat32Fs.isInitialized (fs : Fat32Fs) : Bool := fs.magic == fat32Magic

/-- `fat32_file_t`. -/
structure Fat32File where
  fs : Fat32Fs
  formattedName : Fin 11 → UInt8
  startCluster : UInt32
  currentCluster : UInt32
  currentClusterIndex : UInt32
  fileSize : UInt32
  fileOffset : UInt32
  parentDirCluster : UInt32

/-- `fat32_dir_entry_t`, less its `name`, which nothing reads or writes. -/
structure Fat32DirEntry where
  attributes : UInt8
  fileSize : UInt32
  startCluster : UInt32
  isInitialized : Bool

/-- What a run can stop on where C gives it no meaning, or where the model's loop bound is used
up. -/
inductive Fault
  | fuel
  | divByZero
  | outOfBounds
  deriving DecidableEq, Repr

/-- A call of `read_sector` for the cluster `pos` links into a chain: the sector of its FAT entry,
or one of its own sectors. -/
inductive Access
  | fat (pos : ℕ) (cluster sector : UInt32)
  | data (pos : ℕ) (cluster sector : UInt32)
  deriving DecidableEq, Repr

namespace Access

def pos : Access → ℕ
  | fat p _ _ | data p _ _ => p

def cluster : Access → UInt32
  | fat _ c _ | data _ c _ => c

def sector : Access → UInt32
  | fat _ _ s | data _ _ s => s

end Access

abbrev Prog := Traced Access Fault

/-- The driver's one effect. -/
def Fat32Fs.readSector (fs : Fat32Fs) (a : Access) : Prog (Option Sector) :=
  Traced.event a (fs.disk.readSector a.sector)

/-- How a loop body ends: the loop goes on, or the function returns. -/
inductive Flow (σ ρ : Type)
  | next (s : σ)
  | ret (r : ρ)

/-- `a / b` on `uint32_t`. -/
def udiv (a b : UInt32) : Prog UInt32 :=
  if b = 0 then Traced.fault .divByZero else return a / b

/-- `a % b` on `uint32_t`. -/
def umod (a b : UInt32) : Prog UInt32 :=
  if b = 0 then Traced.fault .divByZero else return a % b

/-- `buffer[i]` of a sector buffer. -/
def Sector.byte (s : Sector) (i : ℕ) : UInt8 :=
  if h : i < fat32SectorSize then s ⟨i, h⟩ else 0

/-- `buffer[i]`, checked. -/
def Sector.index (s : Sector) (i : ℕ) : Prog UInt8 :=
  if i < fat32SectorSize then return s.byte i else Traced.fault .outOfBounds

/-- The little-endian 16-bit value at `i`. -/
def Sector.le16 (s : Sector) (i : ℕ) : UInt16 :=
  (s.byte i).toUInt16 ||| (s.byte (i + 1)).toUInt16 <<< 8

/-- The little-endian 32-bit value at `i`. -/
def Sector.le32 (s : Sector) (i : ℕ) : UInt32 :=
  (s.byte i).toUInt32 ||| (s.byte (i + 1)).toUInt32 <<< 8 |||
    (s.byte (i + 2)).toUInt32 <<< 16 ||| (s.byte (i + 3)).toUInt32 <<< 24

end BeagleKernel.Fat32
