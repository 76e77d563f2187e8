import BeagleKernel.Boot.Dram
import BeagleKernel.Fat32.Plain

/-!
# Loading the kernel

What `__BootloaderEntry` does from the memory test on: it mounts the card, reads
`/boot/kernel.bin` to `MEM_PHYS_BASE`, checks the header there, maps the kernel, clears `.bss` and
jumps. The memory is the DRAM from `MEM_PHYS_BASE` on, with the sector buffer and the boot page
table in it; the loader itself and its variables are in on-chip memory. A load is followed until it
panics, or does what the DRAM or the page table do not stand. What goes to the log is left out.
-/

namespace BeagleKernel.Boot

open Fat32 Mmu

abbrev kernelMagic : UInt32 := 0x1B1B1B1B
abbrev bootloaderMagic : UInt32 := 0x2B2B2B2B

/-- `bootloader_header_t`. -/
structure BootloaderHeader where
  magic : UInt32
  bootTableEntryAddr : UInt32
  mappedSections : UInt32

/-- The `panic` that ends a load. -/
inductive BootPanic
  | mount (code : Int32)
  | open (code : Int32)
  | read (res : Int32)
  | magic (value : UInt32)

/-- What keeps a load from the jump: a `panic`, or the place it is followed to. There it has read on
past the DRAM, has mapped sections past the end of the address space, or is about to clear a word of
`.bss` that is outside the DRAM or in the page table in use. -/
inductive BootStop
  | panic (p : BootPanic)
  | readsPast
  | mapsPast
  | clears (a : UInt32)

/-- The machine at the jump to the kernel. -/
structure Loaded where
  memory : ℕ → UInt8
  entry : UInt32
  bootHeader : BootloaderHeader

/-- `"/boot/kernel.bin"`. -/
def kernelPath : CString where
  chars := [0x2F, 0x62, 0x6F, 0x6F, 0x74, 0x2F, 0x6B, 0x65, 0x72, 0x6E, 0x65, 0x6C, 0x2E, 0x62,
    0x69, 0x6E]
  noNul := by decide

/-- `*kernel_header`, with the header at `MEM_PHYS_BASE`. -/
def kernelHeader (memory : ℕ → UInt8) : KernelHeader where
  magic := memWord memory 0
  textStart := memWord memory 4
  dataStart := memWord memory 8
  bssStart := memWord memory 12
  kernelSize := memWord memory 16
  kernelEntry := memWord memory 20
  kernelEnd := memWord memory 24

/-- From the mount to the read: the memory with the file in it. The handle is at the start of the
file when it is opened, so its offset is how many bytes the read has stored. -/
def readKernel (fuel : ℕ) (disk : Fat32Diskio) (file : Fat32File) (prior memory : ℕ → UInt8) :
    Prog (Except BootStop (ℕ → UInt8)) :=
  match fat32Mount disk (sectorMemory memory) with
  | .error code => return .error (.panic (.mount code))
  | .divByZero => Traced.fault .divByZero
  | .mounted fs => do
    let memory := storeSectorMemory memory (fat32MountMemory disk (sectorMemory memory))
    let (res, file) ← fat32Open fuel fs kernelPath file prior
    if res ≠ 0 then return .error (.panic (.open res))
    else
      let kernelSize := fat32Size file
      let (res, st) ← fat32Read file memory kernelSize
      if memPhysSize.toNat < st.file.fileOffset.toNat then return .error .readsPast
      else if res ≠ kernelSize then return .error (.panic (.read res))
      else return .ok st.buffer

/-- The kernel's sections go on past the end of the address space. -/
def MapsPast (kernelSections : UInt32) : Prop :=
  2 ^ 32 < memKernelBase.toNat + kernelSections.toNat * memSectionSize.toNat

instance (kernelSections : UInt32) : Decidable (MapsPast kernelSections) :=
  inferInstanceAs (Decidable (_ < _))

/-- A store of zero to the word at `a`, with the DRAM mapped to itself (`translate_dram`). -/
def clearWord (memory : ℕ → UInt8) (a : UInt32) : Except BootStop (ℕ → UInt8) :=
  if InDram a ∧ ¬ InPageTable a then .ok (storeMemWord memory a 0) else .error (.clears a)

/-- From the check of the header to the jump. The entry is read when `.bss` is cleared. -/
def enterKernel (memory : ℕ → UInt8) : Except BootStop Loaded :=
  let header := kernelHeader memory
  if header.magic ≠ kernelMagic then .error (.panic (.magic header.magic))
  else
    let sections := kernelSections header
    let memory := storeL1Table memory (mapKernel (mmuInit (l1Table memory)) sections)
    if MapsPast sections then .error .mapsPast
    else do
      let memory ← (clearedWords header).foldlM clearWord memory
      return ⟨memory, (kernelHeader memory).kernelEntry,
        ⟨bootloaderMagic, memBootPageTableBase, sections⟩⟩

/-- `__BootloaderEntry`, from the memory test on. The `file` is the one in `.bss`, and `prior` what
is in the memory the path structure takes. -/
def bootloaderEntry (fuel : ℕ) (disk : Fat32Diskio) (file : Fat32File) (prior memory : ℕ → UInt8) :
    Prog (Except BootStop Loaded) := do
  match ← readKernel fuel disk file prior (testedMemory memory) with
  | .error stop => return .error stop
  | .ok memory => return enterKernel memory

/-! ## What the kernel finds -/

/-- The byte at a virtual address that is in DRAM. -/
def Loaded.byte (m : Loaded) (v : UInt32) : Option UInt8 :=
  (translate (l1Table m.memory) v).bind fun p =>
    if memPhysBase.toNat ≤ p.toNat ∧ p.toNat < memPhysBase.toNat + memPhysSize.toNat then
      some (m.memory (p.toNat - memPhysBase.toNat))
    else none

/-- What the linker writes to the `.header` section, less the padding. -/
def KernelLayout.headerBytes (k : KernelLayout) : List UInt8 :=
  le32Bytes k.header.magic ++ (le32Bytes k.header.textStart ++ (le32Bytes k.header.dataStart ++
    (le32Bytes k.header.bssStart ++ (le32Bytes k.header.kernelSize ++
    (le32Bytes k.header.kernelEntry ++ le32Bytes k.header.kernelEnd)))))

/-- The image of a kernel: its header, and what follows up to the end of `.data`. -/
structure KernelLayout.Image (k : KernelLayout) (image : List UInt8) : Prop where
  header : k.headerBytes <+: image
  length : memKernelBase.toNat + image.length + k.bssGap = k.bssStart

/-- A card that mounts as `fs`, with the memory from `sector_buffer` on as it is, and has the
regular file `e` as `/boot/kernel.bin`: its directories are plain, and the file has its clusters,
in sectors that can be read. -/
structure KernelCard (disk : Fat32Diskio) (memory : ℕ → UInt8) (fs : Fat32Fs)
    (e : Fat32DirectoryEntry) : Prop where
  mounted : fat32Mount disk (sectorMemory memory) = .mounted fs
  below : DataBelow fs
  directories : ∀ dir, Directory fs dir → PlainDirectory fs dir
  names : Resolves fs fs.rootCluster (components kernelPath) e
  file : PlainFile fs e.startCluster e.fileSize
  reads : ∀ j < e.fileSize.toNat, (chainByte fs e.startCluster j).isSome

end BeagleKernel.Boot
