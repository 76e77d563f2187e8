import BeagleKernel.Mmu.PageTable
import Mathlib.Data.Int.Notation

/-!
# The boot loader and the kernel it loads

What `linker.ld` makes of a kernel, the header it writes for the boot loader, and what
`__BootloaderEntry` makes of the header: how many sections it maps for the kernel and passes on as
not free.
-/

namespace BeagleKernel.Boot

open Mmu

/-- The sections of a kernel in the order of `linker.ld`, with the gaps the alignment of each
leaves before it. The location counter stays in the 512 MB from `MEM_KERNEL_BASE` on. -/
structure KernelLayout where
  textGap : ℕ
  textSize : ℕ
  rodataGap : ℕ
  rodataSize : ℕ
  dataGap : ℕ
  dataSize : ℕ
  bssGap : ℕ
  bssSize : ℕ
  fits : 64 + (textGap + textSize) + (rodataGap + rodataSize) + (dataGap + dataSize) +
    (bssGap + bssSize) ≤ 0x20000000

namespace KernelLayout

/-- The `.header` section, its fields and the padding. -/
abbrev headerSize : ℕ := 64

variable (k : KernelLayout)

def textStart : ℕ := memKernelBase.toNat + headerSize + k.textGap
def rodataStart : ℕ := k.textStart + k.textSize + k.rodataGap
def dataStart : ℕ := k.rodataStart + k.rodataSize + k.dataGap
def bssStart : ℕ := k.dataStart + k.dataSize + k.bssGap
def kernelEnd : ℕ := k.bssStart + k.bssSize

/-- The sum the linker script writes: `SIZEOF` of the four sections. -/
def kernelSize : ℕ := k.textSize + k.rodataSize + k.dataSize + k.bssSize

/-- What lies between the sections. -/
def gaps : ℕ := k.textGap + k.rodataGap + k.dataGap + k.bssGap

end KernelLayout

/-- `kernel_header_t`, less `reserved`. -/
structure KernelHeader where
  magic : UInt32
  textStart : UInt32
  dataStart : UInt32
  bssStart : UInt32
  kernelSize : UInt32
  kernelEntry : UInt32
  kernelEnd : UInt32

/-- The `.header` section of `linker.ld`. -/
def KernelLayout.header (k : KernelLayout) : KernelHeader where
  magic := 0x1B1B1B1B
  textStart := UInt32.ofNat k.textStart
  dataStart := UInt32.ofNat k.dataStart
  bssStart := UInt32.ofNat k.bssStart
  kernelSize := UInt32.ofNat k.kernelSize
  kernelEntry := UInt32.ofNat k.textStart
  kernelEnd := UInt32.ofNat k.kernelEnd

/-- `kernel_sections` of `__BootloaderEntry`, which it passes on as `mapped_sections`. -/
def kernelSections (header : KernelHeader) : UInt32 :=
  (header.kernelSize + memSectionSize - 1) / memSectionSize

/-- The loop that maps the kernel. -/
def mapKernel (l1 : L1Table) (kernelSections : UInt32) : L1Table :=
  mapSections l1 memKernelBase memPhysBase l1KernelDataExecFlags kernelSections.toNat

/-! ## Clearing `.bss` -/

/-- `bss_section_size`, from `data_section_size`. -/
def bssSectionSize (header : KernelHeader) : Int32 :=
  let dataSectionSize : Int32 := (header.bssStart - header.dataStart).toInt32
  (header.kernelSize - dataSectionSize.toUInt32).toInt32

/-- `bss_section_paddr`. -/
def bssSectionPaddr (header : KernelHeader) : Int32 :=
  let bssSectionOffset : Int32 := (header.bssStart - memKernelBase).toInt32
  (memPhysBase + bssSectionOffset.toUInt32).toInt32

/-- The words the loop writes zero to from `i` on. -/
def clearLoop (paddr size : Int32) (i : ℤ) : List UInt32 :=
  if i < size.toInt then (paddr + Int32.ofInt i).toUInt32 :: clearLoop paddr size (i + 4) else []
termination_by (size.toInt - i).toNat

/-- The words the boot loader clears. -/
def clearedWords (header : KernelHeader) : List UInt32 :=
  clearLoop (bssSectionPaddr header) (bssSectionSize header) 0

end BeagleKernel.Boot
