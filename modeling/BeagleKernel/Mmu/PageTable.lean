import BeagleKernel.Common.Mem
import Mathlib.Logic.Function.Basic

/-!
# The boot page table

`MMU_init` and the mapping functions under it, as what they write into the 4096 words of the L1
table. Only the writes are here: the registers, the TLB and the log stay out.
-/

namespace BeagleKernel.Mmu

/-- The words from `MEM_BOOT_PAGE_TABLE_BASE` on. -/
abbrev L1Table := ℕ → UInt32

abbrev l1Entries : ℕ := 4096

abbrev l1SectionMask : UInt32 := 0xFFF00000
abbrev l1SectionDescriptor : UInt32 := 0x2

abbrev rawApRwNo : UInt32 := 0x1
abbrev rawAp20 : UInt32 := 0
abbrev texB : UInt32 := 0x4
abbrev l1Shareable : UInt32 := (1 : UInt32) <<< 16
abbrev l1Cacheable : UInt32 := (1 : UInt32) <<< 3
abbrev l1Global : UInt32 := (0 : UInt32) <<< 17
abbrev l1AccessNx : UInt32 := (1 : UInt32) <<< 4
abbrev l1AccessRwNo : UInt32 := (rawApRwNo <<< 10) ||| (rawAp20 <<< 15)

abbrev l1KernelDeviceFlags : UInt32 :=
  l1AccessRwNo ||| l1AccessNx ||| l1Shareable ||| l1Global ||| texB

abbrev l1KernelDataExecFlags : UInt32 := l1AccessRwNo ||| l1Shareable ||| l1Cacheable ||| l1Global

/-- The flags `mmu_map_hardware_pages` gives on-chip memory. -/
abbrev onChipFlags : UInt32 := l1AccessRwNo ||| l1Cacheable ||| l1Shareable

/-- The `flags` it gives DRAM. -/
abbrev dramFlags : UInt32 := 0x00050C0E

/-- `GET_L1_INDEX`. -/
def getL1Index (x : UInt32) : ℕ := (x >>> 20).toNat

/-- `clear_boot_tables`. -/
def clearBootTables (l1 : L1Table) : L1Table :=
  (List.range l1Entries).foldl (fun l1 i => Function.update l1 i 0) l1

/-- `MMU_map_section`. -/
def mmuMapSection (l1 : L1Table) (vaddr paddr flags : UInt32) : L1Table :=
  if vaddr &&& ~~~l1SectionMask ≠ 0 ∨ paddr &&& ~~~l1SectionMask ≠ 0 then l1
  else Function.update l1 (getL1Index vaddr)
    ((paddr &&& l1SectionMask) ||| l1SectionDescriptor ||| flags)

/-- A loop that maps `n` sections. -/
def mapSections (l1 : L1Table) (vaddr paddr flags : UInt32) (n : ℕ) : L1Table :=
  (List.range n).foldl (fun l1 i =>
    mmuMapSection l1 (vaddr + UInt32.ofNat i * memSectionSize)
      (paddr + UInt32.ofNat i * memSectionSize) flags) l1

/-- `mmu_map_hardware_pages`. -/
def mmuMapHardwarePages (l1 : L1Table) : L1Table :=
  let l1 := mmuMapSection l1 0x40200000 0x40200000 onChipFlags
  let l1 := mmuMapSection l1 0x40300000 0x40300000 onChipFlags
  -- L4 WKUP
  let l1 := mmuMapSection l1 0x44C00000 0x44C00000 l1KernelDeviceFlags
  let l1 := mmuMapSection l1 0x44D00000 0x44D00000 l1KernelDeviceFlags
  let l1 := mmuMapSection l1 0x44E00000 0x44E00000 l1KernelDeviceFlags
  let l1 := mmuMapSection l1 0x44F00000 0x44F00000 l1KernelDeviceFlags
  -- L4 PER, L4 FAST, EMIF0 and GPMC
  let l1 := mapSections l1 0x48000000 0x48000000 l1KernelDeviceFlags 16
  let l1 := mapSections l1 0x4A000000 0x4A000000 l1KernelDeviceFlags 16
  let l1 := mapSections l1 0x4C000000 0x4C000000 l1KernelDeviceFlags 16
  let l1 := mapSections l1 0x50000000 0x50000000 l1KernelDeviceFlags 16
  mapSections l1 memPhysBase memPhysBase dramFlags numSections

/-- `MMU_init`. -/
def mmuInit (l1 : L1Table) : L1Table := mmuMapHardwarePages (clearBootTables l1)

/-! ## What the table is for -/

/-- The regions mapped to themselves: SRAM, OCMC0, L4 WKUP, L4 PER, L4 FAST, EMIF0, GPMC and DRAM,
by their first addresses and how many sections they take. -/
def identityRegions : List (ℕ × ℕ) :=
  [(0x40200000, 1), (0x40300000, 1), (0x44C00000, 4), (0x48000000, 16), (0x4A000000, 16),
    (0x4C000000, 16), (0x50000000, 16), (0x80000000, 512)]

/-- An address in one of the regions. -/
def IdentityMapped (v : UInt32) : Prop :=
  ∃ r ∈ identityRegions, r.1 ≤ v.toNat ∧ v.toNat < r.1 + r.2 * memSectionSize.toNat

/-- An address in the first `n` sections of the kernel. -/
def KernelMapped (n : ℕ) (v : UInt32) : Prop :=
  memKernelBase.toNat ≤ v.toNat ∧ v.toNat < memKernelBase.toNat + n * memSectionSize.toNat

/-- A descriptor of the section at `base`. -/
structure IsSection (entry base : UInt32) : Prop where
  type : entry &&& 3 = 2
  base_eq : entry &&& l1SectionMask = base

end BeagleKernel.Mmu
