import Mathlib.Algebra.Ring.Nat
import Mathlib.Tactic.Common

/-!
# The memory map

The addresses and sizes of `mem.h` the boot loader and the kernel agree on, and the header the one
passes to the other.
-/

namespace BeagleKernel

abbrev memPhysBase : UInt32 := 0x80000000
abbrev memPhysSize : UInt32 := 0x20000000
abbrev memKernelBase : UInt32 := 0xA0000000
abbrev memBootPageTableBase : UInt32 := 0x90000000
abbrev memSectionSize : UInt32 := 0x100000

/-- `MEM_PHYS_SIZE / MEM_SECTION_SIZE`. -/
abbrev numSections : ℕ := 512

/-- `MEM_PHYS_BASE + (i * MEM_SECTION_SIZE)`. -/
def sectionAddr (i : ℕ) : UInt32 := memPhysBase + UInt32.ofNat i * memSectionSize

theorem sectionAddr_toNat {i : ℕ} (h : i < numSections) :
    (sectionAddr i).toNat = 0x80000000 + i * 0x100000 := by
  rw [sectionAddr, UInt32.toNat_add, UInt32.toNat_mul, UInt32.toNat_ofNat']
  show (0x80000000 + i % 2 ^ 32 * 0x100000 % 2 ^ 32) % 2 ^ 32 = _
  unfold numSections at h
  omega

theorem sectionAddr_inj {i j : ℕ} (hi : i < numSections) (hj : j < numSections) :
    sectionAddr i = sectionAddr j ↔ i = j := by
  rw [← UInt32.toNat_inj, sectionAddr_toNat hi, sectionAddr_toNat hj]
  omega

end BeagleKernel
