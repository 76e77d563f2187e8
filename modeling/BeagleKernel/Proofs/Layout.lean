import BeagleKernel.Proofs.FreeList
import BeagleKernel.Proofs.PageTable

/-!
# How much of the kernel is mapped

The boot loader rounds the sum of the section sizes up to whole megabytes. The kernel takes its
header and the gaps between its sections besides, and they have to fit into what the rounding adds.
-/

namespace BeagleKernel.Boot

open Mmu FrameAllocator

namespace KernelLayout

variable (k : KernelLayout)

theorem kernelEnd_eq :
    k.kernelEnd = memKernelBase.toNat + (headerSize + k.gaps + k.kernelSize) := by
  simp only [kernelEnd, bssStart, dataStart, rodataStart, textStart, gaps, kernelSize, headerSize]
  omega

theorem size_le : headerSize + k.gaps + k.kernelSize ≤ 0x20000000 := by
  have := k.fits
  simp only [gaps, kernelSize, headerSize]
  omega

theorem base_le_bssStart : memKernelBase.toNat ≤ k.bssStart := by
  simp only [bssStart, dataStart, rodataStart, textStart, headerSize]
  omega

theorem kernelSections_toNat :
    (kernelSections k.header).toNat = (k.kernelSize + 0xFFFFF) / 0x100000 := by
  have hle := k.size_le
  have hsize : (UInt32.ofNat k.kernelSize).toNat = k.kernelSize :=
    UInt32.toNat_ofNat_lt (by omega)
  have hadd : (UInt32.ofNat k.kernelSize + memSectionSize).toNat = k.kernelSize + 0x100000 := by
    rw [UInt32.toNat_add_of_lt, hsize]
    · rfl
    · rw [hsize]
      show _ + 0x100000 < _
      omega
  have hsub : (UInt32.ofNat k.kernelSize + memSectionSize - 1).toNat = k.kernelSize + 0xFFFFF := by
    have hone : (1 : UInt32).toNat = 1 := rfl
    rw [UInt32.toNat_sub_of_toNat_le, hadd, hone]
    · omega
    · rw [hadd, hone]
      omega
  rw [kernelSections, header, UInt32.toNat_div, hsub]
  rfl

theorem kernelSections_le : (kernelSections k.header).toNat ≤ numSections := by
  have := k.size_le
  rw [k.kernelSections_toNat]
  unfold numSections
  omega

/-- What the boot loader maps and passes on as taken reaches up to the end of the kernel, so
every byte of `.bss` is mapped, and its frame is not on the free list. -/
structure Covered : Prop where
  reaches : k.kernelEnd - memKernelBase.toNat ≤
    (kernelSections k.header).toNat * memSectionSize.toNat
  mapped : ∀ l1 (v : UInt32), k.bssStart ≤ v.toNat → v.toNat < k.kernelEnd →
    IsSection (mapKernel (mmuInit l1) (kernelSections k.header) (getL1Index v))
      (memPhysBase + ((v - memKernelBase) &&& l1SectionMask))
  taken : ∀ l, FreeList (booted (kernelSections k.header)) l → ∀ v : UInt32,
    k.bssStart ≤ v.toNat → v.toNat < k.kernelEnd → ∀ i ∈ l,
      sectionAddr i ≠ memPhysBase + ((v - memKernelBase) &&& l1SectionMask)

/-- What rounding up to whole sections adds to the sum of the sizes. -/
def slack : ℕ := (memSectionSize.toNat - k.kernelSize % memSectionSize.toNat) % memSectionSize.toNat

theorem reaches_iff : k.kernelEnd - memKernelBase.toNat ≤
    (kernelSections k.header).toNat * memSectionSize.toNat ↔ headerSize + k.gaps ≤ k.slack := by
  have hsize : memSectionSize.toNat = 0x100000 := rfl
  rw [k.kernelEnd_eq, Nat.add_sub_cancel_left, k.kernelSections_toNat, slack, hsize]
  omega

theorem has_of_reaches (h : k.kernelEnd - memKernelBase.toNat ≤
    (kernelSections k.header).toNat * memSectionSize.toNat) {v : UInt32}
    (hv : k.bssStart ≤ v.toNat) (hend : v.toNat < k.kernelEnd) :
    (kernelWindow (kernelSections k.header).toNat).Has (getL1Index v) := by
  have hbase := k.base_le_bssStart
  rw [← kernelMapped_iff]
  refine ⟨Nat.le_trans hbase hv, ?_⟩
  omega

/-- The kernel is covered exactly if its header and its gaps fit into what the rounding adds. -/
theorem covered_iff : k.Covered ↔ headerSize + k.gaps ≤ k.slack := by
  rw [← k.reaches_iff]
  refine ⟨fun h => h.reaches, fun h => ⟨h, fun l1 v hv hend => ?_, fun l hl v hv hend i hi => ?_⟩⟩
  · exact entry_kernel l1 (Nat.le_trans k.kernelSections_le (by decide))
      (k.has_of_reaches h hv hend)
  · have hhas := k.has_of_reaches h hv hend
    obtain ⟨l', hl', hmem⟩ := booted_freeList (kernelSections k.header)
    rw [hl.linked.unique hl'.linked] at hi
    obtain ⟨⟨hle, hlt⟩, -⟩ := (hmem i).1 hi
    rw [← sectionBase_kernel hhas.1, sectionAddr_eq_sectionBase]
    have hlow : 0xA00 ≤ getL1Index v := hhas.1
    have hhigh : getL1Index v < 0xA00 + (kernelSections k.header).toNat := hhas.2
    have hsections := k.kernelSections_le
    unfold numSections at hlt hsections
    rw [Ne, sectionBase_inj (by unfold l1Entries; omega) (by unfold l1Entries; omega)]
    omega

/-- Sections of one megabyte together: the header does not fit any more. -/
def oneMegabyte : KernelLayout where
  textGap := 0
  textSize := 0xC0000
  rodataGap := 0
  rodataSize := 0x20000
  dataGap := 0
  dataSize := 0x10000
  bssGap := 0
  bssSize := 0x10000
  fits := by decide

theorem oneMegabyte_not_covered : ¬ ∀ k : KernelLayout, k.Covered := by
  intro h
  exact absurd (h oneMegabyte).reaches (by decide)

end KernelLayout

end BeagleKernel.Boot
