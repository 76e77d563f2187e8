import BeagleKernel.Proofs.Layout

/-!
# Which words the boot loader clears

The boot loader takes the sum of all sections less the distance from `.data` to `.bss` for the size
of `.bss`. That is too much by `.text` and `.rodata`, and too little by the gap before `.bss`.
-/

namespace BeagleKernel.Boot

open Mmu

/-- The physical address of an address of the kernel. -/
def physical (a : ℕ) : ℕ := memPhysBase.toNat + (a - memKernelBase.toNat)

namespace KernelLayout

variable (k : KernelLayout)

/-- The sizes of the sections and of the gaps before them. -/
def parts : List ℕ :=
  [k.textGap, k.textSize, k.rodataGap, k.rodataSize, k.dataGap, k.dataSize, k.bssGap, k.bssSize]

/-- The sections start and end at words. -/
def WordAligned : Prop := ∀ n ∈ k.parts, 4 ∣ n

instance : Decidable k.WordAligned := inferInstanceAs (Decidable (∀ n ∈ k.parts, 4 ∣ n))

variable {k} in
theorem WordAligned.dvd (h : k.WordAligned) : 4 ∣ k.textGap ∧ 4 ∣ k.textSize ∧ 4 ∣ k.rodataGap ∧
    4 ∣ k.rodataSize ∧ 4 ∣ k.dataGap ∧ 4 ∣ k.dataSize ∧ 4 ∣ k.bssGap ∧ 4 ∣ k.bssSize := by
  simpa [WordAligned, parts] using h

/-- Every word of `.bss` is cleared, and no word outside the sections of the kernel. -/
structure ClearsBss : Prop where
  all : ∀ a : UInt32, physical k.bssStart ≤ a.toNat → a.toNat < physical k.kernelEnd →
    4 ∣ a.toNat → a ∈ clearedWords k.header
  only : ∀ a ∈ clearedWords k.header, memPhysBase.toNat ≤ a.toNat ∧
    a.toNat + 4 ≤ memPhysBase.toNat + (kernelSections k.header).toNat * memSectionSize.toNat

theorem mem_clearLoop {paddr size : Int32} {a : UInt32} (i : ℤ) :
    a ∈ clearLoop paddr size i ↔
      ∃ j : ℕ, i + 4 * j < size.toInt ∧ a = (paddr + Int32.ofInt (i + 4 * j)).toUInt32 := by
  fun_induction clearLoop paddr size i with
  | case1 i hi ih =>
    rw [List.mem_cons, ih]
    constructor
    · rintro (rfl | ⟨j, hj, rfl⟩)
      · exact ⟨0, by simpa using hi, by simp⟩
      · refine ⟨j + 1, by omega, ?_⟩
        rw [show i + 4 + 4 * (j : ℤ) = i + 4 * ((j + 1 : ℕ) : ℤ) by omega]
    · rintro ⟨_ | j, hj, rfl⟩
      · exact .inl (by simp)
      · refine .inr ⟨j, by omega, ?_⟩
        rw [show i + 4 + 4 * (j : ℤ) = i + 4 * ((j + 1 : ℕ) : ℤ) by omega]
  | case2 i hi =>
    refine iff_of_false List.not_mem_nil ?_
    rintro ⟨j, hj, -⟩
    omega

theorem bssStart_sub : k.bssStart - memKernelBase.toNat =
    headerSize + k.textGap + k.textSize + k.rodataGap + k.rodataSize + k.dataGap + k.dataSize +
      k.bssGap := by
  simp only [bssStart, dataStart, rodataStart, textStart]
  omega

theorem kernelEnd_lt : k.kernelEnd < 2 ^ 32 := by
  have hle := k.size_le
  have hbase : memKernelBase.toNat = 0xA0000000 := rfl
  rw [k.kernelEnd_eq, hbase]
  omega

theorem bssSectionSize_eq : (bssSectionSize k.header).toInt =
    (k.textSize + k.rodataSize + k.bssSize : ℤ) - k.bssGap := by
  have hfits := k.fits
  have hend := k.kernelEnd_lt
  have hstart : k.bssStart = k.dataStart + k.dataSize + k.bssGap := rfl
  have hbss : k.bssStart ≤ k.kernelEnd := Nat.le_add_right _ _
  have hdist : (k.header.bssStart - k.header.dataStart).toNat = k.dataSize + k.bssGap := by
    show (UInt32.ofNat k.bssStart - UInt32.ofNat k.dataStart).toNat = _
    rw [UInt32.toNat_sub, UInt32.toNat_ofNat_lt (by omega), UInt32.toNat_ofNat_lt (by omega)]
    omega
  have hsize : k.header.kernelSize.toNat = k.textSize + k.rodataSize + k.dataSize + k.bssSize :=
    UInt32.toNat_ofNat_lt (show k.kernelSize < _ by unfold kernelSize; omega)
  have hsub : ((k.header.kernelSize - (k.header.bssStart - k.header.dataStart)).toNat : ℤ) =
      ((k.textSize + k.rodataSize + k.bssSize : ℤ) - k.bssGap) % ((2 ^ 32 : ℕ) : ℤ) := by
    rw [UInt32.toNat_sub, hdist, hsize]
    omega
  show (k.header.kernelSize - (k.header.bssStart - k.header.dataStart)).toBitVec.toInt = _
  rw [BitVec.toInt_eq_toNat_bmod]
  show Int.bmod ((k.header.kernelSize - _).toNat : ℤ) (2 ^ 32) = _
  rw [hsub, Int.emod_bmod, Int.bmod_eq_of_le (by omega) (by omega)]

theorem mem_clearedWords {a : UInt32} : a ∈ clearedWords k.header ↔
    ∃ j : ℕ, 4 * j + k.bssGap < k.textSize + k.rodataSize + k.bssSize ∧
      a.toNat = physical k.bssStart + 4 * j := by
  have hfits := k.fits
  have hend := k.kernelEnd_lt
  have hstart := k.bssStart_sub
  have hbase := k.base_le_bssStart
  have hbss : k.bssStart ≤ k.kernelEnd := Nat.le_add_right _ _
  have hphys : physical k.bssStart = 0x80000000 + (k.bssStart - memKernelBase.toNat) := rfl
  have haddr : ∀ j : ℕ, 4 * j + k.bssGap < k.textSize + k.rodataSize + k.bssSize →
      (bssSectionPaddr k.header + Int32.ofInt (0 + 4 * j)).toUInt32.toNat =
        physical k.bssStart + 4 * j := by
    intro j hj
    have hp : memPhysBase.toNat = 0x80000000 := rfl
    have hk : memKernelBase.toNat = 0xA0000000 := rfl
    have hcast : (0 + 4 * j : ℤ) = ((4 * j : ℕ) : ℤ) := by omega
    rw [hcast, Int32.ofInt_eq_ofNat, Int32.toUInt32_add, Int32.toUInt32_ofNat']
    show (memPhysBase + (UInt32.ofNat k.bssStart - memKernelBase) + UInt32.ofNat (4 * j)).toNat = _
    rw [UInt32.toNat_add, UInt32.toNat_add, UInt32.toNat_sub, UInt32.toNat_ofNat_lt (by omega),
      UInt32.toNat_ofNat_lt (by omega), hp, hk]
    omega
  rw [clearedWords, mem_clearLoop, bssSectionSize_eq]
  constructor
  · rintro ⟨j, hj, rfl⟩
    exact ⟨j, by omega, haddr j (by omega)⟩
  · rintro ⟨j, hj, ha⟩
    exact ⟨j, by omega, UInt32.toNat_inj.1 (ha.trans (haddr j hj).symm)⟩

theorem sections_eq :
    (kernelSections k.header).toNat * memSectionSize.toNat = k.kernelSize + k.slack := by
  have hsize : memSectionSize.toNat = 0x100000 := rfl
  rw [k.kernelSections_toNat, slack, hsize]
  omega

theorem physical_eq (a : ℕ) : physical a = 0x80000000 + (a - 0xA0000000) := rfl

theorem physical_bssStart : physical k.bssStart = 0x80000000 + (headerSize + k.textGap +
    k.textSize + k.rodataGap + k.rodataSize + k.dataGap + k.dataSize + k.bssGap) := by
  rw [physical_eq, ← k.bssStart_sub]
  rfl

theorem physical_kernelEnd : physical k.kernelEnd = physical k.bssStart + k.bssSize := by
  have hbase : 0xA0000000 ≤ k.bssStart := k.base_le_bssStart
  rw [physical_eq, physical_eq, kernelEnd]
  omega

/-- Where the cleared words end, were they to end past the start of `.bss`. -/
theorem cleared_end : physical k.bssStart + (k.textSize + k.rodataSize + k.bssSize) =
    0x80000000 + (headerSize + k.textGap + k.rodataGap + k.dataGap + k.textSize + k.rodataSize +
      k.kernelSize) + k.bssGap := by
  rw [k.physical_bssStart, kernelSize]
  omega

/-- `.bss` is cleared, and nothing outside the kernel's sections, exactly if the gap before it is
no longer than `.text` and `.rodata`, and these fit, with the header and the other gaps, into what
the rounding to whole sections adds. Without `.bss`, or with nothing cleared, one of the two is
enough. -/
theorem clearsBss_iff (h : k.WordAligned) : k.ClearsBss ↔
    (k.bssSize = 0 ∨ k.bssGap ≤ k.textSize + k.rodataSize) ∧
      (k.textSize + k.rodataSize + k.bssSize ≤ k.bssGap ∨
        headerSize + k.textGap + k.rodataGap + k.dataGap + k.textSize + k.rodataSize ≤
          k.slack) := by
  obtain ⟨htg, ht, hrg, hr, hdg, hd, hbg, hb⟩ := h.dvd
  have hfits := k.fits
  have hend := k.physical_kernelEnd
  have hcleared := k.cleared_end
  have hstart := k.physical_bssStart
  have hphys : memPhysBase.toNat = 0x80000000 := rfl
  have hheader : headerSize = 64 := rfl
  have hword : ∀ n : ℕ, n < 0x40000000 →
      (UInt32.ofNat (physical k.bssStart + n)).toNat = physical k.bssStart + n := fun n hn =>
    UInt32.toNat_ofNat_lt (by omega)
  constructor
  · rintro ⟨hall, honly⟩
    refine ⟨?_, ?_⟩
    · by_contra hcon
      rw [not_or, Nat.not_le] at hcon
      -- the last word of `.bss`
      have hlast := hword (k.bssSize - 4) (by omega)
      obtain ⟨j, hj, ha⟩ := k.mem_clearedWords.1 (hall _ (by rw [hlast]; omega)
        (by rw [hlast]; omega) (by rw [hlast]; omega))
      omega
    · by_contra hcon
      rw [not_or, Nat.not_le, Nat.not_le] at hcon
      -- the last word cleared
      have hlast := hword (k.textSize + k.rodataSize + k.bssSize - k.bssGap - 4) (by omega)
      have hmem : UInt32.ofNat (physical k.bssStart +
          (k.textSize + k.rodataSize + k.bssSize - k.bssGap - 4)) ∈ clearedWords k.header :=
        k.mem_clearedWords.2
          ⟨(k.textSize + k.rodataSize + k.bssSize - k.bssGap - 4) / 4, by omega, by omega⟩
      have hle := (honly _ hmem).2
      rw [hlast, k.sections_eq] at hle
      omega
  · rintro ⟨hcover, hconfine⟩
    refine ⟨fun a hlo hhi h4 => ?_, fun a ha => ?_⟩
    · exact k.mem_clearedWords.2 ⟨(a.toNat - physical k.bssStart) / 4, by omega, by omega⟩
    · obtain ⟨j, hj, ha⟩ := k.mem_clearedWords.1 ha
      rw [k.sections_eq]
      omega

/-- The words cleared of a kernel of one megabyte go on past its section. -/
theorem oneMegabyte_clears_past : ¬ ∀ k : KernelLayout, k.WordAligned → k.ClearsBss := by
  intro h
  have hmem : UInt32.ofNat (physical oneMegabyte.bssStart + 0x60000) ∈
      clearedWords oneMegabyte.header :=
    oneMegabyte.mem_clearedWords.2 ⟨0x18000, by decide, by decide⟩
  have := ((h oneMegabyte (by decide)).only _ hmem).2
  exact absurd this (by decide)

/-- A kernel whose `.bss` is larger than the rest. -/
def mostlyBss : KernelLayout where
  textGap := 0
  textSize := 0x10000
  rodataGap := 0
  rodataSize := 0x2000
  dataGap := 0
  dataSize := 0x1000
  bssGap := 0
  bssSize := 0x80000
  fits := by decide

theorem mostlyBss_cleared : mostlyBss.ClearsBss :=
  (clearsBss_iff mostlyBss (by decide)).2 (by decide)

end KernelLayout

end BeagleKernel.Boot
