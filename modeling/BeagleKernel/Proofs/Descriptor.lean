import BeagleKernel.Mmu.Descriptor
import BeagleKernel.Proofs.PageTable

/-!
# What the log shows of the boot page table

The flags of DRAM are a constant with the bit of a supersection in it; those of every other window
are put together from macros and leave it clear. So the log shows sections everywhere but in DRAM
where it is mapped to itself, and reports its error there.
-/

namespace BeagleKernel.Mmu

open Boot

variable {j p n : ℕ} {flags v : UInt32}

/-- An address in the window of DRAM mapped to itself. -/
def DramMapped (v : UInt32) : Prop :=
  memPhysBase.toNat ≤ v.toNat ∧ v.toNat < memPhysBase.toNat + memPhysSize.toNat

theorem dramMapped_iff (v : UInt32) :
    DramMapped v ↔ 0x800 ≤ getL1Index v ∧ getL1Index v < 0xA00 := by
  have hbase : memPhysBase.toNat = 0x80000000 := rfl
  have hsize : memPhysSize.toNat = 0x20000000 := rfl
  simp only [DramMapped, getL1Index_eq, hbase, hsize]
  omega

/-- The base and the type leave the bit of a supersection to the flags. -/
theorem supersection_sectionEntry (hp : p < l1Entries) :
    supersection (sectionEntry p flags) = supersection flags := by
  have hmask : l1SectionMask >>> 18 &&& 1 = 0 := by decide
  have htype : l1SectionDescriptor >>> 18 &&& 1 = 0 := by decide
  rw [supersection, sectionEntry, UInt32.shiftRight_or, UInt32.shiftRight_or,
    UInt32.or_and_distrib, UInt32.or_and_distrib, htype, ← sectionBase_and_mask hp,
    UInt32.shiftRight_and, UInt32.and_assoc, hmask, UInt32.and_zero, UInt32.or_zero,
    UInt32.zero_or]
  rfl

/-- Of the hardware windows, DRAM alone has the bit, and the others are below it. -/
theorem hardwareWindows_supersection : ∀ w ∈ hardwareWindows,
    (supersection w.flags ≠ 0 ∧ w.b = 0x800 ∧ w.n = 0x200) ∨
      (supersection w.flags = 0 ∧ w.b + w.n ≤ 0x800) := by
  decide

theorem windows_supersection {w : Window} (hw : w ∈ kernelWindow n :: hardwareWindows)
    (hj : w.Has j) : supersection w.flags = 0 ↔ ¬ (0x800 ≤ j ∧ j < 0xA00) := by
  rcases List.mem_cons.1 hw with rfl | hw
  · have hclear : supersection (kernelWindow n).flags = 0 := by
      have : supersection l1KernelDataExecFlags = 0 := by decide
      exact this
    have hlo : 0xA00 ≤ j := hj.1
    exact iff_of_true hclear (by omega)
  · obtain ⟨hlo, hhi⟩ := hj
    rcases hardwareWindows_supersection w hw with ⟨hset, hb, hn⟩ | ⟨hclear, hbelow⟩
    · exact iff_of_false hset (not_not.2 (by omega))
    · exact iff_of_true hclear (by omega)

theorem logsSection_iff {l1 : L1Table} {base : UInt32} (h : IsSection (l1 (getL1Index v)) base) :
    LogsSection l1 v ↔ supersection (l1 (getL1Index v)) = 0 := by
  rw [LogsSection, logVaddrMappings, logL1Pte]
  constructor
  · rintro ⟨pte, hpte, -⟩
    by_contra hset
    rw [if_pos hset] at hpte
    cases hpte
  · intro hclear
    rw [if_neg (not_not.2 hclear)]
    refine ⟨_, rfl, ?_⟩
    show sectionType _ = _
    rw [sectionType, h.type]
    rfl

theorem find_window (h : IdentityMapped v ∨ KernelMapped n v) :
    ∃ w, (kernelWindow n :: hardwareWindows).find? (·.Has (getL1Index v)) = some w := by
  rw [identityMapped_iff, kernelMapped_iff] at h
  rw [← Option.isSome_iff_exists, List.find?_isSome]
  rcases h with ⟨w, hw, hhas⟩ | hhas
  · exact ⟨w, List.mem_cons_of_mem _ hw, decide_eq_true hhas⟩
  · exact ⟨_, List.mem_cons_self, decide_eq_true hhas⟩

theorem bootTable_supersection (l1 : L1Table) {kernelSections : UInt32}
    (hn : kernelSections.toNat ≤ numSections)
    (hv : IdentityMapped v ∨ KernelMapped kernelSections.toNat v) :
    (∃ base, IsSection (mapKernel (mmuInit l1) kernelSections (getL1Index v)) base) ∧
      (supersection (mapKernel (mmuInit l1) kernelSections (getL1Index v)) = 0 ↔
        ¬ DramMapped v) := by
  obtain ⟨w, hfind⟩ := find_window hv
  have hfit := windows_fit (Nat.le_trans hn (by decide : numSections ≤ 0x600))
  have hw := List.mem_of_find?_eq_some hfind
  have hhas : w.Has (getL1Index v) := by simpa using List.find?_some hfind
  have hp : w.p + (getL1Index v - w.b) < l1Entries := by
    have hmemory := (hfit w hw).memory
    obtain ⟨hlo, hhi⟩ := hhas
    omega
  rw [mapKernel_mmuInit]
  refine ⟨⟨_, entry_isSection hfit hfind _⟩, ?_⟩
  rw [foldr_map_apply _ _ _ hfit, hfind, dramMapped_iff, ← windows_supersection hw hhas]
  show supersection (sectionEntry _ _) = 0 ↔ _
  rw [supersection_sectionEntry hp]

/-- For an address the boot page table maps, the log shows a section if and only if the address is
not one of DRAM mapped to itself. -/
theorem bootTable_logsSection (l1 : L1Table) (kernelSections : UInt32)
    (hn : kernelSections.toNat ≤ numSections) (v : UInt32)
    (hv : IdentityMapped v ∨ KernelMapped kernelSections.toNat v) :
    LogsSection (mapKernel (mmuInit l1) kernelSections) v ↔ ¬ DramMapped v := by
  obtain ⟨⟨base, hsection⟩, hclear⟩ := bootTable_supersection l1 hn hv
  rw [logsSection_iff hsection, hclear]

theorem bootTable_logsSection_one : LogsSection (mapKernel (mmuInit fun _ => 0) 1) 0xA0012345 :=
  (bootTable_logsSection (fun _ => 0) 1 (by decide) 0xA0012345 (.inr ⟨by decide, by decide⟩)).2
    fun h => absurd h.2 (by decide)

/-- The log of the first megabyte of DRAM is the error. -/
theorem dram_logs_supersection : ¬ ∀ (l1 : L1Table) (kernelSections : UInt32),
    kernelSections.toNat ≤ numSections → ∀ v : UInt32,
      IdentityMapped v ∨ KernelMapped kernelSections.toNat v →
        LogsSection (mapKernel (mmuInit l1) kernelSections) v := by
  intro h
  have hmapped : IdentityMapped 0x80000000 := ⟨(0x80000000, 512), by decide, by decide, by decide⟩
  obtain ⟨⟨base, hsection⟩, hclear⟩ :=
    bootTable_supersection (fun _ => 0) (show (1 : UInt32).toNat ≤ numSections by decide)
      (.inl hmapped)
  have hlog := h (fun _ => 0) 1 (by decide) 0x80000000 (.inl hmapped)
  exact hclear.1 ((logsSection_iff hsection).1 hlog) ⟨by decide, by decide⟩

end BeagleKernel.Mmu
