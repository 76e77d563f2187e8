import BeagleKernel.Boot.Bootloader
import BeagleKernel.Lib.Fill
import BeagleKernel.Lib.Words
import Mathlib.Data.List.Basic

/-!
# What the boot page table maps

Every mapping call writes the descriptors of a window of sections, so the finished table is read
off one window after the other (`mapKernel_mmuInit`), and no two of the windows meet.
-/

namespace BeagleKernel

namespace Mmu

open Boot

/-- The first address of the `j`-th megabyte. -/
def sectionBase (j : ℕ) : UInt32 := UInt32.ofNat (j * 0x100000)

variable {j b p n : ℕ} {l1 : L1Table} {flags v : UInt32}

theorem sectionBase_toNat (h : j < l1Entries) : (sectionBase j).toNat = j * 0x100000 := by
  unfold l1Entries at h
  exact UInt32.toNat_ofNat_lt (by omega)

theorem sectionMask_toNat (v : UInt32) :
    (v &&& l1SectionMask).toNat = v.toNat / 0x100000 * 0x100000 := by
  rw [UInt32.toNat_and, show l1SectionMask.toNat = (2 ^ 12 - 1) <<< 20 by decide]
  exact Nat.and_shiftLeft_mask (k := 20) (m := 12) v.toNat_lt

theorem getL1Index_eq (v : UInt32) : getL1Index v = v.toNat / 0x100000 := by
  rw [getL1Index, UInt32.toNat_shiftRight]
  exact Nat.shiftRight_eq_div_pow _ _

theorem getL1Index_lt (v : UInt32) : getL1Index v < l1Entries := by
  rw [getL1Index_eq]
  have := v.toNat_lt
  unfold l1Entries
  omega

theorem mask_eq_sectionBase (v : UInt32) : v &&& l1SectionMask = sectionBase (getL1Index v) := by
  rw [← UInt32.toNat_inj, sectionMask_toNat, sectionBase_toNat (getL1Index_lt v), getL1Index_eq]

theorem getL1Index_sectionBase (h : j < l1Entries) : getL1Index (sectionBase j) = j := by
  rw [getL1Index_eq, sectionBase_toNat h]
  omega

theorem sectionBase_inj {i : ℕ} (hi : i < l1Entries) (hj : j < l1Entries) :
    sectionBase i = sectionBase j ↔ i = j := by
  refine ⟨fun h => ?_, fun h => by rw [h]⟩
  rw [← getL1Index_sectionBase hi, h, getL1Index_sectionBase hj]

theorem sectionBase_and_mask (h : j < l1Entries) :
    sectionBase j &&& l1SectionMask = sectionBase j := by
  rw [mask_eq_sectionBase, getL1Index_sectionBase h]

theorem sectionBase_aligned (h : j < l1Entries) : sectionBase j &&& ~~~l1SectionMask = 0 := by
  rw [← sectionBase_and_mask h, UInt32.and_assoc]
  have : l1SectionMask &&& ~~~l1SectionMask = 0 := by decide
  rw [this, UInt32.and_zero]

theorem sectionBase_add (b i : ℕ) :
    sectionBase b + UInt32.ofNat i * memSectionSize = sectionBase (b + i) := by
  rw [sectionBase, sectionBase, Nat.add_mul, UInt32.ofNat_add, UInt32.ofNat_mul i]
  rfl

theorem sectionAddr_eq_sectionBase (i : ℕ) : sectionAddr i = sectionBase (0x800 + i) :=
  sectionBase_add 0x800 i

/-- The descriptor of the `p`-th megabyte. -/
def sectionEntry (p : ℕ) (flags : UInt32) : UInt32 :=
  sectionBase p ||| l1SectionDescriptor ||| flags

theorem mmuMapSection_sectionBase (hb : b < l1Entries) (hp : p < l1Entries) :
    mmuMapSection l1 (sectionBase b) (sectionBase p) flags =
      Function.update l1 b (sectionEntry p flags) := by
  rw [mmuMapSection, if_neg (by simp [sectionBase_aligned, hb, hp]), getL1Index_sectionBase hb,
    sectionBase_and_mask hp]
  rfl

/-- What a loop of mappings leaves in the table. -/
theorem mapSections_apply (hb : b + n ≤ l1Entries) (hp : p + n ≤ l1Entries) (j : ℕ) :
    mapSections l1 (sectionBase b) (sectionBase p) flags n j =
      if b ≤ j ∧ j < b + n then sectionEntry (p + (j - b)) flags else l1 j := by
  rw [← foldl_update_range b fun i => sectionEntry (p + i) flags]
  refine congrFun ?_ j
  refine List.foldl_ext _ _ _ fun l1 i hi => ?_
  have hi := List.mem_range.1 hi
  rw [sectionBase_add, sectionBase_add, mmuMapSection_sectionBase (by omega) (by omega)]

theorem mmuMapSection_eq (vaddr paddr : UInt32) :
    mmuMapSection l1 vaddr paddr flags = mapSections l1 vaddr paddr flags 1 := by
  simp [mapSections]

theorem clearBootTables_apply (hj : j < l1Entries) : clearBootTables l1 j = 0 := by
  have := foldl_update_range 0 (fun _ => (0 : UInt32)) l1 j l1Entries
  simp only [Nat.zero_add] at this
  rw [clearBootTables, this, if_pos ⟨Nat.zero_le _, hj⟩]

/-! ## Windows -/

/-- A window of the table: the `n` sections from `b` on, and the megabytes from `p` on they are
mapped to. -/
structure Window where
  b : ℕ
  p : ℕ
  n : ℕ
  flags : UInt32

namespace Window

/-- The window has the `j`-th entry. -/
def Has (w : Window) (j : ℕ) : Prop := w.b ≤ j ∧ j < w.b + w.n

instance (w : Window) (j : ℕ) : Decidable (w.Has j) := inferInstanceAs (Decidable (_ ∧ _))

/-- The loop that maps it. -/
def map (w : Window) (l1 : L1Table) : L1Table :=
  mapSections l1 (sectionBase w.b) (sectionBase w.p) w.flags w.n

/-- Flags that leave the type and the base alone. -/
def Plain (flags : UInt32) : Prop := flags &&& l1SectionMask = 0 ∧ 2 ||| flags &&& 3 = 2

/-- The window is inside the table, and so is what it is mapped to. -/
structure Fits (w : Window) : Prop where
  table : w.b + w.n ≤ l1Entries
  memory : w.p + w.n ≤ l1Entries
  plain : Plain w.flags

end Window

theorem foldr_map_apply (l1 : L1Table) (j : ℕ) :
    ∀ ws : List Window, (∀ w ∈ ws, w.Fits) → ws.foldr Window.map l1 j =
      match ws.find? (·.Has j) with
      | some w => sectionEntry (w.p + (j - w.b)) w.flags
      | none => l1 j
  | [], _ => rfl
  | w :: ws, hws => by
    have hw := hws w (by simp)
    rw [List.foldr_cons, Window.map, mapSections_apply hw.table hw.memory, List.find?_cons]
    by_cases h : w.Has j
    · rw [decide_eq_true h]
      exact if_pos h
    · rw [decide_eq_false h]
      refine (if_neg h).trans ?_
      exact foldr_map_apply l1 j ws fun w' hw' => hws w' (by simp [hw'])

theorem sectionEntry_isSection (hp : p < l1Entries) (h : Window.Plain flags) :
    IsSection (sectionEntry p flags) (sectionBase p) where
  type := by
    have h0 : l1SectionMask &&& 3 = 0 := by decide
    rw [sectionEntry, UInt32.or_and_distrib, UInt32.or_and_distrib, ← sectionBase_and_mask hp,
      UInt32.and_assoc, h0, UInt32.and_zero, UInt32.zero_or]
    exact h.2
  base_eq := by
    have h0 : l1SectionDescriptor &&& l1SectionMask = 0 := by decide
    rw [sectionEntry, UInt32.or_and_distrib, UInt32.or_and_distrib, h.1, h0,
      sectionBase_and_mask hp, UInt32.or_zero, UInt32.or_zero]

/-- The windows of `mmu_map_hardware_pages`, the last written first. -/
def hardwareWindows : List Window :=
  [⟨0x800, 0x800, 512, dramFlags⟩,
    ⟨0x500, 0x500, 16, l1KernelDeviceFlags⟩, ⟨0x4C0, 0x4C0, 16, l1KernelDeviceFlags⟩,
    ⟨0x4A0, 0x4A0, 16, l1KernelDeviceFlags⟩, ⟨0x480, 0x480, 16, l1KernelDeviceFlags⟩,
    ⟨0x44F, 0x44F, 1, l1KernelDeviceFlags⟩, ⟨0x44E, 0x44E, 1, l1KernelDeviceFlags⟩,
    ⟨0x44D, 0x44D, 1, l1KernelDeviceFlags⟩, ⟨0x44C, 0x44C, 1, l1KernelDeviceFlags⟩,
    ⟨0x403, 0x403, 1, onChipFlags⟩, ⟨0x402, 0x402, 1, onChipFlags⟩]

/-- The window of the kernel's first `n` sections. -/
def kernelWindow (n : ℕ) : Window := ⟨0xA00, 0x800, n, l1KernelDataExecFlags⟩

/-- The boot page table is its windows over an empty table. -/
theorem mapKernel_mmuInit (l1 : L1Table) (kernelSections : UInt32) :
    mapKernel (mmuInit l1) kernelSections =
      (kernelWindow kernelSections.toNat :: hardwareWindows).foldr Window.map
        (clearBootTables l1) := by
  have hA00 : sectionBase 0xA00 = memKernelBase := rfl
  have h800 : sectionBase 0x800 = memPhysBase := rfl
  have h500 : sectionBase 0x500 = 0x50000000 := rfl
  have h4C0 : sectionBase 0x4C0 = 0x4C000000 := rfl
  have h4A0 : sectionBase 0x4A0 = 0x4A000000 := rfl
  have h480 : sectionBase 0x480 = 0x48000000 := rfl
  have h44F : sectionBase 0x44F = 0x44F00000 := rfl
  have h44E : sectionBase 0x44E = 0x44E00000 := rfl
  have h44D : sectionBase 0x44D = 0x44D00000 := rfl
  have h44C : sectionBase 0x44C = 0x44C00000 := rfl
  have h403 : sectionBase 0x403 = 0x40300000 := rfl
  have h402 : sectionBase 0x402 = 0x40200000 := rfl
  simp only [kernelWindow, hardwareWindows, List.foldr_cons, List.foldr_nil, Window.map,
    hA00, h800, h500, h4C0, h4A0,
    h480, h44F, h44E, h44D, h44C, h403, h402]
  simp only [mapKernel, mmuInit, mmuMapHardwarePages, mmuMapSection_eq]

theorem plain_execFlags : Window.Plain l1KernelDataExecFlags := ⟨by decide, by decide⟩
theorem plain_dramFlags : Window.Plain dramFlags := ⟨by decide, by decide⟩
theorem plain_deviceFlags : Window.Plain l1KernelDeviceFlags := ⟨by decide, by decide⟩
theorem plain_onChipFlags : Window.Plain onChipFlags := ⟨by decide, by decide⟩

/-- As many sections as there are from `MEM_KERNEL_BASE` to the end of the address space. -/
theorem kernelWindow_fits (hn : n ≤ 0x600) : (kernelWindow n).Fits := by
  refine ⟨?_, ?_, plain_execFlags⟩
  all_goals simp only [kernelWindow, l1Entries]; omega

/-- A window mapped to itself, below those of the kernel. -/
structure Window.Identity (w : Window) : Prop where
  fits : w.Fits
  same : w.p = w.b
  below : w.b + w.n ≤ 0xA00

theorem Window.Identity.of_plain (hflags : Window.Plain flags) (h : b + n ≤ 0xA00) :
    Window.Identity ⟨b, b, n, flags⟩ where
  fits := ⟨by simp only [l1Entries]; omega, by simp only [l1Entries]; omega, hflags⟩
  same := rfl
  below := h

theorem hardwareWindows_identity : ∀ w ∈ hardwareWindows, w.Identity := by
  have hdevice (b n : ℕ) (h : b + n ≤ 0xA00) := Window.Identity.of_plain plain_deviceFlags h
  have hchip (b n : ℕ) (h : b + n ≤ 0xA00) := Window.Identity.of_plain plain_onChipFlags h
  simp only [hardwareWindows, List.forall_mem_cons]
  exact ⟨.of_plain plain_dramFlags (by decide), hdevice _ _ (by decide), hdevice _ _ (by decide),
    hdevice _ _ (by decide), hdevice _ _ (by decide), hdevice _ _ (by decide),
    hdevice _ _ (by decide), hdevice _ _ (by decide), hdevice _ _ (by decide),
    hchip _ _ (by decide), hchip _ _ (by decide), by simp⟩

theorem windows_fit (hn : n ≤ 0x600) : ∀ w ∈ kernelWindow n :: hardwareWindows, w.Fits := by
  intro w hw
  rcases List.mem_cons.1 hw with rfl | hw
  · exact kernelWindow_fits hn
  · exact (hardwareWindows_identity w hw).fits

/-- The windows of the hardware pages are the regions mapped to themselves. -/
theorem identityMapped_iff (v : UInt32) :
    IdentityMapped v ↔ ∃ w ∈ hardwareWindows, w.Has (getL1Index v) := by
  have hsize : memSectionSize.toNat = 0x100000 := rfl
  simp only [IdentityMapped, identityRegions, hardwareWindows, List.exists_mem_cons_iff,
    List.not_mem_nil, false_and, exists_false, or_false, Window.Has, getL1Index_eq, hsize]
  omega

theorem kernelMapped_iff (n : ℕ) (v : UInt32) :
    KernelMapped n v ↔ (kernelWindow n).Has (getL1Index v) := by
  have hbase : memKernelBase.toNat = 0xA0000000 := rfl
  have hsize : memSectionSize.toNat = 0x100000 := rfl
  simp only [KernelMapped, kernelWindow, Window.Has, getL1Index_eq, hbase, hsize]
  omega

/-! ## Translation -/

theorem sectionBase_kernel {v : UInt32} (h : 0xA00 ≤ getL1Index v) :
    sectionBase (0x800 + (getL1Index v - 0xA00)) =
      memPhysBase + ((v - memKernelBase) &&& l1SectionMask) := by
  rw [getL1Index_eq] at h
  have hv := v.toNat_lt
  have hsub : (v - memKernelBase).toNat = v.toNat - 0xA0000000 :=
    UInt32.toNat_sub_of_toNat_le (show 0xA0000000 ≤ v.toNat by omega)
  rw [mask_eq_sectionBase, getL1Index_eq, getL1Index_eq, hsub, ← UInt32.toNat_inj,
    UInt32.toNat_add_of_lt, sectionBase_toNat, sectionBase_toNat]
  · show _ = 0x80000000 + _
    omega
  · unfold l1Entries
    omega
  · unfold l1Entries
    omega
  · rw [sectionBase_toNat (by unfold l1Entries; omega)]
    show 0x80000000 + _ < _
    omega

theorem entry_isSection {ws : List Window} (hfit : ∀ w ∈ ws, w.Fits) {w : Window}
    (hw : ws.find? (·.Has j) = some w) (l1 : L1Table) :
    IsSection (ws.foldr Window.map l1 j) (sectionBase (w.p + (j - w.b))) := by
  have hfits := hfit w (List.mem_of_find?_eq_some hw)
  have hhas : w.Has j := by simpa using List.find?_some hw
  rw [foldr_map_apply l1 j ws hfit, hw]
  refine sectionEntry_isSection ?_ hfits.plain
  have := hfits.memory
  rcases hhas with ⟨h1, h2⟩
  omega

theorem entry_kernel (l1 : L1Table) {kernelSections : UInt32} (hn : kernelSections.toNat ≤ 0x600)
    {v : UInt32} (hk : (kernelWindow kernelSections.toNat).Has (getL1Index v)) :
    IsSection (mapKernel (mmuInit l1) kernelSections (getL1Index v))
      (memPhysBase + ((v - memKernelBase) &&& l1SectionMask)) := by
  rw [mapKernel_mmuInit, ← sectionBase_kernel hk.1]
  exact entry_isSection (windows_fit hn) (List.find?_cons_of_pos (decide_eq_true hk)) _

theorem entry_identity (l1 : L1Table) {kernelSections : UInt32}
    (hn : kernelSections.toNat ≤ 0x600) {v : UInt32} (hv : IdentityMapped v) :
    IsSection (mapKernel (mmuInit l1) kernelSections (getL1Index v)) (v &&& l1SectionMask) := by
  obtain ⟨w, hw, hhas⟩ := (identityMapped_iff v).1 hv
  have hbelow := (hardwareWindows_identity w hw).below
  have hk : ¬ (kernelWindow kernelSections.toNat).Has (getL1Index v) := fun hk => by
    have h1 : 0xA00 ≤ getL1Index v := hk.1
    have h2 := hhas.2
    omega
  -- the window found is one of the hardware, which maps the section to itself
  obtain ⟨w', hw'⟩ := Option.isSome_iff_exists.1
    (List.find?_isSome.2 ⟨w, hw, decide_eq_true hhas⟩ :
      (hardwareWindows.find? (·.Has (getL1Index v))).isSome)
  have hsame := (hardwareWindows_identity w' (List.mem_of_find?_eq_some hw')).same
  have hhas' : w'.Has (getL1Index v) := by simpa using List.find?_some hw'
  have hsection := entry_isSection (windows_fit hn)
    ((List.find?_cons_of_neg (by simpa using hk)).trans hw') (clearBootTables l1)
  rwa [hsame, Nat.add_sub_cancel' hhas'.1, ← mask_eq_sectionBase, ← mapKernel_mmuInit] at hsection

/-- The boot page table maps the regions of the hardware to themselves, the sections of the kernel
to DRAM from its start on, and nothing else. -/
theorem bootTable_translates (l1 : L1Table) (kernelSections : UInt32)
    (hn : kernelSections.toNat ≤ numSections) (v : UInt32) :
    (IdentityMapped v → IsSection (mapKernel (mmuInit l1) kernelSections (getL1Index v))
      (v &&& l1SectionMask)) ∧
    (KernelMapped kernelSections.toNat v →
      IsSection (mapKernel (mmuInit l1) kernelSections (getL1Index v))
        (memPhysBase + ((v - memKernelBase) &&& l1SectionMask))) ∧
    (¬ IdentityMapped v → ¬ KernelMapped kernelSections.toNat v →
      mapKernel (mmuInit l1) kernelSections (getL1Index v) = 0) := by
  have hfew : kernelSections.toNat ≤ 0x600 := Nat.le_trans hn (by decide)
  refine ⟨entry_identity l1 hfew, fun hk => ?_, fun hid hk => ?_⟩
  · exact entry_kernel l1 hfew ((kernelMapped_iff _ v).1 hk)
  · rw [identityMapped_iff] at hid
    rw [kernelMapped_iff] at hk
    rw [mapKernel_mmuInit, foldr_map_apply _ _ _ (windows_fit hfew), List.find?_eq_none.2]
    · exact clearBootTables_apply (getL1Index_lt v)
    · intro w hw
      rw [decide_eq_true_eq]
      rcases List.mem_cons.1 hw with rfl | hw
      · exact hk
      · exact fun hhas => hid ⟨w, hw, hhas⟩

/-- A table of the kernel's first section. -/
theorem bootTable_translates_one :
    IsSection (mapKernel (mmuInit fun _ => 0) 1 (getL1Index 0xA0012345)) 0x80000000 :=
  (bootTable_translates (fun _ => 0) 1 (by decide) 0xA0012345).2.1 ⟨by decide, by decide⟩

end Mmu

end BeagleKernel
