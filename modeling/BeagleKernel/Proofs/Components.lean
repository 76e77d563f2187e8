import BeagleKernel.Fat32.Components
import BeagleKernel.Proofs.Searches

/-!
# The components an open reads are those parsed

The bound of the loop and the last index are both one less than the number of components, so the
open stays among them unless there are none (`componentsInside_iff`).
-/

namespace BeagleKernel.Fat32

/-- The open of a path reads only components the parser has filled, of the 16 there is room for. -/
def ComponentsInside (fuel : ℕ) (fs : Fat32Fs) (path : CString) (file : Fat32File)
    (prior : ℕ → UInt8) : Prop :=
  ∀ i : ℤ, .component i ∈ (fat32OpenEvents fuel fs path file prior).log →
    0 ≤ i ∧ i < (parseFat32Path path prior).numComponents ∧
      (parseFat32Path path prior).numComponents ≤ fat32MaxComponents

variable {fuel : ℕ} {fs : Fat32Fs} {path : Fat32Path} {j : ℤ}

theorem component_not_mem_onDisk {α : Type} (x : Prog α) : .component j ∉ (onDisk x).log := by
  intro h
  obtain ⟨a, -, ha⟩ := List.mem_map.1 h
  cases ha

theorem component_mem_componentAt {i : ℤ} :
    .component j ∈ (path.componentAt i).log ↔ j = i := by
  rw [Fat32Path.componentAt, Traced.event_bind, List.mem_cons, OpenEvent.component.injEq]
  refine or_iff_left fun h => ?_
  split_ifs at h
  · exact component_not_mem_onDisk _ h
  · simp at h

theorem component_mem_openDirsEvents :
    ∀ {left i : ℕ} {dir : Fat32DirEntry} {parent : UInt32},
      .component j ∈ (openDirsEvents fuel fs path left i dir parent).log →
        (i : ℤ) ≤ j ∧ j < i + left
  | 0, _, _, _, h => by simp [openDirsEvents] at h
  | left + 1, i, dir, parent, h => by
    rw [openDirsEvents, Traced.mem_log_bind, component_mem_componentAt] at h
    rcases h with rfl | ⟨name, -, h⟩
    · omega
    rcases Traced.mem_log_bind.1 h with h | ⟨⟨r, d⟩, -, h⟩
    · exact absurd h (component_not_mem_onDisk _)
    · simp only [] at h
      split_ifs at h
      · simp at h
      · have := component_mem_openDirsEvents h
        omega

theorem first_mem_openDirsEvents (left i : ℕ) (dir : Fat32DirEntry) (parent : UInt32) :
    .component i ∈ (openDirsEvents fuel fs path (left + 1) i dir parent).log := by
  rw [openDirsEvents]
  exact Traced.mem_log_bind.2 (.inl (component_mem_componentAt.2 rfl))

section

variable {path : CString} {file : Fat32File} {prior : ℕ → UInt8}

theorem first_mem_of_no_components (hinit : fs.isInitialized)
    (h0 : (parseFat32Path path prior).numComponents = 0) :
    .component 0 ∈ (fat32OpenEvents fuel fs path file prior).log := by
  obtain ⟨m, hm⟩ : ∃ m,
      (UInt32.ofNat (parseFat32Path path prior).numComponents - 1).toNat = m + 1 :=
    ⟨2 ^ 32 - 2, by rw [h0]; rfl⟩
  unfold fat32OpenEvents
  simp only [hinit, Bool.not_true, Bool.false_eq_true, if_false, hm]
  exact Traced.mem_log_bind.2 (.inl (first_mem_openDirsEvents m 0 _ _))

theorem component_mem_fat32OpenEvents (hne : (parseFat32Path path prior).numComponents ≠ 0)
    (h : .component j ∈ (fat32OpenEvents fuel fs path file prior).log) :
    0 ≤ j ∧ j < (parseFat32Path path prior).numComponents := by
  unfold fat32OpenEvents at h
  split_ifs at h
  · simp at h
  simp only [dirs_of_parse, if_neg hne] at h
  rcases Traced.mem_log_bind.1 h with h | ⟨res, -, h⟩
  · have := component_mem_openDirsEvents h
    omega
  rcases res with code | ⟨dir, parent⟩
  · simp at h
  simp only [] at h
  rcases Traced.mem_log_bind.1 h with h | ⟨name, -, h⟩
  · rw [component_mem_componentAt] at h
    omega
  rcases Traced.mem_log_bind.1 h with h | ⟨⟨r, target⟩, -, h⟩
  · exact absurd h (component_not_mem_onDisk _)
  simp only [] at h
  split_ifs at h
  · simp at h
  · simp at h
  · rw [Traced.event_bind] at h
    simp only [Traced.log_pure, List.mem_singleton, OpenEvent.component.injEq] at h
    omega

end

/-- The open stays among the parsed components exactly if there is one. -/
theorem componentsInside_iff (fuel : ℕ) (fs : Fat32Fs) (path : CString) (file : Fat32File)
    (prior : ℕ → UInt8) :
    ComponentsInside fuel fs path file prior ↔ (fs.isInitialized → keptComponents path ≠ []) := by
  have hnum := numComponents_parse path prior
  constructor
  · intro h hinit hnil
    rw [hnil] at hnum
    obtain ⟨-, hlt, -⟩ := h 0 (first_mem_of_no_components hinit hnum)
    rw [hnum] at hlt
    exact absurd hlt (by decide)
  · intro h i hi
    have hle := length_keptComponents path
    rw [← hnum] at hle
    rcases hinit : fs.isInitialized with _ | _
    · unfold fat32OpenEvents at hi
      simp [hinit] at hi
    · have hne : (parseFat32Path path prior).numComponents ≠ 0 := by
        rw [hnum]
        exact fun h0 => h hinit (List.length_eq_zero_iff.1 h0)
      obtain ⟨h0, hlt⟩ := component_mem_fat32OpenEvents hne hi
      exact ⟨h0, hlt, hle⟩

/-- An open of `/` reads a component the parser has not filled. -/
theorem root_path_reads_stale :
    ¬ ∀ fuel fs path file prior, ComponentsInside fuel fs path file prior := by
  intro h
  have hnum : (parseFat32Path ⟨[slash], by decide⟩ fun _ => 0).numComponents = 0 := by decide
  obtain ⟨-, hlt, -⟩ := h 0 (smallFs ⟨fun _ => none⟩) ⟨[slash], by decide⟩
    (smallFile ⟨fun _ => none⟩ 0 0 0) (fun _ => 0) 0 (first_mem_of_no_components rfl hnum)
  rw [hnum] at hlt
  exact absurd hlt (by decide)

end BeagleKernel.Fat32
