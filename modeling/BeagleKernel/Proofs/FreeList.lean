import BeagleKernel.Lib.Linked
import BeagleKernel.Mmu.FrameAllocator
import Mathlib.Data.List.Perm.Subperm

/-!
# The free list over a run

`FreeList` is what the allocator's statics stand for: the indices of the free frames, in the order
the links lead through them, each frame holding its own address. A frame freed goes to the front
and a frame allocated is taken off it (`Step.freeList`), so every run of calls keeps it.
-/

namespace BeagleKernel.Mmu

open FrameAllocator

/-- The statics hold the free list `l`. -/
structure FreeList (s : FrameAllocator) (l : List ℕ) : Prop where
  linked : Linked (fun k => (s.frames k).next) s.frameList l
  inRange : ∀ k ∈ l, k < numSections
  addr : ∀ k ∈ l, (s.frames k).addr = sectionAddr k

variable {s s' : FrameAllocator} {l : List ℕ} {k : ℕ} {addr : UInt32} {r : FreeResult}

namespace FreeList

theorem zeroed : FreeList FrameAllocator.zeroed [] where
  linked := rfl
  inRange := by simp
  addr := by simp

theorem push (h : FreeList s l) (hk : k < numSections) (hl : k ∉ l) :
    FreeList (s.pushFrame k (sectionAddr k)) (k :: l) where
  linked := by
    have hnext : (fun j => ((s.pushFrame k (sectionAddr k)).frames j).next) =
        Function.update (fun j => (s.frames j).next) k s.frameList :=
      Function.comp_update Frame.next s.frames k _
    rw [hnext]
    exact h.linked.push hl
  inRange j hj := by
    rcases List.mem_cons.1 hj with rfl | hj
    · exact hk
    · exact h.inRange j hj
  addr j hj := by
    simp only [pushFrame]
    rcases List.mem_cons.1 hj with rfl | hj
    · rw [Function.update_self]
    · have hjk : j ≠ k := fun hjk => hl (hjk ▸ hj)
      rw [Function.update_of_ne hjk, h.addr j hj]

theorem nodup (h : FreeList s l) : l.Nodup := h.linked.nodup

theorem length_le (h : FreeList s l) : l.length ≤ numSections := by
  have hsub : l ⊆ List.range numSections := fun k hk => List.mem_range.2 (h.inRange k hk)
  have := (h.nodup.subperm hsub).length_le
  rwa [List.length_range] at this

theorem mem_addrs_iff (h : FreeList s l) (hk : k < numSections) :
    sectionAddr k ∈ l.map sectionAddr ↔ k ∈ l := by
  simp only [List.mem_map]
  constructor
  · rintro ⟨j, hj, hjk⟩
    rwa [← (sectionAddr_inj (h.inRange j hj) hk).1 hjk]
  · intro hl
    exact ⟨k, hl, rfl⟩

end FreeList

/-! ## The check for a double free -/

theorem isFree_linked (addr : UInt32) :
    ∀ {l : List ℕ} {current : Option ℕ} {fuel : ℕ},
      Linked (fun k => (s.frames k).next) current l → l.length < fuel →
      s.isFree addr fuel current = some (decide (addr ∈ l.map fun k => (s.frames k).addr))
  | [], current, fuel + 1, h, _ => by
    rw [Linked.nil_iff] at h
    simp [h, isFree]
  | k :: l, current, fuel + 1, h, hlen => by
    rcases h with ⟨rfl, h⟩
    simp only [isFree]
    split_ifs with ha
    · simp [ha]
    · rw [isFree_linked addr h (by simpa using hlen)]
      simp [Ne.symm ha]

/-- The check ends and finds exactly the addresses of the list. -/
theorem FreeList.isFree_eq (h : FreeList s l) (addr : UInt32) :
    s.isFree addr (numSections + 1) s.frameList = some (decide (addr ∈ l.map sectionAddr)) := by
  have hlen := h.length_le
  rw [isFree_linked addr h.linked (by omega), List.map_congr_left h.addr]

/-! ## What the calls do -/

theorem FreeList.alloc_nil (h : FreeList s []) : s.allocFrame = (0, s) := by
  have hnil : s.frameList = none := h.linked
  simp only [allocFrame, hnil]

theorem FreeList.alloc_cons (h : FreeList s (k :: l)) :
    ∃ s', s.allocFrame = (sectionAddr k, s') ∧ FreeList s' l := by
  have hk : s.frameList = some k := h.linked.1
  refine ⟨{ s with frameList := (s.frames k).next }, ?_, h.linked.2,
    fun j hj => h.inRange j (List.mem_cons_of_mem _ hj),
    fun j hj => h.addr j (List.mem_cons_of_mem _ hj)⟩
  simp only [allocFrame, hk]
  rw [h.addr k (by simp)]

theorem exists_sectionAddr (ha : addr % memSectionSize = 0)
    (hr : ¬ (addr < memPhysBase ∨ addr ≥ memPhysBase + memPhysSize)) :
    ((addr - memPhysBase) / memSectionSize).toNat < numSections ∧
      addr = sectionAddr ((addr - memPhysBase) / memSectionSize).toNat := by
  rw [not_or, ge_iff_le, UInt32.lt_iff_toNat_lt, UInt32.le_iff_toNat_le] at hr
  rw [← UInt32.toNat_inj, UInt32.toNat_mod] at ha
  have ha' : addr.toNat % 0x100000 = 0 := ha
  have hr' : ¬ addr.toNat < 0x80000000 ∧ ¬ 0xA0000000 ≤ addr.toNat := hr
  have hidx : ((addr - memPhysBase) / memSectionSize).toNat =
      (addr.toNat - 0x80000000) / 0x100000 := by
    rw [UInt32.toNat_div,
      UInt32.toNat_sub_of_le _ _ (UInt32.le_iff_toNat_le.2 (Nat.not_lt.1 hr'.1))]
    rfl
  have hlt : (addr.toNat - 0x80000000) / 0x100000 < numSections := by
    unfold numSections
    omega
  rw [hidx]
  refine ⟨hlt, ?_⟩
  rw [← UInt32.toNat_inj, sectionAddr_toNat hlt]
  omega

/-- A `free_frame` returns: it rejects the call and changes nothing, or the address is that of a
frame not on the list and goes to its front. -/
theorem FreeList.free_cases (h : FreeList s l) (addr : UInt32) :
    (∃ r, r ≠ .freed ∧ s.freeFrame addr = some (r, s)) ∨
      ∃ k < numSections, k ∉ l ∧ addr = sectionAddr k ∧
        s.freeFrame addr = some (.freed, s.pushFrame k addr) := by
  unfold freeFrame
  split_ifs with ha hr
  · exact .inl ⟨_, by simp, rfl⟩
  · exact .inl ⟨_, by simp, rfl⟩
  obtain ⟨hk, haddr⟩ := exists_sectionAddr (not_not.1 ha) hr
  rw [h.isFree_eq]
  by_cases hmem : addr ∈ l.map sectionAddr
  · exact .inl ⟨.alreadyFree, by simp, by simp [hmem]⟩
  · refine .inr ⟨_, hk, fun hl => hmem ?_, haddr, by simp [hmem]⟩
    rw [haddr]
    exact (h.mem_addrs_iff hk).2 hl

theorem FreeList.free_sectionAddr (h : FreeList s l) (hk : k < numSections) (hl : k ∉ l) :
    s.freeFrame (sectionAddr k) = some (.freed, s.pushFrame k (sectionAddr k)) := by
  have haddr := sectionAddr_toNat hk
  unfold numSections at hk
  have halign : ¬ sectionAddr k % memSectionSize ≠ 0 := by
    rw [not_not, ← UInt32.toNat_inj, UInt32.toNat_mod, haddr]
    show (0x80000000 + k * 0x100000) % 0x100000 = 0
    omega
  have hrange : ¬ (sectionAddr k < memPhysBase ∨ sectionAddr k ≥ memPhysBase + memPhysSize) := by
    rw [ge_iff_le, UInt32.lt_iff_toNat_lt, UInt32.le_iff_toNat_le, haddr]
    show ¬ (0x80000000 + k * 0x100000 < 0x80000000 ∨ 0xA0000000 ≤ 0x80000000 + k * 0x100000)
    omega
  rcases h.free_cases (sectionAddr k) with ⟨r, hr, hs⟩ | ⟨j, hj, -, heq, hs⟩
  · refine absurd hs ?_
    rw [freeFrame, if_neg halign, if_neg hrange, h.isFree_eq]
    simp [h.mem_addrs_iff hk, hl, Ne.symm hr]
  · rwa [(sectionAddr_inj hj hk).1 heq.symm] at hs

/-- A frame is freed exactly if it is not on the list; what is rejected changes nothing. -/
theorem FreeList.freeFrame_eq (h : FreeList s l) (addr : UInt32) :
    ∃ r s', s.freeFrame addr = some (r, s') ∧
      (r = .freed ↔ ∃ k < numSections, k ∉ l ∧ addr = sectionAddr k) ∧ (r ≠ .freed → s' = s) := by
  rcases h.free_cases addr with ⟨r, hr, hs⟩ | ⟨k, hk, hl, haddr, hs⟩
  · refine ⟨r, s, hs, iff_of_false hr ?_, fun _ => rfl⟩
    rintro ⟨k, hk, hl, rfl⟩
    have heq := hs.symm.trans (h.free_sectionAddr hk hl)
    exact hr (Prod.mk.inj (Option.some.inj heq)).1
  · exact ⟨_, _, hs, iff_of_true rfl ⟨k, hk, hl, haddr⟩, fun hr => absurd rfl hr⟩

/-- What a call does to the free list. -/
theorem Step.freeList {c : Call} (h : FreeList s l) (hstep : Step c s s') :
    (∃ k l', l = k :: l' ∧ c = .alloc (sectionAddr k) ∧ FreeList s' l') ∨
      (l = [] ∧ c = .alloc 0 ∧ s' = s) ∨
      (∃ addr r, c = .free addr r ∧ r ≠ .freed ∧ s' = s) ∨
      ∃ k < numSections, k ∉ l ∧ c = .free (sectionAddr k) .freed ∧ FreeList s' (k :: l) := by
  rcases c with addr | ⟨addr, r⟩
  · simp only [Step] at hstep
    rcases l with _ | ⟨k, l⟩
    · rw [h.alloc_nil] at hstep
      cases hstep
      exact .inr (.inl ⟨rfl, rfl, rfl⟩)
    · obtain ⟨s₁, hs, hl⟩ := h.alloc_cons
      rw [hs] at hstep
      cases hstep
      exact .inl ⟨k, l, rfl, rfl, hl⟩
  · simp only [Step] at hstep
    rcases h.free_cases addr with ⟨r', hr, hs⟩ | ⟨k, hk, hl, rfl, hs⟩
    · rw [hs] at hstep
      cases hstep
      exact .inr (.inr (.inl ⟨addr, r, rfl, hr, rfl⟩))
    · rw [hs] at hstep
      cases hstep
      exact .inr (.inr (.inr ⟨k, hk, hl, rfl, h.push hk hl⟩))

/-! ## The list `init_frame_allocator` leaves -/

theorem initFrame_freeList (h : FreeList s l) (hk : k < numSections) (hl : k ∉ l) :
    ∃ l', FreeList (s.initFrame k) l' ∧ ∀ j, j ∈ l' ↔
      j ∈ l ∨ j = k ∧ sectionAddr j ≠ memBootPageTableBase := by
  unfold initFrame
  split_ifs with hb
  · exact ⟨l, h, fun j => ⟨.inl, Or.rec id fun hj => absurd (hj.1 ▸ hb) hj.2⟩⟩
  · refine ⟨k :: l, h.push hk hl, fun j => ?_⟩
    rw [List.mem_cons]
    constructor
    · rintro (rfl | hj)
      · exact .inr ⟨rfl, hb⟩
      · exact .inl hj
    · rintro (hj | ⟨rfl, -⟩)
      · exact .inr hj
      · exact .inl rfl

theorem foldl_initFrame_freeList :
    ∀ (n m : ℕ) {s : FrameAllocator} {l : List ℕ}, FreeList s l → m + n ≤ numSections →
      (∀ j ∈ l, j < m) → ∃ l', FreeList ((List.range' m n).foldl initFrame s) l' ∧ ∀ j, j ∈ l' ↔
        j ∈ l ∨ (m ≤ j ∧ j < m + n) ∧ sectionAddr j ≠ memBootPageTableBase
  | 0, m, s, l, h, _, _ => ⟨l, h, fun j => by
      rw [or_iff_left]
      omega⟩
  | n + 1, m, s, l, h, hn, hl => by
    obtain ⟨l₁, h₁, hmem₁⟩ := initFrame_freeList h (show m < numSections by omega)
      fun hm => absurd (hl m hm) (Nat.lt_irrefl m)
    have hlt₁ : ∀ j ∈ l₁, j < m + 1 := fun j hj => by
      rcases (hmem₁ j).1 hj with hj | ⟨rfl, -⟩
      · have := hl j hj
        omega
      · omega
    obtain ⟨l₂, h₂, hmem₂⟩ := foldl_initFrame_freeList n (m + 1) h₁ (by omega) hlt₁
    refine ⟨l₂, h₂, fun j => ?_⟩
    rw [hmem₂, hmem₁, or_assoc, ← or_and_right]
    have : (j = m ∨ m + 1 ≤ j ∧ j < m + 1 + n) ↔ (m ≤ j ∧ j < m + (n + 1)) := by omega
    rw [this]

/-- The free list starts with the sections that are not mapped, less that of the boot page
tables. -/
theorem booted_freeList (mapped : UInt32) :
    ∃ l, FreeList (booted mapped) l ∧ ∀ k, k ∈ l ↔
      (mapped.toNat ≤ k ∧ k < numSections) ∧ sectionAddr k ≠ memBootPageTableBase := by
  by_cases hm : mapped.toNat ≤ numSections
  · obtain ⟨l, h, hmem⟩ := foldl_initFrame_freeList (numSections - mapped.toNat) mapped.toNat
      .zeroed (by omega) (by simp)
    refine ⟨l, h, fun k => ?_⟩
    rw [hmem, Nat.add_sub_cancel' hm]
    simp
  · refine ⟨[], ?_, fun k => ?_⟩
    · rw [booted, initFrameAllocator, show numSections - mapped.toNat = 0 by omega]
      exact .zeroed
    · simp only [List.not_mem_nil, false_iff, not_and_or]
      omega

theorem Run.freeList {mapped : UInt32} {as : List (FrameAllocator × Call)}
    (h : Run Step (booted mapped) as s) : ∃ l, FreeList s l := by
  refine h.invariant (fun s => ∃ l, FreeList s l) (fun _ => True) ?_ ?_ (by simp)
  · rintro c s s' - ⟨l, hl⟩ hstep
    rcases Step.freeList hl hstep with ⟨_, _, _, _, h⟩ | ⟨_, _, rfl⟩ | ⟨_, _, _, _, rfl⟩ |
      ⟨_, _, _, _, h⟩
    exacts [⟨_, h⟩, ⟨_, hl⟩, ⟨_, hl⟩, ⟨_, h⟩]
  · obtain ⟨l, h, -⟩ := booted_freeList mapped
    exact ⟨l, h⟩

end BeagleKernel.Mmu
