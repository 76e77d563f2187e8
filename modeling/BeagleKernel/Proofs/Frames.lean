import BeagleKernel.Proofs.FreeList

/-!
# Which frames are handed out

A frame that was allocated stays off the free list until it is freed. A frame that was reserved
at the start stays off it too, as long as no caller frees it: `free_frame` has no check for that,
so a run keeps the reserved frames exactly if nobody frees one.
-/

namespace BeagleKernel.Mmu

open FrameAllocator

variable {s s' : FrameAllocator} {l : List ℕ} {k : ℕ} {mapped : UInt32}
  {as : List (FrameAllocator × Call)}

theorem sectionAddr_ne_zero (h : k < numSections) : sectionAddr k ≠ 0 := by
  intro h0
  have := sectionAddr_toNat h
  rw [h0] at this
  simp at this
  omega

theorem FreeList.allocFrame_eq_zero_iff (h : FreeList s l) : s.allocFrame.1 = 0 ↔ l = [] := by
  rcases l with _ | ⟨k, l⟩
  · simp [h.alloc_nil]
  · obtain ⟨s', hs, -⟩ := h.alloc_cons
    simp [hs, sectionAddr_ne_zero (h.inRange k (by simp))]

/-- A frame off the list comes back to it only by a `free_frame` of it. -/
theorem Run.not_mem {bs : List (FrameAllocator × Call)} (hrun : Run Step s bs s')
    (h : FreeList s l) (hkl : k ∉ l)
    (hbs : ∀ x ∈ bs, x.2 ≠ .free (sectionAddr k) .freed) : ∃ l', FreeList s' l' ∧ k ∉ l' := by
  refine hrun.invariant (fun s => ∃ l, FreeList s l ∧ k ∉ l)
    (fun x => x.2 ≠ .free (sectionAddr k) .freed) ?_ ⟨l, h, hkl⟩ hbs
  rintro c s s' hc ⟨l, h, hkl⟩ hstep
  rcases Step.freeList h hstep with ⟨j, l', rfl, -, h'⟩ | ⟨-, -, rfl⟩ | ⟨_, _, -, -, rfl⟩ |
    ⟨j, hj, hjl, rfl, h'⟩
  · exact ⟨l', h', fun hk => hkl (List.mem_cons_of_mem _ hk)⟩
  · exact ⟨l, h, hkl⟩
  · exact ⟨l, h, hkl⟩
  · refine ⟨j :: l, h', fun hmem => ?_⟩
    rcases List.mem_cons.1 hmem with rfl | hmem
    · exact hc rfl
    · exact hkl hmem

/-- The free list in every state a run of calls reaches: its nodes are frames with their own
addresses, none twice; the check for a double free ends with the right answer; `alloc_frame`
returns 0 exactly on an empty list, and otherwise an address it does not return again before
a `free_frame` of it is accepted; and `free_frame` accepts the addresses of the frames that are not
on the list, and changes nothing where it rejects one. -/
theorem run_freeList (h : Run Step (booted mapped) as s) :
    (∃ l : List ℕ, Linked (fun k => (s.frames k).next) s.frameList l ∧ l.Nodup ∧
      (∀ k ∈ l, k < numSections ∧ (s.frames k).addr = sectionAddr k) ∧
      (∀ addr, s.isFree addr (numSections + 1) s.frameList =
        some (decide (addr ∈ l.map sectionAddr))) ∧
      ∀ addr, ∃ r s', s.freeFrame addr = some (r, s') ∧
        (r = .freed ↔ ∃ k < numSections, k ∉ l ∧ addr = sectionAddr k) ∧ (r ≠ .freed → s' = s)) ∧
    (s.allocFrame.1 = 0 ↔ s.frameList = none) ∧
    (s.allocFrame.1 ≠ 0 → ∀ bs s', Run Step s.allocFrame.2 bs s' →
      (∀ x ∈ bs, x.2 ≠ .free s.allocFrame.1 .freed) → s'.allocFrame.1 ≠ s.allocFrame.1) := by
  obtain ⟨l, hl⟩ := Run.freeList h
  refine ⟨⟨l, hl.linked, hl.nodup, fun k hk => ⟨hl.inRange k hk, hl.addr k hk⟩, hl.isFree_eq,
    hl.freeFrame_eq⟩, ?_, ?_⟩
  · rw [hl.allocFrame_eq_zero_iff]
    constructor
    · rintro rfl
      exact hl.linked
    · intro hnone
      have hnil : Linked (fun k => (s.frames k).next) s.frameList [] := hnone
      exact hl.linked.unique hnil
  · intro hne bs s' hrun hbs heq
    rcases l with _ | ⟨k, l⟩
    · exact hne (hl.allocFrame_eq_zero_iff.2 rfl)
    obtain ⟨s₁, hs, hl₁⟩ := hl.alloc_cons
    have hk := hl.inRange k (by simp)
    simp only [hs] at hrun hbs heq
    obtain ⟨l', hl', hkl'⟩ := Run.not_mem hrun hl₁ (List.nodup_cons.1 hl.nodup).1 hbs
    rcases l' with _ | ⟨j, l'⟩
    · rw [hl'.alloc_nil] at heq
      exact sectionAddr_ne_zero hk heq.symm
    · obtain ⟨s₂, hs₂, -⟩ := hl'.alloc_cons
      rw [hs₂] at heq
      refine hkl' ?_
      rw [(sectionAddr_inj (hl'.inRange j (by simp)) hk).1 heq]
      simp

/-- A frame is allocated and freed; it is on the list again, so to free it twice is rejected. -/
theorem run_freeList_freed : ∃ s, Run Step (booted 510)
      [(booted 510, .alloc (sectionAddr 511)),
        ((booted 510).allocFrame.2, .free (sectionAddr 511) .freed)] s ∧
    ∃ r, s.freeFrame (sectionAddr 511) = some (r, s) ∧ r ≠ .freed := by
  have halloc : Step (.alloc (sectionAddr 511)) (booted 510) (booted 510).allocFrame.2 := rfl
  have hfree : Step (.free (sectionAddr 511) .freed) (booted 510).allocFrame.2
      ((booted 510).allocFrame.2.pushFrame 511 (sectionAddr 511)) := rfl
  have hrun := (Run.single halloc).snoc hfree
  obtain ⟨⟨l, -, -, hl, hscan, hfrees⟩, -, -⟩ := run_freeList hrun
  obtain ⟨r, s', heq, hiff, hsame⟩ := hfrees (sectionAddr 511)
  have hr : r ≠ .freed := by
    intro hr
    obtain ⟨k, hk, hkl, haddr⟩ := hiff.1 hr
    have hmem : sectionAddr 511 ∈ l.map sectionAddr := by
      have hfound : some (decide (sectionAddr 511 ∈ l.map sectionAddr)) = some true :=
        (hscan (sectionAddr 511)).symm
      exact of_decide_eq_true (Option.some.inj hfound)
    obtain ⟨j, hj, hsame⟩ := List.mem_map.1 hmem
    rw [haddr, sectionAddr_inj (hl j hj).1 hk] at hsame
    exact hkl (hsame ▸ hj)
  exact ⟨_, hrun, r, by rw [heq, hsame hr], hr⟩

/-! ## Reserved frames -/

/-- A frame the allocator starts without: one of the loaded kernel, or that of the boot page
tables. -/
def Reserved (mapped addr : UInt32) : Prop :=
  addr = memBootPageTableBase ∨
    ∃ i < mapped.toNat, addr.toNat = memPhysBase.toNat + i * memSectionSize.toNat

theorem reserved_sectionAddr (h : k < numSections) :
    Reserved mapped (sectionAddr k) ↔
      sectionAddr k = memBootPageTableBase ∨ k < mapped.toNat := by
  refine or_congr_right ?_
  have hbase : memPhysBase.toNat = 0x80000000 := rfl
  have hsize : memSectionSize.toNat = 0x100000 := rfl
  simp only [sectionAddr_toNat h, hbase, hsize]
  constructor
  · rintro ⟨i, hi, heq⟩
    omega
  · intro hk
    exact ⟨k, hk, rfl⟩

/-- No call of the run returned a reserved frame, and every `free_frame` it accepted was of
a frame handed out before. -/
def KeepsReserved (mapped : UInt32) (as : List (FrameAllocator × Call)) : Prop :=
  (∀ x ∈ as, ∀ addr, x.2 = .alloc addr → ¬ Reserved mapped addr) ∧
    ∀ pre x, pre ++ [x] <+: as → ∀ addr, x.2 = .free addr .freed →
      ∃ y ∈ pre, y.2 = .alloc addr

/-- No caller frees a reserved frame of DRAM. -/
def FreesNoReserved (mapped : UInt32) (as : List (FrameAllocator × Call)) : Prop :=
  ∀ x ∈ as, ∀ addr r, x.2 = .free addr r → Reserved mapped addr → memPhysBase + memPhysSize ≤ addr

/-- Where every frame is after a run: the free list has no reserved frame, and a frame that is
neither reserved nor on it was handed out. -/
def Accounted (mapped : UInt32) (as : List (FrameAllocator × Call)) (l : List ℕ) : Prop :=
  ∀ k < numSections, (k ∈ l → ¬ Reserved mapped (sectionAddr k)) ∧
    (¬ Reserved mapped (sectionAddr k) → k ∈ l ∨ ∃ y ∈ as, y.2 = .alloc (sectionAddr k))

theorem KeepsReserved.of_snoc {x : FrameAllocator × Call} (h : KeepsReserved mapped (as ++ [x])) :
    KeepsReserved mapped as :=
  ⟨fun y hy => h.1 y (List.mem_append_left _ hy),
    fun pre y hpre => h.2 pre y (hpre.trans (List.prefix_append _ _))⟩

theorem FreesNoReserved.of_snoc {x : FrameAllocator × Call}
    (h : FreesNoReserved mapped (as ++ [x])) : FreesNoReserved mapped as :=
  fun y hy => h y (List.mem_append_left _ hy)

theorem KeepsReserved.snoc {x : FrameAllocator × Call} (h : KeepsReserved mapped as)
    (halloc : ∀ addr, x.2 = .alloc addr → ¬ Reserved mapped addr)
    (hfree : ∀ addr, x.2 = .free addr .freed → ∃ y ∈ as, y.2 = .alloc addr) :
    KeepsReserved mapped (as ++ [x]) := by
  refine ⟨fun y hy => ?_, fun pre y hpre => ?_⟩
  · rcases List.mem_append.1 hy with hy | hy
    · exact h.1 y hy
    · rw [List.mem_singleton.1 hy]
      exact halloc
  · rcases List.prefix_concat_iff.1 hpre with heq | hpre
    · obtain ⟨hpre, hy⟩ := List.append_inj' heq rfl
      rw [hpre, List.singleton_inj.1 hy]
      exact hfree
    · exact h.2 pre y hpre

theorem not_reserved_zero : ¬ Reserved mapped 0 := by
  rintro (h | ⟨i, -, h⟩)
  · exact absurd h (by decide)
  · have h' : 0 = 0x80000000 + i * 0x100000 := h
    omega

theorem booted_accounted (mapped : UInt32) :
    ∃ l, FreeList (booted mapped) l ∧ Accounted mapped [] l := by
  obtain ⟨l, h, hmem⟩ := booted_freeList mapped
  refine ⟨l, h, fun k hk => ?_⟩
  rw [reserved_sectionAddr hk, hmem]
  constructor
  · rintro ⟨⟨hm, -⟩, hb⟩ (hb' | hlt)
    · exact hb hb'
    · omega
  · intro hr
    rw [not_or] at hr
    exact .inl ⟨⟨by omega, hk⟩, hr.1⟩

theorem sectionAddr_lt_end (h : k < numSections) :
    ¬ memPhysBase + memPhysSize ≤ sectionAddr k := by
  rw [UInt32.le_iff_toNat_le, sectionAddr_toNat h]
  unfold numSections at h
  show ¬ 0xA0000000 ≤ 0x80000000 + k * 0x100000
  omega

/-- A call whose argument is no reserved frame keeps the accounts. -/
theorem Step.accounted {c : Call} (h : FreeList s l) (hacc : Accounted mapped as l)
    (hkeeps : KeepsReserved mapped as) (hok : FreesNoReserved mapped (as ++ [(s, c)]))
    (hstep : Step c s s') :
    (∃ l', FreeList s' l' ∧ Accounted mapped (as ++ [(s, c)]) l') ∧
      KeepsReserved mapped (as ++ [(s, c)]) := by
  have hold : ∀ {addr}, (∃ y ∈ as, y.2 = Call.alloc addr) →
      ∃ y ∈ as ++ [(s, c)], y.2 = Call.alloc addr := by
    rintro addr ⟨y, hy, hya⟩
    exact ⟨y, List.mem_append_left _ hy, hya⟩
  have hsame : Accounted mapped (as ++ [(s, c)]) l := fun j hj =>
    ⟨(hacc j hj).1, fun hr => ((hacc j hj).2 hr).imp_right hold⟩
  rcases Step.freeList h hstep with ⟨k, l', rfl, rfl, h'⟩ | ⟨rfl, rfl, rfl⟩ |
    ⟨addr, r, rfl, hr, rfl⟩ | ⟨k, hk, hkl, rfl, h'⟩
  · have hk := h.inRange k (by simp)
    refine ⟨⟨l', h', fun j hj => ⟨fun hjl => (hacc j hj).1 (List.mem_cons_of_mem _ hjl),
      fun hr => ?_⟩⟩, hkeeps.snoc ?_ (by simp)⟩
    · rcases (hacc j hj).2 hr with hjl | hout
      · rcases List.mem_cons.1 hjl with rfl | hjl
        · exact .inr ⟨_, List.mem_append_right _ (List.mem_singleton.2 rfl), rfl⟩
        · exact .inl hjl
      · exact .inr (hold hout)
    · rintro addr ⟨⟩
      exact (hacc k hk).1 (by simp)
  · refine ⟨⟨[], h, hsame⟩, hkeeps.snoc ?_ (by simp)⟩
    rintro addr ⟨⟩
    exact not_reserved_zero
  · refine ⟨⟨l, h, hsame⟩, hkeeps.snoc (by simp) ?_⟩
    rintro a heq
    cases heq
    exact absurd rfl hr
  · have hnr : ¬ Reserved mapped (sectionAddr k) := fun hres =>
      sectionAddr_lt_end hk
        (hok _ (List.mem_append_right _ (List.mem_singleton.2 rfl)) _ _ rfl hres)
    refine ⟨⟨k :: l, h', fun j hj => ⟨fun hjl => ?_, fun hr => ?_⟩⟩, hkeeps.snoc (by simp) ?_⟩
    · rcases List.mem_cons.1 hjl with rfl | hjl
      · exact hnr
      · exact (hacc j hj).1 hjl
    · exact ((hsame j hj).2 hr).imp_left (List.mem_cons_of_mem _)
    · rintro a heq
      cases heq
      exact ((hacc k hk).2 hnr).resolve_left hkl

theorem Run.accounted (h : Run Step (booted mapped) as s) (hok : FreesNoReserved mapped as) :
    (∃ l, FreeList s l ∧ Accounted mapped as l) ∧ KeepsReserved mapped as := by
  induction h with
  | nil => exact ⟨booted_accounted mapped, by simp [KeepsReserved]⟩
  | snoc _ last ih =>
    obtain ⟨⟨l, hl, hacc⟩, hkeeps⟩ := ih hok.of_snoc
    exact Step.accounted hl hacc hkeeps hok last

theorem Reserved.exists_sectionAddr {addr : UInt32} (h : Reserved mapped addr)
    (hlt : ¬ memPhysBase + memPhysSize ≤ addr) : ∃ k < numSections, addr = sectionAddr k := by
  rcases h with rfl | ⟨i, -, hi⟩
  · exact ⟨256, by decide, by decide⟩
  · have hi' : addr.toNat = 0x80000000 + i * 0x100000 := hi
    have hlt' : ¬ 0xA0000000 ≤ addr.toNat := hlt
    have hi : i < numSections := by
      unfold numSections
      omega
    refine ⟨i, hi, ?_⟩
    rw [← UInt32.toNat_inj, sectionAddr_toNat hi, hi']

/-- The reserved frames are safe in a run, and only what was handed out can be freed, exactly
if no caller frees a reserved frame. -/
theorem keepsReserved_iff (h : Run Step (booted mapped) as s) :
    KeepsReserved mapped as ↔ FreesNoReserved mapped as := by
  refine ⟨fun hkeeps => ?_, fun hok => (Run.accounted h hok).2⟩
  induction h with
  | nil => simp [FreesNoReserved]
  | @snoc as s s' c run last ih =>
    have hok := ih hkeeps.of_snoc
    obtain ⟨⟨l, hl, hacc⟩, -⟩ := Run.accounted run hok
    intro x hx addr r hxa hres
    rcases List.mem_append.1 hx with hx | hx
    · exact hok x hx addr r hxa hres
    by_contra hlt
    obtain rfl := List.mem_singleton.1 hx
    obtain ⟨k, hk, rfl⟩ := hres.exists_sectionAddr hlt
    -- a reserved frame is not on the list, so the call is accepted
    cases hxa
    have hfreed := hl.free_sectionAddr hk fun hkl => (hacc k hk).1 hkl hres
    simp only [Step, hfreed] at last
    cases last
    obtain ⟨y, hy, hya⟩ := hkeeps.2 as _ (List.prefix_refl _) _ rfl
    exact hkeeps.1 y (List.mem_append_left _ hy) _ hya hres

/-- The frame of the boot page tables is freed by a caller, and handed out to the next. -/
theorem page_tables_handed_out :
    ¬ ∀ mapped as s, Run Step (booted mapped) as s → KeepsReserved mapped as := by
  intro h
  obtain ⟨l, hl, hmem⟩ := booted_freeList 1
  have hboot : sectionAddr 256 = memBootPageTableBase := by decide
  have hfree := hl.free_sectionAddr (k := 256) (by decide) fun hk => ((hmem 256).1 hk).2 hboot
  rw [hboot] at hfree
  have hstep : Step (.alloc memBootPageTableBase) ((booted 1).pushFrame 256 memBootPageTableBase)
      ((booted 1).pushFrame 256 memBootPageTableBase).allocFrame.2 := by
    simp [Step, allocFrame, pushFrame]
  have hstep' : Step (.free memBootPageTableBase .freed) (booted 1)
      ((booted 1).pushFrame 256 memBootPageTableBase) := hfree
  have hrun := (Run.single hstep').snoc hstep
  exact (h 1 _ _ hrun).1 _ (List.mem_append_right _ (List.mem_singleton.2 rfl)) _ rfl (.inl rfl)

/-- One frame handed out. -/
theorem keepsReserved_iff_alloc :
    KeepsReserved 511 [(booted 511, .alloc (sectionAddr 511))] ↔
      FreesNoReserved 511 [(booted 511, .alloc (sectionAddr 511))] :=
  keepsReserved_iff (s := (booted 511).allocFrame.2) (.single rfl)

end BeagleKernel.Mmu
