import BeagleKernel.Boot.Ddr

/-!
# What the memory test finds

Each word is read back directly after its write, so a round sees the stuck bits of one cell and
nothing of where other addresses lead. The test passes exactly where no cell of the range has a
stuck bit (`testDdr3Memory_eq_zero`).
-/

namespace BeagleKernel.Boot

/-- The addresses under test. -/
def testedAddrs : List UInt32 := (List.range ddrWords).map ddrAddr

variable {κ : Type} (d : Ddr κ)

def Ddr.HasStuckBit : Prop := ∃ a ∈ testedAddrs, d.stuck (d.cell a) ≠ 0

def Ddr.NoAlias : Prop :=
  ∀ a ∈ testedAddrs, ∀ b ∈ testedAddrs, d.cell a = d.cell b → a = b

theorem mem_testedAddrs {a : UInt32} : a ∈ testedAddrs ↔ ∃ n < ddrWords, ddrAddr n = a := by
  simp only [testedAddrs, List.mem_map, List.mem_range]

/-! ## Stuck bits -/

theorem observe_of_not_stuck {k : κ} (h : d.stuck k = 0) (v : UInt32) :
    d.memory.observe k v = v := by
  show (v &&& ~~~d.stuck k) ||| (d.stuckAt k &&& d.stuck k) = v
  rw [h, UInt32.and_zero, UInt32.or_zero]
  exact UInt32.toBitVec_inj.1 (by ext i hi; simp)

/-- Zeros show the bits stuck at one and ones those stuck at zero. -/
theorem not_stuck_of_observe {k : κ} (h0 : d.memory.observe k 0x00000000 = 0x00000000)
    (h1 : d.memory.observe k 0xFFFFFFFF = 0xFFFFFFFF) : d.stuck k = 0 := by
  replace h0 : (0 &&& ~~~d.stuck k) ||| (d.stuckAt k &&& d.stuck k) = 0 := h0
  replace h1 : (0xFFFFFFFF &&& ~~~d.stuck k) ||| (d.stuckAt k &&& d.stuck k) = 0xFFFFFFFF := h1
  rw [UInt32.zero_and, UInt32.zero_or] at h0
  rw [h0, UInt32.or_zero] at h1
  have hself : (0xFFFFFFFF &&& ~~~d.stuck k) &&& d.stuck k = 0 := clear_and_self
  rwa [h1, all_and] at hself

theorem observe_patterns {k : κ} :
    (∀ p ∈ patterns, d.memory.observe k p = p) ↔ d.stuck k = 0 := by
  constructor
  · intro h
    exact not_stuck_of_observe d (h _ (by decide)) (h _ (by decide))
  · exact fun h p _ => observe_of_not_stuck d h p

/-! ## The loops -/

/-- How many of the first `n` words are seen wrongly under a pattern. -/
def missed (testPattern : UInt32) (n : ℕ) : ℕ :=
  (List.range n).countP fun i =>
    decide (d.memory.observe (d.cell (ddrAddr i)) testPattern ≠ testPattern)

theorem missed_le (testPattern : UInt32) (n : ℕ) : missed d testPattern n ≤ n := by
  unfold missed
  simpa only [List.length_range] using List.countP_le_length (l := List.range n)

theorem sum_missed_le (n : ℕ) : ∀ ps : List UInt32,
    (ps.map (missed d · n)).sum ≤ ps.length * n
  | [] => by simp
  | p :: ps => by
    have h := sum_missed_le n ps
    have hp := missed_le d p n
    rw [List.map_cons, List.sum_cons, List.length_cons, Nat.succ_mul]
    omega

variable [DecidableEq κ]

theorem testWord_snd (testPattern memAddr : UInt32) (s : (κ → UInt32) × ℕ) :
    (testWord d testPattern memAddr s).2 = s.2 +
      if d.memory.observe (d.cell memAddr) testPattern ≠ testPattern then 1 else 0 := by
  simp only [testWord, FaultyMemory.read_write, Ddr.memory_cell]
  split_ifs <;> rfl

theorem testWords_snd (testPattern : UInt32) (s : (κ → UInt32) × ℕ) (n : ℕ) :
    (testWords d testPattern s n).2 = s.2 + missed d testPattern n := by
  induction n with
  | zero => rfl
  | succ n ih =>
    rw [testWords, testWord_snd, ih, missed, missed, List.range_succ, List.countP_append,
      List.countP_singleton, Nat.add_assoc]
    simp only [decide_eq_true_eq]

theorem foldl_testWords_snd (ps : List UInt32) (s : (κ → UInt32) × ℕ) :
    (ps.foldl (fun s p => testWords d p s ddrWords) s).2 =
      s.2 + (ps.map (missed d · ddrWords)).sum := by
  induction ps generalizing s with
  | nil => rfl
  | cons p ps ih =>
    rw [List.foldl_cons, ih, testWords_snd, List.map_cons, List.sum_cons, Nat.add_assoc]

theorem testDdr3Memory_eq (content : κ → UInt32) :
    testDdr3Memory d content = (patterns.map (missed d · ddrWords)).sum := by
  rw [testDdr3Memory, foldl_testWords_snd, Nat.zero_add]

/-- The count stays in an `int`. -/
theorem testDdr3Memory_le (content : κ → UInt32) :
    testDdr3Memory d content ≤ 4 * ddrWords := by
  rw [testDdr3Memory_eq]
  exact sum_missed_le d ddrWords patterns

/-- What the test returns depends on the stuck bits alone. -/
theorem testDdr3Memory_eq_zero (content : κ → UInt32) :
    testDdr3Memory d content = 0 ↔ ¬ d.HasStuckBit := by
  rw [testDdr3Memory_eq, List.sum_eq_zero_iff_forall_eq_nat]
  constructor
  · rintro h ⟨a, ha, hne⟩
    obtain ⟨n, hn, rfl⟩ := mem_testedAddrs.1 ha
    refine hne ((observe_patterns d).1 fun p hp => ?_)
    have hzero := h _ (List.mem_map_of_mem hp)
    simpa using List.countP_eq_zero.1 hzero n (List.mem_range.2 hn)
  · intro h c hc
    obtain ⟨p, -, rfl⟩ := List.mem_map.1 hc
    refine List.countP_eq_zero.2 fun n hn => ?_
    have hn' := mem_testedAddrs.2 ⟨n, List.mem_range.1 hn, rfl⟩
    have hstuck : d.stuck (d.cell (ddrAddr n)) = 0 := by_contra fun hne => h ⟨_, hn', hne⟩
    simp [observe_of_not_stuck d hstuck]

/-! ## What passing means -/

theorem usable_iff_not_stuck :
    d.memory.Usable testedAddrs ↔ ¬ d.HasStuckBit ∧ d.NoAlias := by
  have : Nontrivial UInt32 := ⟨0, 1, by decide⟩
  rw [FaultyMemory.usable_iff]
  refine and_congr_left fun _ => ⟨?_, ?_⟩
  · rintro h ⟨a, ha, hne⟩
    exact hne ((observe_patterns d).1 fun p _ => h a ha p)
  · exact fun h a ha => observe_of_not_stuck d (by_contra fun hne => h ⟨a, ha, hne⟩)

/-- If the test passes, no cell of the range has a stuck bit and no two addresses share one, so
that the memory is usable. -/
def PassingMeansUsable (content : κ → UInt32) : Prop :=
  testDdr3Memory d content = 0 →
    ¬ d.HasStuckBit ∧ d.NoAlias ∧ d.memory.Usable testedAddrs

theorem passingMeansUsable_iff (content : κ → UInt32) :
    PassingMeansUsable d content ↔ d.HasStuckBit ∨ d.NoAlias := by
  rw [PassingMeansUsable, testDdr3Memory_eq_zero, usable_iff_not_stuck]
  tauto

/-- A memory with an address line that does not arrive passes. -/
theorem not_passingMeansUsable_line :
    ¬ PassingMeansUsable (⟨fun a => a &&& ~~~4, fun _ => 0, fun _ => 0⟩ : Ddr UInt32)
      fun _ => 0 := by
  intro h
  have halias := (h ((testDdr3Memory_eq_zero _ _).2 fun ⟨_, _, hne⟩ => hne rfl)).2.1
  have h0 : ddrAddr 0 ∈ testedAddrs := mem_testedAddrs.2 ⟨0, by decide, rfl⟩
  have h1 : ddrAddr 1 ∈ testedAddrs := mem_testedAddrs.2 ⟨1, by decide, rfl⟩
  have hcell : ddrAddr 0 &&& ~~~4 = ddrAddr 1 &&& ~~~4 := by decide
  have hne : ddrAddr 0 ≠ ddrAddr 1 := by decide
  exact hne (halias _ h0 _ h1 hcell)

end BeagleKernel.Boot
