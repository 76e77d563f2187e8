import Mathlib.Algebra.Ring.Nat
import Mathlib.Tactic.Common

/-!
# Taking the lowest set bit off a word

`x &&& (x - 1)` is `x` without its lowest set bit, which is the bit `x.ctz`. So a loop that does
this until nothing is left meets the set bits in increasing order (`setBits_eq_cons`).
-/

namespace BeagleKernel

/-- Below its lowest set bit `c` a number borrows, above it stays. -/
theorem testBit_pred {c n : ℕ} (hlow : ∀ j < c, n.testBit j = false) (hc : n.testBit c = true) :
    (n - 1).testBit c = false ∧ ∀ i, c < i → (n - 1).testBit i = n.testBit i := by
  induction c generalizing n with
  | zero =>
    have hodd : n % 2 = 1 := by simpa [Nat.testBit_zero] using hc
    refine ⟨?_, fun i hi => ?_⟩
    · rw [Nat.testBit_zero, decide_eq_false_iff_not]
      omega
    · obtain ⟨i, rfl⟩ := Nat.exists_eq_succ_of_ne_zero (Nat.ne_of_gt hi)
      rw [Nat.testBit_succ, Nat.testBit_succ, show (n - 1) / 2 = n / 2 by omega]
  | succ c ih =>
    have heven : n % 2 = 0 := by
      have h0 := hlow 0 (Nat.succ_pos c)
      rw [Nat.testBit_zero, decide_eq_false_iff_not] at h0
      omega
    rw [Nat.testBit_succ] at hc
    have hhalf : (n - 1) / 2 = n / 2 - 1 := by omega
    obtain ⟨hclear, habove⟩ := ih (fun j hj => Nat.testBit_succ n j ▸ hlow (j + 1) (by omega)) hc
    refine ⟨by rwa [Nat.testBit_succ, hhalf], fun i hi => ?_⟩
    obtain ⟨i, rfl⟩ := Nat.exists_eq_succ_of_ne_zero (Nat.ne_of_gt (Nat.zero_lt_of_lt hi))
    rw [Nat.testBit_succ, Nat.testBit_succ, hhalf, habove i (by omega)]

variable {w : ℕ} {x : BitVec w}

theorem toNat_sub_one (hx : x ≠ 0) : (x - 1).toNat = x.toNat - 1 := by
  have hpos : x.toNat ≠ 0 := fun h => hx (BitVec.eq_of_toNat_eq h)
  have hone : (1 : BitVec w).toNat = 1 := by
    rcases w with _ | w
    · exact absurd (BitVec.eq_nil x) hx
    · exact Nat.mod_eq_of_lt (Nat.one_lt_two_pow (Nat.succ_ne_zero w))
  have hle : (1 : BitVec w) ≤ x := by
    rw [BitVec.le_def, hone]
    omega
  rw [BitVec.toNat_sub_of_le hle, hone]

theorem toNat_and_sub_one_lt (hx : x ≠ 0) : (x &&& (x - 1)).toNat < x.toNat := by
  have hpos : x.toNat ≠ 0 := fun h => hx (BitVec.eq_of_toNat_eq h)
  have hle : x.toNat &&& (x - 1).toNat ≤ (x - 1).toNat := Nat.and_le_right
  rw [toNat_sub_one hx] at hle
  rw [BitVec.toNat_and, toNat_sub_one hx]
  omega

theorem getLsbD_and_sub_one (hx : x ≠ 0) (i : ℕ) :
    (x &&& (x - 1)).getLsbD i = (x.getLsbD i && decide (i ≠ x.ctz.toNat)) := by
  obtain ⟨hclear, habove⟩ := testBit_pred (n := x.toNat)
    (fun j hj => BitVec.getLsbD_false_of_lt_ctz hj) (BitVec.getLsbD_true_ctz_of_ne_zero hx)
  rw [← toNat_sub_one hx] at hclear habove
  rw [BitVec.getLsbD_and]
  rcases Nat.lt_trichotomy i x.ctz.toNat with h | rfl | h
  · rw [BitVec.getLsbD_false_of_lt_ctz h, Bool.false_and, Bool.false_and]
  · rw [show (x - 1).getLsbD x.ctz.toNat = false from hclear, decide_eq_false (not_not.2 rfl)]
  · rw [show (x - 1).getLsbD i = x.getLsbD i from habove i h, Bool.and_self,
      decide_eq_true (Nat.ne_of_gt h), Bool.and_true]

/-- The indices of the set bits, in increasing order. -/
def setBits (x : BitVec w) : List ℕ := (List.range w).filter x.getLsbD

@[simp] theorem setBits_zero : setBits (0 : BitVec w) = [] := by
  simp [setBits]

theorem range_split {c n : ℕ} (h : c < n) :
    ∃ rest, List.range n = List.range c ++ c :: rest ∧ ∀ i ∈ rest, c < i := by
  obtain ⟨k, rfl⟩ := Nat.exists_eq_add_of_lt h
  refine ⟨(List.range k).map (c + 1 + ·), ?_, fun i hi => ?_⟩
  · rw [Nat.add_assoc, List.range_add, List.range_succ_eq_map, List.map_cons, List.map_map]
    congr 3
    funext i
    show c + (i + 1) = c + 1 + i
    omega
  · obtain ⟨j, -, rfl⟩ := List.mem_map.1 hi
    show c < c + 1 + j
    omega

theorem setBits_eq_cons (hx : x ≠ 0) :
    setBits x = x.ctz.toNat :: setBits (x &&& (x - 1)) := by
  have hc : x.ctz.toNat < w := BitVec.lt_of_getLsbD (BitVec.getLsbD_true_ctz_of_ne_zero hx)
  obtain ⟨rest, hrange, hrest⟩ := range_split hc
  have hbelow (y : BitVec w) (hy : ∀ i < x.ctz.toNat, y.getLsbD i = false) :
      (List.range x.ctz.toNat).filter y.getLsbD = [] :=
    List.filter_eq_nil_iff.2 fun i hi => by simp [hy i (List.mem_range.1 hi)]
  have hlow : ∀ i < x.ctz.toNat, x.getLsbD i = false := fun i hi =>
    BitVec.getLsbD_false_of_lt_ctz hi
  have hlow' : ∀ i < x.ctz.toNat, (x &&& (x - 1)).getLsbD i = false := fun i hi => by
    rw [getLsbD_and_sub_one hx, hlow i hi, Bool.false_and]
  have habove : rest.filter (x &&& (x - 1)).getLsbD = rest.filter x.getLsbD :=
    List.filter_congr fun i hi => by
      rw [getLsbD_and_sub_one hx, decide_eq_true (Nat.ne_of_gt (hrest i hi)), Bool.and_true]
  have hself : (x &&& (x - 1)).getLsbD x.ctz.toNat = false := by
    rw [getLsbD_and_sub_one hx, decide_eq_false (not_not.2 rfl), Bool.and_false]
  rw [setBits, setBits, hrange, List.filter_append, List.filter_append, hbelow x hlow,
    hbelow _ hlow', List.nil_append, List.nil_append,
    List.filter_cons_of_pos (BitVec.getLsbD_true_ctz_of_ne_zero hx),
    List.filter_cons_of_neg (by rw [hself]; exact Bool.false_ne_true), habove]

end BeagleKernel
