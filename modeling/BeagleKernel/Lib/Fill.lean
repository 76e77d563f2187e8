import Mathlib.Algebra.Ring.Nat
import Mathlib.Logic.Function.Basic
import Mathlib.Tactic.Common

/-!
# Filling a stretch of a table

A loop that writes the cells from `b` on, one after the other, leaves there what it wrote and
everything else as it was.
-/

namespace BeagleKernel

variable {α : Type}

theorem foldl_update_range (b : ℕ) (g : ℕ → α) (f : ℕ → α) (j : ℕ) :
    ∀ n, (List.range n).foldl (fun f i => Function.update f (b + i) (g i)) f j =
      if b ≤ j ∧ j < b + n then g (j - b) else f j
  | 0 => by
    rw [if_neg (by omega)]
    rfl
  | n + 1 => by
    rw [List.range_succ, List.foldl_append, List.foldl_cons, List.foldl_nil]
    rcases eq_or_ne j (b + n) with rfl | hj
    · rw [Function.update_self, if_pos (by omega), Nat.add_sub_cancel_left]
    · rw [Function.update_of_ne hj, foldl_update_range b g f j n]
      simp only [show (b ≤ j ∧ j < b + (n + 1)) ↔ (b ≤ j ∧ j < b + n) by omega]

end BeagleKernel
