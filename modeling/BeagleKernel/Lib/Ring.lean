import Mathlib.Data.Nat.ModEq
import Mathlib.Logic.Function.Basic
import Mathlib.Tactic.Common

/-!
# Queues around a ring

A ring of `cap` slots holds a queue in the slots from `head` on, around its end. What is appended
goes to the slot after the last, and what is taken off the front moves `head` on by one.
-/

namespace BeagleKernel

variable {α : Type}

/-- The slots from `head` on hold `q`. -/
structure RingHolds (cap : ℕ) (slots : ℕ → α) (head : ℕ) (q : List α) : Prop where
  head_lt : head < cap
  length_le : q.length ≤ cap
  slots_eq : ∀ i (h : i < q.length), slots ((head + i) % cap) = q[i]

namespace RingHolds

variable {cap head : ℕ} {slots : ℕ → α} {q : List α} {a : α}

theorem nil (h : head < cap) : RingHolds cap slots head [] where
  head_lt := h
  length_le := Nat.zero_le _
  slots_eq i hi := absurd hi (Nat.not_lt_zero i)

/-- Slots at different places of the queue are different. -/
theorem index_ne {i j : ℕ} (hij : i < j) (hj : j < cap) : (head + i) % cap ≠ (head + j) % cap := by
  intro h
  have h' : i ≡ j [MOD cap] := Nat.ModEq.add_left_cancel' head h
  exact absurd (Nat.ModEq.eq_of_lt_of_lt h' (by omega) hj) (by omega)

theorem push (h : RingHolds cap slots head q) (hlt : q.length < cap) (a : α) :
    RingHolds cap (Function.update slots ((head + q.length) % cap) a) head (q ++ [a]) where
  head_lt := h.head_lt
  length_le := by
    rw [List.length_append]
    exact hlt
  slots_eq i hi := by
    rw [List.length_append, List.length_singleton] at hi
    rcases (Nat.lt_succ_iff.1 hi).eq_or_lt with rfl | hi
    · rw [Function.update_self, List.getElem_append_right le_rfl, List.getElem_singleton]
    · rw [Function.update_of_ne (index_ne hi hlt), List.getElem_append_left hi]
      exact h.slots_eq i hi

theorem front (h : RingHolds cap slots head (a :: q)) : slots head = a := by
  have := h.slots_eq 0 (Nat.succ_pos _)
  rwa [Nat.add_zero, Nat.mod_eq_of_lt h.head_lt] at this

theorem pop (h : RingHolds cap slots head (a :: q)) :
    RingHolds cap slots ((head + 1) % cap) q where
  head_lt := Nat.mod_lt _ (Nat.zero_lt_of_lt h.head_lt)
  length_le := Nat.le_of_succ_le h.length_le
  slots_eq i hi := by
    have := h.slots_eq (i + 1) (Nat.succ_lt_succ hi)
    rw [List.getElem_cons_succ] at this
    rw [Nat.mod_add_mod, Nat.add_assoc, Nat.add_comm 1 i, this]

/-- The queue is the slots read off from `head` on. -/
theorem eq_map (h : RingHolds cap slots head q) :
    q = (List.range q.length).map fun i => slots ((head + i) % cap) := by
  refine List.ext_getElem (by simp) fun i h1 _ => ?_
  rw [List.getElem_map, List.getElem_range, h.slots_eq i h1]

end RingHolds

end BeagleKernel
