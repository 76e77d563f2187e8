import Mathlib.Data.List.Induction
import Mathlib.Logic.Function.Basic
import Mathlib.Algebra.Ring.Nat
import Mathlib.Tactic.Common

/-!
# Reversing a piece of memory in place

Two pointers start at the ends of a piece of memory and swap what they point to until they meet
(`reverseBetween`). The piece then holds the reversed list, and the rest of the memory is as it
was (`HoldsAt.reverseBetween`, `reverseBetween_of_outside`).
-/

namespace BeagleKernel

variable {α : Type} {mem mem' : ℕ → α} {i j : ℕ} {l l' : List α}

/-- The memory from `i` on holds the list. -/
def HoldsAt (mem : ℕ → α) : ℕ → List α → Prop
  | _, [] => True
  | i, a :: l => mem i = a ∧ HoldsAt mem (i + 1) l

theorem HoldsAt.append_iff : ∀ {l : List α} {i : ℕ},
    HoldsAt mem i (l ++ l') ↔ HoldsAt mem i l ∧ HoldsAt mem (i + l.length) l'
  | [], i => by simp [HoldsAt]
  | a :: l, i => by
    rw [List.cons_append, HoldsAt, HoldsAt, HoldsAt.append_iff, and_assoc, List.length_cons,
      Nat.add_assoc, Nat.add_comm 1]

/-- What a piece holds depends on the piece alone. -/
theorem HoldsAt.congr : ∀ {l : List α} {i : ℕ}, HoldsAt mem i l →
    (∀ j, i ≤ j → j < i + l.length → mem' j = mem j) → HoldsAt mem' i l
  | [], _, _, _ => trivial
  | a :: l, i, ⟨ha, hl⟩, h => by
    refine ⟨(h i (Nat.le_refl i) (by simp)).trans ha, HoldsAt.congr hl fun j hij hj => ?_⟩
    exact h j (by omega) (by rw [List.length_cons]; omega)

/-- Swap the ends, then what is between them. -/
def reverseBetween : (i j : ℕ) → (ℕ → α) → ℕ → α
  | _, 0, mem => mem
  | i, j + 1, mem =>
    if i < j + 1 then
      reverseBetween (i + 1) j
        (Function.update (Function.update mem (j + 1) (mem i)) i (mem (j + 1)))
    else mem

theorem reverseBetween_of_le : ∀ {i j : ℕ} {mem : ℕ → α}, j ≤ i → reverseBetween i j mem = mem
  | _, 0, _, _ => rfl
  | _, j + 1, _, h => if_neg (by omega)

theorem reverseBetween_of_lt (h : i < j) : reverseBetween i j mem =
    reverseBetween (i + 1) (j - 1)
      (Function.update (Function.update mem j (mem i)) i (mem j)) := by
  obtain ⟨j, rfl⟩ : ∃ k, j = k + 1 := ⟨j - 1, by omega⟩
  exact if_pos h

theorem reverseBetween_of_outside {k : ℕ} : ∀ {j i : ℕ} {mem : ℕ → α}, k < i ∨ j < k →
    reverseBetween i j mem k = mem k
  | 0, _, _, _ => rfl
  | j + 1, i, mem, h => by
    rw [reverseBetween]
    split_ifs with hij
    · rw [reverseBetween_of_outside (by omega), Function.update_of_ne (by omega),
        Function.update_of_ne (by omega)]
    · rfl

theorem HoldsAt.reverseBetween {l : List α} : ∀ {i : ℕ} {mem : ℕ → α}, HoldsAt mem i l →
    HoldsAt (reverseBetween i (i + l.length - 1) mem) i l.reverse := by
  induction l using List.bidirectionalRec with
  | nil => exact fun _ => trivial
  | singleton a =>
    intro i mem h
    rwa [reverseBetween_of_le (by simp)]
  | cons_append a l b ih =>
    intro i mem h
    obtain ⟨ha, h⟩ := h
    obtain ⟨hl, hb, -⟩ := HoldsAt.append_iff.1 h
    have hlen : i + (a :: (l ++ [b])).length - 1 = i + 1 + l.length := by
      simp only [List.length_cons, List.length_append, List.length_nil]
      omega
    have hrev : (a :: (l ++ [b])).reverse = b :: (l.reverse ++ [a]) := by simp
    rw [hlen, hrev, reverseBetween_of_lt (by omega), ha, hb]
    -- the ends are swapped, and stay so; what is between them is as it was
    set mem' := Function.update (Function.update mem (i + 1 + l.length) a) i b with hmem'
    have hinner : HoldsAt mem' (i + 1) l := hl.congr fun j hij hj => by
      rw [hmem', Function.update_of_ne (by omega), Function.update_of_ne (by omega)]
    refine ⟨?_, HoldsAt.append_iff.2 ⟨ih hinner, ?_, trivial⟩⟩
    · rw [reverseBetween_of_outside (.inl (by omega)), hmem', Function.update_self]
    · rw [List.length_reverse, reverseBetween_of_outside (.inr (by omega)), hmem',
        Function.update_of_ne (by omega), Function.update_self]

end BeagleKernel
