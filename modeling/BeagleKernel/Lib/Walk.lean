import Mathlib.Algebra.Ring.Nat
import Mathlib.Tactic.Common

/-!
# Walking a partial successor

`walk next a n` follows `next` from `a` for `n` links. A walk that does not get to `n` breaks at
one place: a link it does reach and that leads nowhere (`walk_break`).
-/

namespace BeagleKernel

variable {α : Type} (next : α → Option α)

/-- Where `n` links of `next` lead from `a`. -/
def walk (a : α) : ℕ → Option α
  | 0 => some a
  | n + 1 => (walk a n).bind next

@[simp] theorem walk_zero (a : α) : walk next a 0 = some a := rfl

theorem walk_succ (a : α) (n : ℕ) : walk next a (n + 1) = (walk next a n).bind next := rfl

theorem walk_succ_of {a b : α} {n : ℕ} (h : walk next a n = some b) :
    walk next a (n + 1) = next b := by
  rw [walk_succ, h, Option.bind_some]

theorem walk_add (a : α) (m : ℕ) :
    ∀ n, walk next a (m + n) = (walk next a m).bind fun b => walk next b n
  | 0 => by simp
  | n + 1 => by
    rw [← Nat.add_assoc, walk_succ, walk_add a m n, Option.bind_assoc]
    rfl

/-- The first link first. -/
theorem walk_succ' (a : α) (n : ℕ) :
    walk next a (n + 1) = (next a).bind fun b => walk next b n := by
  rw [Nat.add_comm, walk_add]
  rfl

theorem walk_isSome_of_le {a : α} {m n : ℕ} (h : m ≤ n) (hn : (walk next a n).isSome) :
    (walk next a m).isSome := by
  obtain ⟨k, rfl⟩ := Nat.exists_eq_add_of_le h
  rw [walk_add] at hn
  rcases hm : walk next a m with _ | b
  · simp [hm] at hn
  · rfl

theorem walk_none_of_le {a : α} {m n : ℕ} (h : m ≤ n) (hm : walk next a m = none) :
    walk next a n = none := by
  rcases hn : walk next a n with _ | b
  · rfl
  · have := walk_isSome_of_le next h (a := a) (by rw [hn]; rfl)
    rw [hm] at this
    simp at this

/-- A walk that does not get to `n` reaches a link that leads nowhere before. -/
theorem walk_break {a : α} :
    ∀ {n : ℕ}, walk next a n = none → ∃ p b, p < n ∧ walk next a p = some b ∧ next b = none
  | 0, h => by simp at h
  | n + 1, h => by
    rcases hn : walk next a n with _ | b
    · obtain ⟨p, b, hp, hb⟩ := walk_break hn
      exact ⟨p, b, by omega, hb⟩
    · exact ⟨n, b, by omega, hn, by rw [← walk_succ_of next hn, h]⟩

end BeagleKernel
