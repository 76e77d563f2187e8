import Mathlib.Algebra.Ring.Nat
import Mathlib.Order.Bounds.Basic
import Mathlib.Order.MinMax
import Mathlib.Tactic.Common

/-!
# Edit distance

How many insertions, deletions and substitutions of single elements turn one list into another,
at least. The recursion that takes two equal heads off without a choice is enough
(`editDistance_isLeast`): the distances of lists that differ by one head differ by at most one.
-/

namespace BeagleKernel

variable {α : Type} {xs ys zs : List α} {m n : ℕ}

/-- One insertion, deletion or substitution. -/
inductive Edit : List α → List α → Prop
  | insert (pre post : List α) (a : α) : Edit (pre ++ post) (pre ++ a :: post)
  | delete (pre post : List α) (a : α) : Edit (pre ++ a :: post) (pre ++ post)
  | substitute (pre post : List α) (a b : α) : Edit (pre ++ a :: post) (pre ++ b :: post)

/-- A number of edits, one after the other. -/
inductive Edits : ℕ → List α → List α → Prop
  | refl (xs : List α) : Edits 0 xs xs
  | step {n : ℕ} {xs ys zs : List α} (h : Edit xs ys) (hs : Edits n ys zs) : Edits (n + 1) xs zs

theorem Edits.trans (h : Edits m xs ys) (h' : Edits n ys zs) : Edits (m + n) xs zs := by
  induction h with
  | refl xs => rwa [Nat.zero_add]
  | step h _ ih =>
    rw [Nat.add_right_comm]
    exact .step h (ih h')

theorem Edits.single (h : Edit xs ys) : Edits 1 xs ys := .step h (.refl ys)

theorem Edit.cons (h : Edit xs ys) (c : α) : Edit (c :: xs) (c :: ys) := by
  cases h with
  | insert pre post a => exact .insert (c :: pre) post a
  | delete pre post a => exact .delete (c :: pre) post a
  | substitute pre post a b => exact .substitute (c :: pre) post a b

theorem Edits.cons (h : Edits n xs ys) (c : α) : Edits n (c :: xs) (c :: ys) := by
  induction h with
  | refl xs => exact .refl _
  | step h _ ih => exact .step (h.cons c) ih

theorem Edit.reverse (h : Edit xs ys) : Edit xs.reverse ys.reverse := by
  cases h with
  | insert pre post a => simpa using Edit.insert post.reverse pre.reverse a
  | delete pre post a => simpa using Edit.delete post.reverse pre.reverse a
  | substitute pre post a b => simpa using Edit.substitute post.reverse pre.reverse a b

theorem Edits.reverse (h : Edits n xs ys) : Edits n xs.reverse ys.reverse := by
  induction h with
  | refl xs => exact .refl _
  | step h _ ih => exact .step h.reverse ih

theorem edits_reverse : Edits n xs.reverse ys.reverse ↔ Edits n xs ys :=
  ⟨fun h => by simpa using h.reverse, .reverse⟩

theorem edits_nil_left : ∀ ys : List α, Edits ys.length [] ys
  | [] => .refl []
  | y :: ys => (edits_nil_left ys).trans (.single (.insert [] ys y))

theorem edits_nil_right : ∀ xs : List α, Edits xs.length xs []
  | [] => .refl []
  | x :: xs => .step (.delete [] xs x) (edits_nil_right xs)

/-! ## The recursion -/

variable [DecidableEq α]

/-- The distance, where equal heads are kept. -/
def editDistance : List α → List α → ℕ
  | [], ys => ys.length
  | x :: xs, [] => (x :: xs).length
  | x :: xs, y :: ys =>
    if x = y then editDistance xs ys
    else 1 + min (min (editDistance (x :: xs) ys) (editDistance xs (y :: ys)))
      (editDistance xs ys)
termination_by xs ys => xs.length + ys.length

@[simp] theorem editDistance_nil_left (ys : List α) : editDistance [] ys = ys.length := by
  rw [editDistance]

@[simp] theorem editDistance_nil_right (xs : List α) : editDistance xs [] = xs.length := by
  cases xs with
  | nil => rw [editDistance]
  | cons x xs => rw [editDistance]

theorem editDistance_cons_self (x : α) (xs ys : List α) :
    editDistance (x :: xs) (x :: ys) = editDistance xs ys := by
  rw [editDistance, if_pos rfl]

theorem editDistance_cons_of_ne {x y : α} (h : x ≠ y) (xs ys : List α) :
    editDistance (x :: xs) (y :: ys) =
      1 + min (min (editDistance (x :: xs) ys) (editDistance xs (y :: ys)))
        (editDistance xs ys) := by
  rw [editDistance, if_neg h]

theorem editDistance_comm (xs ys : List α) : editDistance xs ys = editDistance ys xs := by
  fun_induction editDistance xs ys with
  | case1 ys => rw [editDistance_nil_right]
  | case2 x xs => rw [editDistance_nil_left]
  | case3 x xs ys ih => rw [editDistance_cons_self, ih]
  | case4 x xs y ys h ih1 ih2 ih3 =>
    rw [editDistance_cons_of_ne (Ne.symm h), ih1, ih2, ih3, Nat.min_comm (editDistance ys _)]

@[simp] theorem editDistance_self : ∀ xs : List α, editDistance xs xs = 0
  | [] => by simp
  | x :: xs => by rw [editDistance_cons_self, editDistance_self xs]

/-- A list is at most one further from another with a head more, and at most one nearer. -/
theorem editDistance_neighbour (x : α) : ∀ xs zs : List α,
    editDistance (x :: xs) zs ≤ editDistance xs zs + 1 ∧
      editDistance xs zs ≤ editDistance (x :: xs) zs + 1
  | xs, [] => by
    simp only [editDistance_nil_right, List.length_cons]
    omega
  | xs, z :: zs => by
    have hz := editDistance_neighbour z zs xs
    rw [editDistance_comm _ xs, editDistance_comm _ xs] at hz
    by_cases h : x = z
    · subst h
      rw [editDistance_cons_self]
      omega
    · have hx := editDistance_neighbour x xs zs
      rw [editDistance_cons_of_ne h]
      omega
termination_by xs zs => xs.length + zs.length

theorem editDistance_substitute (a b : α) (post : List α) : ∀ zs : List α,
    editDistance (a :: post) zs ≤ editDistance (b :: post) zs + 1
  | [] => by simp
  | z :: zs => by
    have hz := editDistance_neighbour z zs post
    have hb := editDistance_neighbour b post zs
    rw [editDistance_comm _ post, editDistance_comm _ post] at hz
    by_cases hzb : b = z
    · subst hzb
      by_cases hza : a = b
      · subst hza
        omega
      · rw [editDistance_cons_of_ne hza, editDistance_cons_self]
        omega
    · rw [editDistance_cons_of_ne hzb]
      by_cases hza : a = z
      · subst hza
        rw [editDistance_cons_self]
        omega
      · rw [editDistance_cons_of_ne hza]
        omega

/-- What holds of two lists from all others holds behind a common beginning. -/
theorem editDistance_append {l l' : List α}
    (h : ∀ zs, editDistance l zs ≤ editDistance l' zs + 1) : ∀ pre zs : List α,
      editDistance (pre ++ l) zs ≤ editDistance (pre ++ l') zs + 1
  | [], zs => h zs
  | c :: pre, [] => by
    have := editDistance_append h pre []
    simp only [editDistance_nil_right, List.cons_append, List.length_cons] at this ⊢
    omega
  | c :: pre, z :: zs => by
    have h1 := editDistance_append h pre zs
    simp only [List.cons_append]
    by_cases hc : c = z
    · subst hc
      rwa [editDistance_cons_self, editDistance_cons_self]
    · have h2 := editDistance_append h (c :: pre) zs
      have h3 := editDistance_append h pre (z :: zs)
      simp only [List.cons_append] at h2
      rw [editDistance_cons_of_ne hc, editDistance_cons_of_ne hc]
      omega
termination_by pre zs => pre.length + zs.length

theorem Edit.editDistance_le (h : Edit xs ys) (zs : List α) :
    editDistance xs zs ≤ editDistance ys zs + 1 := by
  cases h with
  | insert pre post a =>
    exact editDistance_append (fun zs => (editDistance_neighbour a post zs).2) pre zs
  | delete pre post a =>
    exact editDistance_append (fun zs => (editDistance_neighbour a post zs).1) pre zs
  | substitute pre post a b =>
    exact editDistance_append (editDistance_substitute a b post) pre zs

theorem Edits.editDistance_le (h : Edits n xs ys) : editDistance xs ys ≤ n := by
  induction h with
  | refl xs => rw [editDistance_self]
  | step h _ ih => exact (h.editDistance_le _).trans (Nat.succ_le_succ ih)

theorem edits_editDistance (xs ys : List α) : Edits (editDistance xs ys) xs ys := by
  fun_induction editDistance xs ys with
  | case1 ys => exact edits_nil_left ys
  | case2 x xs => exact edits_nil_right (x :: xs)
  | case3 xs y ys ih => exact ih.cons y
  | case4 x xs y ys h ih1 ih2 ih3 =>
    rw [Nat.add_comm]
    rcases min_choice (min (editDistance (x :: xs) ys) (editDistance xs (y :: ys)))
      (editDistance xs ys) with hmin | hmin <;> rw [hmin]
    · rcases min_choice (editDistance (x :: xs) ys) (editDistance xs (y :: ys)) with
        hmin | hmin <;> rw [hmin]
      · exact ih1.trans (.single (.insert [] ys y))
      · exact .step (.delete [] xs x) ih2
    · exact .step (.substitute [] xs x y) (ih3.cons y)

/-- The distance is the least number of edits. -/
theorem editDistance_isLeast (xs ys : List α) :
    IsLeast {n | Edits n xs ys} (editDistance xs ys) :=
  ⟨edits_editDistance xs ys, fun _ h => h.editDistance_le⟩

theorem editDistance_le_max (xs ys : List α) :
    editDistance xs ys ≤ max xs.length ys.length := by
  fun_induction editDistance xs ys with
  | case1 ys => exact Nat.le_max_right _ _
  | case2 x xs => exact Nat.le_max_left _ _
  | case3 x xs ys ih =>
    simp only [List.length_cons]
    omega
  | case4 x xs y ys h ih1 ih2 ih3 =>
    simp only [List.length_cons] at *
    omega

end BeagleKernel
