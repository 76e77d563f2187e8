import Mathlib.Algebra.Ring.Nat
import Mathlib.Tactic.Common

/-!
# Reading what may have holes

A reader is at a place among the first `size` of some items, of which some may be missing. A read
gets the items from there on, up to the first that is missing; however a read is divided, its parts
get what it gets (`reads_eq`).
-/

namespace BeagleKernel

variable {α : Type}

/-- At most `n` items from `pos` on, up to the first that is missing. -/
def itemsFrom (item : ℕ → Option α) : (pos n : ℕ) → List α
  | _, 0 => []
  | pos, n + 1 =>
    match item pos with
    | none => []
    | some a => a :: itemsFrom item (pos + 1) n

structure Reader (α : Type) where
  item : ℕ → Option α
  size : ℕ
  pos : ℕ

namespace Reader

/-- How many items a read may get. -/
def room (r : Reader α) (n : ℕ) : ℕ := min n (r.size - r.pos)

def get (r : Reader α) (n : ℕ) : List α := itemsFrom r.item r.pos (r.room n)

def read (r : Reader α) (n : ℕ) : List α × Reader α :=
  (r.get n, { r with pos := r.pos + (r.get n).length })

/-- Some reads one after the other. -/
def reads (r : Reader α) : List ℕ → List α × Reader α
  | [] => ([], r)
  | n :: ns => ((r.read n).1 ++ (reads (r.read n).2 ns).1, (reads (r.read n).2 ns).2)

end Reader

variable {item : ℕ → Option α} {pos m n : ℕ} {r : Reader α}

theorem itemsFrom_none (h : item pos = none) : itemsFrom item pos n = [] := by
  rcases n with _ | n
  · rfl
  · rw [itemsFrom, h]

theorem itemsFrom_some {a : α} (h : item pos = some a) :
    itemsFrom item pos (n + 1) = a :: itemsFrom item (pos + 1) n := by
  rw [itemsFrom, h]

theorem length_itemsFrom_le : ∀ {n pos : ℕ}, (itemsFrom item pos n).length ≤ n
  | 0, _ => Nat.zero_le _
  | n + 1, pos => by
    rcases h : item pos with _ | a
    · rw [itemsFrom_none h]
      exact Nat.zero_le _
    · rw [itemsFrom_some h, List.length_cons]
      exact Nat.succ_le_succ length_itemsFrom_le

/-- The items, where they are known up to the first that is missing. -/
theorem itemsFrom_eq : ∀ {m n pos : ℕ} {b : ℕ → α}, m ≤ n →
    (∀ j < m, item (pos + j) = some (b j)) → (m < n → item (pos + m) = none) →
    itemsFrom item pos n = (List.range m).map b
  | 0, 0, _, _, _, _, _ => rfl
  | 0, n + 1, pos, b, _, _, hnone => itemsFrom_none (hnone (Nat.succ_pos n))
  | m + 1, n + 1, pos, b, hle, hsome, hnone => by
    have hfirst : item pos = some (b 0) := hsome 0 (Nat.succ_pos m)
    have hrest : itemsFrom item (pos + 1) n = (List.range m).map fun j => b (j + 1) := by
      refine itemsFrom_eq (Nat.le_of_succ_le_succ hle) (fun j hj => ?_) fun hlt => ?_
      · rw [Nat.add_assoc, Nat.add_comm 1]
        exact hsome (j + 1) (Nat.succ_lt_succ hj)
      · rw [Nat.add_assoc, Nat.add_comm 1]
        exact hnone (Nat.succ_lt_succ hlt)
    rw [itemsFrom_some hfirst, hrest, List.range_succ_eq_map, List.map_cons, List.map_map]
    rfl

/-- A read that gets less ends at a hole. -/
theorem hole_of_short : ∀ {n pos : ℕ}, (itemsFrom item pos n).length < n →
    item (pos + (itemsFrom item pos n).length) = none
  | 0, _, h => absurd h (Nat.not_lt_zero _)
  | n + 1, pos, h => by
    rcases hitem : item pos with _ | a
    · rw [itemsFrom_none hitem]
      exact hitem
    · rw [itemsFrom_some hitem, List.length_cons] at h ⊢
      rw [Nat.add_comm _ 1, ← Nat.add_assoc]
      exact hole_of_short (Nat.lt_of_succ_lt_succ h)

theorem itemsFrom_add : ∀ {m pos : ℕ}, itemsFrom item pos (m + n) =
    itemsFrom item pos m ++ itemsFrom item (pos + (itemsFrom item pos m).length)
      (m + n - (itemsFrom item pos m).length)
  | 0, pos => by
    rw [itemsFrom, List.nil_append, List.length_nil, Nat.zero_add, Nat.add_zero, Nat.sub_zero]
  | m + 1, pos => by
    rcases h : item pos with _ | a
    · rw [itemsFrom_none h, itemsFrom_none h, List.length_nil, Nat.add_zero, itemsFrom_none h]
      rfl
    · rw [Nat.add_right_comm, itemsFrom_some h, itemsFrom_some h, itemsFrom_add, List.length_cons,
        List.cons_append, Nat.add_assoc pos, Nat.add_comm 1, Nat.add_sub_add_right]

namespace Reader

theorem length_get_le : (r.get n).length ≤ r.room n := length_itemsFrom_le

theorem read_zero : r.read 0 = ([], r) := by
  have hget : r.get 0 = [] := by
    rw [get, room, Nat.zero_min, itemsFrom]
  rw [read, hget]
  rfl

theorem get_add : r.get (m + n) = r.get m ++ (r.read m).2.get n := by
  have hlen : (r.get m).length ≤ min m (r.size - r.pos) := length_get_le
  have hroom : r.room (m + n) = r.room m + (r.room (m + n) - r.room m) := by
    simp only [room]
    omega
  have hrest : itemsFrom r.item (r.pos + (r.get m).length) (r.room (m + n) - (r.get m).length) =
      (r.read m).2.get n := by
    by_cases hfull : (r.get m).length = r.room m
    · have hsame : r.room (m + n) - (r.get m).length = (r.read m).2.room n := by
        show min (m + n) (r.size - r.pos) - (r.get m).length =
          min n (r.size - (r.pos + (r.get m).length))
        rw [hfull, room]
        omega
      rw [hsame]
      rfl
    · have hnone : r.item (r.pos + (r.get m).length) = none :=
        hole_of_short (Nat.lt_of_le_of_ne length_get_le hfull)
      rw [itemsFrom_none hnone, get]
      exact (itemsFrom_none hnone).symm
  rw [← hrest, get, hroom, itemsFrom_add, ← hroom]
  rfl

theorem read_add : r.read (m + n) =
    ((r.read m).1 ++ ((r.read m).2.read n).1, ((r.read m).2.read n).2) := by
  have hpos : r.pos + (r.get (m + n)).length =
      (r.read m).2.pos + ((r.read m).2.get n).length := by
    rw [get_add, List.length_append, ← Nat.add_assoc]
    rfl
  rw [read, hpos, get_add]
  rfl

/-- However a read is divided, its parts get what it gets. -/
theorem reads_eq : ∀ {ns : List ℕ} {r : Reader α}, r.reads ns = r.read ns.sum
  | [], _ => read_zero.symm
  | n :: ns, r => by
    rw [List.sum_cons, read_add, reads, reads_eq]

end Reader

end BeagleKernel
