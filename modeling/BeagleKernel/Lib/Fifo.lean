import Mathlib.Algebra.Ring.Nat
import Mathlib.Tactic.Common

/-!
# Bounded queues and the machines that implement them

A machine answers an input and goes on to its next state. One simulates another where related
states answer alike and stay related; then both give the same answers to any sequence of inputs
(`Simulates.responses`). A queue of at most `cap` elements is such a machine, and what simulates
it is known by five facts about a push and a pop (`QueueMachine.simulates`).
-/

namespace BeagleKernel

variable {σ τ ι ρ α : Type}

/-- The answers of a machine to a sequence of inputs, and its state after them. -/
def responses (step : σ → ι → ρ × σ) : σ → List ι → List ρ × σ
  | s, [] => ([], s)
  | s, i :: is =>
    let (r, s') := step s i
    let (rs, s'') := responses step s' is
    (r :: rs, s'')

/-- Related states answer an input alike and stay related. -/
def Simulates (R : σ → τ → Prop) (step : σ → ι → ρ × σ) (spec : τ → ι → ρ × τ) : Prop :=
  ∀ s t i, R s t → (step s i).1 = (spec t i).1 ∧ R (step s i).2 (spec t i).2

theorem Simulates.responses {R : σ → τ → Prop} {step : σ → ι → ρ × σ} {spec : τ → ι → ρ × τ}
    (h : Simulates R step spec) : ∀ (is : List ι) {s : σ} {t : τ}, R s t →
      (responses step s is).1 = (responses spec t is).1 ∧
        R (responses step s is).2 (responses spec t is).2
  | [], _, _, hR => ⟨rfl, hR⟩
  | i :: is, s, t, hR => by
    obtain ⟨hr, hR'⟩ := h s t i hR
    obtain ⟨hrs, hR''⟩ := h.responses is hR'
    unfold BeagleKernel.responses
    exact ⟨by simp only [hr, hrs], hR''⟩

inductive QueueOp (α : Type)
  | push (a : α)
  | pop

/-- What a push and a pop return. -/
inductive QueueReply (α : Type)
  | pushed (ok : Bool)
  | popped (a : Option α)

/-- A queue of at most `cap` elements, the oldest first. -/
structure Fifo (α : Type) (cap : ℕ) where
  items : List α
  length_le : items.length ≤ cap

namespace Fifo

variable {cap : ℕ}

def empty : Fifo α cap := ⟨[], Nat.zero_le _⟩

def push (q : Fifo α cap) (a : α) : Bool × Fifo α cap :=
  if h : q.items.length < cap then
    (true, ⟨q.items ++ [a], by rw [List.length_append]; exact h⟩)
  else (false, q)

def pop (q : Fifo α cap) : Option α × Fifo α cap :=
  match hq : q.items with
  | [] => (none, q)
  | a :: as => (some a, ⟨as, by
      have := q.length_le
      rw [hq] at this
      exact Nat.le_of_succ_le this⟩)

def step (q : Fifo α cap) : QueueOp α → QueueReply α × Fifo α cap
  | .push a => (.pushed (q.push a).1, (q.push a).2)
  | .pop => (.popped q.pop.1, q.pop.2)

variable {q : Fifo α cap} {a : α} {as : List α}

theorem step_push_full (h : q.items.length = cap) : q.step (.push a) = (.pushed false, q) := by
  have hpush : q.push a = (false, q) := dif_neg (by rw [h]; exact Nat.lt_irrefl _)
  simp only [step, hpush]

theorem step_push_room (h : q.items.length < cap) : (q.step (.push a)).1 = .pushed true ∧
    (q.step (.push a)).2.items = q.items ++ [a] := by
  have hpush : q.push a = (true, ⟨q.items ++ [a], by rw [List.length_append]; exact h⟩) := dif_pos h
  simp only [step, hpush, and_self]

theorem step_pop_nil (h : q.items = []) : q.step .pop = (.popped none, q) := by
  obtain ⟨items, hle⟩ := q
  subst h
  rfl

theorem step_pop_cons (h : q.items = a :: as) :
    (q.step .pop).1 = .popped (some a) ∧ (q.step .pop).2.items = as := by
  obtain ⟨items, hle⟩ := q
  subst h
  exact ⟨rfl, rfl⟩

end Fifo

/-- A machine each of whose states stands for a queue, and pushes and pops as that does. -/
structure QueueMachine (cap : ℕ) (step : σ → QueueOp α → QueueReply α × σ)
    (Stands : σ → List α → Prop) : Prop where
  length_le : ∀ {s q}, Stands s q → q.length ≤ cap
  push_full : ∀ {s q}, Stands s q → q.length = cap → ∀ a, step s (.push a) = (.pushed false, s)
  push_room : ∀ {s q}, Stands s q → q.length < cap → ∀ a,
    ∃ s', step s (.push a) = (.pushed true, s') ∧ Stands s' (q ++ [a])
  pop_nil : ∀ {s}, Stands s [] → step s .pop = (.popped none, s)
  pop_cons : ∀ {s a as}, Stands s (a :: as) →
    ∃ s', step s .pop = (.popped (some a), s') ∧ Stands s' as

namespace QueueMachine

variable {cap : ℕ} {step : σ → QueueOp α → QueueReply α × σ} {Stands : σ → List α → Prop}
  (h : QueueMachine cap step Stands) {s : σ} {q : List α}

include h

theorem simulates :
    Simulates (fun s (q : Fifo α cap) => Stands s q.items) step Fifo.step := by
  intro s q op hs
  cases op with
  | push a =>
    rcases Nat.lt_or_eq_of_le q.length_le with hlt | hfull
    · obtain ⟨s', hstep, hs'⟩ := h.push_room hs hlt a
      obtain ⟨hr, hitems⟩ := @Fifo.step_push_room _ _ q a hlt
      rw [hstep]
      exact ⟨hr.symm, by simpa only [hitems] using hs'⟩
    · rw [h.push_full hs hfull, Fifo.step_push_full hfull]
      exact ⟨rfl, hs⟩
  | pop =>
    rcases hq : q.items with _ | ⟨a, as⟩
    · rw [h.pop_nil (hq ▸ hs), Fifo.step_pop_nil hq]
      exact ⟨rfl, hs⟩
    · obtain ⟨s', hstep, hs'⟩ := h.pop_cons (hq ▸ hs)
      obtain ⟨hr, hitems⟩ := Fifo.step_pop_cons hq
      rw [hstep]
      exact ⟨hr.symm, by simpa only [hitems] using hs'⟩

theorem push_false_iff (hs : Stands s q) (a : α) :
    step s (.push a) = (.pushed false, s) ↔ q.length = cap := by
  refine ⟨fun hstep => ?_, fun hfull => h.push_full hs hfull a⟩
  rcases Nat.lt_or_eq_of_le (h.length_le hs) with hlt | hfull
  · obtain ⟨s', hstep', -⟩ := h.push_room hs hlt a
    rw [hstep'] at hstep
    simp at hstep
  · exact hfull

theorem pop_none_iff (hs : Stands s q) : step s .pop = (.popped none, s) ↔ q = [] := by
  constructor
  · intro hstep
    rcases q with _ | ⟨a, as⟩
    · rfl
    · obtain ⟨s', hstep', -⟩ := h.pop_cons hs
      rw [hstep'] at hstep
      simp at hstep
  · rintro rfl
    exact h.pop_nil hs

end QueueMachine

end BeagleKernel
