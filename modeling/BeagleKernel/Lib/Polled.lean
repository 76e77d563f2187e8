import Mathlib.Algebra.Ring.Nat
import Mathlib.Tactic.Common

/-!
# Computations that poll a device

A `Polled ν ω α` is given the values its reads will return, in order, and logs its accesses. One
that needs more values than there are has not returned. So a loop whose rounds all read goes on as
long as there are values, and needs no other bound: what it returns is what its rounds come to
(`loop_eq_some`).
-/

namespace BeagleKernel

/-- What a computation returns: its result, the accesses it made, and the values left. -/
structure Outcome (ν ω α : Type) where
  val : α
  log : List ω
  rest : List ν

/-- The outcome of a rest, after the accesses before it. -/
def Outcome.after {ν ω α : Type} (log : List ω) (r : Outcome ν ω α) : Outcome ν ω α :=
  { r with log := log ++ r.log }

def Polled (ν ω α : Type) : Type := List ν → Option (Outcome ν ω α)

namespace Polled

variable {ν ω α β : Type}

instance : Monad (Polled ν ω) where
  pure a := fun vs => some ⟨a, [], vs⟩
  bind x f := fun vs => (x vs).bind fun r => (f r.val r.rest).map (.after r.log)

/-- Read a value, by the access `f` of it. -/
def read (f : ν → ω) : Polled ν ω ν
  | [] => none
  | v :: vs => some ⟨v, [f v], vs⟩

/-- An access that returns nothing. -/
def emit (w : ω) : Polled ν ω Unit := fun vs => some ⟨(), [w], vs⟩

variable {vs rest : List ν} {log : List ω} {b : β}

theorem pure_eq_some {a b : α} :
    (pure a : Polled ν ω α) vs = some ⟨b, log, rest⟩ ↔ a = b ∧ log = [] ∧ vs = rest := by
  constructor
  · intro h
    cases h
    exact ⟨rfl, rfl, rfl⟩
  · rintro ⟨rfl, rfl, rfl⟩
    rfl

/-- A sequence returns exactly when its first part does and the rest then does. -/
theorem bind_eq_some {x : Polled ν ω α} {f : α → Polled ν ω β} :
    (x >>= f) vs = some ⟨b, log, rest⟩ ↔ ∃ a log₁ vs₁ log₂, x vs = some ⟨a, log₁, vs₁⟩ ∧
      f a vs₁ = some ⟨b, log₂, rest⟩ ∧ log = log₁ ++ log₂ := by
  show ((x vs).bind fun r => (f r.val r.rest).map (Outcome.after r.log)) = _ ↔ _
  simp only [Option.bind_eq_some_iff, Option.map_eq_some_iff]
  constructor
  · rintro ⟨⟨a, log₁, vs₁⟩, h₁, ⟨b, log₂, rest⟩, h₂, h⟩
    cases h
    exact ⟨a, log₁, vs₁, log₂, h₁, h₂, rfl⟩
  · rintro ⟨a, log₁, vs₁, log₂, h₁, h₂, rfl⟩
    exact ⟨_, h₁, _, h₂, rfl⟩

theorem read_bind_eq_some {f : ν → ω} {g : ν → Polled ν ω β} :
    (read f >>= g) vs = some ⟨b, log, rest⟩ ↔ ∃ v vs₁ log₁, vs = v :: vs₁ ∧
      g v vs₁ = some ⟨b, log₁, rest⟩ ∧ log = f v :: log₁ := by
  rw [bind_eq_some]
  constructor
  · rintro ⟨v, log₁, vs₁, log₂, h₁, h₂, rfl⟩
    rcases vs with _ | ⟨v', vs⟩ <;> cases h₁
    exact ⟨_, _, _, rfl, h₂, rfl⟩
  · rintro ⟨v, vs₁, log₁, rfl, h, rfl⟩
    exact ⟨v, [f v], vs₁, log₁, rfl, h, rfl⟩

theorem emit_bind_eq_some {w : ω} {g : Unit → Polled ν ω β} :
    (emit w >>= g) vs = some ⟨b, log, rest⟩ ↔
      ∃ log₁, g () vs = some ⟨b, log₁, rest⟩ ∧ log = w :: log₁ := by
  rw [bind_eq_some]
  constructor
  · rintro ⟨_, log₁, vs₁, log₂, h₁, h₂, rfl⟩
    cases h₁
    exact ⟨_, h₂, rfl⟩
  · rintro ⟨log₁, h, rfl⟩
    exact ⟨(), [w], vs, log₁, rfl, h, rfl⟩

/-! ## Loops -/

/-- At most `n` rounds of a loop, which ends when its body has a result. -/
def rounds (body : Polled ν ω (Option α)) : ℕ → Polled ν ω α
  | 0 => fun _ => none
  | n + 1 => do
    match ← body with
    | some a => return a
    | none => rounds body n

/-- A loop without a bound. -/
def loop (body : Polled ν ω (Option α)) : Polled ν ω α := fun vs => rounds body (vs.length + 1) vs

/-- Every round of the body reads. -/
def Reads (body : Polled ν ω α) : Prop :=
  ∀ vs r, body vs = some r → r.rest.length < vs.length

/-- The rounds of a loop up to the one that has its result. -/
inductive Rounds (body : Polled ν ω (Option α)) (a : α) (rest : List ν) :
    List ν → List ω → Prop
  | last {vs : List ν} {log : List ω} (h : body vs = some ⟨some a, log, rest⟩) :
      Rounds body a rest vs log
  | again {vs vs₁ : List ν} {log₁ log₂ : List ω} (h : body vs = some ⟨none, log₁, vs₁⟩)
      (hrest : Rounds body a rest vs₁ log₂) : Rounds body a rest vs (log₁ ++ log₂)

theorem rounds_eq_some {body : Polled ν ω (Option α)} {a : α} (hreads : Reads body) :
    ∀ {n : ℕ} {vs : List ν} {log : List ω}, vs.length < n →
      (rounds body n vs = some ⟨a, log, rest⟩ ↔ Rounds body a rest vs log)
  | 0, vs, log, hn => absurd hn (Nat.not_lt_zero _)
  | n + 1, vs, log, hn => by
    constructor
    · intro h
      obtain ⟨o, log₁, vs₁, log₂, hbody, hrest, rfl⟩ := bind_eq_some.1 h
      have hlt : vs₁.length < vs.length := hreads _ _ hbody
      rcases o with _ | a'
      · exact .again hbody ((rounds_eq_some hreads (by omega)).1 hrest)
      · obtain ⟨rfl, rfl, rfl⟩ := pure_eq_some.1 hrest
        rw [List.append_nil]
        exact .last hbody
    · intro h
      cases h with
      | last hbody =>
        exact bind_eq_some.2 ⟨_, _, _, [], hbody, rfl, (List.append_nil _).symm⟩
      | @again _ vs₁ _ _ hbody hrest =>
        have hlt : vs₁.length < n := Nat.lt_of_lt_of_le (hreads _ _ hbody) (Nat.le_of_lt_succ hn)
        exact bind_eq_some.2 ⟨_, _, _, _, hbody, (rounds_eq_some hreads hlt).2 hrest, rfl⟩

/-- The values there are, are bound enough. -/
theorem loop_eq_some {body : Polled ν ω (Option α)} (hreads : Reads body) {a : α} :
    loop body vs = some ⟨a, log, rest⟩ ↔ Rounds body a rest vs log :=
  rounds_eq_some hreads (Nat.lt_succ_self _)

end Polled

end BeagleKernel
