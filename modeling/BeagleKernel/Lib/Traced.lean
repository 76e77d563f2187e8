import Mathlib.Algebra.Ring.Nat
import Mathlib.Tactic.Common

/-!
# Computations that leave a trace

A `Traced ω ε α` either returns an `α` or faults with an `ε`, and in both cases leaves the list of
the events it raised on the way, in order. The value of a sequence is the sequence of the values
(`val_bind`), so a proof about results never meets the trace, and an event of a sequence is one
of the first part or one of the rest (`mem_log_bind`).
-/

namespace BeagleKernel

/-- A result or a fault, and the events raised before it. -/
structure Traced (ω ε α : Type) where
  val : Except ε α
  log : List ω

namespace Traced

variable {ω ε α β : Type}

instance : Monad (Traced ω ε) where
  pure a := ⟨.ok a, []⟩
  bind x f :=
    match x.val with
    | .ok a => ⟨(f a).val, x.log ++ (f a).log⟩
    | .error e => ⟨.error e, x.log⟩

/-- Stop with a fault. -/
def fault (e : ε) : Traced ω ε α := ⟨.error e, []⟩

/-- Raise an event and return `a`. -/
def event (w : ω) (a : α) : Traced ω ε α := ⟨.ok a, [w]⟩

@[simp] theorem val_pure (a : α) : (pure a : Traced ω ε α).val = .ok a := rfl
@[simp] theorem log_pure (a : α) : (pure a : Traced ω ε α).log = [] := rfl
@[simp] theorem val_fault (e : ε) : (fault e : Traced ω ε α).val = .error e := rfl
@[simp] theorem log_fault (e : ε) : (fault e : Traced ω ε α).log = [] := rfl
@[simp] theorem val_event (w : ω) (a : α) : (event w a : Traced ω ε α).val = .ok a := rfl
@[simp] theorem log_event (w : ω) (a : α) : (event w a : Traced ω ε α).log = [w] := rfl

@[simp] theorem pure_bind (a : α) (f : α → Traced ω ε β) : (pure a >>= f) = f a := by
  show (⟨(f a).val, [] ++ (f a).log⟩ : Traced ω ε β) = f a
  rw [List.nil_append]

theorem bind_of_ok {x : Traced ω ε α} {a : α} (h : x.val = .ok a) (f : α → Traced ω ε β) :
    (x >>= f) = ⟨(f a).val, x.log ++ (f a).log⟩ := by
  show (match x.val with
    | .ok a => (⟨(f a).val, x.log ++ (f a).log⟩ : Traced ω ε β)
    | .error e => ⟨.error e, x.log⟩) = _
  rw [h]

theorem bind_of_error {x : Traced ω ε α} {e : ε} (h : x.val = .error e) (f : α → Traced ω ε β) :
    (x >>= f) = ⟨.error e, x.log⟩ := by
  show (match x.val with
    | .ok a => (⟨(f a).val, x.log ++ (f a).log⟩ : Traced ω ε β)
    | .error e => ⟨.error e, x.log⟩) = _
  rw [h]

theorem val_bind_of_ok {x : Traced ω ε α} {a : α} (h : x.val = .ok a) (f : α → Traced ω ε β) :
    (x >>= f).val = (f a).val := by
  rw [bind_of_ok h]

theorem log_bind_of_ok {x : Traced ω ε α} {a : α} (h : x.val = .ok a) (f : α → Traced ω ε β) :
    (x >>= f).log = x.log ++ (f a).log := by
  rw [bind_of_ok h]

/-- Of a part that returns, a sequence needs only the result and the trace. -/
theorem bind_eq_after {x : Traced ω ε α} {a : α} (h : x.val = .ok a) :
    ∃ before : Traced ω ε Unit, before.val = .ok () ∧
      ∀ f : α → Traced ω ε β, (x >>= f) = before >>= fun _ => f a :=
  ⟨⟨.ok (), x.log⟩, rfl, fun f => by rw [bind_of_ok h, bind_of_ok rfl]⟩

theorem bind_assoc {γ : Type} (x : Traced ω ε α) (f : α → Traced ω ε β)
    (g : β → Traced ω ε γ) : (x >>= f >>= g) = x >>= fun a => f a >>= g := by
  rcases hx : x.val with e | a
  · rw [bind_of_error hx, bind_of_error hx, bind_of_error rfl]
  rw [bind_of_ok hx, bind_of_ok hx]
  rcases hf : (f a).val with e | b
  · rw [bind_of_error hf, bind_of_error rfl]
  · rw [bind_of_ok hf, bind_of_ok rfl, List.append_assoc]

@[simp] theorem val_bind (x : Traced ω ε α) (f : α → Traced ω ε β) :
    (x >>= f).val = x.val >>= fun a => (f a).val := by
  rcases h : x.val with e | a
  · rw [bind_of_error h]
    rfl
  · rw [bind_of_ok h]
    rfl

@[simp] theorem event_bind (w : ω) (a : α) (f : α → Traced ω ε β) :
    (event w a >>= f) = ⟨(f a).val, w :: (f a).log⟩ :=
  bind_of_ok rfl f

/-- A sequence returns exactly when its first part does and the rest then does. -/
theorem val_bind_eq_ok {x : Traced ω ε α} {f : α → Traced ω ε β} {b : β} :
    (x >>= f).val = .ok b ↔ ∃ a, x.val = .ok a ∧ (f a).val = .ok b := by
  rcases h : x.val with e | a
  · simp [bind_of_error h]
  · simp [bind_of_ok h]

theorem mem_log_bind {x : Traced ω ε α} {f : α → Traced ω ε β} {w : ω} :
    w ∈ (x >>= f).log ↔ w ∈ x.log ∨ ∃ a, x.val = .ok a ∧ w ∈ (f a).log := by
  rcases h : x.val with e | a
  · simp [bind_of_error h]
  · simp [bind_of_ok h]

/-! ## Traces of part of the events -/

section

variable {ω' : Type}

/-- The computation with its events under other names. -/
def rename (f : ω → ω') (x : Traced ω ε α) : Traced ω' ε α := ⟨x.val, x.log.map f⟩

/-- The computation with those of its events that `f` has a name for. -/
def keep (f : ω → Option ω') (x : Traced ω ε α) : Traced ω' ε α := ⟨x.val, x.log.filterMap f⟩

@[simp] theorem keep_pure (f : ω → Option ω') (a : α) :
    (pure a : Traced ω ε α).keep f = pure a := rfl

@[simp] theorem keep_fault (f : ω → Option ω') (e : ε) :
    (fault e : Traced ω ε α).keep f = fault e := rfl

theorem keep_event_of_none {f : ω → Option ω'} {w : ω} (h : f w = none) (a : α) :
    (event w a : Traced ω ε α).keep f = pure a :=
  congrArg (Traced.mk _) (by simp [event, h])

@[simp] theorem keep_bind (f : ω → Option ω') (x : Traced ω ε α) (g : α → Traced ω ε β) :
    (x >>= g).keep f = x.keep f >>= fun a => (g a).keep f := by
  rcases h : x.val with e | a
  · rw [bind_of_error h, bind_of_error (x := x.keep f) h]
    rfl
  · rw [bind_of_ok h, bind_of_ok (x := x.keep f) h]
    exact congrArg (Traced.mk _) (List.filterMap_append)

theorem keep_rename {f : ω → ω'} {g : ω' → Option ω} (h : ∀ w, g (f w) = some w)
    (x : Traced ω ε α) : (x.rename f).keep g = x := by
  refine congrArg (Traced.mk x.val) ?_
  rw [rename, List.filterMap_map, show g ∘ f = some from funext h, List.filterMap_some]

end

end Traced

end BeagleKernel
