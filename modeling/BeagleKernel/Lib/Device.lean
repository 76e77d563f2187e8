import BeagleKernel.Lib.Polled
import Mathlib.Logic.Relation

/-!
# Polling a device

A `Device` makes moves of its own between accesses, and says what an access may return and do. It
serves a log when it can make the accesses of it in turn. A `Triple` is what a computation leaves
of the device, if it returns, and there is a rule for each way a computation is built; one of a
loop needs an invariant of its body.
-/

namespace BeagleKernel

/-- A device with states `σ` and accesses `ω`. -/
structure Device (σ ω : Type) where
  Move : σ → σ → Prop
  Access : ω → σ → σ → Prop

namespace Device

variable {σ ν ω α β : Type}

/-- Some moves, one after the other. -/
def Moves (D : Device σ ω) : σ → σ → Prop := Relation.ReflTransGen D.Move

/-- The device makes the accesses of a log, with moves before each. -/
inductive Serves (D : Device σ ω) : σ → List ω → σ → Prop
  | done (s : σ) : Serves D s [] s
  | access {s s₁ s₂ s' : σ} {w : ω} {log : List ω} (moves : D.Moves s s₁)
      (access : D.Access w s₁ s₂) (rest : Serves D s₂ log s') : Serves D s (w :: log) s'

/-- No move ends it. -/
def Keeps (D : Device σ ω) (P : σ → Prop) : Prop := ∀ s s', P s → D.Move s s' → P s'

/-- What a computation leaves of a device as `P` says, if it returns, is as `Q` says. -/
def Triple (D : Device σ ω) (P : σ → Prop) (x : Polled ν ω α) (Q : α → σ → Prop) : Prop :=
  ∀ s vs a log rest s', P s → x vs = some ⟨a, log, rest⟩ → D.Serves s log s' → Q a s'

variable {D : Device σ ω} {P P' : σ → Prop} {Q Q' : α → σ → Prop} {R : β → σ → Prop}
  {x : Polled ν ω α}

theorem Keeps.moves (h : D.Keeps P) {s s' : σ} (hs : P s) (hmoves : D.Moves s s') : P s' := by
  induction hmoves with
  | refl => exact hs
  | tail _ last ih => exact h _ _ ih last

theorem serves_nil {s s' : σ} : D.Serves s [] s' ↔ s = s' := by
  constructor
  · intro h
    cases h
    rfl
  · rintro rfl
    exact .done s

theorem serves_cons {s s' : σ} {w : ω} {log : List ω} : D.Serves s (w :: log) s' ↔
    ∃ s₁ s₂, D.Moves s s₁ ∧ D.Access w s₁ s₂ ∧ D.Serves s₂ log s' := by
  constructor
  · intro h
    cases h with
    | access moves access rest => exact ⟨_, _, moves, access, rest⟩
  · rintro ⟨s₁, s₂, moves, access, rest⟩
    exact .access moves access rest

theorem serves_append {log₁ log₂ : List ω} {s' : σ} : ∀ {s : σ}, D.Serves s (log₁ ++ log₂) s' ↔
    ∃ s₁, D.Serves s log₁ s₁ ∧ D.Serves s₁ log₂ s' := by
  induction log₁ with
  | nil => exact fun {s} => ⟨fun h => ⟨s, .done s, h⟩, fun ⟨s₁, h₁, h₂⟩ => by
      rwa [serves_nil.1 h₁]⟩
  | cons w log₁ ih =>
    intro s
    rw [List.cons_append, serves_cons]
    constructor
    · rintro ⟨s₁, s₂, moves, access, rest⟩
      obtain ⟨s₃, h₁, h₂⟩ := ih.1 rest
      exact ⟨s₃, .access moves access h₁, h₂⟩
    · rintro ⟨s₃, h₁, h₂⟩
      obtain ⟨s₁, s₂, moves, access, rest⟩ := serves_cons.1 h₁
      exact ⟨s₁, s₂, moves, access, ih.2 ⟨s₃, rest, h₂⟩⟩

/-- A function that makes accesses of the device, with moves before each, serves a log. -/
theorem serves_of_foldlM {serve : σ → ω → Option σ}
    (h : ∀ s w s', serve s w = some s' → ∃ s₁, D.Moves s s₁ ∧ D.Access w s₁ s') {s' : σ} :
    ∀ {log : List ω} {s : σ}, log.foldlM serve s = some s' → D.Serves s log s'
  | [], s, hlog => by
    cases hlog
    exact .done _
  | w :: log, s, hlog => by
    obtain ⟨s₂, hw, hrest⟩ := Option.bind_eq_some_iff.1 hlog
    obtain ⟨s₁, moves, access⟩ := h s w s₂ hw
    exact .access moves access (serves_of_foldlM h hrest)

/-! ## The rules -/

namespace Triple

theorem weaken (h : D.Triple P x Q) (hP : ∀ s, P' s → P s) (hQ : ∀ a s, Q a s → Q' a s) :
    D.Triple P' x Q' :=
  fun s vs a log rest s' hs hx hserves => hQ a s' (h s vs a log rest s' (hP s hs) hx hserves)

theorem pre (h : D.Triple P x Q) (hP : ∀ s, P' s → P s) : D.Triple P' x Q :=
  h.weaken hP fun _ _ hQ => hQ

theorem post (h : D.Triple P x Q) (hQ : ∀ a s, Q a s → Q' a s) : D.Triple P x Q' :=
  h.weaken (fun _ hP => hP) hQ

theorem and (h : D.Triple P x Q) (h' : D.Triple P x Q') :
    D.Triple P x fun a s => Q a s ∧ Q' a s :=
  fun s vs a log rest s' hs hx hserves =>
    ⟨h s vs a log rest s' hs hx hserves, h' s vs a log rest s' hs hx hserves⟩

/-- What is not about the device stays. -/
theorem frame {p : Prop} (h : D.Triple P x Q) :
    D.Triple (fun s => P s ∧ p) x fun a s => Q a s ∧ p :=
  fun s vs a log rest s' hs hx hserves => ⟨h s vs a log rest s' hs.1 hx hserves, hs.2⟩

theorem pure {a : α} (h : ∀ s, P s → Q a s) : D.Triple P (Pure.pure a : Polled ν ω α) Q := by
  intro s vs b log rest s' hs hx hserves
  obtain ⟨rfl, rfl, -⟩ := Polled.pure_eq_some.1 hx
  rw [← serves_nil.1 hserves]
  exact h s hs

theorem bind {y : Polled ν ω β} {f : β → Polled ν ω α} (hy : D.Triple P y R)
    (hf : ∀ b, D.Triple (R b) (f b) Q) : D.Triple P (y >>= f) Q := by
  intro s vs a log rest s' hs hx hserves
  obtain ⟨b, log₁, vs₁, log₂, hfirst, hlast, rfl⟩ := Polled.bind_eq_some.1 hx
  obtain ⟨s₁, h₁, h₂⟩ := serves_append.1 hserves
  exact hf b s₁ vs₁ a log₂ rest s' (hy s vs b log₁ vs₁ s₁ hs hfirst h₁) hlast h₂

theorem read {f : ν → ω} {Q : ν → σ → Prop} (hP : D.Keeps P)
    (h : ∀ v s s', P s → D.Access (f v) s s' → Q v s') : D.Triple P (Polled.read f) Q := by
  intro s vs v log rest s' hs hx hserves
  rcases vs with _ | ⟨v', vs⟩ <;> cases hx
  obtain ⟨s₁, s₂, moves, access, hrest⟩ := serves_cons.1 hserves
  rw [← serves_nil.1 hrest]
  exact h v s₁ s₂ (hP.moves hs moves) access

theorem emit {w : ω} {Q : Unit → σ → Prop} (hP : D.Keeps P)
    (h : ∀ s s', P s → D.Access w s s' → Q () s') :
    D.Triple P (Polled.emit w : Polled ν ω Unit) Q := by
  intro s vs u log rest s' hs hx hserves
  cases hx
  obtain ⟨s₁, s₂, moves, access, hrest⟩ := serves_cons.1 hserves
  rw [← serves_nil.1 hrest]
  exact h s₁ s₂ (hP.moves hs moves) access

theorem rounds {body : Polled ν ω (Option α)} {I : σ → Prop}
    (h : D.Triple I body fun o s => o.elim (I s) (Q · s)) :
    ∀ n, D.Triple I (Polled.rounds body n) Q
  | 0 => fun _ _ _ _ _ _ _ hx _ => nomatch hx
  | n + 1 => h.bind fun o => match o with
    | none => rounds h n
    | some _ => .pure fun _ hs => hs

/-- What every round keeps until the one that ends the loop. -/
theorem loop {body : Polled ν ω (Option α)} {I : σ → Prop}
    (h : D.Triple I body fun o s => o.elim (I s) (Q · s)) : D.Triple I (Polled.loop body) Q :=
  fun s vs a log rest s' => rounds h (vs.length + 1) s vs a log rest s'

end Triple

end Device

end BeagleKernel
