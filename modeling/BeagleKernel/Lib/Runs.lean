import Mathlib.Tactic.Common

/-!
# Runs of a labelled step relation

A run keeps the states it passed and the actions they took, so that a condition on its steps can
be stated of it afterwards.
-/

namespace BeagleKernel

variable {σ α : Type} {step : α → σ → σ → Prop} {s s' s'' : σ} {as : List (σ × α)}

/-- The run from a state to another through `as`: the states before each step, and its action. -/
inductive Run (step : α → σ → σ → Prop) (s : σ) : List (σ × α) → σ → Prop
  | nil : Run step s [] s
  | snoc {as : List (σ × α)} {s' s'' : σ} {a : α} (run : Run step s as s')
      (last : step a s' s'') : Run step s (as ++ [(s', a)]) s''

namespace Run

theorem single {a : α} (h : step a s s') : Run step s [(s, a)] s' := .snoc .nil h

theorem trans {bs : List (σ × α)} (h : Run step s as s') (h' : Run step s' bs s'') :
    Run step s (as ++ bs) s'' := by
  induction h' with
  | nil => rwa [List.append_nil]
  | snoc _ last ih =>
    rw [← List.append_assoc]
    exact .snoc ih last

/-- What every step that is `Ok` keeps holds at the end of a run of such steps. -/
theorem invariant (Inv : σ → Prop) (Ok : σ × α → Prop)
    (keeps : ∀ a s s', Ok (s, a) → Inv s → step a s s' → Inv s') (h : Run step s as s')
    (h0 : Inv s) (hok : ∀ x ∈ as, Ok x) : Inv s' := by
  induction h with
  | nil => exact h0
  | snoc _ last ih =>
    have hinv := ih fun x hx => hok x (List.mem_append_left _ hx)
    exact keeps _ _ _ (hok _ (by simp)) hinv last

/-- A run came to each state it passed, and took its action there. -/
theorem of_mem {x : σ × α} (h : Run step s as s') (hx : x ∈ as) :
    ∃ bs t, bs ⊆ as ∧ Run step s bs x.1 ∧ step x.2 x.1 t := by
  induction h with
  | nil => cases hx
  | @snoc as s' s'' a run last ih =>
    rcases List.mem_append.1 hx with hx | hx
    · obtain ⟨bs, t, hsub, hrun, hstep⟩ := ih hx
      exact ⟨bs, t, List.subset_append_of_subset_left _ hsub, hrun, hstep⟩
    · obtain rfl := List.mem_singleton.1 hx
      exact ⟨as, s'', List.subset_append_left _ _, run, last⟩

/-- Steps that are `Ok` and can be followed one by one, with the same actions, can be followed along
a run. -/
theorem simulate {τ : Type} {spec : α → τ → τ → Prop} {R : σ → τ → Prop} {Ok : α → Prop}
    (hstep : ∀ a s s' t, Ok a → R s t → step a s s' → ∃ t', spec a t t' ∧ R s' t') {t : τ}
    (h : Run step s as s') (hok : ∀ x ∈ as, Ok x.2) (hR : R s t) :
    ∃ bs t', Run spec t bs t' ∧ bs.map Prod.snd = as.map Prod.snd ∧ R s' t' := by
  induction h with
  | nil => exact ⟨[], t, .nil, rfl, hR⟩
  | @snoc as s' s'' a run last ih =>
    obtain ⟨bs, t', hrun, hacts, hR'⟩ := ih fun x hx => hok x (List.mem_append_left _ hx)
    have ha := hok (s', a) (List.mem_append_right _ (List.mem_singleton_self _))
    obtain ⟨t'', hlast, hR''⟩ := hstep _ _ _ _ ha hR' last
    refine ⟨bs ++ [(t', _)], t'', .snoc hrun hlast, ?_, hR''⟩
    rw [List.map_append, List.map_append, hacts]
    rfl

end Run

/-- The run that takes the actions one after the other, if each of them can be taken. -/
def trace (exec : σ → α → Option σ) (s : σ) : List α → Option (List (σ × α) × σ)
  | [] => some ([], s)
  | a :: acts => (exec s a).bind fun s' =>
    (trace exec s' acts).map fun x => ((s, a) :: x.1, x.2)

theorem Run.of_trace {exec : σ → α → Option σ} : ∀ {acts : List α} {s : σ}
    {x : List (σ × α) × σ}, trace exec s acts = some x →
      Run (fun a s s' => exec s a = some s') s x.1 x.2
  | [], s, x, h => by
    cases h
    exact .nil
  | a :: acts, s, x, h => by
    obtain ⟨s', hs', h⟩ := Option.bind_eq_some_iff.1 h
    obtain ⟨y, hy, rfl⟩ := Option.map_eq_some_iff.1 h
    have hfirst : Run (fun a s s' => exec s a = some s') s [(s, a)] s' := .single hs'
    exact hfirst.trans (Run.of_trace hy)

end BeagleKernel
