import Mathlib.Data.List.Basic

/-!
# Line ends

A line feed sent as a carriage return and a line feed. Reading a carriage return and a line feed as
a line feed undoes it, for every text (`undo_sent`).
-/

namespace BeagleKernel.LineEnds

variable {α : Type} [DecidableEq α] (cr lf : α)

/-- A text as it is sent. -/
def sent (text : List α) : List α := text.flatMap fun c => if c = lf then [cr, c] else [c]

/-- A text as it was before it was sent. -/
def undo : List α → List α
  | [] => []
  | [c] => [c]
  | c :: c' :: cs => if c = cr ∧ c' = lf then lf :: undo cs else c :: undo (c' :: cs)

variable {cr lf}

theorem sent_cons (c : α) (text : List α) :
    sent cr lf (c :: text) = (if c = lf then [cr, c] else [c]) ++ sent cr lf text := rfl

theorem sent_append (s t : List α) : sent cr lf (s ++ t) = sent cr lf s ++ sent cr lf t :=
  List.flatMap_append

theorem undo_cons {c : α} : ∀ {cs : List α}, (c = cr → cs.head? ≠ some lf) →
    undo cr lf (c :: cs) = c :: undo cr lf cs
  | [], _ => rfl
  | _ :: _, h => if_neg fun hc => h hc.1 (congrArg some hc.2)

/-- A text that is sent begins with no line feed. -/
theorem head_sent_ne (h : cr ≠ lf) : ∀ text : List α, (sent cr lf text).head? ≠ some lf
  | [] => nofun
  | c :: text => by
    rw [sent_cons]
    split_ifs with hc
    · exact fun heq => h (Option.some.inj heq)
    · exact fun heq => hc (Option.some.inj heq)

theorem undo_sent (h : cr ≠ lf) : ∀ text : List α, undo cr lf (sent cr lf text) = text
  | [] => rfl
  | c :: text => by
    rw [sent_cons]
    split_ifs with hc
    · show undo cr lf (cr :: c :: sent cr lf text) = c :: text
      rw [undo, if_pos ⟨rfl, hc⟩, undo_sent h, hc]
    · show undo cr lf (c :: sent cr lf text) = c :: text
      rw [undo_cons fun _ => head_sent_ne h text, undo_sent h]

end BeagleKernel.LineEnds
