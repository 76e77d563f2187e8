import Mathlib.Data.List.Nodup
import Mathlib.Logic.Function.Basic
import Mathlib.Tactic.Common

/-!
# Lists threaded through links

A list of nodes linked from a head: the head is its first node, the link of each node the next one,
and the link of the last is none. Links lead from a head through one list at most (`unique`), so
a list they lead through meets no node twice (`nodup`).
-/

namespace BeagleKernel

variable {ι : Type} {next next' : ι → Option ι} {head : Option ι} {l l' : List ι} {a : ι}

/-- The links lead from `head` through the list and end there. -/
def Linked (next : ι → Option ι) : Option ι → List ι → Prop
  | head, [] => head = none
  | head, a :: l => head = some a ∧ Linked next (next a) l

namespace Linked

@[simp] theorem nil_iff : Linked next head [] ↔ head = none := Iff.rfl

@[simp] theorem cons_iff :
    Linked next head (a :: l) ↔ head = some a ∧ Linked next (next a) l := Iff.rfl

theorem unique :
    ∀ {l l' : List ι} {head : Option ι}, Linked next head l → Linked next head l' → l = l'
  | [], [], _, _, _ => rfl
  | [], a :: _, head, h, h' => by simp_all
  | a :: _, [], head, h, h' => by simp_all
  | a :: l, b :: l', head, h, h' => by
    simp only [cons_iff] at h h'
    rcases h with ⟨rfl, h⟩
    rcases h' with ⟨hb, h'⟩
    cases hb
    rw [unique h h']

/-- What comes after a node is what its link leads through. -/
theorem after : ∀ {s : List ι} {head : Option ι}, Linked next head (s ++ a :: l) →
    Linked next (next a) l
  | [], _, h => h.2
  | _ :: _, _, h => after h.2

theorem nodup : ∀ {l : List ι} {head : Option ι}, Linked next head l → l.Nodup
  | [], _, _ => List.nodup_nil
  | a :: l, head, h => by
    refine List.nodup_cons.2 ⟨fun ha => ?_, nodup h.2⟩
    obtain ⟨s, t, rfl⟩ := List.append_of_mem ha
    have ht : Linked next (next a) t := after h.2
    have hlen := congrArg List.length (unique ht h.2)
    simp at hlen
    omega

theorem congr : ∀ {l : List ι} {head : Option ι}, Linked next head l →
    (∀ b ∈ l, next' b = next b) → Linked next' head l
  | [], _, h, _ => h
  | a :: l, _, h, hag => by
    refine ⟨h.1, ?_⟩
    rw [hag a (by simp)]
    exact congr h.2 fun b hb => hag b (by simp [hb])

/-- A node that is not on the list becomes its first. -/
theorem push [DecidableEq ι] (h : Linked next head l) (ha : a ∉ l) :
    Linked (Function.update next a head) (some a) (a :: l) := by
  refine ⟨rfl, ?_⟩
  rw [Function.update_self]
  refine h.congr fun b hb => Function.update_of_ne ?_ _ _
  rintro rfl
  exact ha hb

end Linked

end BeagleKernel
