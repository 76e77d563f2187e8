import Mathlib.Data.List.Induction
import Mathlib.Logic.Nontrivial.Defs
import Mathlib.Logic.Function.Basic

/-!
# Memory with faults

Addresses select cells, perhaps two the same, and a read may see something else than the cell was
given. The memory is usable at some addresses when values written to all of them can all be read
back: when no cell of theirs is seen wrongly and no two of them select one (`usable_iff`).
-/

namespace BeagleKernel

/-- What each address selects, and what a read of a cell makes of its value. -/
structure FaultyMemory (ι κ ν : Type) where
  cell : ι → κ
  observe : κ → ν → ν

namespace FaultyMemory

variable {ι κ ν : Type} [DecidableEq κ] (d : FaultyMemory ι κ ν) {content : κ → ν} {f : ι → ν}
  {addrs : List ι} {a : ι}

def write (content : κ → ν) (a : ι) (v : ν) : κ → ν := Function.update content (d.cell a) v

def read (content : κ → ν) (a : ι) : ν := d.observe (d.cell a) (content (d.cell a))

/-- The value of `f` written at each address in turn. -/
def writeAll (content : κ → ν) (f : ι → ν) (addrs : List ι) : κ → ν :=
  addrs.foldl (fun content a => d.write content a (f a)) content

/-- Any values written to all the addresses are read back. -/
def Usable (addrs : List ι) : Prop :=
  ∀ (content : κ → ν) (f : ι → ν), ∀ a ∈ addrs, d.read (d.writeAll content f addrs) a = f a

/-- What a read directly after a write sees, no other address has a part in. -/
@[simp] theorem read_write (content : κ → ν) (a : ι) (v : ν) :
    d.read (d.write content a v) a = d.observe (d.cell a) v := by
  rw [read, write, Function.update_self]

theorem writeAll_append_singleton : d.writeAll content f (addrs ++ [a]) =
    d.write (d.writeAll content f addrs) a (f a) := by
  rw [writeAll, List.foldl_append]
  rfl

/-- A cell ends with the value of one of the addresses that select it. -/
theorem exists_writeAll (ha : a ∈ addrs) : ∃ b ∈ addrs, d.cell b = d.cell a ∧
    d.writeAll content f addrs (d.cell a) = f b := by
  induction addrs using List.reverseRecOn with
  | nil => nomatch ha
  | append_singleton addrs c ih =>
    rw [writeAll_append_singleton, write]
    by_cases hc : d.cell c = d.cell a
    · exact ⟨c, by simp, hc, by rw [hc, Function.update_self]⟩
    · have hac : a ≠ c := fun h => hc (h ▸ rfl)
      obtain ⟨b, hb, hcell, hv⟩ := ih (by simpa [hac] using ha)
      exact ⟨b, List.mem_append_left _ hb, hcell, by rw [Function.update_of_ne (Ne.symm hc), hv]⟩

theorem usable_iff [Nontrivial ν] : d.Usable addrs ↔
    (∀ a ∈ addrs, ∀ v, d.observe (d.cell a) v = v) ∧
      ∀ a ∈ addrs, ∀ b ∈ addrs, d.cell a = d.cell b → a = b := by
  constructor
  · intro h
    refine ⟨fun a ha v => ?_, fun a ha b hb hab => ?_⟩
    · obtain ⟨b, -, -, hv⟩ := @exists_writeAll _ _ _ _ d (fun _ => v) (fun _ => v) _ _ ha
      have := h (fun _ => v) (fun _ => v) a ha
      rwa [read, hv] at this
    · -- Two addresses of one cell read alike, whatever was written to them.
      by_contra hne
      classical
      obtain ⟨x, y, hxy⟩ := exists_pair_ne ν
      have hread := h (fun _ => x) (fun i => if i = a then x else y)
      have hx := hread a ha
      have hy := hread b hb
      rw [if_pos rfl] at hx
      rw [if_neg (Ne.symm hne), read, ← hab] at hy
      exact hxy (hx.symm.trans hy)
  · rintro ⟨hobs, hinj⟩ content f a ha
    obtain ⟨b, hb, hcell, hv⟩ := @exists_writeAll _ _ _ _ d content f _ _ ha
    rw [read, hv, hobs a ha, hinj b hb a ha hcell]

end FaultyMemory

end BeagleKernel
