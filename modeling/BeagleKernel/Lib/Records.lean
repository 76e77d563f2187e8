import Mathlib.Data.List.Induction

/-!
# The records of a stream

A stream whose records end in a separator: those it holds whole, and the start of the next one.
-/

namespace BeagleKernel

variable {α : Type} [DecidableEq α] {sep a : α} {s t : List α}

/-- The records of a stream, and what comes after the last separator. -/
def records (sep : α) (s : List α) : List (List α) × List α :=
  s.foldl (fun x a => if a = sep then (x.1 ++ [x.2 ++ [a]], []) else (x.1, x.2 ++ [a])) ([], [])

@[simp] theorem records_nil : records sep ([] : List α) = ([], []) := rfl

@[simp] theorem records_snoc_sep :
    records sep (s ++ [sep]) = ((records sep s).1 ++ [(records sep s).2 ++ [sep]], []) := by
  simp [records]

theorem records_snoc (ha : a ≠ sep) :
    records sep (s ++ [a]) = ((records sep s).1, (records sep s).2 ++ [a]) := by
  simp [records, ha]

theorem sep_not_mem_rest : sep ∉ (records sep s).2 := by
  induction s using List.reverseRecOn with
  | nil => simp
  | append_singleton s a ih =>
    by_cases ha : a = sep
    · simp [ha]
    · simp [records_snoc ha, ih, Ne.symm ha]

theorem mem_records {l : List α} (hl : l ∈ (records sep s).1) :
    ∃ body, sep ∉ body ∧ l = body ++ [sep] := by
  induction s using List.reverseRecOn with
  | nil => simp at hl
  | append_singleton s a ih =>
    by_cases ha : a = sep
    · rw [ha, records_snoc_sep] at hl
      rcases List.mem_append.1 hl with hl | hl
      · exact ih hl
      · exact ⟨_, sep_not_mem_rest, List.mem_singleton.1 hl⟩
    · rw [records_snoc ha] at hl
      exact ih hl

theorem records_append_body : ∀ {t : List α}, sep ∉ t →
    records sep (s ++ t) = ((records sep s).1, (records sep s).2 ++ t) := by
  intro t ht
  induction t using List.reverseRecOn with
  | nil => simp
  | append_singleton t a ih =>
    simp only [List.mem_append, List.mem_singleton, not_or] at ht
    rw [← List.append_assoc, records_snoc (Ne.symm ht.2), ih ht.1, List.append_assoc]

theorem records_isPrefix : (records sep s).1 <+: (records sep (s ++ t)).1 := by
  induction t using List.reverseRecOn with
  | nil => simp
  | append_singleton t a ih =>
    rw [← List.append_assoc]
    by_cases ha : a = sep
    · rw [ha, records_snoc_sep]
      exact ih.trans (List.prefix_append _ _)
    · rwa [records_snoc ha]

omit [DecidableEq α] in
/-- The next character of a record that is cut short: it is the separator exactly if it is the
last one. -/
theorem next_of_record {l u v : List α} (hl : ∃ body, sep ∉ body ∧ l = body ++ [sep])
    (hu : u <+: l) (hne : u ≠ l) (h : u ++ a :: v = l ++ t) :
    u ++ [a] <+: l ∧ (a = sep ↔ u ++ [a] = l) := by
  obtain ⟨body, hb, rfl⟩ := hl
  obtain ⟨w, hw⟩ := hu
  rcases w with _ | ⟨c, w⟩
  · simp [hne] at hw
  have hac : a = c := by
    rw [← hw, List.append_assoc, List.append_cancel_left_eq] at h
    exact (List.cons.inj h).1
  subst hac
  rw [← hw]
  refine ⟨⟨w, by simp⟩, ?_⟩
  rcases List.eq_nil_or_concat w with rfl | ⟨w, b, rfl⟩
  · have hlast := congrArg List.getLast? hw
    simpa using hlast
  · have hmem : a ∈ body := by
      have hw : (u ++ a :: w) ++ [b] = body ++ [sep] := by simpa using hw
      rw [← (List.append_inj' hw rfl).1]
      simp
    refine iff_of_false (fun ha => hb (ha ▸ hmem)) (by simp)

end BeagleKernel
