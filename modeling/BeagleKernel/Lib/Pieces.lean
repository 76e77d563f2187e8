import BeagleKernel.Lib.Records
import Mathlib.Data.List.Basic

/-!
# A stream read in pieces

A reader that waits for a separator, and then takes what comes up to it, or as many characters as
it has room for. What it takes of a stream is settled by the stream (`pieces`); what comes later
does not change what it has taken (`pieces_append`), and a stream whose records all fit is taken
record by record (`pieces_eq_records`).
-/

namespace BeagleKernel

variable {α : Type} [DecidableEq α] {sep : α} {room : ℕ} {s t : List α}

/-- What comes up to the first separator, `room` characters at most. -/
def firstPiece (sep : α) (room : ℕ) (s : List α) : List α :=
  s.take (min (s.idxOf sep + 1) room)

theorem firstPiece_append (h : sep ∈ s) : firstPiece sep room (s ++ t) = firstPiece sep room s := by
  have hlt := List.idxOf_lt_length_of_mem h
  rw [firstPiece, List.idxOf_append_of_mem h, List.take_append_of_le_length (by omega), firstPiece]

theorem length_firstPiece (h : sep ∈ s) :
    (firstPiece sep room s).length = min (s.idxOf sep + 1) room := by
  have hlt := List.idxOf_lt_length_of_mem h
  rw [firstPiece, List.length_take]
  omega

/-- A part of a record with its separator, if that fits. -/
theorem firstPiece_record {body : List α} (hb : sep ∉ body) (hlen : body.length < room) :
    firstPiece sep room (body ++ sep :: t) = body ++ [sep] := by
  have hidx : (body ++ sep :: t).idxOf sep = body.length := by
    rw [List.idxOf_append_of_notMem hb, List.idxOf_cons_self, Nat.add_zero]
  rw [firstPiece, hidx, Nat.min_eq_left hlen, ← List.singleton_append, ← List.append_assoc]
  exact List.take_left' (by rw [List.length_append, List.length_singleton])

/-- The pieces there are while a separator is left. -/
def pieces (sep : α) (room : ℕ) (s : List α) : List (List α) :=
  if sep ∈ s ∧ 0 < room then
    firstPiece sep room s :: pieces sep room (s.drop (firstPiece sep room s).length)
  else []
termination_by s.length
decreasing_by
  rename_i h
  have hlt := List.idxOf_lt_length_of_mem h.1
  rw [List.length_drop, length_firstPiece h.1]
  omega

theorem pieces_of_notMem (h : sep ∉ s) : pieces sep room s = [] := by
  rw [pieces, if_neg fun hs => h hs.1]

theorem pieces_cons (h : sep ∈ s) (hroom : 0 < room) : pieces sep room s =
    firstPiece sep room s :: pieces sep room (s.drop (firstPiece sep room s).length) := by
  rw [pieces, if_pos ⟨h, hroom⟩]

/-- The first piece, and what is left. -/
theorem pieces_append (h : sep ∈ s) (hroom : 0 < room) (t : List α) : pieces sep room (s ++ t) =
    firstPiece sep room s :: pieces sep room (s.drop (firstPiece sep room s).length ++ t) := by
  have hlt := List.idxOf_lt_length_of_mem h
  rw [pieces_cons (List.mem_append_left t h) hroom, firstPiece_append h,
    List.drop_append_of_le_length (by rw [length_firstPiece h]; omega)]

theorem pieces_record {body : List α} (hb : sep ∉ body) (hlen : body.length < room) :
    pieces sep room (body ++ sep :: t) = (body ++ [sep]) :: pieces sep room t := by
  rw [pieces_cons (by simp) (by omega), firstPiece_record hb hlen]
  simp

/-- Records that fit are taken one by one. -/
theorem pieces_records : ∀ {rs : List (List α)}, (∀ r ∈ rs, ∃ body, sep ∉ body ∧
    r = body ++ [sep] ∧ r.length ≤ room) → sep ∉ t → pieces sep room (rs.flatten ++ t) = rs
  | [], _, ht => pieces_of_notMem ht
  | r :: rs, h, ht => by
    obtain ⟨body, hb, rfl, hlen⟩ := h r (.head _)
    rw [List.length_append, List.length_singleton] at hlen
    rw [List.flatten_cons, List.append_assoc, List.append_assoc, List.singleton_append,
      pieces_record hb (by omega), pieces_records (fun r hr => h r (.tail _ hr)) ht]

theorem records_flatten {rs : List (List α)} (h : ∀ r ∈ rs, ∃ body, sep ∉ body ∧ r = body ++ [sep])
    (ht : sep ∉ t) : records sep (rs.flatten ++ t) = (rs, t) := by
  induction rs using List.reverseRecOn generalizing t with
  | nil =>
    rw [List.flatten_nil, records_append_body ht]
    rfl
  | append_singleton rs r ih =>
    obtain ⟨body, hb, rfl⟩ := h r (by simp)
    have ih := ih (fun r hr => h r (List.mem_append_left _ hr)) hb
    rw [List.flatten_append, List.flatten_singleton, ← List.append_assoc, records_append_body ht,
      records_snoc_sep, ih, List.nil_append]

theorem flatten_records : (records sep s).1.flatten ++ (records sep s).2 = s := by
  induction s using List.reverseRecOn with
  | nil => rfl
  | append_singleton s a ih =>
    by_cases ha : a = sep
    · rw [ha, records_snoc_sep, List.flatten_append, List.flatten_singleton, List.append_nil,
        ← List.append_assoc, ih]
    · rw [records_snoc ha, ← List.append_assoc, ih]

theorem pieces_eq_records (h : ∀ r ∈ (records sep s).1, r.length ≤ room) :
    pieces sep room s = (records sep s).1 := by
  have hrecords : ∀ r ∈ (records sep s).1, ∃ body, sep ∉ body ∧ r = body ++ [sep] ∧
      r.length ≤ room := fun r hr => by
    obtain ⟨body, hb, rfl⟩ := mem_records hr
    exact ⟨body, hb, rfl, h _ hr⟩
  have hrest : sep ∉ (records sep s).2 := sep_not_mem_rest
  have hpieces := pieces_records hrecords hrest
  rwa [flatten_records] at hpieces

end BeagleKernel
