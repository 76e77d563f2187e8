import BeagleKernel.Common.Index
import BeagleKernel.Lib.Ring

/-!
# The circular buffers

`generic_circular_buffer_t` and `circular_char_buffer_t`, whose `head` and `tail` stay below their
512 slots and whose 16-bit counts therefore do not wrap. `Queued` says what queue a buffer stands
for; push and pop are those of a queue of at most 512 elements. The buffer of characters counts
the newlines in its queue besides.
-/

namespace BeagleKernel

abbrev genericBufferSize : ℕ := 512

/-- `generic_circular_buffer_t`, over the type of what its pointers point to. -/
structure GenericCircularBuffer (α : Type) where
  buffer : ℕ → α
  head : ℕ
  tail : ℕ
  size : ℕ

namespace GenericCircularBuffer

variable {α : Type}

/-- `generic_circular_buffer_init`. -/
def init (b : GenericCircularBuffer α) : GenericCircularBuffer α :=
  { b with head := 0, tail := 0, size := 0 }

/-- `generic_circular_buffer_push`. -/
def push (b : GenericCircularBuffer α) (data : α) : Bool × GenericCircularBuffer α :=
  if b.size = genericBufferSize then (false, b)
  else
    (true,
      { b with
        buffer := Function.update b.buffer b.tail data
        tail := (b.tail + 1) % genericBufferSize
        size := b.size + 1 })

/-- `generic_circular_buffer_pop`: `*data`, or `none` where it returns false. -/
def pop (b : GenericCircularBuffer α) : Option α × GenericCircularBuffer α :=
  if b.size = 0 then (none, b)
  else
    (some (b.buffer b.head),
      { b with head := (b.head + 1) % genericBufferSize, size := b.size - 1 })

/-- What is in the buffer, first in first. -/
def contents (b : GenericCircularBuffer α) : List α :=
  (List.range b.size).map fun i => b.buffer ((b.head + i) % genericBufferSize)

/-- The buffer stands for the queue `q`. -/
structure Queued (b : GenericCircularBuffer α) (q : List α) : Prop where
  holds : RingHolds genericBufferSize b.buffer b.head q
  size : b.size = q.length
  tail : b.tail = (b.head + q.length) % genericBufferSize

theorem Queued.contents_eq {b : GenericCircularBuffer α} {q : List α} (h : b.Queued q) :
    b.contents = q := by
  rw [contents, h.size]
  exact h.holds.eq_map.symm

theorem init_queued (b : GenericCircularBuffer α) : b.init.Queued [] where
  holds := .nil (show 0 < genericBufferSize by decide)
  size := rfl
  tail := rfl

theorem Queued.push {b : GenericCircularBuffer α} {q : List α} (h : b.Queued q)
    (hlt : q.length < genericBufferSize) (a : α) :
    ∃ b', b.push a = (true, b') ∧ b'.Queued (q ++ [a]) := by
  refine ⟨_, if_neg (by rw [h.size]; omega), ?_, ?_, ?_⟩
  · simp only [h.tail]
    exact h.holds.push hlt a
  · rw [List.length_append, h.size]
    rfl
  · rw [h.tail, Nat.mod_add_mod, List.length_append, List.length_singleton, Nat.add_assoc]

theorem Queued.pop_nil {b : GenericCircularBuffer α} (h : b.Queued []) : b.pop = (none, b) :=
  if_pos h.size

theorem Queued.pop_cons {b : GenericCircularBuffer α} {a : α} {q : List α}
    (h : b.Queued (a :: q)) : ∃ b', b.pop = (some a, b') ∧ b'.Queued q := by
  have hsize := h.size
  rw [List.length_cons] at hsize
  refine ⟨{ b with head := (b.head + 1) % genericBufferSize, size := b.size - 1 }, ?_,
    h.holds.pop, ?_, ?_⟩
  · rw [GenericCircularBuffer.pop, if_neg (by omega), h.holds.front]
  · simp only [hsize]
    omega
  · rw [h.tail, Nat.mod_add_mod, List.length_cons, Nat.add_assoc, Nat.add_comm 1]

end GenericCircularBuffer

abbrev charBufferSize : ℕ := 512

/-- `'\n'`. -/
abbrev newline : UInt8 := 0x0A

/-- `circular_char_buffer_t`. -/
structure CircularCharBuffer where
  buffer : ℕ → UInt8
  head : ℕ
  tail : ℕ
  size : ℕ
  lines : ℕ

namespace CircularCharBuffer

/-- `circular_char_buffer_init`. -/
def init (b : CircularCharBuffer) : CircularCharBuffer :=
  { b with head := 0, tail := 0, size := 0, lines := 0 }

/-- `circular_char_buffer_push`. -/
def push (b : CircularCharBuffer) (c : UInt8) : Bool × CircularCharBuffer :=
  if b.size = charBufferSize then (false, b)
  else
    (true,
      { buffer := Function.update b.buffer b.tail c
        head := b.head
        tail := (b.tail + 1) % charBufferSize
        size := b.size + 1
        lines := if c = newline then b.lines + 1 else b.lines })

/-- `circular_char_buffer_pop`: `*c`, or `none` where it returns false. -/
def pop (b : CircularCharBuffer) : Option UInt8 × CircularCharBuffer :=
  if b.size = 0 then (none, b)
  else
    (some (b.buffer b.head),
      { buffer := b.buffer
        head := (b.head + 1) % charBufferSize
        tail := b.tail
        size := b.size - 1
        lines := if b.buffer b.head = newline then b.lines - 1 else b.lines })

/-- The buffer stands for the queue `q`. -/
structure Queued (b : CircularCharBuffer) (q : List UInt8) : Prop where
  holds : RingHolds charBufferSize b.buffer b.head q
  size : b.size = q.length
  tail : b.tail = (b.head + q.length) % charBufferSize
  lines : b.lines = q.count newline

variable {b : CircularCharBuffer} {q : List UInt8} {c : UInt8}

theorem init_queued (b : CircularCharBuffer) : b.init.Queued [] where
  holds := .nil (show 0 < charBufferSize by decide)
  size := rfl
  tail := rfl
  lines := rfl

theorem Queued.length_le (h : b.Queued q) : q.length ≤ charBufferSize := h.holds.length_le

/-- There is a line exactly if there is a newline. -/
theorem Queued.lines_eq_zero_iff (h : b.Queued q) : b.lines = 0 ↔ newline ∉ q := by
  rw [h.lines, List.count_eq_zero]

theorem Queued.push_full (h : b.Queued q) (hfull : q.length = charBufferSize) (c : UInt8) :
    b.push c = (false, b) :=
  if_pos (h.size.trans hfull)

theorem Queued.push (h : b.Queued q) (hlt : q.length < charBufferSize) (c : UInt8) :
    ∃ b', b.push c = (true, b') ∧ b'.Queued (q ++ [c]) := by
  refine ⟨_, if_neg (by rw [h.size]; omega), ?_, ?_, ?_, ?_⟩
  · simp only [h.tail]
    exact h.holds.push hlt c
  · rw [List.length_append, h.size]
    rfl
  · rw [h.tail, Nat.mod_add_mod, List.length_append, List.length_singleton, Nat.add_assoc]
  · rw [List.count_append, List.count_singleton, ← h.lines]
    by_cases hc : c = newline <;> simp [hc]

theorem Queued.pop_nil (h : b.Queued []) : b.pop = (none, b) := if_pos h.size

theorem Queued.pop_cons (h : b.Queued (c :: q)) :
    ∃ b', b.pop = (some c, b') ∧ b'.Queued q := by
  have hsize := h.size
  have hlines := h.lines
  rw [List.length_cons] at hsize
  rw [List.count_cons] at hlines
  refine ⟨{ b with
      head := (b.head + 1) % charBufferSize
      size := b.size - 1
      lines := if c = newline then b.lines - 1 else b.lines }, ?_, h.holds.pop, ?_, ?_, ?_⟩
  · rw [CircularCharBuffer.pop, if_neg (by omega), h.holds.front]
  · simp only [hsize]
    omega
  · rw [h.tail, Nat.mod_add_mod, List.length_cons, Nat.add_assoc, Nat.add_comm 1]
  · by_cases hc : c = newline
    · simp [hc] at hlines ⊢
      omega
    · simpa [hc] using hlines

end CircularCharBuffer

end BeagleKernel
