import BeagleKernel.Common.CircularBuffer
import BeagleKernel.Lib.Fifo
import BeagleKernel.Lib.Words

/-!
# The circular buffers in 16-bit fields

Both buffers as they are in memory: `head`, `tail`, `size` and `lines` are `uint16_t` and wrap.
`toNat` forgets the width. While a buffer stands for a queue nothing wraps, so push and pop are
those of `GenericCircularBuffer` and `CircularCharBuffer`, and with them those of a queue of at
most 512 elements.
-/

namespace BeagleKernel

/-- `generic_circular_buffer_t`. -/
structure GenericBufferWords (α : Type) where
  buffer : ℕ → α
  head : UInt16
  tail : UInt16
  size : UInt16

/-- `circular_char_buffer_t`. -/
structure CharBufferWords where
  buffer : ℕ → UInt8
  head : UInt16
  tail : UInt16
  size : UInt16
  lines : UInt16

namespace GenericBufferWords

variable {α : Type}

/-- `generic_circular_buffer_init`. -/
def init (b : GenericBufferWords α) : GenericBufferWords α :=
  { b with head := 0, tail := 0, size := 0 }

/-- `generic_circular_buffer_push`. -/
def push (b : GenericBufferWords α) (data : α) : Bool × GenericBufferWords α :=
  if b.size = 512 then (false, b)
  else
    (true,
      { b with
        buffer := Function.update b.buffer b.tail.toNat data
        tail := (b.tail + 1) % 512
        size := b.size + 1 })

/-- `generic_circular_buffer_pop`. -/
def pop (b : GenericBufferWords α) : Option α × GenericBufferWords α :=
  if b.size = 0 then (none, b)
  else
    (some (b.buffer b.head.toNat),
      { b with head := (b.head + 1) % 512, size := b.size - 1 })

def step (b : GenericBufferWords α) : QueueOp α → QueueReply α × GenericBufferWords α
  | .push a => (.pushed (b.push a).1, (b.push a).2)
  | .pop => (.popped b.pop.1, b.pop.2)

def toNat (b : GenericBufferWords α) : GenericCircularBuffer α :=
  ⟨b.buffer, b.head.toNat, b.tail.toNat, b.size.toNat⟩

end GenericBufferWords

namespace CharBufferWords

/-- `circular_char_buffer_init`. -/
def init (b : CharBufferWords) : CharBufferWords :=
  { b with head := 0, tail := 0, size := 0, lines := 0 }

/-- `circular_char_buffer_push`. -/
def push (b : CharBufferWords) (c : UInt8) : Bool × CharBufferWords :=
  if b.size = 512 then (false, b)
  else
    (true,
      { buffer := Function.update b.buffer b.tail.toNat c
        head := b.head
        tail := (b.tail + 1) % 512
        size := b.size + 1
        lines := if c = newline then b.lines + 1 else b.lines })

/-- `circular_char_buffer_pop`. -/
def pop (b : CharBufferWords) : Option UInt8 × CharBufferWords :=
  if b.size = 0 then (none, b)
  else
    (some (b.buffer b.head.toNat),
      { buffer := b.buffer
        head := (b.head + 1) % 512
        tail := b.tail
        size := b.size - 1
        lines := if b.buffer b.head.toNat = newline then b.lines - 1 else b.lines })

def step (b : CharBufferWords) : QueueOp UInt8 → QueueReply UInt8 × CharBufferWords
  | .push c => (.pushed (b.push c).1, (b.push c).2)
  | .pop => (.popped b.pop.1, b.pop.2)

def toNat (b : CharBufferWords) : CircularCharBuffer :=
  ⟨b.buffer, b.head.toNat, b.tail.toNat, b.size.toNat, b.lines.toNat⟩

end CharBufferWords

/-! ## Nothing wraps -/

namespace GenericBufferWords

variable {α : Type} {b : GenericBufferWords α} {q : List α}

theorem push_toNat (h : b.toNat.Queued q) (a : α) :
    (b.push a).1 = (b.toNat.push a).1 ∧ (b.push a).2.toNat = (b.toNat.push a).2 := by
  have hle : q.length ≤ 512 := h.holds.length_le
  have hsize : b.size.toNat = q.length := h.size
  have htail : b.tail.toNat < 512 := by
    rw [show b.tail.toNat = b.toNat.tail from rfl, h.tail]
    exact Nat.mod_lt _ (by decide)
  have hfull : b.size = 512 ↔ b.toNat.size = genericBufferSize :=
    UInt16.toNat_inj.symm
  unfold push GenericCircularBuffer.push
  by_cases hf : b.size = 512
  · rw [if_pos hf, if_pos (hfull.1 hf)]
    exact ⟨rfl, rfl⟩
  · rw [if_neg hf, if_neg (fun h => hf (hfull.2 h))]
    have hlt : b.size.toNat < 512 := by
      have : b.size.toNat ≠ 512 := fun h => hf (hfull.2 h)
      omega
    refine ⟨rfl, ?_⟩
    simp only [toNat, UInt16.toNat_next htail, UInt16.toNat_succ hlt, genericBufferSize]

theorem pop_toNat (h : b.toNat.Queued q) :
    b.pop.1 = b.toNat.pop.1 ∧ b.pop.2.toNat = b.toNat.pop.2 := by
  have hhead : b.head.toNat < 512 := h.holds.head_lt
  have hempty : b.size = 0 ↔ b.toNat.size = 0 :=
    UInt16.toNat_inj.symm
  unfold pop GenericCircularBuffer.pop
  by_cases he : b.size = 0
  · rw [if_pos he, if_pos (hempty.1 he)]
    exact ⟨rfl, rfl⟩
  · rw [if_neg he, if_neg (fun h => he (hempty.2 h))]
    have hpos : 0 < b.size.toNat := Nat.pos_of_ne_zero fun h => he (hempty.2 h)
    refine ⟨rfl, ?_⟩
    simp only [toNat, UInt16.toNat_next hhead, UInt16.toNat_pred hpos, genericBufferSize]

end GenericBufferWords

namespace CharBufferWords

variable {b : CharBufferWords} {q : List UInt8}

theorem push_toNat (h : b.toNat.Queued q) (c : UInt8) :
    (b.push c).1 = (b.toNat.push c).1 ∧ (b.push c).2.toNat = (b.toNat.push c).2 := by
  have hle : q.length ≤ 512 := h.length_le
  have hsize : b.size.toNat = q.length := h.size
  have hlines : b.lines.toNat ≤ q.length := by
    rw [show b.lines.toNat = b.toNat.lines from rfl, h.lines]
    exact List.count_le_length
  have htail : b.tail.toNat < 512 := by
    rw [show b.tail.toNat = b.toNat.tail from rfl, h.tail]
    exact Nat.mod_lt _ (by decide)
  have hfull : b.size = 512 ↔ b.toNat.size = charBufferSize :=
    UInt16.toNat_inj.symm
  unfold push CircularCharBuffer.push
  by_cases hf : b.size = 512
  · rw [if_pos hf, if_pos (hfull.1 hf)]
    exact ⟨rfl, rfl⟩
  · rw [if_neg hf, if_neg (fun h => hf (hfull.2 h))]
    have hlt : b.size.toNat < 512 := by
      have : b.size.toNat ≠ 512 := fun h => hf (hfull.2 h)
      omega
    refine ⟨rfl, ?_⟩
    simp only [toNat, UInt16.toNat_next htail, UInt16.toNat_succ hlt, charBufferSize]
    split_ifs
    · rw [UInt16.toNat_succ (by omega)]
    · rfl

theorem pop_toNat (h : b.toNat.Queued q) :
    b.pop.1 = b.toNat.pop.1 ∧ b.pop.2.toNat = b.toNat.pop.2 := by
  have hhead : b.head.toNat < 512 := h.holds.head_lt
  have hempty : b.size = 0 ↔ b.toNat.size = 0 :=
    UInt16.toNat_inj.symm
  unfold pop CircularCharBuffer.pop
  by_cases he : b.size = 0
  · rw [if_pos he, if_pos (hempty.1 he)]
    exact ⟨rfl, rfl⟩
  · rw [if_neg he, if_neg (fun h => he (hempty.2 h))]
    have hpos : 0 < b.size.toNat := Nat.pos_of_ne_zero fun h => he (hempty.2 h)
    refine ⟨rfl, ?_⟩
    -- a newline in front is one that is counted
    have hfront : b.buffer b.head.toNat = newline → 0 < b.lines.toNat := by
      intro hc
      have hsize : b.size.toNat = q.length := h.size
      obtain ⟨a, as, rfl⟩ := List.exists_cons_of_ne_nil
        (List.ne_nil_of_length_pos (hsize ▸ hpos))
      have : b.lines.toNat = (a :: as).count newline := h.lines
      rw [this, List.count_pos_iff, ← hc, show b.buffer b.head.toNat = a from h.holds.front]
      exact List.mem_cons_self
    by_cases hc : b.buffer b.head.toNat = newline
    · simp [toNat, hc, UInt16.toNat_next hhead, UInt16.toNat_pred hpos,
        UInt16.toNat_pred (hfront hc)]
    · simp [toNat, hc, UInt16.toNat_next hhead, UInt16.toNat_pred hpos]

end CharBufferWords

end BeagleKernel
