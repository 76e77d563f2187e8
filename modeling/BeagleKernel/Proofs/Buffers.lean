import BeagleKernel.Common.BufferWords

/-!
# The circular buffers are queues

Both buffers simulate a queue of at most 512 elements, the one they stand for. So from an
initialised buffer on any sequence of calls returns what the queue does, and leaves it in the slots
from `head` on (`buffers_fifo`).
-/

namespace BeagleKernel

/-- The 512 slots of a ring hold a queue, and its indices say where. -/
structure Stored {α : Type} (buffer : ℕ → α) (head tail size : UInt16) (q : List α) : Prop where
  head_lt : head.toNat < 512
  tail_lt : tail.toNat < 512
  tail : tail.toNat = (head.toNat + size.toNat) % 512
  size : size.toNat = q.length
  slots : ∀ i (h : i < q.length), buffer ((head.toNat + i) % 512) = q[i]

theorem stored_of_ring {α : Type} {buffer : ℕ → α} {head tail size : UInt16} {q : List α}
    (h : RingHolds 512 buffer head.toNat q) (hsize : size.toNat = q.length)
    (htail : tail.toNat = (head.toNat + q.length) % 512) : Stored buffer head tail size q where
  head_lt := h.head_lt
  tail_lt := by
    rw [htail]
    exact Nat.mod_lt _ (by decide)
  tail := by rw [htail, hsize]
  size := hsize
  slots := h.slots_eq

theorem GenericBufferWords.queueMachine (α : Type) :
    QueueMachine 512 (GenericBufferWords.step (α := α)) fun b q => b.toNat.Queued q where
  length_le h := h.holds.length_le
  push_full {b q} h hfull a := by
    have hb : b.size = 512 := UInt16.toNat_inj.1 (h.size.trans hfull)
    have hpush : b.push a = (false, b) := if_pos hb
    simp only [step, hpush]
  push_room {b q} h hlt a := by
    obtain ⟨h1, h2⟩ := push_toNat h a
    obtain ⟨b', hpush, hb'⟩ := h.push hlt a
    rw [hpush] at h1 h2
    refine ⟨(b.push a).2, ?_, h2 ▸ hb'⟩
    simp only [step, h1]
  pop_nil {b} h := by
    have hb : b.size = 0 := UInt16.toNat_inj.1 h.size
    have hpop : b.pop = (none, b) := if_pos hb
    simp only [step, hpop]
  pop_cons {b a as} h := by
    obtain ⟨h1, h2⟩ := pop_toNat h
    obtain ⟨b', hpop, hb'⟩ := h.pop_cons
    rw [hpop] at h1 h2
    refine ⟨b.pop.2, ?_, h2 ▸ hb'⟩
    simp only [step, h1]

theorem CharBufferWords.queueMachine :
    QueueMachine 512 CharBufferWords.step fun b q => b.toNat.Queued q where
  length_le h := h.length_le
  push_full {b q} h hfull c := by
    have hb : b.size = 512 := UInt16.toNat_inj.1 (h.size.trans hfull)
    have hpush : b.push c = (false, b) := if_pos hb
    simp only [step, hpush]
  push_room {b q} h hlt c := by
    obtain ⟨h1, h2⟩ := push_toNat h c
    obtain ⟨b', hpush, hb'⟩ := h.push hlt c
    rw [hpush] at h1 h2
    refine ⟨(b.push c).2, ?_, h2 ▸ hb'⟩
    simp only [step, h1]
  pop_nil {b} h := by
    have hb : b.size = 0 := UInt16.toNat_inj.1 h.size
    have hpop : b.pop = (none, b) := if_pos hb
    simp only [step, hpop]
  pop_cons {b c cs} h := by
    obtain ⟨h1, h2⟩ := pop_toNat h
    obtain ⟨b', hpop, hb'⟩ := h.pop_cons
    rw [hpop] at h1 h2
    refine ⟨b.pop.2, ?_, h2 ▸ hb'⟩
    simp only [step, h1]

/-- Both buffers return to any sequence of calls what a queue of 512 elements does, and hold that
queue in their slots after it; a push or a pop that returns false changes nothing. -/
theorem buffers_fifo :
    (∀ (b : CharBufferWords) (ops : List (QueueOp UInt8)),
      let r := responses CharBufferWords.step b.init ops
      let s := responses Fifo.step (Fifo.empty : Fifo UInt8 512) ops
      r.1 = s.1 ∧ Stored r.2.buffer r.2.head r.2.tail r.2.size s.2.items ∧
      r.2.lines.toNat = s.2.items.count newline ∧
      (∀ c, r.2.step (.push c) = (.pushed false, r.2) ↔ s.2.items.length = 512) ∧
      (r.2.step .pop = (.popped none, r.2) ↔ s.2.items = [])) ∧
    ∀ (α : Type) (b : GenericBufferWords α) (ops : List (QueueOp α)),
      let r := responses GenericBufferWords.step b.init ops
      let s := responses Fifo.step (Fifo.empty : Fifo α 512) ops
      r.1 = s.1 ∧ Stored r.2.buffer r.2.head r.2.tail r.2.size s.2.items ∧
      (∀ a, r.2.step (.push a) = (.pushed false, r.2) ↔ s.2.items.length = 512) ∧
      (r.2.step .pop = (.popped none, r.2) ↔ s.2.items = []) := by
  constructor
  · intro b ops r s
    have hm := CharBufferWords.queueMachine
    have h0 : b.init.toNat.Queued (Fifo.empty : Fifo UInt8 512).items := b.toNat.init_queued
    obtain ⟨hrs, hq⟩ := hm.simulates.responses ops h0
    exact ⟨hrs, stored_of_ring hq.holds hq.size hq.tail, hq.lines, hm.push_false_iff hq,
      hm.pop_none_iff hq⟩
  · intro α b ops r s
    have hm := GenericBufferWords.queueMachine α
    have h0 : b.init.toNat.Queued (Fifo.empty : Fifo α 512).items := b.toNat.init_queued
    obtain ⟨hrs, hq⟩ := hm.simulates.responses ops h0
    exact ⟨hrs, stored_of_ring hq.holds hq.size hq.tail, hm.push_false_iff hq, hm.pop_none_iff hq⟩

end BeagleKernel
