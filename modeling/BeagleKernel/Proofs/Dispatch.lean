import BeagleKernel.Qemu.Interrupt
import Mathlib.Data.List.Basic

/-!
# Each pending interrupt is served once

The loop over one word serves its set bits in increasing order (`servePending_eq`); over the three
words these are the pending interrupts in increasing order.
-/

namespace BeagleKernel.Qemu

variable {η : Type} (intcVectorTable : ℕ → Option η)

/-- Whether the bit of an interrupt is set in the word it belongs to. -/
def pendingBit (irqPend : ℕ → UInt32) (irq : ℕ) : Bool :=
  (irqPend (irq / 32)).toBitVec.getLsbD (irq % 32)

theorem servePending_eq (reg : ℕ) (pending : UInt32) :
    servePending intcVectorTable reg pending =
      ((setBits pending.toBitVec).map (32 * reg + ·)).flatMap (serveIrq intcVectorTable) := by
  fun_induction servePending intcVectorTable reg pending with
  | case1 =>
    rw [show (0 : UInt32).toBitVec = 0 from rfl, setBits_zero]
    rfl
  | case2 pending h irq ih =>
    have hne : pending.toBitVec ≠ 0 := fun hz => h (UInt32.toBitVec_inj.1 hz)
    rw [setBits_eq_cons hne, List.map_cons, List.flatMap_cons, ih]
    rfl

/-- The bits of one word after the other are the bits of them all. -/
theorem flatMap_setBits (irqPend : ℕ → UInt32) (n : ℕ) :
    ((List.range n).flatMap fun reg => (setBits (irqPend reg).toBitVec).map (32 * reg + ·)) =
      (List.range (32 * n)).filter (pendingBit irqPend) := by
  induction n with
  | zero => rfl
  | succ n ih =>
    rw [List.range_succ, List.flatMap_append, ih, Nat.mul_succ, List.range_add, List.filter_append,
      List.filter_map, List.flatMap_singleton, setBits]
    congr 2
    refine List.filter_congr fun i hi => ?_
    have hi : i < 32 := List.mem_range.1 hi
    show _ = (irqPend ((32 * n + i) / 32)).toBitVec.getLsbD ((32 * n + i) % 32)
    rw [show (32 * n + i) / 32 = n by omega, show (32 * n + i) % 32 = i by omega]

theorem handleIrqC_eq (irqPend : ℕ → UInt32) : handleIrqC intcVectorTable irqPend =
    ((List.range 96).filter (pendingBit irqPend)).flatMap (serveIrq intcVectorTable) := by
  simp only [handleIrqC, servePending_eq]
  rw [← List.flatMap_assoc, flatMap_setBits]

theorem called_serveIrq (irq : ℕ) : (serveIrq intcVectorTable irq).filterMap TableUse.called =
    ((intcVectorTable irq).map (irq, ·)).toList := by
  unfold serveIrq
  rcases intcVectorTable irq with _ | handler <;> rfl

theorem irq_of_mem_serveIrq {irq : ℕ} {u : TableUse η} (h : u ∈ serveIrq intcVectorTable irq) :
    u.irq = irq := by
  unfold serveIrq at h
  rcases List.mem_cons.1 h with rfl | h
  · rfl
  · split at h
    · rw [List.mem_singleton.1 h]
      rfl
    · nomatch h

/-- The handlers of the pending interrupts are called, in increasing order of these, and no use of
the table is past its end. -/
theorem handleIrqC_serves (irqPend : ℕ → UInt32) :
    (handleIrqC intcVectorTable irqPend).filterMap TableUse.called =
      ((List.range 96).filter (pendingBit irqPend)).filterMap
        (fun irq => (intcVectorTable irq).map (irq, ·)) ∧
      ∀ u ∈ handleIrqC intcVectorTable irqPend, u.irq < numInterrupts := by
  rw [handleIrqC_eq]
  constructor
  · rw [List.filterMap_flatMap]
    simp only [called_serveIrq]
    rw [List.filterMap_eq_flatMap_toList]
  · intro u hu
    obtain ⟨irq, hirq, hmem⟩ := List.mem_flatMap.1 hu
    have hlt := List.mem_range.1 (List.mem_filter.1 hirq).1
    rw [irq_of_mem_serveIrq intcVectorTable hmem]
    show irq < 128
    omega

end BeagleKernel.Qemu
