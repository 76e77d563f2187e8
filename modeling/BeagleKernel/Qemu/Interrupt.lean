import BeagleKernel.Lib.LowestBit

/-!
# The dispatcher under QEMU

`handle_irq_c` reads each of the controller's three pending words once and calls the handlers of
the bits that are set. It is given what these reads return; the handlers leave the table alone.
-/

namespace BeagleKernel.Qemu

abbrev numInterrupts : ℕ := 128

/-- A use of an entry of `intc_vector_table`. -/
inductive TableUse (η : Type)
  | test (irq : ℕ)
  | call (irq : ℕ) (handler : η)

namespace TableUse

variable {η : Type}

/-- The index into the table. -/
def irq : TableUse η → ℕ
  | test irq => irq
  | call irq _ => irq

/-- The handler called, with its interrupt. -/
def called : TableUse η → Option (ℕ × η)
  | test _ => none
  | call irq handler => some (irq, handler)

end TableUse

variable {η : Type} (intcVectorTable : ℕ → Option η)

/-- The `if` in the loop. -/
def serveIrq (irq : ℕ) : List (TableUse η) :=
  .test irq :: match intcVectorTable irq with
    | some handler => [.call irq handler]
    | none => []

/-- The `while` loop, from a value of `pending` on. -/
def servePending (reg : ℕ) (pending : UInt32) : List (TableUse η) :=
  if pending = 0 then []
  else
    let irq := 32 * reg + pending.toBitVec.ctz.toNat
    serveIrq intcVectorTable irq ++ servePending reg (pending &&& (pending - 1))
termination_by pending.toNat
decreasing_by
  rename_i h
  exact toNat_and_sub_one_lt fun hz => h (UInt32.toBitVec_inj.1 hz)

/-- `handle_irq_c`. -/
def handleIrqC (irqPend : ℕ → UInt32) : List (TableUse η) :=
  (List.range 3).flatMap fun reg => servePending intcVectorTable reg (irqPend reg)

end BeagleKernel.Qemu
