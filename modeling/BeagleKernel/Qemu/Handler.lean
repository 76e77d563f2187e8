import BeagleKernel.Lib.ArmException

/-!
# The interrupt handler under QEMU

`irq_handler_asm` around `handle_irq_c`, which is any routine that keeps the contract of a call.
An event is an instruction of the interrupted code, or an interrupt the core takes before it.
-/

namespace BeagleKernel.Qemu

open Arm Arm.Cpu

/-- `{R0-R12, LR}`, as `STMDB` stores them from the top of the stack down. -/
def handlerRegs : List Reg := [lr, 12, 11, 10, 9, 8, 7, 6, 5, 4, 3, 2, 1, 0]

/-- `irq_handler_asm`; `ret` is the address behind its `BL`. -/
def irqHandlerAsm (handleIrqC : Cpu → Option Cpu) (ret : UInt32) : Cpu → Option Cpu :=
  around handlerRegs fun c => (run [.ldrConst 0 0, .bl ret] c).bind handleIrqC

inductive Event
  | step
  | irq (handleIrqC : Cpu → Option Cpu)

/-- Interrupts are taken where they are enabled. -/
def happen (step : Cpu → Option Cpu) (ret : UInt32) : Event → Cpu → Option Cpu
  | .step, c => step c
  | .irq handleIrqC, c => if c.Masked then none else irqHandlerAsm handleIrqC ret c.irq

def happenAll (step : Cpu → Option Cpu) (ret : UInt32) : List Event → Cpu → Option Cpu
  | [], c => some c
  | e :: es, c => (happen step ret e c).bind (happenAll step ret es)

/-- The instructions alone. -/
def alone (step : Cpu → Option Cpu) : List Event → Cpu → Option Cpu
  | [], c => some c
  | .step :: es, c => (step c).bind (alone step es)
  | .irq _ :: es, c => alone step es c

end BeagleKernel.Qemu
