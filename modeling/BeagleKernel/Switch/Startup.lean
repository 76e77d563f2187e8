import BeagleKernel.Switch.System

/-!
# From `kmain` to the first process

`kmain` from `system_interrupt_init` on, with what decides whether a byte that arrives at a UART
interrupts the core. Compiled code runs between any two of its statements: it prints, and sets up
what no interrupt depends on. Before the kernel's vector table is in place an interrupt goes to the
boot loader, and before there is an idle process `scheduler_run` goes to no process; neither is
modelled.
-/

namespace BeagleKernel.Switch

open Arm Sched

abbrev numInterrupts : ℕ := 128

/-- `UART0_INT_NUM` and `UART1_INT_NUM`. -/
def uartIntNum (u : Fin 2) : ℕ := if u = 0 then 72 else 73

/-- `RHRIT` of `UART_IER`. -/
def rhrIt : UInt32 := 0x01

/-- A statement of `kmain`, and of what it calls. -/
inductive Setup
  | vectorTable
  | asm (i : Instr)
  | resetIntc
  | resetUart (u : Fin 2)
  | writeIer (u : Fin 2) (value : UInt32)
  | enableIrq (intNum : ℕ)
  | initQueues
  | createIdle (proc : Process)
  | addProcess (proc : Process)
  deriving DecidableEq, Repr

structure Kernel where
  sys : Sys
  /-- What is left of `kmain`, while the core is in it. -/
  kmain : Option (List Setup)
  /-- The vector table has `irq_handler_asm`. -/
  vectorTable : Bool
  /-- The masks of the interrupt controller. -/
  mir : ℕ → Bool
  ier : Fin 2 → UInt32
  /-- `scheduler.idle_process` is set. -/
  idle : Bool
  /-- A `restore_context_asm` has written `os_sp_cache`. -/
  osSpStored : Bool

namespace Kernel

/-! ## `kmain` -/

def cpuIrqEnable : List Setup := [.asm (.mrsCpsr 0), .asm (.bic 0 0 iBit), .asm (.msr 0)]

/-- Interrupts are enabled before the controller is reset, which masks all of them. -/
def systemInterruptInit : List Setup := .vectorTable :: cpuIrqEnable ++ [.resetIntc]

def uartPortInit (u : Fin 2) : List Setup := [.resetUart u, .writeIer u 0x00, .writeIer u rhrIt]

def uartInit (u : Fin 2) : List Setup := uartPortInit u ++ [.enableIrq (uartIntNum u)]

/-- The first four slots go to the idle process, `P1`, `P2` and the motor task. -/
def schedulerInit : List Setup :=
  [.initQueues, .createIdle 0, .addProcess 1, .addProcess 2, .addProcess 3]

/-- `kmain` from `system_interrupt_init` on, up to the call of `scheduler_run`. -/
def kmainSetup : List Setup := systemInterruptInit ++ uartInit 0 ++ uartInit 1 ++ schedulerInit

variable (k : Kernel)

def withCpu (c : Cpu) : Kernel := { k with sys := { k.sys with cpu := c } }

def withSched (s : Scheduler) : Kernel := { k with sys := { k.sys with sched := s } }

/-- `INTC_enable_irq`. -/
def intcEnableIrq (intNum : ℕ) : Kernel :=
  if intNum ≥ numInterrupts then k else { k with mir := Function.update k.mir intNum false }

def exec : Setup → Option Kernel
  | .vectorTable => some { k with vectorTable := true }
  | .asm i => (Arm.exec i k.sys.cpu).map k.withCpu
  | .resetIntc => some { k with mir := fun _ => true }
  | .resetUart u => some { k with ier := Function.update k.ier u 0 }
  | .writeIer u value => some { k with ier := Function.update k.ier u value }
  | .enableIrq intNum => some (k.intcEnableIrq intNum)
  | .initQueues => some (k.withSched { k.sys.sched with
      state := fun _ => .undefined
      readyQueue := k.sys.sched.readyQueue.init })
  | .createIdle proc =>
    let k' := k.withSched { k.sys.sched.setState proc .new with idleProcess := proc }
    some { k' with idle := true }
  | .addProcess proc => some (k.withSched (k.sys.sched.addProcess proc))

/-! ## The whole kernel -/

/-- A byte that arrives now interrupts the core. -/
def Interruptible : Prop :=
  ¬k.sys.cpu.Masked ∧ k.vectorTable ∧ ∃ u, k.mir (uartIntNum u) = false ∧ k.ier u &&& rhrIt ≠ 0

/-- `restore_context_asm` from the write of `os_sp_cache` on. -/
def storeOsSp (k : Symbols) : List Instr := [.strAt sp k.osSpCache, .pop sp, .ldrPc k.pcCache]

inductive Step (m : Image) : Action → Kernel → Kernel → Prop
  | code {k : Kernel} {rest : List Setup} {c : Cpu} (here : k.kmain = some rest)
      (code : Compiled m.symbols k.sys.cpu c) : Step m .kernel k (k.withCpu c)
  | setup {k k' : Kernel} {i : Setup} {rest : List Setup} (here : k.kmain = some (i :: rest))
      (exec : k.exec i = some k') : Step m .kernel k { k' with kmain := some rest }
  | schedulerRun {k : Kernel} (here : k.kmain = some []) :
      Step m .kernel k { k with
        sys := k.sys.goTo (.scheduler .requeue)
        kmain := none }
  | irq {k : Kernel} (enabled : k.Interruptible) :
      Step m .irq k { k with
        sys := k.sys.enterAsm k.sys.cpu.irq .irq (irqHandlerAsm m.symbols)
        kmain := none }
  | core {k : Kernel} {a : Action} {s : Sys} (here : k.kmain = none)
      (step : Switch.Step m a k.sys s) (notIrq : a ≠ .irq)
      (idle : ∀ st, s.place = .scheduler st → k.idle) :
      Step m a k { k with
        sys := s
        osSpStored := k.osSpStored ||
          decide (k.sys.place = .asm .restore (storeOsSp m.symbols)) }

/-- `kmain` is before `system_interrupt_init`. What the boot loader left of the interrupts stays
open. -/
structure Start : Prop where
  kmain : k.kmain = some kmainSetup
  vectorTable : k.vectorTable = false
  idle : k.idle = false
  currentProcess : k.sys.sched.currentProcess = none
  osSpStored : k.osSpStored = false

/-- A run in which bytes interrupt only where one `Arrives`. -/
def Reaches (m : Image) (Arrives : Kernel → Prop) (k k' : Kernel) : Prop :=
  ∃ as, Run (Step m) k as k' ∧ ∀ x ∈ as, x.2 = .irq → Arrives x.1

/-- The next instruction is the call of `load_os_sp` in `irq_handler_asm`, or that of
`save_context_asm`. -/
def CallsSave (m : Symbols) : Prop :=
  k.kmain = none ∧ (k.sys.place = .asm .irq (saveOnOsStack m m.irqReturn) ∨
    k.sys.place = .asm .irq
      (.bl (m.irqReturn .saveContext) :: saveContextAsm m (m.irqReturn .saveContext)))

/-- At these calls there is a process to save to, and a stack of the OS. -/
def SavesSafely (m : Symbols) : Prop :=
  k.CallsSave m → k.sys.sched.currentProcess ≠ none ∧ k.osSpStored

/-- Whatever the run, contexts are saved safely. -/
def Safe (m : Image) (Arrives : Kernel → Prop) : Prop :=
  ∀ k', Reaches m Arrives k k' → k'.SavesSafely m.symbols

end Kernel

end BeagleKernel.Switch
