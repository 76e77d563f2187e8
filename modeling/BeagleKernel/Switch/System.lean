import BeagleKernel.Lib.Runs
import BeagleKernel.Sched.Scheduler
import BeagleKernel.Switch.Routines

/-!
# One core and its interrupts

The core runs a process until a `swi` or an interrupt, then a handler, `scheduler_run` and
`restore_context_asm`. Wherever `CPSR.I` is clear it may be interrupted instead. Compiled code is
known by what it may write.
-/

namespace BeagleKernel.Switch

open Arm Sched

inductive Routine
  | svc
  | irq
  | restore
  deriving DecidableEq, Repr

/-- The statements of `scheduler_run`. -/
inductive Statement
  | requeue
  | pop
  | assign (next : Process)
  | setRunning
  deriving DecidableEq, Repr

/-- Where the core is: in a process, at the instructions left of a routine, in the handler of a
device, or before a statement of `scheduler_run`. -/
inductive Place
  | process
  | asm (r : Routine) (rest : List Instr)
  | isr
  | scheduler (next : Statement)
  deriving DecidableEq, Repr

/-- The addresses: of the words of the kernel, of the processes, and of their code. -/
structure Image where
  symbols : Symbols
  pcb : Process → UInt32
  text : UInt32 → Prop

structure Sys where
  cpu : Cpu
  place : Place
  sched : Scheduler
  /-- The registers each process last had of its own. -/
  context : Process → Reg → UInt32

/-- The bits of `CPSR` compiled code leaves alone: the mode, `F` and `I`. -/
def controlMask : UInt32 := 0xdf

/-- What compiled code may do to the core. -/
structure Compiled (k : Symbols) (c c' : Cpu) : Prop where
  control : c'.cpsr &&& controlMask = c.cpsr &&& controlMask
  spsr : c'.spsr = c.spsr
  file : ∀ p, (∀ r, p ≠ phys c.bank r) → c'.file p = c.file p
  words : ∀ a ∈ k.words, c'.mem a = c.mem a

namespace Sys

variable (s : Sys)

/-- The current process has the core, and its registers are its own. -/
def inProcess (c : Cpu) : Sys :=
  { s with
    cpu := c
    place := .process
    context := match s.sched.currentProcess with
      | some p => Function.update s.context p c.get
      | none => s.context }

def enterAsm (c : Cpu) (r : Routine) (is : List Instr) : Sys :=
  { s with cpu := c, place := .asm r is }

def goTo (p : Place) : Sys := { s with place := p }

end Sys

/-- `current_process->state = RUNNING`. -/
def setRunning (s : Scheduler) : Scheduler :=
  match s.currentProcess with
  | some p => s.setState p .running
  | none => s

inductive Action
  | process
  | swi
  | irq
  | kernel
  deriving DecidableEq, Repr

inductive Step (m : Image) : Action → Sys → Sys → Prop
  | process {s : Sys} {c : Cpu} (here : s.place = .process) (code : Compiled m.symbols s.cpu c)
      (text : m.text c.pc) : Step m .process s (s.inProcess c)
  | swi {s : Sys} (here : s.place = .process) :
      Step m .swi s (s.enterAsm s.cpu.swi .svc (svcHandlerAsm m.symbols))
  | irq {s : Sys} (enabled : ¬s.cpu.Masked) :
      Step m .irq s (s.enterAsm s.cpu.irq .irq (irqHandlerAsm m.symbols))
  | exec {s : Sys} {r : Routine} {i : Instr} {is : List Instr} {c : Cpu}
      (here : s.place = .asm r (i :: is)) (exec : exec i s.cpu = some c) :
      Step m .kernel s (s.enterAsm c r is)
  | leaveSvc {s : Sys} (here : s.place = .asm .svc []) :
      Step m .kernel s (s.goTo (.scheduler .requeue))
  | leaveIrq {s : Sys} (here : s.place = .asm .irq []) : Step m .kernel s (s.goTo .isr)
  | isr {s : Sys} {c : Cpu} (here : s.place = .isr) (code : Compiled m.symbols s.cpu c) :
      Step m .kernel s { s with cpu := c }
  | leaveIsr {s : Sys} (here : s.place = .isr) : Step m .kernel s (s.goTo (.scheduler .requeue))
  -- the instructions between two statements
  | scheduler {s : Sys} {st : Statement} {c : Cpu} (here : s.place = .scheduler st)
      (code : Compiled m.symbols s.cpu c) : Step m .kernel s { s with cpu := c }
  | requeue {s : Sys} (here : s.place = .scheduler .requeue) :
      Step m .kernel s { s with sched := s.sched.requeue, place := .scheduler .pop }
  | pop {s : Sys} {popped : Option Process} {queue : GenericCircularBuffer Process}
      (here : s.place = .scheduler .pop) (pop : s.sched.readyQueue.pop = (popped, queue)) :
      Step m .kernel s { s with
        sched := { s.sched with readyQueue := queue }
        place := .scheduler (.assign (popped.getD s.sched.idleProcess)) }
  | assign {s : Sys} {next : Process} (here : s.place = .scheduler (.assign next)) :
      Step m .kernel s { s with
        cpu := s.cpu.write m.symbols.currentProcess (m.pcb next)
        sched := { s.sched with currentProcess := some next }
        place := .scheduler .setRunning }
  | setRunning {s : Sys} (here : s.place = .scheduler .setRunning) :
      Step m .kernel s { s with
        sched := setRunning s.sched
        place := .asm .restore (restoreContextAsm m.symbols) }
  -- where else the jump may lead is not modelled
  | resume {s : Sys} (here : s.place = .asm .restore []) (text : m.text s.cpu.pc) :
      Step m .kernel s (s.inProcess s.cpu)

/-- A process has just been dispatched for the first time since `scheduler_init`. -/
structure FirstDispatch (prior : GenericCircularBuffer Process) (idle : Process)
    (procs : List Process) (s : Sys) : Prop where
  place : s.place = .process
  sched : s.sched = (Scheduler.init prior idle procs).run
  context : ∀ p, s.sched.currentProcess = some p → ∀ r, s.cpu.get r = s.context p r

/-- Between the statements that put a process back in the queue and take the next. -/
def Place.Handover : Place → Prop
  | .scheduler .pop => True
  | .scheduler (.assign _) => True
  | _ => False

/-- No process waits twice, and the current one does not wait. -/
structure QueuedOnce (s : Sys) : Prop where
  once : s.sched.readyQueue.contents.Nodup
  notCurrent : ¬s.place.Handover →
    ∀ p ∈ s.sched.readyQueue.contents, s.sched.currentProcess ≠ some p

/-- Interrupts are enabled only while the registers are those of the current process. -/
structure Guarded (s : Sys) : Prop extends QueuedOnce s where
  live : ¬s.cpu.Masked →
    ∃ p, s.sched.currentProcess = some p ∧ ∀ r, s.cpu.get r = s.context p r

/-- What of a routine is left from the instruction that clears `CPSR.I` on. -/
def Routine.unmasking (k : Symbols) : Routine → List Instr
  | .svc => .msrImm modeSystem :: saveOnOsStack k k.svcReturn
  | .irq => []
  | .restore => .msr 1 :: resumeContext k

/-- The next instruction is the write of `cpsr` in `svc_handler_asm` back to System mode, or that
in `restore_context_asm`. -/
def Sys.Unmasks (k : Symbols) (s : Sys) : Prop :=
  s.place = .asm .svc (Routine.svc.unmasking k) ∨
    s.place = .asm .restore (Routine.restore.unmasking k)

end BeagleKernel.Switch
