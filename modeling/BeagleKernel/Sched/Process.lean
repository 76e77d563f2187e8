import BeagleKernel.Sched.Scheduler
import BeagleKernel.Switch.Routines

/-!
# Creating processes

`process_create`, and `scheduler_init` as far as it creates processes. A `process_t` is its words
from the start of its slot on, so that an index past the end of `registers` is the word it falls
on. The names, which are for debugging, stay out, and so does the timer.
-/

namespace BeagleKernel.Sched

open Switch (modeSystem)

/-- The length of `registers`, the first words of a process. -/
abbrev numRegisters : ℕ := 13

abbrev stackPointerWord : ℕ := 13
abbrev linkRegisterWord : ℕ := 14
abbrev cpsrWord : ℕ := 15
abbrev programCounterWord : ℕ := 16
abbrev segmentBaseWord : ℕ := 17
abbrev currentModeWord : ℕ := 18
abbrev sharedPageWord : ℕ := 19
/-- Behind the bytes of `stack`. -/
abbrev stackTopWord : ℕ := 16404
/-- Behind the bytes of `name`. -/
abbrev pidWord : ℕ := 16409
abbrev priorityWord : ℕ := 16410

/-- The offset of `stack`, and its size. -/
abbrev stackOff : UInt32 := 80
abbrev userStackSize : UInt32 := 64 * 1024

/-- `sizeof(process_t)`. -/
abbrev processSize : UInt32 := 65648

/-- `I_F_BIT`. -/
abbrev iFBit : UInt32 := 0xC0

/-- `process_t`, its words up to `priority`. -/
structure Pcb where
  word : ℕ → UInt32
  state : ProcessState

namespace Pcb

def setWord (pcb : Pcb) (i : ℕ) (v : UInt32) : Pcb :=
  { pcb with word := Function.update pcb.word i v }

def setState (pcb : Pcb) (st : ProcessState) : Pcb := { pcb with state := st }

/-- `registers[i] = v`. -/
def setRegister (pcb : Pcb) (i : ℕ) (v : UInt32) : Pcb := pcb.setWord i v

end Pcb

/-- The values of `i` in the loop of `process_create`. -/
def clearedRegisters : List ℕ := List.range 16

/-- `process_create` on the slot at `proc`. -/
def buildContext (proc entryPoint : UInt32) (pcb : Pcb) : Pcb :=
  let pcb := pcb.setState .new
  let pcb := pcb.setWord priorityWord 1
  let pcb := pcb.setWord programCounterWord entryPoint
  let pcb := pcb.setWord segmentBaseWord proc
  let pcb := pcb.setWord currentModeWord (modeSystem ||| iFBit)
  let pcb := pcb.setWord cpsrWord (modeSystem ||| iFBit)
  let pcb := pcb.setWord sharedPageWord 0
  let pcb := clearedRegisters.foldl (fun pcb i => pcb.setRegister i (UInt32.ofNat i)) pcb
  let pcb := pcb.setWord linkRegisterWord 0
  let pcb := pcb.setWord stackTopWord (proc + stackOff + userStackSize)
  pcb.setWord stackPointerWord (pcb.word stackTopWord)

/-- The scheduler's processes, and what `process_create` has returned so far. -/
structure ProcessTable where
  pcb : Process → Pcb
  idleProcess : Option Process
  currentIndex : ℤ
  numProcesses : ℤ
  processes : GenericCircularBuffer Process
  freeProcesses : GenericCircularBuffer Process
  readyQueue : GenericCircularBuffer Process
  results : List (Option Process)

/-- The address of a slot, with `scheduler.processes` at `base`. -/
def slotAddress (base : UInt32) (proc : Process) : UInt32 :=
  base + UInt32.ofNat proc * processSize

namespace ProcessTable

variable (base : UInt32) (t : ProcessTable)

/-- `process_create`. -/
def processCreate (entryPoint : UInt32) : Option Process × ProcessTable :=
  match t.freeProcesses.pop with
  | (none, free) => (none, { t with freeProcesses := free, results := t.results ++ [none] })
  | (some proc, free) =>
    (some proc,
      { t with
        pcb := Function.update t.pcb proc
          (buildContext (slotAddress base proc) entryPoint (t.pcb proc))
        numProcesses := t.numProcesses + 1
        freeProcesses := free
        results := t.results ++ [some proc] })

/-- A slot in the loop of `scheduler_init`. -/
def freeSlot (t : ProcessTable) (proc : Process) : ProcessTable :=
  let pcb := (t.pcb proc).setWord pidWord (UInt32.ofNat proc)
  let pcb := pcb.setState .undefined
  let pcb := pcb.setWord priorityWord 0
  let pcb := pcb.setWord programCounterWord 0
  let pcb := pcb.setWord stackPointerWord 0
  let pcb := pcb.setWord linkRegisterWord 0
  let pcb := pcb.setWord cpsrWord 0
  { t with
    pcb := Function.update t.pcb proc pcb
    freeProcesses := (t.freeProcesses.push proc).2 }

/-- The part of `scheduler_init` before the processes. -/
def initSlots : ProcessTable :=
  (List.finRange maxProcesses).foldl freeSlot
    { t with
      currentIndex := 0
      numProcesses := 0
      processes := t.processes.init
      freeProcesses := t.freeProcesses.init
      readyQueue := t.readyQueue.init
      results := [] }

/-- The idle process; without one `scheduler_init` does not return. -/
def createIdle (entryPoint : UInt32) : Option ProcessTable :=
  match t.processCreate base entryPoint with
  | (none, _) => none
  | (some proc, t) =>
    some { t with processes := (t.processes.push proc).2, idleProcess := some proc }

/-- Another process of `scheduler_init`. -/
def createReady (entryPoint : UInt32) : Option ProcessTable :=
  match t.processCreate base entryPoint with
  | (none, _) => none
  | (some proc, t) =>
    some { t with
      processes := (t.processes.push proc).2
      readyQueue := (t.readyQueue.push proc).2
      numProcesses := t.numProcesses + 1 }

end ProcessTable

/-- The functions `scheduler_init` creates processes for. -/
structure Tasks where
  idleTask : UInt32
  p1 : UInt32
  p2 : UInt32
  motorTask : UInt32

/-- `scheduler_init`; `none` where it does not return. -/
def schedulerInit (base : UInt32) (tasks : Tasks) (t : ProcessTable) : Option ProcessTable := do
  let t ← t.initSlots.createIdle base tasks.idleTask
  let t ← t.createReady base tasks.p1
  let t ← t.createReady base tasks.p2
  t.createReady base tasks.motorTask

/-- Further calls of `process_create`. -/
def createAll (base : UInt32) (t : ProcessTable) (entryPoints : List UInt32) : ProcessTable :=
  entryPoints.foldl (fun t entryPoint => (t.processCreate base entryPoint).2) t

end BeagleKernel.Sched
