import BeagleKernel.Common.CircularBuffer

/-!
# The scheduler

`scheduler_init` and `scheduler_run`, up to the jump of `restore_context_asm`, on the fields of a
process they decide by. A process is its slot in `scheduler.processes`. What the pushes return,
which nothing looks at, is kept.
-/

namespace BeagleKernel.Sched

abbrev maxProcesses : ℕ := 32

/-- `process_t*`, into `scheduler.processes`. -/
abbrev Process := Fin maxProcesses

/-- `process_state_t`. -/
inductive ProcessState
  | undefined
  | new
  | ready
  | running
  | blocked
  | terminated
  deriving DecidableEq, Repr

/-- The scheduler's variables, and the results of the pushes so far. -/
structure Scheduler where
  state : Process → ProcessState
  idleProcess : Process
  currentProcess : Option Process
  readyQueue : GenericCircularBuffer Process
  pushes : List Bool

namespace Scheduler

/-- `generic_circular_buffer_push(&ready_queue, proc)`. -/
def pushReady (s : Scheduler) (proc : Process) : Scheduler :=
  let (ok, queue) := s.readyQueue.push proc
  { s with readyQueue := queue, pushes := s.pushes ++ [ok] }

/-- `proc->state = st`. -/
def setState (s : Scheduler) (proc : Process) (st : ProcessState) : Scheduler :=
  { s with state := Function.update s.state proc st }

/-- A process of `scheduler_init`: created, and pushed to the ready queue. -/
def addProcess (s : Scheduler) (proc : Process) : Scheduler :=
  (s.setState proc .new).pushReady proc

/-- `scheduler_init`, with the slots `process_create` gives the idle process and the others, and
`prior` in the memory of the ready queue. -/
def init (prior : GenericCircularBuffer Process) (idle : Process) (procs : List Process) :
    Scheduler :=
  let s : Scheduler :=
    { state := fun _ => .undefined
      idleProcess := idle
      currentProcess := none
      readyQueue := prior.init
      pushes := [] }
  procs.foldl addProcess (s.setState idle .new)

/-- The part of `scheduler_run` that puts the current process back in the queue. -/
def requeue (s : Scheduler) : Scheduler :=
  match s.currentProcess with
  | none => s
  | some current =>
    if current = s.idleProcess then s else (s.setState current .ready).pushReady current

/-- The part of `scheduler_run` that takes the next process. -/
def dispatch (s : Scheduler) : Scheduler :=
  let (popped, queue) := s.readyQueue.pop
  let next := popped.getD s.idleProcess
  { s with
    readyQueue := queue
    currentProcess := some next
    state := Function.update s.state next .running }

/-- `scheduler_run`, until `restore_context_asm` jumps to the process. -/
def run (s : Scheduler) : Scheduler := s.requeue.dispatch

end Scheduler

end BeagleKernel.Sched
