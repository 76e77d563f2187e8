import BeagleKernel.Lib.ArmMask
import BeagleKernel.Proofs.Context
import BeagleKernel.Proofs.RoundRobin
import BeagleKernel.Switch.System

/-!
# Where the core can be interrupted

Two instructions clear `CPSR.I` before the registers are those of a process: the write of `cpsr`
by which `svc_handler_asm` goes back to System mode, and the one in `restore_context_asm`. Until a
run executes one of them the kernel is masked throughout (`MaskInv`). The queue needs less: that
no interrupt is taken in the kernel (`QueueInv`).
-/

namespace BeagleKernel.Switch

open Arm Arm.Cpu Sched

variable {m : Image} {k : Symbols} {s s' : Sys} {a : Action} {idle : Process}
  {procs : List Process}

/-! ## The queue -/

/-- The process that is not to be in the queue. -/
def Sys.holder (s : Sys) : Option Process :=
  match s.place with
  | .scheduler .pop => none
  | .scheduler (.assign next) => some next
  | _ => s.sched.currentProcess

def QueueInv (s : Sys) : Prop :=
  ∃ q, s.sched.readyQueue.Queued q ∧ q.Nodup ∧ s.sched.idleProcess ∉ q ∧
    ∀ p ∈ q, s.holder ≠ some p

theorem QueueInv.queuedOnce (h : QueueInv s) : QueuedOnce s := by
  obtain ⟨q, hq, hnodup, -, hholder⟩ := h
  refine ⟨hq.contents_eq.symm ▸ hnodup, fun hplace p hp => ?_⟩
  have hsame : s.holder = s.sched.currentProcess := by
    rw [Sys.holder]
    split
    · rename_i hpop
      exact absurd (by rw [hpop]; trivial) hplace
    · rename_i next hassign
      exact absurd (by rw [hassign]; trivial) hplace
    · rfl
  rw [← hsame]
  exact hholder p (hq.contents_eq ▸ hp)

/-- The statements of `scheduler_run` make up `scheduler_run`. -/
theorem statements_eq_run (s : Scheduler) :
    (let r := s.requeue
     let (popped, queue) := r.readyQueue.pop
     setRunning { r with
       readyQueue := queue
       currentProcess := some (popped.getD r.idleProcess) }) = s.run := rfl

theorem QueueInv.keep (h : QueueInv s) (hsched : s'.sched = s.sched)
    (hholder : s'.holder = s.holder) :
    QueueInv s' := by
  obtain ⟨q, hq, hrest⟩ := h
  refine ⟨q, hsched ▸ hq, ?_⟩
  rw [hsched, hholder]
  exact hrest

theorem QueueInv.requeue (h : QueueInv s) (hplace : s.place = .scheduler .requeue) :
    QueueInv { s with sched := s.sched.requeue, place := .scheduler .pop } := by
  obtain ⟨q, hq, hnodup, hidle, hholder⟩ := h
  have hholder' : s.holder = s.sched.currentProcess := by rw [Sys.holder, hplace]
  rw [hholder'] at hholder
  rcases hc : s.sched.currentProcess with _ | c
  · refine ⟨q, ?_, hnodup, ?_, fun p _ => (Option.some_ne_none p).symm⟩ <;>
      rwa [Scheduler.requeue, hc]
  by_cases hci : c = s.sched.idleProcess
  · have hsame : s.sched.requeue = s.sched := by
      rw [Scheduler.requeue, hc]
      exact if_pos hci
    refine ⟨q, ?_, hnodup, ?_, fun p _ => (Option.some_ne_none p).symm⟩ <;> rwa [hsame]
  · obtain ⟨queue, hpush, hqueue⟩ := hq.push (length_lt_of_nodup hnodup) c
    have hreq : s.sched.requeue = { s.sched.setState c .ready with
        readyQueue := queue
        pushes := s.sched.pushes ++ [true] } := by
      rw [Scheduler.requeue, hc]
      refine (if_neg hci).trans ?_
      rw [Scheduler.pushReady]
      simp only [Scheduler.setState, hpush]
    refine ⟨q ++ [c], ?_, ?_, ?_, fun p _ => (Option.some_ne_none p).symm⟩
    · rw [hreq]
      exact hqueue
    · rw [List.nodup_append]
      refine ⟨hnodup, List.nodup_singleton c, fun p hp p' hp' heq => ?_⟩
      rw [List.mem_singleton.1 hp'] at heq
      exact hholder p hp (heq ▸ hc)
    · rw [hreq, List.mem_append, List.mem_singleton, not_or]
      exact ⟨hidle, Ne.symm hci⟩

theorem QueueInv.pop {popped : Option Process} {queue : GenericCircularBuffer Process}
    (h : QueueInv s) (hpop : s.sched.readyQueue.pop = (popped, queue)) :
    QueueInv { s with
      sched := { s.sched with readyQueue := queue }
      place := .scheduler (.assign (popped.getD s.sched.idleProcess)) } := by
  obtain ⟨q, hq, hnodup, hidle, -⟩ := h
  rcases q with _ | ⟨p, q⟩
  · rw [hq.pop_nil] at hpop
    obtain ⟨rfl, rfl⟩ := Prod.mk.inj hpop
    exact ⟨[], hq, hnodup, hidle, by simp⟩
  · obtain ⟨queue', hpop', hq'⟩ := hq.pop_cons
    obtain ⟨rfl, rfl⟩ := Prod.mk.inj (hpop'.symm.trans hpop)
    obtain ⟨hp, hnodup⟩ := List.nodup_cons.1 hnodup
    refine ⟨q, hq', hnodup, fun hin => hidle (List.mem_cons_of_mem _ hin), fun p' hp' heq => ?_⟩
    obtain rfl : p = p' := Option.some.inj heq
    exact hp hp'

/-- A step keeps the queue right, if it is no interrupt of the kernel. -/
theorem QueueInv.step (h : QueueInv s) (hirq : a = .irq → s.place = .process)
    (hstep : Step m a s s') : QueueInv s' := by
  cases hstep with
  | process here _ _ => exact h.keep rfl (by simp [Sys.holder, Sys.inProcess, here])
  | swi here => exact h.keep rfl (by simp [Sys.holder, Sys.enterAsm, here])
  | irq _ => exact h.keep rfl (by simp [Sys.holder, Sys.enterAsm, hirq rfl])
  | exec here _ => exact h.keep rfl (by simp [Sys.holder, Sys.enterAsm, here])
  | leaveSvc here => exact h.keep rfl (by simp [Sys.holder, Sys.goTo, here])
  | leaveIrq here => exact h.keep rfl (by simp [Sys.holder, Sys.goTo, here])
  | isr _ _ => exact h.keep rfl rfl
  | leaveIsr here => exact h.keep rfl (by simp [Sys.holder, Sys.goTo, here])
  | scheduler _ _ => exact h.keep rfl rfl
  | requeue here => exact h.requeue here
  | pop _ hpop => exact h.pop hpop
  | assign here =>
    obtain ⟨q, hq, hnodup, hidle, hholder⟩ := h
    refine ⟨q, hq, hnodup, hidle, fun p hp => ?_⟩
    simpa [Sys.holder, here] using hholder p hp
  | setRunning here =>
    obtain ⟨q, hq, hnodup, hidle, hholder⟩ := h
    have hsame : (setRunning s.sched).readyQueue = s.sched.readyQueue ∧
        (setRunning s.sched).idleProcess = s.sched.idleProcess ∧
        (setRunning s.sched).currentProcess = s.sched.currentProcess := by
      rw [setRunning]
      split <;> exact ⟨rfl, rfl, rfl⟩
    refine ⟨q, hsame.1 ▸ hq, hnodup, hsame.2.1 ▸ hidle, fun p hp => ?_⟩
    simpa [Sys.holder, here, hsame.2.2] using hholder p hp
  | resume here _ => exact h.keep rfl (by simp [Sys.holder, Sys.inProcess, here])

/-! ## The mask -/

/-- The part of a routine before the instruction that clears `CPSR.I`. -/
def Routine.masked (k : Symbols) : Routine → List Instr
  | .svc => svcHead k
  | .irq => irqHandlerAsm k
  | .restore => stageContext k

theorem masked_masks (k : Symbols) (r : Routine) : masks 1 false (r.masked k) = true := by
  cases r <;> rfl

/-- A process runs with its own registers, and the kernel masked. -/
def MaskInv (k : Symbols) (s : Sys) : Prop :=
  match s.place with
  | .process => ∃ p, s.sched.currentProcess = some p ∧ ∀ r, s.cpu.get r = s.context p r
  | .asm r rest => s.cpu.Masked ∧
      ∃ pre t, rest = pre ++ r.unmasking k ∧ masks 1 t pre = true ∧ Knows 1 t s.cpu
  | .isr => s.cpu.Masked
  | .scheduler _ => s.cpu.Masked

theorem MaskInv.live (h : MaskInv k s) (henabled : ¬s.cpu.Masked) :
    s.place = .process ∧
      ∃ p, s.sched.currentProcess = some p ∧ ∀ r, s.cpu.get r = s.context p r := by
  rw [MaskInv] at h
  split at h
  · exact ⟨‹_›, h⟩
  · exact absurd h.1 henabled
  · exact absurd h henabled
  · exact absurd h henabled

theorem MaskInv.enter {c : Cpu} {r : Routine} {is : List Instr} (hm : c.Masked)
    (his : is = r.masked k ++ r.unmasking k) : MaskInv k (s.enterAsm c r is) :=
  ⟨hm, r.masked k, false, his, masked_masks k r, fun h => absurd h (by decide)⟩

theorem Compiled.masked {c c' : Cpu} (h : Compiled k c c') (hm : c.Masked) : c'.Masked := by
  have hand : ∀ w : UInt32, w &&& iBit = (w &&& controlMask) &&& iBit := fun w => by
    rw [UInt32.and_assoc]
    rfl
  rw [Masked, hand, h.control, ← hand, hm]

/-- A step that is not one of the two keeps the kernel masked. -/
theorem MaskInv.step (h : MaskInv m.symbols s) (hunmasks : ¬s.Unmasks m.symbols)
    (hstep : Step m a s s') : MaskInv m.symbols s' := by
  cases hstep with
  | process here code _ =>
    simp only [MaskInv, here] at h
    obtain ⟨p, hp, -⟩ := h
    refine ⟨p, hp, fun r => ?_⟩
    simp [Sys.inProcess, hp]
  | swi here => exact .enter swi_masked rfl
  | irq _ => exact .enter irq_masked (List.append_nil _).symm
  | @exec _ r i is c here hexec =>
    simp only [MaskInv, here] at h
    obtain ⟨hm, pre, t, hpre, hmasks, hknows⟩ := h
    rcases pre with _ | ⟨i', pre⟩
    · cases r with
      | svc => exact absurd (.inl (by rw [here, hpre]; rfl)) hunmasks
      | irq => cases hpre
      | restore => exact absurd (.inr (by rw [here, hpre]; rfl)) hunmasks
    · obtain ⟨rfl, rfl⟩ := List.cons.inj hpre
      obtain ⟨hm', t', hmasks', hknows'⟩ := exec_masks (by decide) hmasks hm hknows hexec
      exact ⟨hm', pre, t', rfl, hmasks', hknows'⟩
  | leaveSvc here =>
    simp only [MaskInv, here] at h
    exact h.1
  | leaveIrq here =>
    simp only [MaskInv, here] at h
    exact h.1
  | isr here code =>
    simp only [MaskInv, here] at h ⊢
    exact code.masked h
  | leaveIsr here =>
    simp only [MaskInv, here] at h
    exact h
  | scheduler here code =>
    simp only [MaskInv, here] at h ⊢
    exact code.masked h
  | requeue here =>
    simp only [MaskInv, here] at h
    exact h
  | pop here _ =>
    simp only [MaskInv, here] at h
    exact h
  | assign here =>
    simp only [MaskInv, here] at h
    exact h
  | setRunning here =>
    simp only [MaskInv, here] at h
    exact MaskInv.enter (s := { s with sched := setRunning s.sched }) h rfl
  | resume here _ =>
    simp only [MaskInv, here] at h
    obtain ⟨-, pre, t, hpre, -⟩ := h
    simp [Routine.unmasking] at hpre

/-! ## Runs -/

theorem FirstDispatch.queueInv {prior : GenericCircularBuffer Process}
    (h : FirstDispatch prior idle procs s) (hnodup : procs.Nodup) (hidle : idle ∉ procs) :
    QueueInv s ∧ ∃ p, s.sched.currentProcess = some p := by
  have hlen := length_lt_of_nodup hnodup
  obtain ⟨hturn, hcurrent⟩ := run_turn (init_turn prior hlen.le) hidle hlen
  have hnodup' : (procs.rotate 1).Nodup := List.nodup_rotate.2 hnodup
  have hidle' : idle ∉ procs.rotate 1 := by rwa [List.mem_rotate]
  obtain ⟨-, honce, hothers⟩ := hturn.waits hnodup' hidle' hcurrent (by
    rw [List.rotate_eq_nil_iff, List.mem_rotate]
    rcases procs with _ | ⟨p, procs⟩
    · exact .inl rfl
    · exact .inr List.mem_cons_self)
  rw [← h.sched] at hturn hcurrent honce hothers
  obtain ⟨q, hq, -⟩ := hturn.queue
  rw [hq.contents_eq] at honce hothers
  refine ⟨⟨q, hq, honce, ?_, fun p hp => ?_⟩, _, hcurrent⟩
  · rw [hturn.idleProcess]
    exact fun hin => hidle' ((hothers idle).1 hin).1
  · rw [Sys.holder, h.place]
    exact ((hothers p).1 hp).2

/-- As long as a run has executed neither write, interrupts are enabled only while the registers
are those of the current process. As long as no interrupt was taken in the kernel, no process
waits twice or waits and runs. -/
theorem run_guarded {prior : GenericCircularBuffer Process} {as : List (Sys × Action)}
    (hnodup : procs.Nodup) (hidle : idle ∉ procs) (h0 : FirstDispatch prior idle procs s)
    (hrun : Run (Step m) s as s') :
    ((∀ x ∈ as, ¬x.1.Unmasks m.symbols) → Guarded s') ∧
      ((∀ x ∈ as, x.2 = .irq → x.1.place = .process) → QueuedOnce s') := by
  obtain ⟨hqueue0, p, hp⟩ := h0.queueInv hnodup hidle
  have hqueue : (∀ x ∈ as, x.2 = .irq → x.1.place = .process) → QueueInv s' :=
    hrun.invariant QueueInv (fun x => x.2 = .irq → x.1.place = .process)
      (fun a _ _ hok hinv hstep => hinv.step hok hstep) hqueue0
  refine ⟨fun hok => ?_, fun hok => (hqueue hok).queuedOnce⟩
  have hmask0 : MaskInv m.symbols s := by
    rw [MaskInv, h0.place]
    exact ⟨p, hp, h0.context p hp⟩
  have hboth : MaskInv m.symbols s' ∧ QueueInv s' := by
    refine hrun.invariant (fun s => MaskInv m.symbols s ∧ QueueInv s)
      (fun x => ¬x.1.Unmasks m.symbols) (fun a s s' hok hinv hstep => ?_) ⟨hmask0, hqueue0⟩ hok
    refine ⟨hinv.1.step hok hstep, hinv.2.step (fun hirq => ?_) hstep⟩
    subst hirq
    cases hstep with
    | irq henabled => exact (hinv.1.live henabled).1
  exact ⟨hboth.2.queuedOnce, fun henabled => (hboth.1.live henabled).2⟩

/-! ## A run that is not guarded -/

/-- A routine that does not stop can be run, and until it has, the core is in it. -/
theorem run_asm {r : Routine} {post : List Instr} :
    ∀ {pre : List Instr} {c c' : Cpu}, run pre c = some c' →
      ∃ as, Run (Step m) (s.enterAsm c r (pre ++ post)) as (s.enterAsm c' r post) ∧
        ∀ x ∈ as, x.2 = .kernel ∧ ∃ is, x.1.place = .asm r is
  | [], c, c', h => by
    obtain rfl := Option.some.inj h
    exact ⟨[], .nil, fun x hx => absurd hx List.not_mem_nil⟩
  | i :: pre, c, c', h => by
    rw [run_cons, Option.bind_eq_some_iff] at h
    obtain ⟨c1, hexec, hrest⟩ := h
    obtain ⟨as, has, hin⟩ := @run_asm r post pre c1 c' hrest
    refine ⟨_, (Run.single (.exec (s := s.enterAsm c r (i :: (pre ++ post))) rfl hexec)).trans has,
      fun x hx => ?_⟩
    rcases List.mem_cons.1 hx with rfl | hx
    · exact ⟨rfl, _, rfl⟩
    · exact hin x hx

/-- Behind `irq_handler_asm`, `scheduler_run` dispatches the next process. -/
theorem run_scheduler (hplace : s.place = .asm .irq []) :
    ∃ as s', Run (Step m) s as s' ∧ s'.sched = s.sched.run ∧
      ∀ x ∈ as, x.2 = .kernel ∧ ∀ r is, x.1.place = .asm r is → r = .irq := by
  obtain ⟨popped, queue, hpop⟩ : ∃ popped queue, s.sched.requeue.readyQueue.pop = (popped, queue) :=
    ⟨_, _, rfl⟩
  refine ⟨_, _, .snoc (.snoc (.snoc (.snoc (.snoc (.single (.leaveIrq hplace))
    (.leaveIsr rfl)) (.requeue rfl)) (.pop rfl hpop)) (.assign rfl)) (.setRunning rfl), ?_,
    fun x hx => ?_⟩
  · rw [← statements_eq_run]
    simp only [Sys.goTo, hpop]
  · simp only [List.cons_append, List.nil_append, List.mem_cons, List.not_mem_nil, or_false] at hx
    rcases hx with rfl | rfl | rfl | rfl | rfl | rfl
    · refine ⟨rfl, fun r is h => ?_⟩
      rw [hplace] at h
      cases h
      rfl
    all_goals exact ⟨rfl, fun r is h => by cases h⟩

def sampleImage : Image where
  symbols := sampleSymbols
  pcb p := 0x801e0000 + 0x20000 * UInt32.ofNat p
  text a := 0x80300000 ≤ a

/-- The first of three processes, just dispatched. -/
def sampleSys : Sys where
  cpu := sampleCpu 0x80300000 fun _ => 0x80300000
  place := .process
  sched := (Scheduler.init ⟨fun _ => 0, 7, 7, 0⟩ 0 [1, 2, 3]).run
  context _ := (sampleCpu 0x80300000 fun _ => 0x80300000).get

theorem sample_firstDispatch :
    FirstDispatch ⟨fun _ => 0, 7, 7, 0⟩ 0 [1, 2, 3] sampleSys :=
  ⟨rfl, rfl, fun _ _ _ => rfl⟩

/-- It is interrupted, and in the kernel only `irq_handler_asm` is executed until the next process
is dispatched. -/
theorem sample_interrupted : ∃ as s', Run (Step sampleImage) sampleSys as s' ∧
    s'.sched = sampleSys.sched.run ∧ ∀ x ∈ as,
      (x.2 = .irq → x.1.place = .process) ∧ ∀ r is, x.1.place = .asm r is → r = .irq := by
  obtain ⟨c, hpath, -⟩ := (sample_running 0x80300000 fun _ => 0x80300000).interrupted
  obtain ⟨as, hrun, has⟩ := @run_asm sampleImage sampleSys .irq [] _ _ _ hpath
  obtain ⟨bs, s', hrun', hsched, hbs⟩ :=
    @run_scheduler sampleImage (sampleSys.enterAsm c .irq []) rfl
  rw [List.append_nil] at hrun
  refine ⟨[(sampleSys, .irq)] ++ as ++ bs, s',
    .trans (.trans (.single (.irq (by decide))) hrun) hrun', hsched, fun x hx => ?_⟩
  rcases List.mem_append.1 hx with hx | hx
  · rcases List.mem_cons.1 hx with rfl | hx
    · exact ⟨fun _ => rfl, fun r is h => by cases h⟩
    · obtain ⟨hkernel, is, hplace⟩ := has x hx
      refine ⟨fun h => ?_, fun r js h => ?_⟩
      · cases hkernel.symm.trans h
      · cases hplace.symm.trans h
        rfl
  · obtain ⟨hkernel, hplace⟩ := hbs x hx
    refine ⟨fun h => ?_, hplace⟩
    cases hkernel.symm.trans h

/-- Interrupted, the first process goes to the end of the queue and the second is dispatched. -/
theorem run_guarded_irq : ∃ as s', Run (Step sampleImage) sampleSys as s' ∧
    s'.sched.currentProcess = some 2 ∧ s'.sched.readyQueue.contents = [3, 1] ∧ Guarded s' ∧
      QueuedOnce s' := by
  obtain ⟨as, s', hrun, hsched, hsteps⟩ := sample_interrupted
  obtain ⟨hguarded, honce⟩ := run_guarded (by decide) (by decide) sample_firstDispatch hrun
  refine ⟨as, s', hrun, by rw [hsched]; rfl, by rw [hsched]; rfl, hguarded fun x hx => ?_,
    honce fun x hx => (hsteps x hx).1⟩
  rintro (h | h) <;> cases (hsteps x hx).2 _ _ h

/-- Back in System mode its handler can be interrupted with `lr` lost. -/
theorem yield_not_guarded : ∃ as s', FirstDispatch ⟨fun _ => 0, 7, 7, 0⟩ 0 [1, 2, 3] sampleSys ∧
    Run (Step sampleImage) sampleSys as s' ∧ ¬Guarded s' := by
  have hrunning := sample_running 0x80300000 fun _ => 0x80300000
  obtain ⟨c1, hrun1, hmode1, hfile, -⟩ := svcHead_spec (bank_of _ hrunning.mode)
    (hrunning.apart.sublist (.append_left ((List.sublist_append_right ..).trans
      (List.sublist_append_right ..)) _))
  obtain ⟨hmsr, hmode, hi⟩ := msr_system hmode1
  obtain ⟨as, hrun, -⟩ := @run_asm sampleImage sampleSys .svc
    (.msrImm modeSystem :: saveOnOsStack sampleSymbols sampleSymbols.svcReturn) _ _ _ hrun1
  refine ⟨_, _, sample_firstDispatch, .trans (.single (.swi rfl)) (.snoc hrun (.exec rfl hmsr)),
    fun hguarded => ?_⟩
  obtain ⟨p, -, hlive⟩ := hguarded.live fun hmasked => by
    have h0 : (0 : UInt32) = iBit := hi.symm.trans hmasked
    exact absurd h0 (by decide)
  have hlr := hlive lr
  rw [Sys.enterAsm, get_usr (bank_of _ (bankOf_system hmode)), withCpsr_file, hfile,
    if_pos rfl] at hlr
  have hcontext : sampleSymbols.svcReturn .saveSpAndLrUsr =
      (sampleCpu 0x80300000 fun _ => 0x80300000).get lr := hlr
  rw [get_usr (bank_of _ hrunning.mode)] at hcontext
  exact absurd hcontext (by decide)

end BeagleKernel.Switch
