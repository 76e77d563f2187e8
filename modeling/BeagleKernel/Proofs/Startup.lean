import BeagleKernel.Proofs.Interrupts
import BeagleKernel.Switch.Startup

/-!
# Interrupts before the first dispatch

`kmain` enables interrupts long before the first `restore_context_asm` writes `os_sp_cache`, and
`current_process` is null until `scheduler_run` has taken a process. So contexts are saved safely
exactly if no interrupt comes before that write (`savesSafely_iff`).
-/

namespace BeagleKernel.Switch

open Arm Arm.Cpu Sched

variable {m : Image} {s s' : Sys} {a : Action}

/-! ## The process of a step -/

theorem requeue_currentProcess (s : Scheduler) : s.requeue.currentProcess = s.currentProcess := by
  rw [Scheduler.requeue]
  split
  · rfl
  · split <;> rfl

theorem setRunning_currentProcess (s : Scheduler) :
    (setRunning s).currentProcess = s.currentProcess := by
  rw [setRunning]
  split <;> rfl

/-- A process has been chosen, and is not left again before it runs. -/
def Place.Chosen : Place → Prop
  | .asm .restore _ => True
  | .scheduler .setRunning => True
  | _ => False

theorem step_currentProcess (hstep : Step m a s s') (h : s.sched.currentProcess ≠ none) :
    s'.sched.currentProcess ≠ none := by
  cases hstep with
  | requeue _ => rwa [requeue_currentProcess]
  | assign _ => exact Option.some_ne_none _
  | setRunning _ => rwa [setRunning_currentProcess]
  | _ => exact h

/-- To the chosen places a step comes with a process. -/
theorem step_chosen (hstep : Step m a s s') (h : s.place.Chosen → s.sched.currentProcess ≠ none)
    (hchosen : s'.place.Chosen) : s'.sched.currentProcess ≠ none := by
  cases hstep with
  | @exec _ r _ _ _ here _ =>
    cases r with
    | restore => exact h (by rw [here]; trivial)
    | _ => exact hchosen.elim
  | isr here _ => exact h hchosen
  | scheduler here _ => exact h hchosen
  | assign _ => exact Option.some_ne_none _
  | setRunning here =>
    rw [setRunning_currentProcess]
    exact h (by rw [here]; trivial)
  | _ => exact hchosen.elim

theorem step_irq {is : List Instr} (hstep : Step m a s s') (hirq : a ≠ .irq)
    (hplace : s'.place = .asm .irq is) : ∃ js, s.place = .asm .irq js := by
  cases hstep with
  | irq _ => exact absurd rfl hirq
  | @exec _ r _ _ _ here _ =>
    obtain ⟨rfl, -⟩ := Place.asm.inj hplace
    exact ⟨_, here⟩
  | isr here _ => exact ⟨_, hplace⟩
  | scheduler here _ => exact ⟨_, hplace⟩
  | _ => cases hplace

/-- From wherever it interrupts, the handler comes to its call of `load_os_sp`. -/
theorem irqHead_runs {k : Symbols} (hap : Apart k.words) (c : Cpu) :
    ∃ c', run (irqHead k) c.irq = some c' := by
  have hal : ∀ a ∈ k.scratch, Aligned a := fun a ha => hap.aligned a (scratch_subset k ha)
  have hr0 : Aligned k.r0Cache := hal _ (by simp [Symbols.scratch])
  have hr1 : Aligned k.r1Cache := hal _ (by simp [Symbols.scratch])
  obtain ⟨c1, hrun1, hmode1⟩ : ∃ c1, run [.sub lr lr 4, .strAt 0 k.r0Cache, .strAt 1 k.r1Cache]
      c.irq = some c1 ∧ c1.cpsr &&& modeMask = 0x12 :=
    ⟨_, irqCaches_run hr0 hr1 c.irq, irq_mode⟩
  obtain ⟨v, w, hrun2, -⟩ := toSystem_spec (privileged_irq hmode1)
  obtain ⟨c3, hrun3, -⟩ := @cacheSpAndLr_spec k ((c1.set 1 v).withCpsr w) hap
    (k.irqReturn .saveSpAndLrUsr)
  refine ⟨(c3.set 0 (c3.mem k.r0Cache)).set 1 (c3.mem k.r1Cache), ?_⟩
  simp only [irqHead, List.append_assoc]
  rw [run_append_of hrun1, run_append_of hrun2, run_append_of hrun3, run_cons_of (exec_ldrAt hr0),
    run_cons_of (exec_ldrAt hr1), set_mem, run_nil]

namespace Kernel

variable {Arrives : Kernel → Prop} {k k' k'' : Kernel}

/-! ## Runs -/

theorem Reaches.refl (k : Kernel) : Reaches m Arrives k k := ⟨[], .nil, by simp⟩

theorem Reaches.trans (h : Reaches m Arrives k k') (h' : Reaches m Arrives k' k'') :
    Reaches m Arrives k k'' := by
  obtain ⟨as, hrun, has⟩ := h
  obtain ⟨bs, hrun', hbs⟩ := h'
  exact ⟨as ++ bs, hrun.trans hrun', fun x hx => (List.mem_append.1 hx).elim (has x) (hbs x)⟩

theorem Reaches.single (h : Step m a k k') (hirq : a = .irq → Arrives k) :
    Reaches m Arrives k k' := by
  refine ⟨_, .single h, fun x hx => ?_⟩
  obtain rfl := List.mem_singleton.1 hx
  exact hirq

/-! ## Without an early interrupt -/

/-- Where `os_sp_cache` is written or a process is chosen there is one, and no handler runs
before. -/
structure SaveInv (k : Kernel) : Prop where
  stored : k.osSpStored → k.sys.sched.currentProcess ≠ none
  chosen : k.kmain = none → k.sys.place.Chosen → k.sys.sched.currentProcess ≠ none
  handler : k.kmain = none → ∀ is, k.sys.place = .asm .irq is → k.osSpStored

theorem Start.saveInv (h : k.Start) : SaveInv k := by
  have hmain : k.kmain ≠ none := by
    rw [h.kmain]
    exact Option.some_ne_none _
  refine ⟨fun hs => ?_, fun hnone => absurd hnone hmain, fun hnone => absurd hnone hmain⟩
  rw [h.osSpStored] at hs
  cases hs

theorem exec_keeps {i : Setup} (h : k.exec i = some k') :
    k'.sys.sched.currentProcess = k.sys.sched.currentProcess ∧ k'.osSpStored = k.osSpStored := by
  cases i with
  | asm i =>
    obtain ⟨c, -, rfl⟩ := Option.map_eq_some_iff.1 h
    exact ⟨rfl, rfl⟩
  | enableIrq n =>
    obtain rfl := Option.some.inj h
    rw [intcEnableIrq]
    split <;> exact ⟨rfl, rfl⟩
  | _ =>
    obtain rfl := Option.some.inj h
    exact ⟨rfl, rfl⟩

/-- A step keeps this, if it is no interrupt before the write of `os_sp_cache`. -/
theorem SaveInv.step (h : SaveInv k) (hlate : a = .irq → k.osSpStored) (hstep : Step m a k k') :
    SaveInv k' := by
  cases hstep with
  | code here _ =>
    exact ⟨h.stored, h.chosen, h.handler⟩
  | setup _ hexec =>
    obtain ⟨hcur, hstored⟩ := exec_keeps hexec
    refine ⟨fun hs => ?_, fun hnone => ?_, fun hnone => ?_⟩
    · exact fun hn => h.stored (hstored ▸ hs) (hcur ▸ hn)
    · cases hnone
    · cases hnone
  | schedulerRun _ => exact ⟨h.stored, fun _ => False.elim, fun _ _ hplace => by cases hplace⟩
  | irq _ => exact ⟨h.stored, fun _ => False.elim, fun _ _ _ => hlate rfl⟩
  | core here hstep hirq _ =>
    refine ⟨fun hs => ?_, fun _ => step_chosen hstep (h.chosen here), fun _ is hplace => ?_⟩
    · simp only [Bool.or_eq_true, decide_eq_true_eq] at hs
      refine step_currentProcess hstep (hs.elim h.stored fun hrestore => h.chosen here ?_)
      rw [hrestore]
      trivial
    · obtain ⟨js, hjs⟩ := step_irq hstep hirq hplace
      simp only [h.handler here js hjs, Bool.true_or]

theorem SaveInv.savesSafely (h : SaveInv k) : k.SavesSafely m.symbols := by
  rintro ⟨hmain, hplace⟩
  have hstored : k.osSpStored := by
    rcases hplace with hplace | hplace <;> exact h.handler hmain _ hplace
  exact ⟨h.stored hstored, hstored⟩

/-! ## With one -/

/-- The core is in the handler, before `is`. -/
def inIrq (k : Kernel) (c : Cpu) (is : List Instr) : Kernel :=
  { k with
    sys := k.sys.enterAsm c .irq is
    kmain := none }

theorem reaches_asm {post : List Instr} : ∀ {pre : List Instr} {c c' : Cpu}, run pre c = some c' →
    Reaches m Arrives (k.inIrq c (pre ++ post)) (k.inIrq c' post)
  | [], c, c', h => by
    obtain rfl := Option.some.inj h
    exact .refl _
  | i :: pre, c, c', h => by
    rw [run_cons, Option.bind_eq_some_iff] at h
    obtain ⟨c1, hexec, hrest⟩ := h
    have hstep : Step m .kernel (k.inIrq c (i :: (pre ++ post))) (k.inIrq c1 (pre ++ post)) := by
      have := Step.core (k := k.inIrq c (i :: (pre ++ post))) rfl
        (.exec (m := m) rfl hexec) (by decide) (by rintro st ⟨⟩)
      simpa [inIrq, Sys.enterAsm] using this
    exact (Reaches.single hstep (by rintro ⟨⟩)).trans (reaches_asm hrest)

theorem reaches_call (hap : Apart m.symbols.words) (h : Reaches m Arrives k k')
    (hint : k'.Interruptible) (harrives : Arrives k') :
    ∃ c, Reaches m Arrives k (k'.inIrq c (saveOnOsStack m.symbols m.symbols.irqReturn)) := by
  obtain ⟨c, hc⟩ := irqHead_runs hap k'.sys.cpu
  exact ⟨c, (h.trans (.single (.irq hint) fun _ => harrives)).trans (reaches_asm hc)⟩

theorem callsSave_inIrq (c : Cpu) (syms : Symbols) :
    (k.inIrq c (saveOnOsStack syms syms.irqReturn)).CallsSave syms :=
  ⟨rfl, .inl rfl⟩

/-! ## Through `kmain` -/

theorem exec_kmain {i : Setup} (is : List Setup) (h : k.exec i = some k') :
    exec { k with kmain := some is } i = some { k' with kmain := some is } := by
  cases i with
  | asm i =>
    obtain ⟨c, hexec, rfl⟩ := Option.map_eq_some_iff.1 h
    exact Option.map_eq_some_iff.2 ⟨c, hexec, rfl⟩
  | enableIrq n =>
    obtain rfl := Option.some.inj h
    rw [exec, intcEnableIrq, intcEnableIrq]
    split <;> rfl
  | _ =>
    obtain rfl := Option.some.inj h
    rfl

theorem reaches_setup {rest : List Setup} : ∀ {is : List Setup} {k k' : Kernel},
    is.foldlM exec k = some k' →
    Reaches m Arrives { k with kmain := some (is ++ rest) } { k' with kmain := some rest }
  | [], k, k', h => by
    obtain rfl := Option.some.inj h
    exact .refl _
  | i :: is, k, k', h => by
    obtain ⟨k1, hexec, hrest⟩ := Option.bind_eq_some_iff.1 h
    have hstep : Step m .kernel { k with kmain := some (i :: is ++ rest) }
        { k1 with kmain := some (is ++ rest) } :=
      @Step.setup m _ { k1 with kmain := some (i :: is ++ rest) } i _ rfl (exec_kmain _ hexec)
    exact (Reaches.single hstep (by rintro ⟨⟩)).trans (reaches_setup hrest)

/-- The statements of `scheduler_init` make up `scheduler_init`. -/
theorem schedulerInit_eq_init (hcur : k.sys.sched.currentProcess = none)
    (hpushes : k.sys.sched.pushes = []) :
    schedulerInit.foldlM exec k =
      some { k.withSched (Scheduler.init k.sys.sched.readyQueue 0 [1, 2, 3]) with
        idle := true } := by
  obtain ⟨⟨cpu, place, ⟨state, idle, cur, queue, pushes⟩, context⟩, kmain, rest⟩ := k
  cases hcur
  cases hpushes
  rfl

/-- The kernel at `system_interrupt_init`, with all interrupts off. -/
def sampleStart : Kernel where
  sys := { sampleSys with
    cpu := { sampleCpu 0x80300000 fun _ => 0 with cpsr := 0xdf, mem := fun _ => 0 }
    sched := ⟨fun _ => .undefined, 0, none, ⟨fun _ => 0, 0, 0, 0⟩, []⟩ }
  kmain := some kmainSetup
  vectorTable := false
  mir := fun _ => true
  ier := fun _ => 0
  idle := false
  osSpStored := false

theorem sampleStart_start : sampleStart.Start := ⟨rfl, rfl, rfl, rfl, rfl⟩

theorem sampleSymbols_apart : Apart sampleImage.symbols.words :=
  .of_all (by decide +kernel) (by decide +kernel)

/-- Contexts are saved safely exactly if no interrupt arrives before `restore_context_asm` has
written `os_sp_cache`. -/
theorem savesSafely_iff (m : Image) (hap : Apart m.symbols.words) (Arrives : Kernel → Prop)
    (k : Kernel) (hstart : k.Start) :
    k.Safe m Arrives ↔
      ∀ k', Reaches m Arrives k k' → k'.Interruptible → Arrives k' → k'.osSpStored := by
  constructor
  · intro h k' hreaches hint harrives
    by_contra hearly
    obtain ⟨c, hcall⟩ := reaches_call hap hreaches hint harrives
    exact hearly (h _ hcall (callsSave_inIrq c _)).2
  · rintro h k' ⟨as, hrun, has⟩
    have hlate : ∀ x ∈ as, x.2 = .irq → x.1.osSpStored := by
      intro x hx hirq
      obtain ⟨bs, k'', hsub, hrun', hstep⟩ := hrun.of_mem hx
      rw [hirq] at hstep
      refine h x.1 ⟨bs, hrun', fun y hy => has y (hsub hy)⟩ ?_ (has x hx hirq)
      cases hstep with
      | irq hint => exact hint
      | core _ _ hne _ => exact absurd rfl hne
    exact SaveInv.savesSafely (hrun.invariant SaveInv (fun x => x.2 = .irq → x.1.osSpStored)
      (fun _ _ _ hok hinv hstep => hinv.step hok hstep) hstart.saveInv hlate)

/-- Once it has been written, any interrupt may come. -/
theorem safe_once_stored : sampleStart.Safe sampleImage fun k => k.osSpStored :=
  (savesSafely_iff sampleImage sampleSymbols_apart _ sampleStart sampleStart_start).2
    fun _ _ _ hstored => hstored

/-- When `uart_init(0)` has returned, a byte at `UART0` has the context saved to no process. -/
theorem byte_after_uartInit_unsafe :
    ∃ k', sampleStart.Start ∧ Reaches sampleImage (fun _ => True) sampleStart k' ∧
      k'.CallsSave sampleImage.symbols ∧ k'.sys.sched.currentProcess = none ∧
      ¬k'.SavesSafely sampleImage.symbols := by
  obtain ⟨k1, hrun, hint, hnone⟩ : ∃ k1,
      (systemInterruptInit ++ uartInit 0).foldlM exec sampleStart = some k1 ∧
        k1.Interruptible ∧ k1.sys.sched.currentProcess = none :=
    ⟨_, rfl, ⟨by decide, rfl, 0, rfl, by decide⟩, rfl⟩
  have hreaches := @reaches_setup sampleImage (fun _ => True) (uartInit 1 ++ schedulerInit) _ _ _
    hrun
  obtain ⟨c, hcall⟩ := reaches_call sampleSymbols_apart hreaches hint trivial
  refine ⟨_, sampleStart_start, hcall, callsSave_inIrq c _, hnone, fun hsafe => ?_⟩
  exact (hsafe (callsSave_inIrq c _)).1 hnone

end Kernel

end BeagleKernel.Switch
