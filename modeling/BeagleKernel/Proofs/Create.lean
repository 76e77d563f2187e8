import BeagleKernel.Lib.Fill
import BeagleKernel.Proofs.Resume
import BeagleKernel.Sched.Process

/-!
# The context of a new process

The loop that clears the registers goes three words past them, over the stack pointer, the link
register and `cpsr`. The first two are set again after it; `cpsr` keeps the 15 the loop leaves in
it (`buildContext_built`), which is no mode, so `restore_context_asm` does not get to the process.
-/

namespace BeagleKernel.Sched

open Arm Switch

/-- The process at `proc` is the current one of a core on which `restore_context_asm` is called. -/
structure Restoring (k : Symbols) (proc : UInt32) (pcb : Pcb) (c : Cpu) : Prop where
  mode : c.cpsr &&& modeMask = modeSystem
  current : c.mem k.currentProcess = proc
  apart : Apart (k.words ++ (pcbWords proc ++ below (c.get sp) 15))
  saved : Saved c.mem proc (fun r => pcb.word r) (pcb.word programCounterWord) (pcb.word cpsrWord)

/-- The context of a process that can be run, in the slot at `proc`. -/
structure Runnable (proc entryPoint : UInt32) (pcb : Pcb) : Prop where
  indices : ∀ i ∈ clearedRegisters, i < numRegisters
  cpsr : pcb.word cpsrWord = modeSystem ||| iFBit
  programCounter : pcb.word programCounterWord = entryPoint
  linkRegister : pcb.word linkRegisterWord = 0
  stackPointer : pcb.word stackPointerWord = pcb.word stackTopWord
  stackTop : pcb.word stackTopWord = proc + stackOff + userStackSize
  restores : ∀ k c, Restoring k proc pcb c → ∃ c', run (restoreContextAsm k) c = some c' ∧
    c'.cpsr &&& modeMask = modeSystem ∧ c'.pc = entryPoint

/-- The context of a process with 15 in `cpsr`, from a loop that goes past the registers. -/
structure Built (proc entryPoint : UInt32) (pcb : Pcb) : Prop where
  indices : ∃ i ∈ clearedRegisters, numRegisters ≤ i
  cpsr : pcb.word cpsrWord = 15
  programCounter : pcb.word programCounterWord = entryPoint
  linkRegister : pcb.word linkRegisterWord = 0
  stackPointer : pcb.word stackPointerWord = pcb.word stackTopWord
  stackTop : pcb.word stackTopWord = proc + stackOff + userStackSize
  stops : ∀ k c, Restoring k proc pcb c → run (restoreContextAsm k) c = none

theorem setWord_word (pcb : Pcb) (i j : ℕ) (v : UInt32) :
    (pcb.setWord i v).word j = if j = i then v else pcb.word j :=
  Function.update_apply ..

theorem setState_word (pcb : Pcb) (st : ProcessState) (j : ℕ) :
    (pcb.setState st).word j = pcb.word j := rfl

theorem clearRegisters_word (pcb : Pcb) (j : ℕ) :
    (clearedRegisters.foldl (fun pcb i => pcb.setRegister i (UInt32.ofNat i)) pcb).word j =
      if j < 16 then UInt32.ofNat j else pcb.word j := by
  have hword : (clearedRegisters.foldl (fun pcb i => pcb.setRegister i (UInt32.ofNat i)) pcb).word =
      (List.range 16).foldl (fun f i => Function.update f (0 + i) (UInt32.ofNat i)) pcb.word := by
    refine (List.foldl_hom Pcb.word fun x i => ?_).symm
    rw [Nat.zero_add]
    rfl
  rw [hword, foldl_update_range]
  simp

/-- `msr` stops on a word without a mode. -/
theorem restoreContextAsm_stops {k : Symbols} {proc : UInt32} {pcb : Pcb} {c : Cpu}
    (h : Restoring k proc pcb c) (hmode : bankOf (pcb.word cpsrWord) = none) :
    run (restoreContextAsm k) c = none := by
  obtain ⟨c1, hrun, hframe, -, hget, -⟩ := stageContext_spec h.current h.apart
  rw [h.saved.cpsr] at hget
  obtain ⟨hmsr, hbank⟩ := msr_eq (c := c1) (by rw [hframe.cpsr, h.mode]) (pcb.word cpsrWord)
  have hexec : exec (.msr 1) c1 = none := by
    rw [exec, hget, hmsr, Cpu.setCpsr, hbank, hmode]
    rfl
  rw [restoreContextAsm, run_append_of hrun, run_cons, hexec]
  rfl

theorem buildContext_built (proc entryPoint : UInt32) (pcb : Pcb) :
    Built proc entryPoint (buildContext proc entryPoint pcb) := by
  have hcpsr : (buildContext proc entryPoint pcb).word cpsrWord = 15 := by
    simp only [buildContext, setWord_word, clearRegisters_word]
    rfl
  refine ⟨⟨15, by decide, by decide⟩, hcpsr, ?_, ?_, ?_, ?_,
    fun k c h => restoreContextAsm_stops h (by rw [hcpsr]; decide)⟩
  all_goals
    simp only [buildContext, setWord_word, setState_word, clearRegisters_word]
    simp

theorem Built.not_runnable {proc entryPoint : UInt32} {pcb : Pcb} (h : Built proc entryPoint pcb) :
    ¬ Runnable proc entryPoint pcb := fun hrun =>
  absurd (h.cpsr.symm.trans hrun.cpsr) (by decide)

variable {t : ProcessTable} {proc : Process} {free : List Process}

theorem processCreate_cons (hfree : t.freeProcesses.Queued (proc :: free))
    (base entryPoint : UInt32) : ∃ b, b.Queued free ∧
      t.processCreate base entryPoint = (some proc,
        { t with
          pcb := Function.update t.pcb proc
            (buildContext (slotAddress base proc) entryPoint (t.pcb proc))
          numProcesses := t.numProcesses + 1
          freeProcesses := b
          results := t.results ++ [some proc] }) := by
  obtain ⟨b, hpop, hb⟩ := hfree.pop_cons
  exact ⟨b, hb, by rw [ProcessTable.processCreate, hpop]⟩

theorem processCreate_nil (hfree : t.freeProcesses.Queued []) (base entryPoint : UInt32) :
    t.processCreate base entryPoint = (none, { t with results := t.results ++ [none] }) := by
  rw [ProcessTable.processCreate, hfree.pop_nil]

/-- The process in the first free slot gets a context that is complete but for its `cpsr`, and
cannot be run with it. -/
theorem processCreate_context (hfree : t.freeProcesses.Queued (proc :: free))
    (base entryPoint : UInt32) :
    (t.processCreate base entryPoint).1 = some proc ∧
      Built (slotAddress base proc) entryPoint ((t.processCreate base entryPoint).2.pcb proc) ∧
      ¬ Runnable (slotAddress base proc) entryPoint
        ((t.processCreate base entryPoint).2.pcb proc) := by
  obtain ⟨b, -, hcreate⟩ := processCreate_cons hfree base entryPoint
  rw [hcreate]
  have hbuilt : Built (slotAddress base proc) entryPoint
      (Function.update t.pcb proc
        (buildContext (slotAddress base proc) entryPoint (t.pcb proc)) proc) := by
    rw [Function.update_self]
    exact buildContext_built _ _ _
  exact ⟨rfl, hbuilt, hbuilt.not_runnable⟩

/-- A table with one free slot. -/
def oneFree : ProcessTable where
  pcb _ := ⟨fun _ => 0, .undefined⟩
  idleProcess := none
  currentIndex := 0
  numProcesses := 0
  processes := ⟨fun _ => 0, 0, 0, 0⟩
  freeProcesses := ⟨fun _ => 0, 0, 1, 1⟩
  readyQueue := ⟨fun _ => 0, 0, 0, 0⟩
  results := []

theorem oneFree_queued : oneFree.freeProcesses.Queued [0] where
  holds := ⟨by decide, by decide, fun i hi => by
    rw [List.length_singleton, Nat.lt_one_iff] at hi
    subst hi
    rfl⟩
  size := rfl
  tail := rfl

theorem processCreate_context_one :
    (oneFree.processCreate 0x80200000 0x80010000).1 = some 0 ∧
      Built (slotAddress 0x80200000 0) 0x80010000
        ((oneFree.processCreate 0x80200000 0x80010000).2.pcb 0) ∧
      ¬ Runnable (slotAddress 0x80200000 0) 0x80010000
        ((oneFree.processCreate 0x80200000 0x80010000).2.pcb 0) :=
  processCreate_context oneFree_queued 0x80200000 0x80010000

/-- The first process is created with 15 in `cpsr`. -/
theorem created_not_runnable : ¬ ∀ (t : ProcessTable) (proc : Process) (free : List Process),
    t.freeProcesses.Queued (proc :: free) → ∀ base entryPoint : UInt32,
      Runnable (slotAddress base proc) entryPoint
        ((t.processCreate base entryPoint).2.pcb proc) := by
  intro h
  obtain ⟨b, -, hcreate⟩ := processCreate_cons oneFree_queued 0x80200000 0x80010000
  have hrun := h oneFree 0 [] oneFree_queued 0x80200000 0x80010000
  rw [hcreate] at hrun
  simp only [Function.update_self] at hrun
  exact (buildContext_built _ _ _).not_runnable hrun

end BeagleKernel.Sched
