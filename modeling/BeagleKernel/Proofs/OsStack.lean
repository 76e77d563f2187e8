import BeagleKernel.Proofs.Context

/-!
# The stack of the OS over many switches

`os_sp_cache` is written before the last word of the restored context is popped, and the frame of
`scheduler_run` is never left. A switch lowers it by both, so after `n` switches it is what it was
only when their sum has gone round the whole address space.
-/

namespace BeagleKernel.Switch

open Arm Arm.Cpu

variable {k : Symbols} {F : UInt32} {c c' : Cpu} {n : ℕ}

/-- From a process just dispatched to the next: the process runs, and leaves the words of the
kernel alone; it yields; `scheduler_run`, with a frame of `F` bytes, takes the process `next`, of
System or User mode; and `restore_context_asm` goes to it. -/
inductive Cycle (k : Symbols) (F : UInt32) (c c' : Cpu) : Prop
  | intro (pcb next : UInt32) (atSwi saved called : Cpu)
      (leaves : ∀ a ∈ k.words, atSwi.mem a = c.mem a)
      (running : Running k pcb atSwi)
      (yields : yieldPath k atSwi = some saved)
      (mode : called.cpsr &&& modeMask = saved.cpsr &&& modeMask)
      (frame : called.get sp = saved.get sp - F)
      (takes : called.mem k.currentProcess = next)
      (apart : Apart (k.words ++ (pcbWords next ++ below (called.get sp) 15)))
      (system : bankOf (called.mem (next + cpsrOff)) = some .usr)
      (resumes : run (restoreContextAsm k) called = some c')

/-- `n` cycles, one after the other. -/
inductive Cycles (k : Symbols) (F : UInt32) : ℕ → Cpu → Cpu → Prop
  | zero (c : Cpu) : Cycles k F 0 c c
  | succ {n : ℕ} {c c' c'' : Cpu} (cycles : Cycles k F n c c') (cycle : Cycle k F c' c'') :
      Cycles k F (n + 1) c c''

theorem Cycle.osSpCache (h : Cycle k F c c') :
    c'.mem k.osSpCache = c.mem k.osSpCache - (F + 4) := by
  obtain ⟨pcb, next, atSwi, saved, called, leaves, running, yields, mode, frame, takes, apart,
    system, resumes⟩ := h
  obtain ⟨saved', hrun, hentered, -⟩ := running.yields
  obtain rfl : saved' = saved := Option.some.inj (hrun.symm.trans yields)
  obtain ⟨c3, hrun3, -, -, -, hos⟩ := restoreContextAsm_spec (mode.trans hentered.mode) takes apart
    ⟨fun _ => rfl, rfl, rfl⟩ system
  obtain rfl : c3 = c' := Option.some.inj (hrun3.symm.trans resumes)
  calc c3.mem k.osSpCache = called.get sp - 4 := hos
    _ = atSwi.mem k.osSpCache - F - 4 := by rw [frame, hentered.sp]
    _ = c.mem k.osSpCache - F - 4 := by rw [leaves _ (by simp [Symbols.words])]
    _ = c.mem k.osSpCache - (F + 4) := by grind

theorem Cycles.osSpCache (h : Cycles k F n c c') :
    c'.mem k.osSpCache = c.mem k.osSpCache - UInt32.ofNat (n * (F.toNat + 4)) := by
  induction h with
  | zero c => simp
  | succ _ cycle ih =>
    rw [cycle.osSpCache, ih, Nat.succ_mul, UInt32.ofNat_add, UInt32.ofNat_add, UInt32.ofNat_toNat]
    grind

/-- After `n` cycles `os_sp_cache` is as after the first dispatch exactly when what they keep has
gone round the address space. -/
theorem osSpCache_eq_iff (h : Cycles k F n c c') :
    c'.mem k.osSpCache = c.mem k.osSpCache ↔ 2 ^ 32 ∣ n * (F.toNat + 4) := by
  have hsub : ∀ a b : UInt32, a - b = a ↔ b = 0 := fun a b => by grind
  rw [h.osSpCache, hsub, ← UInt32.toNat_inj, UInt32.toNat_ofNat', Nat.dvd_iff_mod_eq_zero]
  rfl

/-- A process that yields, and is dispatched again from a frame of eight bytes. -/
theorem sample_cycle (pc : UInt32) (regs : Reg → UInt32) :
    ∃ c', Cycle sampleSymbols 8 (sampleCpu pc regs) c' := by
  have hrunning := sample_running pc regs
  obtain ⟨saved, hrun, hentered, -⟩ := hrunning.yields
  obtain ⟨called, hcalled⟩ : ∃ called, called = saved.set sp (saved.get sp - 8) := ⟨_, rfl⟩
  have hsp : called.get sp = 0x80009000 - 8 := by rw [hcalled, get_set_self, hentered.sp,
    sample_osSpCache]
  have hmem : called.mem = saved.mem := by rw [hcalled, set_mem]
  have hmode : called.cpsr = saved.cpsr := by rw [hcalled, set_cpsr]
  have hcur : called.mem sampleSymbols.currentProcess = samplePcb := by
    rw [hmem, hentered.currentProcess]
  have hap : Apart (sampleSymbols.words ++
      (pcbWords samplePcb ++ below (called.get sp) 15)) := by
    rw [hsp]
    exact .of_all (by decide +kernel) (by decide +kernel)
  have hsaved : Saved called.mem samplePcb _ _ _ := hmem ▸ hentered.saved
  have hu : bankOf ((sampleCpu pc regs).spsr .usr) = some .usr :=
    show bankOf 0x5f = some .usr by decide
  obtain ⟨c', hresumes, -⟩ := restoreContextAsm_spec (by rw [hmode, hentered.mode]) hcur hap
    hsaved hu
  exact ⟨c', .intro samplePcb samplePcb (sampleCpu pc regs) saved called (fun _ _ => rfl)
    hrunning hrun (by rw [hmode]) (by rw [hcalled, get_set_self]) hcur hap
    (by rw [hsaved.cpsr]; exact hu) hresumes⟩

theorem osSpCache_eq_iff_one : ∃ c', Cycles sampleSymbols 8 1 (sampleCpu 0 fun _ => 0) c' ∧
    (c'.mem sampleSymbols.osSpCache = (sampleCpu 0 fun _ => 0).mem sampleSymbols.osSpCache ↔
      2 ^ 32 ∣ 1 * ((8 : UInt32).toNat + 4)) := by
  obtain ⟨c', hcycle⟩ := sample_cycle 0 fun _ => 0
  exact ⟨c', .succ (.zero _) hcycle, osSpCache_eq_iff (.succ (.zero _) hcycle)⟩

/-- One switch, and twelve bytes of the stack are gone. -/
theorem one_cycle_lowers : ∃ c', Cycles sampleSymbols 8 1 (sampleCpu 0 fun _ => 0) c' ∧
    c'.mem sampleSymbols.osSpCache ≠ (sampleCpu 0 fun _ => 0).mem sampleSymbols.osSpCache := by
  obtain ⟨c', hcycle⟩ := sample_cycle 0 fun _ => 0
  refine ⟨c', .succ (.zero _) hcycle, ?_⟩
  rw [hcycle.osSpCache, sample_osSpCache]
  decide

end BeagleKernel.Switch
