import BeagleKernel.Proofs.Resume

/-!
# Whether a context comes back

A process that yields is given `r0` and `r1` in each other's place, and its registers are popped
from the right stack only if the core's word for `spsr` in System mode is one of System or User
mode. A process that is interrupted goes on at its link register.
-/

namespace BeagleKernel.Switch

open Arm Arm.Cpu

variable {k : Symbols} {c : Cpu} {pcb : UInt32}

/-- The process `pcb` runs in `c`, and the words of the kernel, of the process and of the stacks are
words of their own. -/
structure Running (k : Symbols) (pcb : UInt32) (c : Cpu) : Prop where
  mode : bankOf c.cpsr = some .usr
  currentProcess : c.mem k.currentProcess = pcb
  apart : Apart (k.words ++ (pcbWords pcb ++
    (below (c.mem k.osSpCache) 15 ++ below (c.file (.svc, sp)) 2)))

/-- `c'` is about to run `restore_context_asm` for the process `pcb`, whose words are as they were
in `c`. -/
structure Redispatched (k : Symbols) (pcb : UInt32) (c c' : Cpu) : Prop where
  mode : c'.cpsr &&& modeMask = modeSystem
  currentProcess : c'.mem k.currentProcess = pcb
  words : ∀ a ∈ pcbWords pcb, c'.mem a = c.mem a
  apart : Apart (k.words ++ (pcbWords pcb ++ below (c'.get sp) 15))

/-- Restoring undoes saving: when the process of `c` yields and is dispatched again, it has its
registers. -/
def Restores (k : Symbols) (pcb : UInt32) (c : Cpu) : Prop :=
  ∃ c1, yieldPath k c = some c1 ∧ ∀ c2, Redispatched k pcb c1 c2 →
    ∃ c3, run (restoreContextAsm k) c2 = some c3 ∧ ∀ r, c3.get r = c.get r

/-- The process of `c`, interrupted before the instruction at `pc`, is saved as it was, and when it
is dispatched again goes on there, with its `lr` and its flags. -/
def Preempts (k : Symbols) (pcb : UInt32) (c : Cpu) : Prop :=
  ∃ c1, irqPath k c = some c1 ∧ c1.mem (pcb + pcOff) = c.pc ∧
    c1.mem (pcb + regOff lr) = c.get lr ∧ c1.mem (pcb + cpsrOff) = c.cpsr ∧
    ∀ c2, Redispatched k pcb c1 c2 →
      ∃ c3, run (restoreContextAsm k) c2 = some c3 ∧ c3.pc = c.pc ∧ c3.get lr = c.get lr ∧
        c3.cpsr &&& flagMask = c.cpsr &&& flagMask

theorem Saved.congr {m m' : UInt32 → UInt32} {regs : Reg → UInt32} {pc cpsr : UInt32}
    (h : Saved m pcb regs pc cpsr) (hm : ∀ a ∈ pcbWords pcb, m' a = m a) :
    Saved m' pcb regs pc cpsr :=
  ⟨fun r => (hm _ (reg_mem_pcbWords pcb r)).trans (h.reg r),
    (hm _ (pc_mem_pcbWords pcb)).trans h.pc, (hm _ (cpsr_mem_pcbWords pcb)).trans h.cpsr⟩

theorem Redispatched.restores {c1 c2 : Cpu} {regs : Reg → UInt32} {pc u : UInt32}
    (h : Redispatched k pcb c1 c2) (hsaved : Saved c1.mem pcb regs pc u)
    (hu : bankOf u = some .usr) :
    ∃ c3, run (restoreContextAsm k) c2 = some c3 ∧ (∀ r, c3.get r = regs r) ∧ c3.pc = pc ∧
      c3.cpsr = masked fcMask c2.cpsr (u &&& ~~~iBit) ∧ c3.mem k.osSpCache = c2.get sp - 4 :=
  restoreContextAsm_spec h.mode h.currentProcess h.apart (hsaved.congr h.words) hu

theorem Entered.redispatched (h : Entered k pcb c c')
    (hap : Apart (k.words ++ (pcbWords pcb ++ below (c.mem k.osSpCache) 15))) :
    Redispatched k pcb c' c' :=
  ⟨h.mode, h.currentProcess, fun _ _ => rfl, by rwa [h.sp]⟩

/-- With the `cpsr` of another mode, or of none, some dispatch brings back another `r0`. -/
theorem exists_not_restored {c1 : Cpu} {regs : Reg → UInt32} {pc u : UInt32}
    (h : Redispatched k pcb c1 c1) (hsaved : Saved c1.mem pcb regs pc u)
    (hu : bankOf u ≠ some .usr) (v : UInt32) :
    ∃ c2, Redispatched k pcb c1 c2 ∧
      ∀ c3, run (restoreContextAsm k) c2 = some c3 → c3.get 0 ≠ v := by
  rcases hb : bankOf u with _ | b
  · -- there is no such mode, and the write of `cpsr` stops
    refine ⟨c1, h, fun c3 hrun => ?_⟩
    obtain ⟨c2, hrun1, hframe, -, hget1, -, -, -⟩ := stageContext_spec h.currentProcess h.apart
    obtain ⟨hmsr, hbank⟩ := msr_eq (c := c2) (by rw [hframe.cpsr, h.mode]) u
    rw [hsaved.cpsr] at hget1
    rw [restoreContextAsm, run_append_of hrun1, run_cons, exec, hget1, hmsr, setCpsr, hbank,
      hb] at hrun
    cases hrun
  · -- the stack of the other mode may be anywhere, on `os_sp_cache` say
    have hbu : b ≠ .usr := fun hbu => hu (by rw [hb, hbu])
    obtain ⟨c2, hc2⟩ : ∃ c2 : Cpu, c2 = { c1.write k.osSpCache (v + 1) with
      file := Function.update c1.file (b, sp) k.osSpCache } := ⟨_, rfl⟩
    have hos : k.osSpCache ∈ k.words := by simp [Symbols.words]
    have hmem : ∀ a, a ≠ k.osSpCache → c2.mem a = c1.mem a := fun a ha => by
      rw [hc2]
      exact Function.update_of_ne ha ..
    have hcpsr : c2.cpsr = c1.cpsr := by rw [hc2]; rfl
    have hget : ∀ r, c2.get r = c1.get r := fun r => by
      rw [get_usr (bank_of _ (bankOf_system h.mode)),
        get_usr (bank_of _ (hcpsr ▸ bankOf_system h.mode)), hc2]
      exact Function.update_of_ne (by simp [hbu.symm]) ..
    have hne : k.currentProcess ≠ k.osSpCache ∧ k.pcCache ≠ k.osSpCache := by
      have := h.apart.left.nodup
      simp only [Symbols.words, List.nodup_cons, List.mem_cons] at this
      tauto
    have hred : Redispatched k pcb c1 c2 := by
      refine ⟨hcpsr ▸ h.mode, ?_, fun a ha => ?_, ?_⟩
      · rw [hmem _ hne.1, h.currentProcess]
      · exact hmem a (h.apart.ne hos (List.mem_append_left _ ha)).symm
      · rw [hget]
        exact h.apart
    refine ⟨c2, hred, fun c4 hrun => ?_⟩
    obtain ⟨c3, hrun1, hframe, -, hget1, -, -, hmem3⟩ :=
      stageContext_spec hred.currentProcess hred.apart
    have hmode3 : c3.cpsr &&& modeMask = modeSystem := by rw [hframe.cpsr, hred.mode]
    obtain ⟨hmsr, hbank⟩ := msr_eq hmode3 u
    rw [hb] at hbank
    rw [hred.words _ (cpsr_mem_pcbWords pcb), hsaved.cpsr] at hget1
    obtain ⟨w, hw⟩ : ∃ w, w = masked fcMask c3.cpsr (u &&& ~~~iBit) := ⟨_, rfl⟩
    rw [← hw] at hmsr hbank
    have hexec : exec (.msr 1) c3 = some (c3.withCpsr w) := by
      rw [exec, hget1, hmsr, setCpsr_of _ _ hbank]
    have hsp : (c3.withCpsr w).get sp = k.osSpCache := by
      have hbank2 : c2.bank = .usr := bank_of _ (bankOf_system hred.mode)
      rw [Cpu.get, bank_of (c3.withCpsr w) hbank, phys_banked (by decide), withCpsr_file,
        hframe.file _ (by simp [hbank2, phys_usr, hbu]), hc2]
      exact Function.update_self ..
    obtain ⟨c5, hrun2, -, hmap, -⟩ := resumeContext_spec (c := c3.withCpsr w) h.apart.left
      (by rw [hsp]; exact h.apart.left.aligned _ hos)
    rw [restoreContextAsm, run_append_of hrun1, run_cons_of hexec, hrun2, Option.some.injEq] at hrun
    have h0 : c5.get 0 = c3.mem k.osSpCache := by
      rw [hsp] at hmap
      exact (List.cons.inj hmap).1
    have hv : c3.mem k.osSpCache = v + 1 := by
      rw [hmem3 _ fun hin => ?_, hc2]
      · exact Function.update_self ..
      · rcases List.mem_cons.1 hin with hin | hin
        · exact hne.2 hin.symm
        · exact hred.apart.ne hos (List.mem_append_right _ hin) rfl
    rw [← hrun, h0, hv]
    grind

theorem slot_fixed_iff {regs : Reg → UInt32} : (∀ r, regs (slot r) = regs r) ↔ regs 0 = regs 1 := by
  refine ⟨fun h => h 1, fun h r => ?_⟩
  rcases slot_cases r with rfl | rfl | rfl | rfl | hr
  · exact h.symm
  · exact h
  · rfl
  · rfl
  · rw [(slot_plain hr).1]

theorem Running.yields (h : Running k pcb c) :
    ∃ c1, yieldPath k c = some c1 ∧ Entered k pcb c c1 ∧ Redispatched k pcb c1 c1 := by
  obtain ⟨c1, hrun, hentered⟩ := yieldPath_spec (bank_of _ h.mode) h.currentProcess (h.apart.sublist
    (.append_left (.append_left (.append_right (below_sublist _ (by decide)) _) _) _))
  exact ⟨c1, hrun, hentered, hentered.redispatched (h.apart.sublist
    (.append_left (.append_left (List.sublist_append_left ..) _) _))⟩

theorem Running.interrupted (h : Running k pcb c) :
    ∃ c1, irqPath k c = some c1 ∧ Entered k pcb c c1 :=
  irqPath_spec (bank_of _ h.mode) h.currentProcess (h.apart.sublist (.append_left (.append_left
    ((below_sublist _ (by decide)).trans (List.sublist_append_left ..)) _) _))

/-! ## Yielding -/

theorem Restores.swapped_eq (hrestores : Restores k pcb c) (h : Running k pcb c) :
    c.get 0 = c.get 1 ∧ bankOf (c.spsr .usr) = some .usr := by
  obtain ⟨c1, hrun, hentered, hself⟩ := h.yields
  obtain ⟨c1', hrun', hall⟩ := hrestores
  obtain rfl : c1 = c1' := Option.some.inj (hrun.symm.trans hrun')
  have hu : bankOf (c.spsr .usr) = some .usr := by
    by_contra hu
    obtain ⟨c2, hred, hne⟩ := exists_not_restored hself hentered.saved hu (c.get 0)
    obtain ⟨c3, hrun3, hget⟩ := hall c2 hred
    exact hne c3 hrun3 (hget 0)
  refine ⟨?_, hu⟩
  obtain ⟨c3, hrun3, hget⟩ := hall c1 hself
  obtain ⟨c3', hrun3', hregs, -⟩ := hself.restores hentered.saved hu
  obtain rfl : c3 = c3' := Option.some.inj (hrun3.symm.trans hrun3')
  exact slot_fixed_iff.1 fun r => (hregs r).symm.trans (hget r)

/-- Restoring undoes saving exactly for a process whose `r0` and `r1` are equal, on a core whose
word for `spsr` in System mode is one of System or User mode. -/
theorem restores_iff (h : Running k pcb c) :
    Restores k pcb c ↔ c.get 0 = c.get 1 ∧ bankOf (c.spsr .usr) = some .usr := by
  refine ⟨fun hrestores => hrestores.swapped_eq h, fun ⟨h01, hu⟩ => ?_⟩
  obtain ⟨c1, hrun, hentered, -⟩ := h.yields
  refine ⟨c1, hrun, fun c2 hred => ?_⟩
  obtain ⟨c3, hrun3, hregs, -⟩ := hred.restores hentered.saved hu
  exact ⟨c3, hrun3, fun r => (hregs r).trans (slot_fixed_iff.2 h01 r)⟩

/-- Addresses, and a process that runs at `pc` with the registers `regs`. -/
def sampleSymbols : Symbols where
  currentProcess := 0x80100000
  pcCache := 0x80000100
  osSpCache := 0x80000104
  usrSpCache := 0x80000108
  irqLrCache := 0x8000010c
  r0Cache := 0x80000200
  r1Cache := 0x80000204
  svcReturn
    | .saveSpAndLrUsr => 0x80000288
    | .loadOsSp => 0x8000029c
    | .saveContext => 0x800002a0
  irqReturn
    | .saveSpAndLrUsr => 0x80000224
    | .loadOsSp => 0x80000230
    | .saveContext => 0x80000234

def samplePcb : UInt32 := 0x80200000

def sampleCpu (pc : UInt32) (regs : Reg → UInt32) : Cpu where
  file p := if p.1 = .usr then regs p.2 else 0x80008000
  spsr _ := 0x5f
  cpsr := 0x5f
  pc := pc
  mem a :=
    if a = sampleSymbols.currentProcess then samplePcb
    else if a = sampleSymbols.osSpCache then 0x80009000 else 0

/-- Addresses can be checked one by one. -/
theorem Apart.of_all {words : List UInt32} (h : words.all (fun a => decide (Aligned a)) = true)
    (hnodup : words.Nodup) : Apart words :=
  ⟨fun a ha => of_decide_eq_true (List.all_eq_true.1 h a ha), hnodup⟩

theorem sampleCpu_mem (pc : UInt32) (regs : Reg → UInt32) (a : UInt32) :
    (sampleCpu pc regs).mem a = if a = sampleSymbols.currentProcess then samplePcb
      else if a = sampleSymbols.osSpCache then 0x80009000 else 0 := rfl

theorem sample_osSpCache (pc : UInt32) (regs : Reg → UInt32) :
    (sampleCpu pc regs).mem sampleSymbols.osSpCache = 0x80009000 := by
  rw [sampleCpu_mem, if_neg (by decide), if_pos rfl]

theorem sample_running (pc : UInt32) (regs : Reg → UInt32) :
    Running sampleSymbols samplePcb (sampleCpu pc regs) := by
  have hap : Apart (sampleSymbols.words ++ (pcbWords samplePcb ++
    (below 0x80009000 15 ++ below 0x80008000 2))) :=
    .of_all (by decide +kernel) (by decide +kernel)
  refine ⟨show bankOf 0x5f = some .usr by decide, ?_, ?_⟩
  · rw [sampleCpu_mem, if_pos rfl]
  · rw [sample_osSpCache]
    exact hap

/-- With the same word in `r0` and `r1` it gets its registers back. -/
theorem restores_equal_pair :
    Restores sampleSymbols samplePcb (sampleCpu 0x80300000 fun _ => 7) :=
  (restores_iff (sample_running _ _)).2 ⟨rfl, rfl⟩

/-- With its own number in each register it does not. -/
theorem not_restores_numbered :
    Running sampleSymbols samplePcb (sampleCpu 0x80300000 fun r => UInt32.ofNat r) ∧
      ¬Restores sampleSymbols samplePcb (sampleCpu 0x80300000 fun r => UInt32.ofNat r) :=
  ⟨sample_running _ _, fun h =>
    absurd (h.swapped_eq (sample_running _ _)).1 (by decide)⟩

/-! ## Being interrupted -/

theorem Preempts.lr_eq (hpreempts : Preempts k pcb c) (h : Running k pcb c) :
    c.get lr = c.pc ∧ c.spsr .usr = c.cpsr := by
  obtain ⟨c1, hrun, hentered⟩ := h.interrupted
  obtain ⟨c1', hrun', hpc, -, hcpsr, -⟩ := hpreempts
  obtain rfl : c1 = c1' := Option.some.inj (hrun.symm.trans hrun')
  exact ⟨hentered.saved.pc.symm.trans hpc, hentered.saved.cpsr.symm.trans hcpsr⟩

/-- An interrupted process is saved and goes on as it was exactly where its `lr` is the address of
its next instruction, on a core that gives its `cpsr` for `spsr` in System mode. -/
theorem preempts_iff (h : Running k pcb c) :
    Preempts k pcb c ↔ c.get lr = c.pc ∧ c.spsr .usr = c.cpsr := by
  refine ⟨fun hpreempts => hpreempts.lr_eq h, fun ⟨hlr, hspsr⟩ => ?_⟩
  obtain ⟨c1, hrun, hentered⟩ := h.interrupted
  refine ⟨c1, hrun, hentered.saved.pc.trans hlr, hentered.saved.reg lr,
    hentered.saved.cpsr.trans hspsr, fun c2 hred => ?_⟩
  obtain ⟨c3, hrun3, hregs, hpc, hcpsr, -⟩ := hred.restores hentered.saved (hspsr ▸ h.mode)
  refine ⟨c3, hrun3, hpc.trans hlr, hregs lr, ?_⟩
  rw [hcpsr, masked_and_of_sub (by decide), UInt32.and_assoc, hspsr]
  rfl

/-- Interrupted where its last call returned to, it goes on there. -/
theorem preempts_at_return :
    Preempts sampleSymbols samplePcb (sampleCpu 0x80300000 fun _ => 0x80300000) :=
  (preempts_iff (sample_running _ _)).2 ⟨rfl, rfl⟩

/-- Interrupted one instruction on, it does not. -/
theorem not_preempts_behind_return :
    Running sampleSymbols samplePcb (sampleCpu 0x80300004 fun _ => 0x80300000) ∧
      ¬Preempts sampleSymbols samplePcb (sampleCpu 0x80300004 fun _ => 0x80300000) :=
  ⟨sample_running _ _, fun h => absurd (h.lr_eq (sample_running _ _)).1 (by decide)⟩

end BeagleKernel.Switch
