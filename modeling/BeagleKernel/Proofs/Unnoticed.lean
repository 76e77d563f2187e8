import BeagleKernel.Proofs.Entry
import BeagleKernel.Qemu.Handler
import Mathlib.Data.Set.Insert

/-!
# Interrupts the program does not notice

Under QEMU an interrupt leaves nothing behind but what the handlers wrote and two registers that
only an exception uses. So a program with words of its own runs as if it ran alone, wherever it is
interrupted: `Same` relates the two runs, and is kept by an instruction of both and by an interrupt
of one.
-/

namespace BeagleKernel.Qemu

open Arm Arm.Cpu Switch

variable {mine : Set UInt32} {step : Cpu → Option Cpu} {ret : UInt32} {c c' d : Cpu}

/-- The core but for what an interrupt overwrites, and the words `mine`. -/
structure Same (mine : Set UInt32) (c d : Cpu) : Prop where
  pc : c.pc = d.pc
  cpsr : c.cpsr = d.cpsr
  file : ∀ p, p ≠ (.irq, lr) → c.file p = d.file p
  spsr : ∀ b, b ≠ .irq → c.spsr b = d.spsr b
  mem : ∀ a ∈ mine, c.mem a = d.mem a

theorem Same.refl (c : Cpu) : Same mine c c :=
  ⟨rfl, rfl, fun _ _ => rfl, fun _ _ => rfl, fun _ _ => rfl⟩

/-- Code that does as well on what is the same, and leaves the stack of interrupts alone. -/
structure Program (mine : Set UInt32) (step : Cpu → Option Cpu) : Prop where
  same : ∀ c d c', Same mine c d → step c = some c' → ∃ d', step d = some d' ∧ Same mine c' d'
  stack : ∀ c c', step c = some c' → c'.file (.irq, sp) = c.file (.irq, sp)
  mode : ∀ c c', step c = some c' → (bankOf c'.cpsr).isSome

/-- A routine the handler may call: a call, and it keeps to words of its own. -/
structure Handles (mine : Set UInt32) (handleIrqC : Cpu → Option Cpu) : Prop where
  called : ∀ c c', handleIrqC c = some c' →
    Called (above (c.get sp) (handlerRegs.length + 1)) c c'
  mem : ∀ c c', handleIrqC c = some c' → ∀ a ∈ mine, c'.mem a = c.mem a

theorem irq_bank : c.irq.bank = .irq := bank_of _ (bankOf_irq irq_mode)

theorem irq_file_of_ne {p : Bank × Reg} (hp : p ≠ (.irq, lr)) : c.irq.file p = c.file p :=
  enter_file_of_ne _ hp

theorem irq_spsr_of_ne {b : Bank} (hb : b ≠ .irq) : c.irq.spsr b = c.spsr b :=
  enter_spsr_of_ne _ hb

theorem irq_get_sp : c.irq.get sp = c.file (.irq, sp) := by
  rw [Cpu.get, irq_bank]
  exact irq_file_of_ne (by decide)

theorem irq_get_lr : c.irq.get lr = c.pc + 4 := by
  rw [Cpu.get, irq_bank]
  exact Function.update_self (Bank.irq, lr) _ c.file

theorem irq_spsr_self : c.irq.spsr c.irq.bank = c.cpsr := by
  rw [irq_bank]
  exact Function.update_self Bank.irq _ c.spsr

/-- The interrupt, from the instruction it is taken before to that instruction again. -/
theorem irqHandlerAsm_spec {handleIrqC : Cpu → Option Cpu} (hhandles : Handles mine handleIrqC)
    (hmode : (bankOf c.cpsr).isSome) (hal : Aligned (c.file (.irq, sp)))
    (hrun : irqHandlerAsm handleIrqC ret c.irq = some c') :
    ∃ called c1, handleIrqC called = some c1 ∧ called.get 0 = 0 ∧ called.get lr = ret ∧
      (∀ a, a ∉ below (c.file (.irq, sp)) (handlerRegs.length + 1) → called.mem a = c.mem a) ∧
      c' = { c.irq with cpsr := c.cpsr, pc := c.pc, mem := c1.mem } := by
  obtain ⟨c0, hframe, hsp0, hmem0, haround⟩ := around_spec handlerRegs
    (fun c => (run [.ldrConst 0 0, .bl ret] c).bind handleIrqC) c.irq (by decide) (by decide)
    (by decide) (by rwa [irq_get_sp]) (by decide) (by rwa [irq_spsr_self])
  set called := (c0.set 0 0).set lr ret with hcalled
  have hbody : (run [.ldrConst 0 0, .bl ret] c0).bind handleIrqC = handleIrqC called := rfl
  have hsp : called.get sp = pushed (c.irq.get sp) (handlerRegs.length + 1) := by
    rw [hcalled, get_set_of_ne _ _ (by decide), get_set_of_ne _ _ (by decide), hsp0]
  specialize haround fun c1 h1 => by
    have h := hhandles.called _ _ (hbody ▸ h1)
    rw [hsp, above_pushed] at h
    have h' : Called (below (c.irq.get sp) (handlerRegs.length + 1)) called c1 :=
      ⟨h.mode, h.spsr, h.file, fun a ha => h.mem a (List.mem_reverse.2 ha)⟩
    exact (h'.of_set (show lr ∈ scratch by decide)).of_set (show 0 ∈ scratch by decide)
  rw [← irqHandlerAsm, hrun, hbody] at haround
  obtain ⟨c1, h1, hc1⟩ := Option.map_eq_some_iff.1 haround.symm
  refine ⟨called, c1, h1, ?_, get_set_self _ _ _, ?_, ?_⟩
  · rw [hcalled, get_set_of_ne _ _ (by decide), get_set_self]
  · rw [irq_get_sp] at hmem0
    exact hmem0
  · rw [← hc1, irq_spsr_self, irq_get_lr, UInt32.add_sub_cancel]

theorem Same.irq {handleIrqC : Cpu → Option Cpu} (h : Same mine c d)
    (hhandles : Handles mine handleIrqC) (hmode : (bankOf c.cpsr).isSome)
    (hal : Aligned (c.file (.irq, sp)))
    (hsep : ∀ a ∈ mine, a ∉ below (c.file (.irq, sp)) (handlerRegs.length + 1))
    (hrun : irqHandlerAsm handleIrqC ret c.irq = some c') :
    Same mine c' d ∧ c'.file (.irq, sp) = c.file (.irq, sp) := by
  obtain ⟨called, c1, h1, -, -, hmem, rfl⟩ := irqHandlerAsm_spec hhandles hmode hal hrun
  refine ⟨⟨h.pc, h.cpsr, fun p hp => ?_, fun b hb => ?_, fun a ha => ?_⟩, ?_⟩
  · exact (irq_file_of_ne hp).trans (h.file p hp)
  · exact (irq_spsr_of_ne hb).trans (h.spsr b hb)
  · exact (hhandles.mem _ _ h1 a ha).trans ((hmem a (hsep a ha)).trans (h.mem a ha))
  · exact irq_file_of_ne (show (Bank.irq, sp) ≠ (.irq, lr) by decide)

/-- A program interrupted anywhere, by any handlers, does what it does alone. -/
theorem interrupts_unnoticed (hprog : Program mine step) {es : List Event}
    (hhandles : ∀ handleIrqC, .irq handleIrqC ∈ es → Handles mine handleIrqC)
    (hmode : (bankOf c.cpsr).isSome) (hal : Aligned (c.file (.irq, sp)))
    (hsep : ∀ a ∈ mine, a ∉ below (c.file (.irq, sp)) (handlerRegs.length + 1))
    (hrun : happenAll step ret es c = some c') :
    ∃ d, alone step es c = some d ∧ Same mine c' d := by
  suffices h : ∀ d, Same mine c d → ∃ d', alone step es d = some d' ∧ Same mine c' d' from
    h c (.refl c)
  induction es generalizing c with
  | nil =>
    intro d hd
    obtain rfl := Option.some.inj hrun
    exact ⟨d, rfl, hd⟩
  | cons e es ih =>
    intro d hd
    obtain ⟨c1, he, hrun'⟩ := Option.bind_eq_some_iff.1 hrun
    have hrest := fun f hf => hhandles f (List.mem_cons_of_mem _ hf)
    rcases e with _ | handleIrqC
    · obtain ⟨d1, hd1, hsame⟩ := hprog.same c d c1 hd he
      have hsp := hprog.stack c c1 he
      obtain ⟨d', hd', hsame'⟩ := ih hrest (hprog.mode c c1 he) (by rwa [hsp]) (by rwa [hsp]) hrun'
        d1 hsame
      exact ⟨d', by rw [alone, hd1, Option.bind_some, hd'], hsame'⟩
    · rw [happen] at he
      split_ifs at he
      obtain ⟨hsame, hsp⟩ := hd.irq (hhandles _ List.mem_cons_self) hmode hal hsep he
      exact ih hrest (by rwa [hsame.cpsr, ← hd.cpsr]) (by rwa [hsp]) (by rwa [hsp]) hrun' d hsame

/-- Counts in `r0` and writes every count to a word of its own. -/
def counting (c : Cpu) : Option Cpu :=
  if (bankOf c.cpsr).isSome then
    some (((c.write 0x1000 (c.get 0)).set 0 (c.get 0 + 1)).jump (c.pc + 4))
  else none

/-- Leaves `r0` and `r12` anything, and a word elsewhere. -/
def ticking (c : Cpu) : Option Cpu :=
  if 0x80000 ∈ above (c.get sp) (handlerRegs.length + 1) then none
  else some (((c.set 0 5).set 12 6).write 0x80000 1)

def atStart : Cpu where
  file _ := 0x2000
  spsr _ := 0
  cpsr := 0x10
  pc := 0x8000
  mem _ := 0

theorem phys_zero (b : Bank) : phys b 0 = (.usr, 0) := by cases b <;> rfl

theorem counting_eq (c : Cpu) (h : (bankOf c.cpsr).isSome) :
    counting c = some (((c.write 0x1000 (c.get 0)).set 0 (c.get 0 + 1)).jump (c.pc + 4)) :=
  if_pos h

theorem counting_mode {c c' : Cpu} (h : counting c = some c') : (bankOf c.cpsr).isSome := by
  by_contra hmode
  rw [counting, if_neg hmode] at h
  cases h

theorem counting_program : Program {0x1000} counting := by
  refine ⟨fun c d c' h hc => ?_, fun c c' hc => ?_, fun c c' hc => ?_⟩
  all_goals
    have hmode := counting_mode hc
    rw [counting_eq c hmode] at hc
    obtain rfl := Option.some.inj hc
  · have h0 : c.get 0 = d.get 0 := by
      rw [Cpu.get, Cpu.get, phys_zero, phys_zero]
      exact h.file _ (by decide)
    refine ⟨_, counting_eq d (h.cpsr ▸ hmode), congrArg (· + 4) h.pc, h.cpsr, fun p hp => ?_,
      h.spsr, fun a ha => ?_⟩
    · change (Function.update c.file (phys _ 0) _) p = (Function.update d.file (phys _ 0) _) p
      rw [phys_zero, phys_zero, h0, Function.update_apply, Function.update_apply, h.file p hp]
    · change Function.update c.mem _ _ a = Function.update d.mem _ _ a
      rw [h0, Function.update_apply, Function.update_apply, h.mem a ha]
  · change (c.set 0 (c.get 0 + 1)).file (.irq, sp) = _
    rw [set_file, phys_zero, if_neg (by decide)]
  · exact hmode

theorem ticking_handles : Handles {0x1000} ticking := by
  refine ⟨fun c c' hc => ?_, fun c c' hc a ha => ?_⟩
  all_goals
    rw [ticking] at hc
    split_ifs at hc with hin
    obtain rfl := Option.some.inj hc
  · refine ⟨rfl, rfl, fun p hp => ?_, fun a ha => ?_⟩
    · have hout : ∀ r ∈ scratch, p ≠ phys c.bank r := fun r hr heq =>
        hp (heq ▸ List.mem_map_of_mem hr)
      rw [write_file, set_file, set_file, set_bank, if_neg (hout 12 (by decide)),
        if_neg (hout 0 (by decide))]
    · exact write_mem_of_ne _ _ fun heq => hin (heq ▸ ha)
  · obtain rfl := Set.mem_singleton_iff.1 ha
    exact write_mem_of_ne _ _ (by decide)

theorem interrupts_unnoticed_counting : ∃ c d,
    happenAll counting 0x9000 [.step, .irq ticking, .step] atStart = some c ∧
      alone counting [.step, .irq ticking, .step] atStart = some d ∧ Same {0x1000} c d := by
  have hsome : (happenAll counting 0x9000 [.step, .irq ticking, .step] atStart).isSome := by
    decide +kernel
  obtain ⟨c, hc⟩ := Option.isSome_iff_exists.1 hsome
  obtain ⟨d, hd, hsame⟩ := interrupts_unnoticed counting_program
    (fun f hf => by
      simp only [List.mem_cons, Event.irq.injEq, List.not_mem_nil, or_false, reduceCtorEq,
        false_or] at hf
      exact hf ▸ ticking_handles)
    (by decide) (by decide) (fun a ha => by rw [Set.mem_singleton_iff.1 ha]; decide) hc
  exact ⟨c, d, hc, hd, hsame⟩

end BeagleKernel.Qemu
