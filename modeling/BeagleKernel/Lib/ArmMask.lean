import BeagleKernel.Lib.ArmBlocks

/-!
# Code that keeps interrupts masked

`masks r t is` follows an instruction list with one fact about the register `r`, that it has the
`I` bit set, and accepts it if every write of `cpsr` then leaves `CPSR.I` set. `exec_masks` is the
step and `run_masks` the run.
-/

namespace BeagleKernel.Arm

open Cpu

/-- The registers an instruction writes. -/
def Instr.dests : Instr → List Reg
  | .push _ => [sp]
  | .pop r => [sp, r]
  | .mov d _ | .sub d _ _ | .orr d _ _ | .bic d _ _ | .ldrConst d _ | .ldr d _ _ | .ldrAt d _
  | .mrsCpsr d | .mrsSpsr d => [d]
  | .bl _ => [lr]
  | .str .. | .strAt .. | .ldrPc _ | .msr _ | .msrImm _ | .cpsid _ | .bx _ => []

def Instr.writesCpsr : Instr → Bool
  | .msr _ | .msrImm _ | .cpsid _ => true
  | _ => false

variable {c c' : Cpu} {i : Instr} {is : List Instr} {r : Reg} {t : Bool}

theorem exec_plain (h : exec i c = some c') (hw : i.writesCpsr = false) :
    c'.cpsr = c.cpsr ∧ ∀ r, r ∉ i.dests → c'.get r = c.get r := by
  cases i <;> simp only [exec, load, store, Option.map_eq_some_iff, Option.some.injEq,
    Option.ite_none_right_eq_some, Instr.writesCpsr, reduceCtorEq] at h hw
  case push =>
    obtain ⟨_, ⟨-, rfl⟩, rfl⟩ := h
    exact ⟨rfl, fun q hq => get_set_of_ne _ _ (by simpa [Instr.dests] using hq)⟩
  case pop =>
    obtain ⟨_, -, rfl⟩ := h
    refine ⟨rfl, fun q hq => ?_⟩
    simp only [Instr.dests, List.mem_cons, List.not_mem_nil, or_false, not_or] at hq
    rw [get_set_of_ne _ _ hq.2, get_set_of_ne _ _ hq.1]
  case ldr | ldrAt =>
    obtain ⟨_, -, rfl⟩ := h
    exact ⟨rfl, fun q hq => get_set_of_ne _ _ (by simpa [Instr.dests] using hq)⟩
  case mov | sub | orr | bic | ldrConst | mrsCpsr | mrsSpsr | bl =>
    subst h
    exact ⟨rfl, fun q hq => get_set_of_ne _ _ (by simpa [Instr.dests] using hq)⟩
  case str | strAt | bx =>
    obtain ⟨-, rfl⟩ := h
    exact ⟨rfl, fun _ _ => rfl⟩
  case ldrPc =>
    obtain ⟨_, -, rfl⟩ := h
    exact ⟨rfl, fun _ _ => rfl⟩

theorem setCpsr_eq_some {w : UInt32} (h : c.setCpsr w = some c') : c' = c.withCpsr w := by
  rw [setCpsr, Option.ite_none_right_eq_some] at h
  exact (Option.some.inj h.2).symm

theorem get_withCpsr (hr : r < 8) (w : UInt32) : (c.withCpsr w).get r = c.get r := by
  rw [Cpu.get, Cpu.get, phys, phys, if_pos hr, if_pos hr, withCpsr_file]

/-- After an instruction that leaves `CPSR.I` set: whether `r` is known to have the `I` bit. -/
def keepsMask (r : Reg) (t : Bool) : Instr → Option Bool
  | .msr s => if t ∧ s = r then some t else none
  | .msrImm v => if v &&& iBit = iBit then some t else none
  | .cpsid _ => some t
  | .mrsCpsr d => some (t || d = r)
  | .orr d s _ => some (if d = r then t && s = r else t)
  | i => some (t && r ∉ i.dests)

def masks (r : Reg) : Bool → List Instr → Bool
  | _, [] => true
  | t, i :: is => match keepsMask r t i with
    | none => false
    | some t' => masks r t' is

/-- What is known of `r`. -/
def Knows (r : Reg) (t : Bool) (c : Cpu) : Prop := t = true → c.get r &&& iBit = iBit

theorem msr_masked {v : UInt32} (hv : v &&& iBit = iBit) (hm : c.Masked) (h : c.msr v = some c') :
    c'.Masked ∧ ∃ w, c' = c.withCpsr w := by
  obtain rfl := setCpsr_eq_some h
  refine ⟨?_, _, rfl⟩
  rw [Masked, withCpsr_cpsr]
  split
  · rw [masked_and_of_sub (by decide), hv]
  · rw [masked_and_of_disjoint (by decide) (by decide), hm]

theorem cpsid_masked {mode : UInt32} (hm : c.Masked) (h : c.cpsid mode = some c') :
    c'.Masked ∧ (c' = c ∨ ∃ w, c' = c.withCpsr w) := by
  rw [Cpu.cpsid] at h
  split at h
  · obtain rfl := setCpsr_eq_some h
    refine ⟨?_, .inr ⟨_, rfl⟩⟩
    rw [Masked, withCpsr_cpsr, masked_and_of_sub (by decide), UInt32.or_comm,
      UInt32.or_and_distrib]
    exact and_or_absorb mode iBit
  · obtain rfl := Option.some.inj h
    exact ⟨hm, .inl rfl⟩

theorem Knows.withCpsr (hr : r < 8) (ht : Knows r t c) (w : UInt32) : Knows r t (c.withCpsr w) := by
  rw [Knows, get_withCpsr hr]
  exact ht

/-- One instruction of accepted code. -/
theorem exec_keepsMask (hr : r < 8) {t' : Bool} (hkeeps : keepsMask r t i = some t')
    (hm : c.Masked) (ht : Knows r t c) (h : exec i c = some c') : c'.Masked ∧ Knows r t' c' := by
  by_cases hw : i.writesCpsr = true
  · cases i <;> simp only [Instr.writesCpsr, reduceCtorEq] at hw
    case msr s =>
      simp only [keepsMask, Option.ite_none_right_eq_some, Option.some.injEq] at hkeeps
      obtain ⟨⟨htrue, rfl⟩, rfl⟩ := hkeeps
      obtain ⟨hm', w, rfl⟩ := msr_masked (ht htrue) hm h
      exact ⟨hm', ht.withCpsr hr w⟩
    case msrImm v =>
      simp only [keepsMask, Option.ite_none_right_eq_some, Option.some.injEq] at hkeeps
      obtain ⟨hv, rfl⟩ := hkeeps
      obtain ⟨hm', w, rfl⟩ := msr_masked hv hm h
      exact ⟨hm', ht.withCpsr hr w⟩
    case cpsid mode =>
      obtain rfl : t = t' := Option.some.inj hkeeps
      obtain ⟨hm', rfl | ⟨w, rfl⟩⟩ := cpsid_masked hm h
      · exact ⟨hm', ht⟩
      · exact ⟨hm', ht.withCpsr hr w⟩
  · obtain ⟨hcpsr, hget⟩ := exec_plain h (by simpa using hw)
    have hm' : c'.Masked := by rw [Masked, hcpsr, hm]
    refine ⟨hm', fun ht' => ?_⟩
    have hother : r ∉ i.dests → t = true → c'.get r &&& iBit = iBit := fun hr' htrue => by
      rw [hget r hr', ht htrue]
    cases i
    case mrsCpsr d =>
      by_cases hd : d = r
      · obtain rfl : c.set d _ = c' := Option.some.inj h
        rw [hd, get_set_self, UInt32.and_assoc]
        exact hm
      · have : t' = t := by simpa [keepsMask, hd] using hkeeps.symm
        exact hother (by simpa [Instr.dests] using Ne.symm hd) (this ▸ ht')
    case orr d s v =>
      by_cases hd : d = r
      · obtain rfl : c.set d _ = c' := Option.some.inj h
        subst hd
        simp only [keepsMask, if_true, Option.some.injEq] at hkeeps
        rw [← hkeeps, Bool.and_eq_true, decide_eq_true_eq] at ht'
        rw [get_set_self, ht'.2, UInt32.or_and_distrib, ht ht'.1, UInt32.or_comm]
        exact and_or_absorb v iBit
      · have : t' = t := by simpa [keepsMask, hd] using hkeeps.symm
        exact hother (by simpa [Instr.dests] using Ne.symm hd) (this ▸ ht')
    case msr | msrImm | cpsid => exact absurd rfl hw
    all_goals
      simp only [keepsMask, Option.some.injEq] at hkeeps
      rw [← hkeeps, Bool.and_eq_true, decide_eq_true_eq] at ht'
      exact hother ht'.2 ht'.1

/-- Accepted code, one instruction on, is accepted code. -/
theorem exec_masks (hr : r < 8) (hmasks : masks r t (i :: is) = true) (hm : c.Masked)
    (ht : Knows r t c) (h : exec i c = some c') :
    c'.Masked ∧ ∃ t', masks r t' is = true ∧ Knows r t' c' := by
  rw [masks] at hmasks
  split at hmasks
  · cases hmasks
  · rename_i t' hkeeps
    obtain ⟨hm', ht'⟩ := exec_keepsMask hr hkeeps hm ht h
    exact ⟨hm', t', hmasks, ht'⟩

end BeagleKernel.Arm
