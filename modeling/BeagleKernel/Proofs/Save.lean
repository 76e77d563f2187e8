import BeagleKernel.Switch.Routines

/-!
# What saving a context stores

`save_context_asm` stores the registers it is called with, but `r0` and `r1` each in the other's
slot; `sp` and `lr` as cached; `lr` for the program counter as well; and for `cpsr` what the core
gives for `spsr` in System mode. Then the two handlers up to the call.
-/

namespace BeagleKernel.Switch

open Arm Arm.Cpu

/-- A context in the words of a process. -/
structure Saved (mem : UInt32 → UInt32) (pcb : UInt32) (regs : Reg → UInt32) (pc cpsr : UInt32) :
    Prop where
  reg : ∀ r, mem (pcb + regOff r) = regs r
  pc : mem (pcb + pcOff) = pc
  cpsr : mem (pcb + cpsrOff) = cpsr

/-- The slots of `r0` and `r1` swapped. -/
def slot : Reg → Reg
  | 0 => 1
  | 1 => 0
  | r => r

variable {k : Symbols} {c : Cpu} {pcb : UInt32}

/-! ## Words -/

theorem regOff_inj {q r : Reg} : regOff q = regOff r ↔ q = r := by
  revert q r
  decide

theorem regOff_ne_pcOff (r : Reg) : regOff r ≠ pcOff := by
  revert r
  decide

theorem regOff_ne_cpsrOff (r : Reg) : regOff r ≠ cpsrOff := by
  revert r
  decide

theorem reg_mem_pcbWords (pcb : UInt32) (r : Reg) : pcb + regOff r ∈ pcbWords pcb :=
  List.mem_append_left _ (List.mem_map_of_mem (List.mem_finRange r))

theorem cpsr_mem_pcbWords (pcb : UInt32) : pcb + cpsrOff ∈ pcbWords pcb := by simp [pcbWords]

theorem pc_mem_pcbWords (pcb : UInt32) : pcb + pcOff ∈ pcbWords pcb := by simp [pcbWords]

theorem Apart.sublist {as bs : List UInt32} (h : Apart bs) (hsub : as.Sublist bs) : Apart as :=
  ⟨fun a ha => h.aligned a (hsub.subset ha), h.nodup.sublist hsub⟩

theorem Apart.left {as bs : List UInt32} (h : Apart (as ++ bs)) : Apart as :=
  h.sublist (List.sublist_append_left as bs)

theorem Apart.right {as bs : List UInt32} (h : Apart (as ++ bs)) : Apart bs :=
  h.sublist (List.sublist_append_right as bs)

theorem Apart.ne {as bs : List UInt32} (h : Apart (as ++ bs)) {a b : UInt32} (ha : a ∈ as)
    (hb : b ∈ bs) : a ≠ b :=
  (List.nodup_append.1 h.nodup).2.2 a ha b hb

/-! ## Saving -/

theorem slot_cases (r : Reg) : r = 0 ∨ r = 1 ∨ r = sp ∨ r = lr ∨ r ∈ plainRegs := by
  revert r
  decide

theorem slot_plain {r : Reg} (h : r ∈ plainRegs) :
    slot r = r ∧ r ≠ 0 ∧ r ≠ 1 ∧ r ≠ sp ∧ r ≠ lr := by
  revert r
  decide

theorem ldrCurrentProcess_spec (hcur : c.mem k.currentProcess = pcb)
    (hal : Aligned k.currentProcess) :
    run (ldrCurrentProcess k) c = some (c.set 0 pcb) := by
  simp [ldrCurrentProcess, run_cons, exec, load_of _ hal, set_set, hcur]

/-- The context `save_context_asm` finds: the registers, `sp` and `lr` as cached. -/
def cached (k : Symbols) (c : Cpu) (r : Reg) : UInt32 :=
  if r = sp then c.mem k.usrSpCache else if r = lr then c.mem k.irqLrCache else c.get r

/-- Behind the plain registers: `sp`, `lr`, `pc` and `cpsr`, and what the stack holds of `r1` and
`r0`, the last pushed first. -/
theorem saveRest_spec {ret s : UInt32} (h0 : c.get 0 = pcb) (hs : c.get sp = s)
    (hap : Apart (k.words ++ (pcbWords pcb ++ [s + 4, s]))) (hlr : c.get lr = ret) :
    ∃ c', run ([.ldrAt 1 k.usrSpCache, .str 1 0 (regOff sp), .ldrAt 1 k.irqLrCache,
        .str 1 0 (regOff lr), .str 1 0 pcOff, .mrsSpsr 1, .str 1 0 cpsrOff] ++
        [.pop 1, .str 1 0 (regOff 0), .pop 1, .str 1 0 (regOff 1), .bx ret]) c = some c' ∧
      Frame [1, sp] c c' ∧ c'.get sp = s + 4 + 4 ∧
      Saved c'.mem pcb (fun r => if r = 1 then c.mem (s + 4) else if r = 0 then c.mem s else
          if r = lr then c.mem k.irqLrCache else if r = sp then c.mem k.usrSpCache else
          c.mem (pcb + regOff r))
        (c.mem k.irqLrCache) (c.spsr c.bank) ∧
      ∀ a, a ∉ pcbWords pcb → c'.mem a = c.mem a := by
  have hw : ∀ a ∈ k.words, Aligned a := hap.left.aligned
  have hp : ∀ a ∈ pcbWords pcb, Aligned a := hap.right.left.aligned
  have hst : ∀ a ∈ [s + 4, s], Aligned a := hap.right.right.aligned
  have hr : ∀ r, Aligned (pcb + regOff r) := fun r => hp _ (reg_mem_pcbWords pcb r)
  have hpc := hp _ (pc_mem_pcbWords pcb)
  have hcpsr := hp _ (cpsr_mem_pcbWords pcb)
  have husr : Aligned k.usrSpCache := hw _ (by simp [Symbols.words])
  have hirq : Aligned k.irqLrCache := hw _ (by simp [Symbols.words])
  simp only [List.forall_mem_cons] at hst
  obtain ⟨h2, h1, -⟩ := hst
  have hwne : ∀ a ∈ k.words, ∀ b ∈ pcbWords pcb, a ≠ b := fun a ha b hb =>
    hap.ne ha (List.mem_append_left _ hb)
  have hL : ∀ r, k.irqLrCache ≠ pcb + regOff r := fun r =>
    hwne _ (by simp [Symbols.words]) _ (reg_mem_pcbWords pcb r)
  have hne : ∀ b ∈ pcbWords pcb, s ≠ b ∧ s + 4 ≠ b := fun b hb =>
    ⟨(hap.right.ne hb (by simp)).symm, (hap.right.ne hb (by simp)).symm⟩
  obtain ⟨hs1, hs1'⟩ := hne _ (pc_mem_pcbWords pcb)
  obtain ⟨hs2, hs2'⟩ := hne _ (cpsr_mem_pcbWords pcb)
  have hner := fun r => hne _ (reg_mem_pcbWords pcb r)
  set c1 : Cpu := c.set 1 (c.spsr c.bank)
      |>.write (pcb + regOff sp) (c.mem k.usrSpCache)
      |>.write (pcb + regOff lr) (c.mem k.irqLrCache)
      |>.write (pcb + pcOff) (c.mem k.irqLrCache)
      |>.write (pcb + cpsrOff) (c.spsr c.bank) with hc1
  refine ⟨c.set sp (s + 4 + 4) |>.set 1 (c.mem (s + 4))
      |>.write (pcb + regOff sp) (c.mem k.usrSpCache)
      |>.write (pcb + regOff lr) (c.mem k.irqLrCache)
      |>.write (pcb + pcOff) (c.mem k.irqLrCache)
      |>.write (pcb + cpsrOff) (c.spsr c.bank)
      |>.write (pcb + regOff 0) (c.mem s)
      |>.write (pcb + regOff 1) (c.mem (s + 4)), ?_, ?_, ?_, ⟨fun r => ?_, ?_, ?_⟩, fun a ha => ?_⟩
  · have hbanked : run [.ldrAt 1 k.usrSpCache, .str 1 0 (regOff sp), .ldrAt 1 k.irqLrCache,
        .str 1 0 (regOff lr), .str 1 0 pcOff, .mrsSpsr 1, .str 1 0 cpsrOff] c = some c1 := by
      simp [run_cons, exec, load_of, store_of, husr, hirq, get_set, h0, hr, hpc, hcpsr, sp, lr,
        write_mem_of_ne, hL, set_set, hc1]
    rw [run_append_of hbanked]
    have hcomm : ∀ (c : Cpu) v w, (c.set 1 v).set 13 w = (c.set 13 w).set 1 v := fun c v w =>
      c.set_comm v (by decide) w
    simp [run_cons, exec, load_of, store_of, get_set, h0, hr, hs, h1, h2, hlr, sp, lr,
      write_mem_of_ne, hner, hs1, hs1', hs2, hs2', set_set, hcomm, hc1]
  · exact ((((((((Frame.refl c).set (by simp) _).set (by simp) _).write _ _).write _ _).write _
      _).write _ _).write _ _).write _ _
  · simp [get_set, sp]
  · simp [write_mem, regOff_inj, regOff_ne_pcOff, regOff_ne_cpsrOff]
  · simp [write_mem, pcOff, cpsrOff, regOff]
  · simp [write_mem, (regOff_ne_cpsrOff _).symm]
  · have hr := fun r => (ne_of_mem_of_not_mem (reg_mem_pcbWords pcb r) ha).symm
    have hpc := (ne_of_mem_of_not_mem (pc_mem_pcbWords pcb) ha).symm
    have hcpsr := (ne_of_mem_of_not_mem (cpsr_mem_pcbWords pcb) ha).symm
    simp [write_mem, hr, hpc, hcpsr]

theorem pushPair_spec {s : UInt32} (hs : c.get sp = s) (h4 : Aligned (s - 4))
    (h8 : Aligned (s - 4 - 4)) :
    run [.push 0, .push 1] c = some (c.set sp (s - 4 - 4) |>.write (s - 4) (c.get 0)
      |>.write (s - 4 - 4) (c.get 1)) := by
  have hpush0 := exec_push (c := c) (r := 0) (by rwa [hs])
  rw [hs] at hpush0
  rw [run_cons_of hpush0, run_cons_of (exec_push _), run_nil]
  · simp [get_set, sp, set_set]
  · simpa [get_set, sp] using h8

theorem popPair_spec {s : UInt32} (hs : c.get sp = s - 4 - 4) (h4 : Aligned (s - 4))
    (h8 : Aligned (s - 4 - 4)) :
    run [.pop 1, .pop 0] c = some (c.set sp (s - 4) |>.set 1 (c.mem (s - 4 - 4)) |>.set sp s
      |>.set 0 (c.mem (s - 4))) := by
  have hs8 : s - 4 - 4 + 4 = s - 4 := UInt32.sub_add_cancel _ _
  have hs4 : s - 4 + 4 = s := UInt32.sub_add_cancel _ _
  have hsp : ((c.set sp (s - 4)).set 1 (c.mem (s - 4 - 4))).get sp = s - 4 := by
    simp [get_set, sp]
  rw [run_cons_of (exec_pop (by rwa [hs])), hs, hs8, run_cons_of (exec_pop (by rwa [hsp])), hsp,
    hs4, run_nil]
  simp only [set_mem]

theorem saveHead_spec {s : UInt32} (hs : c.get sp = s) (hcur : c.mem k.currentProcess = pcb)
    (hap : Apart (k.words ++ below s 2)) :
    run ([.push 0, .push 1] ++ ldrCurrentProcess k) c =
      some (c.set sp (s - 4 - 4) |>.set 0 pcb |>.write (s - 4) (c.get 0)
        |>.write (s - 4 - 4) (c.get 1)) := by
  have hk : k.currentProcess ∈ k.words := by simp [Symbols.words]
  have h1 : s - 4 ∈ below s 2 := List.mem_cons_self
  have h2 : s - 4 - 4 ∈ below s 2 := List.mem_cons_of_mem _ List.mem_cons_self
  rw [run_append_of (pushPair_spec hs (hap.right.aligned _ h1) (hap.right.aligned _ h2))]
  simp [ldrCurrentProcess, run_cons, exec, load_of, hap.left.aligned _ hk, write_mem_of_ne,
    hap.ne hk h1, hap.ne hk h2, hcur, set_set]

theorem saveContextAsm_spec {ret : UInt32} (hcur : c.mem k.currentProcess = pcb)
    (hap : Apart (k.words ++ (pcbWords pcb ++ below (c.get sp) 2))) (hlr : c.get lr = ret) :
    ∃ c', run (saveContextAsm k ret) c = some c' ∧ Frame [0, 1] c c' ∧
      Saved c'.mem pcb (fun r => cached k c (slot r)) (c.mem k.irqLrCache) (c.spsr c.bank) ∧
      ∀ a, a ∉ pcbWords pcb ++ below (c.get sp) 2 → c'.mem a = c.mem a := by
  set s := c.get sp with hs
  have hs4 : s - 4 - 4 + 4 = s - 4 := UInt32.sub_add_cancel _ _
  have hs8 : s - 4 + 4 = s := UInt32.sub_add_cancel _ _
  set c1 : Cpu := c.set sp (s - 4 - 4) |>.set 0 pcb |>.write (s - 4) (c.get 0)
    |>.write (s - 4 - 4) (c.get 1) with hc1
  have hrun1 : run ([.push 0, .push 1] ++ ldrCurrentProcess k) c = some c1 :=
    saveHead_spec hs.symm hcur (hap.sublist (.append_left (List.sublist_append_right ..) _))
  have h0 : c1.get 0 = pcb := by simp [hc1]
  obtain ⟨c2, hrun2, hframe2, hregs, hmem2⟩ := @storeRegs_spec 0 1 regOff (by decide) plainRegs c1
    (by decide) (fun r _ => hap.right.left.aligned _ (h0 ▸ reg_mem_pcbWords pcb r))
    (List.Nodup.map (fun q r h => regOff_inj.1 ((UInt32.add_right_inj _).1 h)) (by decide))
  rw [h0] at hregs hmem2
  have h20 : c2.get 0 = pcb := (hframe2.get (by decide)).trans h0
  have h2sp : c2.get sp = s - 4 - 4 :=
    (hframe2.get (by decide)).trans (by simp [hc1, get_set, sp])
  have h2lr : c2.get lr = ret :=
    (hframe2.get (by decide)).trans (by simpa [hc1, get_set, sp, lr] using hlr)
  obtain ⟨c3, hrun3, hframe3, h3sp, hsaved, hmem3⟩ := saveRest_spec (k := k) h20 h2sp
    (by rw [hs4]; exact hap) h2lr
  have hstack : ∀ a, a ∉ pcbWords pcb → c2.mem a = c1.mem a := fun a ha =>
    hmem2 a fun hin => by
      obtain ⟨r, -, rfl⟩ := List.mem_map.1 hin
      exact ha (reg_mem_pcbWords pcb r)
  have hmem : ∀ a, a ∉ pcbWords pcb ++ below s 2 → c2.mem a = c.mem a := fun a ha => by
    rw [List.mem_append, not_or] at ha
    rw [hstack a ha.1]
    simp only [below, List.iterate, List.mem_cons, List.not_mem_nil, or_false, not_or] at ha
    simp [hc1, write_mem, ha.2]
  have hword : ∀ a ∈ k.words, c2.mem a = c.mem a := fun a ha =>
    hmem a fun hin => hap.ne ha hin rfl
  have hframe : Frame [sp, 0, 1] c c3 :=
    ((((Frame.refl c).set (by simp) _).set (by simp) _).write _ _).write _ _ |>.trans
      (hframe2.mono (by simp)) |>.trans (hframe3.mono (by simp))
  refine ⟨c3, ?_, hframe.drop (by rw [h3sp, hs4, hs8]), ⟨fun r => ?_, ?_, ?_⟩, fun a ha => ?_⟩
  · rw [saveContextAsm, List.append_assoc, @run_append_of _ _ c2, hrun3]
    rw [run_append_of hrun1, hrun2]
  · rw [hsaved.reg]
    have hne : s - 4 ≠ s - 4 - 4 := by grind
    rcases slot_cases r with rfl | rfl | rfl | rfl | hr
    · have : s - 4 - 4 ∉ pcbWords pcb := fun hin => hap.right.ne hin (by simp [below]) rfl
      simp [slot, cached, hstack _ this, hc1, sp, lr]
    · have : s - 4 ∉ pcbWords pcb := fun hin => hap.right.ne hin (by simp [below]) rfl
      simp [slot, cached, hs4, hstack _ this, hc1, write_mem, hne, sp, lr]
    · simp [slot, cached, sp, lr, hword k.usrSpCache (by simp [Symbols.words])]
    · simp [slot, cached, sp, lr, hword k.irqLrCache (by simp [Symbols.words])]
    · obtain ⟨hslot, h0', h1', hsp', hlr'⟩ := slot_plain hr
      simp only [hslot, cached, if_neg h0', if_neg h1', if_neg hsp', if_neg hlr', hregs r hr]
      simp [hc1, get_set, h0', hsp']
  · rw [hsaved.pc, hword _ (by simp [Symbols.words])]
  · rw [hsaved.cpsr, hframe2.bank, hframe2.spsr]
    rfl
  · rw [hmem3 a fun hin => ha (List.mem_append_left _ hin), hmem a ha]

end BeagleKernel.Switch
