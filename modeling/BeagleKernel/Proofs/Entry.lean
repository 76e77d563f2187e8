import BeagleKernel.Proofs.Save

/-!
# From the exception to the saved context

Both handlers cache `sp` and `lr` in System mode, put the registers back, and save them on the
stack of the OS. By then `r14` is what the last call left there.
-/

namespace BeagleKernel.Switch

open Arm Arm.Cpu

variable {k : Symbols} {c : Cpu} {pcb : UInt32}

/-! ## Modes -/

theorem phys_usr (r : Reg) : phys .usr r = (.usr, r) := by
  revert r
  decide

theorem phys_low {b : Bank} (hb : b ≠ .fiq) {r : Reg} (hr : r < 13) : phys b r = (.usr, r) := by
  revert r
  cases b <;> first | exact absurd rfl hb | decide

theorem phys_banked {b : Bank} {r : Reg} (hr : 13 ≤ r) : phys b r = (b, r) := by
  revert r
  cases b <;> decide

theorem get_usr (hbank : c.bank = .usr) (r : Reg) : c.get r = c.file (.usr, r) := by
  rw [Cpu.get, hbank, phys_usr]

theorem bankOf_system {w : UInt32} (h : w &&& modeMask = modeSystem) : bankOf w = some .usr := by
  rw [bankOf, h]
  rfl

theorem privileged_system (h : c.cpsr &&& modeMask = modeSystem) : c.privileged = true := by
  rw [Cpu.privileged, h]
  rfl

theorem bankOf_supervisor {w : UInt32} (h : w &&& modeMask = modeSupervisor) :
    bankOf w = some .svc := by
  rw [bankOf, h]
  rfl

theorem privileged_supervisor (h : c.cpsr &&& modeMask = modeSupervisor) : c.privileged = true := by
  rw [Cpu.privileged, h]
  rfl

theorem bankOf_irq {w : UInt32} (h : w &&& modeMask = 0x12) : bankOf w = some .irq := by
  rw [bankOf, h]
  rfl

theorem privileged_irq (h : c.cpsr &&& modeMask = 0x12) : c.privileged = true := by
  rw [Cpu.privileged, h]
  rfl

theorem irq_mode : c.irq.cpsr &&& modeMask = 0x12 := masked_and_of_sub (by decide) _ _

theorem irq_masked : c.irq.Masked := masked_and_of_sub (by decide) _ _

theorem swi_mode : c.swi.cpsr &&& modeMask = modeSupervisor :=
  masked_and_of_sub (by decide) _ _

theorem swi_masked : c.swi.Masked := masked_and_of_sub (by decide) _ _

/-- From a privileged mode to System mode, and `CPSR.I` stays. -/
theorem toSystem_spec (hp : c.privileged = true) :
    ∃ v w, run toSystem c = some ((c.set 1 v).withCpsr w) ∧ w &&& modeMask = modeSystem ∧
      w &&& iBit = c.cpsr &&& iBit := by
  set v := c.cpsr &&& readMask ||| modeSystem with hv
  have hmode : masked fcMask c.cpsr v &&& modeMask = modeSystem := by
    rw [masked_and_of_sub (by decide), hv, UInt32.or_and_distrib, UInt32.and_assoc]
    exact and_or_absorb c.cpsr modeMask
  refine ⟨v, masked fcMask c.cpsr v, ?_, hmode, ?_⟩
  · simp [toSystem, run_cons, exec, set_set, Cpu.msr, hp, ← hv,
      setCpsr_of _ _ (bankOf_system hmode)]
  · rw [masked_and_of_sub (by decide), hv, UInt32.or_and_distrib, UInt32.and_assoc]
    exact UInt32.or_zero

/-- What `msr cpsr, #MODE_System` writes from Supervisor mode: interrupts are enabled. -/
theorem msr_system (hmode : c.cpsr &&& modeMask = modeSupervisor) :
    exec (.msrImm modeSystem) c = some (c.withCpsr (masked fcMask c.cpsr modeSystem)) ∧
      masked fcMask c.cpsr modeSystem &&& modeMask = modeSystem ∧
      masked fcMask c.cpsr modeSystem &&& iBit = 0 := by
  have hsys : masked fcMask c.cpsr modeSystem &&& modeMask = modeSystem :=
    masked_and_of_sub (by decide) _ _
  refine ⟨?_, hsys, masked_and_of_sub (by decide) _ _⟩
  rw [exec, Cpu.msr, privileged_supervisor hmode, if_pos rfl, setCpsr_of _ _ (bankOf_system hsys)]

/-! ## The steps of the handlers -/

/-- The words the handlers write. -/
def Symbols.scratch (k : Symbols) : List UInt32 :=
  [k.usrSpCache, k.irqLrCache, k.r0Cache, k.r1Cache]

theorem Apart.scratch (h : Apart k.words) :
    k.scratch.Nodup ∧ k.currentProcess ∉ k.scratch ∧ k.osSpCache ∉ k.scratch := by
  have := h.nodup
  simp only [Symbols.words, Symbols.scratch, List.nodup_cons, List.mem_cons] at this ⊢
  tauto

theorem scratch_subset (k : Symbols) : k.scratch ⊆ k.words := by
  simp [Symbols.scratch, Symbols.words]

/-- With `sp` and `lr` cached and the other registers in place, all is cached. -/
theorem cached_eq {c' : Cpu} (husr : c'.mem k.usrSpCache = c.get sp)
    (hirq : c'.mem k.irqLrCache = c.get lr) (hget : ∀ r, r ≠ sp → r ≠ lr → c'.get r = c.get r)
    (r : Reg) : cached k c' r = c.get r := by
  rw [cached]
  split_ifs with hsp hlr
  · rw [husr, hsp]
  · rw [hirq, hlr]
  · exact hget r hsp hlr

theorem cacheSpAndLr_spec (hw : Apart k.words) (ret : UInt32) :
    ∃ c', run (cacheSpAndLr k ret) c = some c' ∧ Frame [0, 1, lr] c c' ∧ c'.get lr = ret ∧
      c'.mem k.usrSpCache = c.get sp ∧ c'.mem k.irqLrCache = c.get lr ∧
      ∀ a, a ∉ [k.usrSpCache, k.irqLrCache] → c'.mem a = c.mem a := by
  have husr := hw.aligned k.usrSpCache (by simp [Symbols.words])
  have hirq := hw.aligned k.irqLrCache (by simp [Symbols.words])
  have hne : k.usrSpCache ≠ k.irqLrCache := by
    have := hw.nodup
    simp only [Symbols.words, List.nodup_cons, List.mem_cons] at this
    tauto
  refine ⟨c.set 0 (c.get sp) |>.set 1 (c.get lr) |>.set lr ret |>.write k.usrSpCache (c.get sp)
    |>.write k.irqLrCache (c.get lr), ?_, ?_, ?_, ?_, ?_, fun a ha => ?_⟩
  · simp [cacheSpAndLr, saveSpAndLrUsr, run_cons, exec, store_of, husr, hirq, get_set, sp, lr]
  · exact ((((Frame.refl c).set (by simp) _).set (by simp) _).set (by simp) _).write _ _
      |>.write _ _
  · simp
  · simp [write_mem, hne]
  · simp
  · simp only [List.mem_cons, List.not_mem_nil, or_false, not_or] at ha
    simp [write_mem, ha]

/-- The end of a handler stores what was cached, on the stack of the OS. -/
theorem saveOnOsStack_spec (hcur : c.mem k.currentProcess = pcb)
    (hap : Apart (k.words ++ (pcbWords pcb ++ below (c.mem k.osSpCache) 2)))
    (ret : CallSite → UInt32) :
    ∃ c', run (saveOnOsStack k ret) c = some c' ∧ Frame [0, 1, sp, lr] c c' ∧
      c'.get sp = c.mem k.osSpCache ∧
      Saved c'.mem pcb (fun r => cached k c (slot r)) (c.mem k.irqLrCache) (c.spsr c.bank) ∧
      ∀ a, a ∉ pcbWords pcb ++ below (c.mem k.osSpCache) 2 → c'.mem a = c.mem a := by
  set c1 : Cpu := c.set lr (ret .saveContext) |>.set sp (c.mem k.osSpCache) with hc1
  have hos : Aligned k.osSpCache := hap.left.aligned _ (by simp [Symbols.words])
  have hrun : run (saveOnOsStack k ret) c = run (saveContextAsm k (ret .saveContext)) c1 := by
    have hcomm : ∀ v w, (c.set lr v).set sp w = (c.set sp w).set lr v := fun v w =>
      c.set_comm v (by decide) w
    have hbx : exec (.bx (ret .loadOsSp)) ((c.set lr (ret .loadOsSp)).set sp (c.mem k.osSpCache)) =
        some ((c.set lr (ret .loadOsSp)).set sp (c.mem k.osSpCache)) :=
      exec_bx (by rw [get_set_of_ne _ _ (by decide), get_set_self])
    simp only [saveOnOsStack, loadOsSp, List.cons_append, List.nil_append]
    rw [run_cons_of exec_bl, run_cons_of (exec_ldrAt hos), set_mem, run_cons_of hbx,
      run_cons_of exec_bl, hc1, hcomm, set_set, hcomm]
  have h1sp : c1.get sp = c.mem k.osSpCache := by simp [hc1]
  obtain ⟨c2, hrun2, hframe, hsaved, hmem⟩ := @saveContextAsm_spec k c1 pcb (ret .saveContext) hcur
    (by rwa [h1sp]) (by simp [hc1, get_set, sp, lr])
  rw [h1sp] at hmem
  have hcached : ∀ r, cached k c1 r = cached k c r := fun r => by
    by_cases hsp : r = sp
    · simp [cached, hsp, hc1]
    by_cases hlr : r = lr
    · simp [cached, hlr, hc1]
    · simp [cached, hsp, hlr, hc1, get_set]
  refine ⟨c2, hrun.trans hrun2, ?_, ?_, ⟨fun r => ?_, ?_, ?_⟩, hmem⟩
  · exact (((Frame.refl c).set (by simp) _).set (by simp) _).trans (hframe.mono (by simp))
  · rw [hframe.get (by decide), h1sp]
  · rw [hsaved.reg, hcached]
  · simpa [hc1] using hsaved.pc
  · simpa [hc1] using hsaved.cpsr

/-! ## The two entries -/

theorem svcHead_spec (hbank : c.bank = .usr)
    (hap : Apart (k.words ++ below (c.file (.svc, sp)) 2)) :
    ∃ c', run (svcHead k) c.swi = some c' ∧ c'.cpsr &&& modeMask = modeSupervisor ∧
      (∀ r, c'.file (.usr, r) = if r = lr then k.svcReturn .saveSpAndLrUsr else c.get r) ∧
      c'.spsr .usr = c.spsr .usr ∧ c'.mem k.usrSpCache = c.get sp ∧
      c'.mem k.irqLrCache = c.get lr ∧
      ∀ a, a ∉ [k.usrSpCache, k.irqLrCache] ++ below (c.file (.svc, sp)) 2 →
        c'.mem a = c.mem a := by
  generalize hs : c.file (.svc, sp) = s at hap ⊢
  have hsvc : c.swi.bank = .svc := bank_of _ (bankOf_supervisor swi_mode)
  have hsp : c.swi.get sp = s := by
    rw [Cpu.get, hsvc, ← hs]
    rfl
  have husr0 : ∀ r, c.swi.file (.usr, r) = c.get r := fun r => by
    rw [get_usr hbank]
    exact enter_file_of_ne _ (by simp)
  have hlow : ∀ r, r < 13 → c.swi.get r = c.get r := fun r hr => by
    rw [Cpu.get, hsvc, phys_low (by decide) hr, husr0]
  obtain ⟨c1, hc1⟩ : ∃ c1, c1 = (c.swi.set sp (s - 4 - 4) |>.write (s - 4) (c.swi.get 0)
    |>.write (s - 4 - 4) (c.swi.get 1)) := ⟨_, rfl⟩
  have h4 : s - 4 ∈ below s 2 := List.mem_cons_self
  have h8 : s - 4 - 4 ∈ below s 2 := List.mem_cons_of_mem _ List.mem_cons_self
  have hrun1 : run [.push 0, .push 1] c.swi = some c1 := by
    rw [pushPair_spec hsp (hap.right.aligned _ h4) (hap.right.aligned _ h8), hc1]
  have hbank1 : c1.bank = .svc := by
    rw [hc1]
    exact hsvc
  have hp1 : c1.privileged = true := by
    rw [hc1]
    exact privileged_supervisor swi_mode
  obtain ⟨v, w, hrun2, hmode, hi⟩ := toSystem_spec hp1
  obtain ⟨c2, hc2⟩ : ∃ c2, c2 = (c1.set 1 v).withCpsr w := ⟨_, rfl⟩
  have hmode2 : c2.cpsr &&& modeMask = modeSystem := by
    rw [hc2]
    exact hmode
  have hbank2 : c2.bank = .usr := bank_of _ (bankOf_system hmode2)
  obtain ⟨c3, hrun3, hframe, hlr, husr, hirq, hmem⟩ :=
    @cacheSpAndLr_spec k c2 hap.left (k.svcReturn .saveSpAndLrUsr)
  have hp3 : c3.privileged = true := by
    rw [hframe.privileged]
    exact privileged_system hmode2
  obtain ⟨w', hw'⟩ : ∃ w', w' = masked (iBit ||| modeMask) c3.cpsr (iBit ||| modeSupervisor) :=
    ⟨_, rfl⟩
  have hmode4 : w' &&& modeMask = modeSupervisor := hw' ▸ masked_and_of_sub (by decide) _ _
  obtain ⟨c4, hc4⟩ : ∃ c4, c4 = c3.withCpsr w' := ⟨_, rfl⟩
  have hcpsid : exec (.cpsid modeSupervisor) c3 = some c4 := by
    rw [exec, Cpu.cpsid, if_pos hp3, ← hw', setCpsr_of _ _ (bankOf_supervisor hmode4), hc4]
  have hbank4 : c4.bank = .svc := bank_of _ (by rw [hc4]; exact bankOf_supervisor hmode4)
  have husr1 : ∀ r, c1.file (.usr, r) = c.get r := fun r => by
    rw [hc1, write_file, write_file, set_file, hsvc, phys_banked (by decide), if_neg (by simp),
      husr0]
  have hget2 : ∀ r, r ≠ 1 → c2.get r = c.get r := fun r hr => by
    rw [get_usr hbank2, hc2, withCpsr_file, set_file, hbank1, phys_low (by decide) (by decide),
      if_neg (by simpa using hr), husr1]
  have hfile : ∀ q, q ∉ [0, 1, lr].map (phys .usr) → c4.file q = c1.file q := fun q hq => by
    rw [hc4, withCpsr_file, hframe.file q (by rwa [hbank2]), hc2, withCpsr_file, set_file,
      if_neg]
    rintro rfl
    exact hq (by rw [hbank1]; decide)
  have hmem1 : ∀ a, a ∉ below s 2 → c1.mem a = c.mem a := fun a ha => by
    simp only [below, List.iterate, List.mem_cons, List.not_mem_nil, or_false, not_or] at ha
    rw [hc1, write_mem, if_neg ha.2, write_mem, if_neg ha.1]
    rfl
  have hmem4 : ∀ a, a ∉ [k.usrSpCache, k.irqLrCache] → c4.mem a = c1.mem a := fun a ha => by
    rw [hc4, withCpsr_mem, hmem a ha, hc2, withCpsr_mem, set_mem]
  have hcaches : ∀ a ∈ below s 2, a ∉ [k.usrSpCache, k.irqLrCache] := fun a ha hin => by
    refine hap.ne ?_ ha rfl
    simp only [List.mem_cons, List.not_mem_nil, or_false] at hin
    rcases hin with rfl | rfl <;> simp [Symbols.words]
  have hsp4 : c4.get sp = s - 4 - 4 := by
    rw [Cpu.get, hbank4, hfile _ (by decide), hc1, write_file, write_file, set_file, hsvc]
    exact if_pos rfl
  have hm8 : c4.mem (s - 4 - 4) = c.get 1 := by
    rw [hmem4 _ (hcaches _ h8), hc1, write_mem_self, hlow 1 (by decide)]
  have hm4 : c4.mem (s - 4) = c.get 0 := by
    rw [hmem4 _ (hcaches _ h4), hc1, write_mem_of_ne _ _ (by grind), write_mem_self,
      hlow 0 (by decide)]
  have hpops : run [.pop 1, .pop 0] c4 =
      some (c4.set sp (s - 4) |>.set 1 (c.get 1) |>.set sp s |>.set 0 (c.get 0)) := by
    rw [popPair_spec hsp4 (hap.right.aligned _ h4) (hap.right.aligned _ h8), hm8, hm4]
  refine ⟨c4.set sp (s - 4) |>.set 1 (c.get 1) |>.set sp s |>.set 0 (c.get 0), ?_, ?_, fun r => ?_,
    ?_, ?_, ?_, fun a ha => ?_⟩
  · simp only [svcHead, List.append_assoc]
    rw [run_append_of hrun1, run_append_of hrun2, ← hc2, run_append_of hrun3, run_cons_of hcpsid,
      hpops]
  · simpa [hc4] using hmode4
  · have h0 : phys .svc 0 = (.usr, 0) := rfl
    have h1 : phys .svc 1 = (.usr, 1) := rfl
    have hsp : phys .svc sp = (.svc, sp) := rfl
    simp only [set_file, set_bank, hbank4, h0, h1, hsp, Prod.mk.injEq, true_and, reduceCtorEq,
      false_and, if_false]
    by_cases hr0 : r = 0
    · simp [hr0, lr]
    by_cases hr1 : r = 1
    · simp [hr1, lr]
    rw [if_neg hr0, if_neg hr1]
    by_cases hr : r = lr
    · rw [hr, if_pos rfl, hc4, withCpsr_file, ← phys_usr, ← hlr, Cpu.get, hframe.bank, hbank2]
    · rw [if_neg hr, hfile _ (by simp [phys_usr, hr0, hr1, hr]), husr1]
  · rw [set_spsr, set_spsr, set_spsr, set_spsr, hc4, withCpsr_spsr, hframe.spsr, hc2, hc1]
    exact @enter_spsr_of_ne c .svc .usr 0x13 iBit (c.pc + 4) (by decide)
  · rw [← hget2 sp (by decide), ← husr, hc4]
    rfl
  · rw [← hget2 lr (by decide), ← hirq, hc4]
    rfl
  · rw [List.mem_append, not_or] at ha
    simp only [set_mem]
    rw [hmem4 a ha.1, hmem1 a ha.2]

/-- What a handler leaves behind for `scheduler_run`. -/
structure Entered (k : Symbols) (pcb : UInt32) (c c' : Cpu) : Prop where
  mode : c'.cpsr &&& modeMask = modeSystem
  sp : c'.get sp = c.mem k.osSpCache
  saved : Saved c'.mem pcb (fun r => c.get (slot r)) (c.get lr) (c.spsr .usr)
  currentProcess : c'.mem k.currentProcess = pcb
  osSpCache : c'.mem k.osSpCache = c.mem k.osSpCache

/-- With the registers cached or in place, the end of a handler saves them. -/
theorem entered_of {c1 : Cpu} (hcur : c.mem k.currentProcess = pcb)
    (hap : Apart (k.words ++ (pcbWords pcb ++ below (c.mem k.osSpCache) 2)))
    (hmode : c1.cpsr &&& modeMask = modeSystem) (hcached : ∀ r, cached k c1 r = c.get r)
    (hirq : c1.mem k.irqLrCache = c.get lr) (hspsr : c1.spsr .usr = c.spsr .usr)
    (hword : ∀ a ∈ k.words, a ∉ k.scratch → c1.mem a = c.mem a) (ret : CallSite → UInt32) :
    ∃ c', run (saveOnOsStack k ret) c1 = some c' ∧ Entered k pcb c c' := by
  obtain ⟨-, hcurs, hoss⟩ := hap.left.scratch
  have hkcur : k.currentProcess ∈ k.words := by simp [Symbols.words]
  have hkos : k.osSpCache ∈ k.words := by simp [Symbols.words]
  have hos : c1.mem k.osSpCache = c.mem k.osSpCache := hword _ hkos hoss
  have hcur1 : c1.mem k.currentProcess = pcb := (hword _ hkcur hcurs).trans hcur
  obtain ⟨c2, hrun, hframe, hsp, hsaved, hmem⟩ := saveOnOsStack_spec hcur1 (by rwa [hos]) ret
  rw [hos] at hsp hmem
  have hkeep : ∀ a ∈ k.words, c2.mem a = c1.mem a := fun a ha =>
    hmem a fun hin => hap.ne ha hin rfl
  refine ⟨c2, hrun, ?_, hsp, ⟨fun r => ?_, ?_, ?_⟩, (hkeep _ hkcur).trans hcur1,
    (hkeep _ hkos).trans hos⟩
  · rw [hframe.cpsr, hmode]
  · rw [hsaved.reg, hcached]
  · rw [hsaved.pc, hirq]
  · rw [hsaved.cpsr, bank_of _ (bankOf_system hmode), hspsr]

/-- A process that yields is saved as it was, `r0` and `r1` apart. -/
theorem yieldPath_spec (hbank : c.bank = .usr) (hcur : c.mem k.currentProcess = pcb)
    (hap : Apart (k.words ++ (pcbWords pcb ++
      (below (c.mem k.osSpCache) 2 ++ below (c.file (.svc, sp)) 2)))) :
    ∃ c', yieldPath k c = some c' ∧ Entered k pcb c c' := by
  have hsvc : Apart (k.words ++ below (c.file (.svc, sp)) 2) :=
    hap.sublist
      (.append_left ((List.sublist_append_right ..).trans (List.sublist_append_right ..)) _)
  have hap2 : Apart (k.words ++ (pcbWords pcb ++ below (c.mem k.osSpCache) 2)) := by
    refine hap.sublist ?_
    rw [← List.append_assoc, ← List.append_assoc, ← List.append_assoc]
    exact List.sublist_append_left ..
  obtain ⟨c1, hrun1, hmode1, hfile, hspsr, husr, hirq, hmem1⟩ := svcHead_spec hbank hsvc
  obtain ⟨hmsr, hmode, -⟩ := msr_system hmode1
  obtain ⟨w, hw⟩ : ∃ w, w = masked fcMask c1.cpsr modeSystem := ⟨_, rfl⟩
  rw [← hw] at hmsr hmode
  have hbank2 : (c1.withCpsr w).bank = .usr := bank_of _ (bankOf_system hmode)
  have hcached : ∀ r, cached k (c1.withCpsr w) r = c.get r :=
    cached_eq husr hirq fun r _ hr => by
      rw [get_usr hbank2, withCpsr_file, hfile, if_neg hr]
  have hword : ∀ a ∈ k.words, a ∉ k.scratch → c1.mem a = c.mem a := fun a ha hns =>
    hmem1 a fun hin => by
      rcases List.mem_append.1 hin with hin | hin
      · exact hns (List.subset_append_left [k.usrSpCache, k.irqLrCache] _ hin)
      · exact hsvc.ne ha hin rfl
  obtain ⟨c2, hrun2, hentered⟩ :=
    @entered_of k c pcb (c1.withCpsr w) hcur hap2 hmode hcached hirq hspsr hword k.svcReturn
  refine ⟨c2, ?_, hentered⟩
  rw [yieldPath, svcHandlerAsm, run_append_of hrun1, run_cons_of hmsr, hrun2]

theorem irqCaches_run (hr0 : Aligned k.r0Cache) (hr1 : Aligned k.r1Cache) (c : Cpu) :
    run [.sub lr lr 4, .strAt 0 k.r0Cache, .strAt 1 k.r1Cache] c =
      some (((c.set lr (c.get lr - 4)).write k.r0Cache (c.get 0)).write k.r1Cache (c.get 1)) := by
  rw [run_cons_of (rfl : exec (.sub lr lr 4) c = some _), run_cons_of (exec_strAt hr0),
    run_cons_of (exec_strAt hr1), run_nil, write_get, get_set_of_ne _ _ (by decide),
    get_set_of_ne _ _ (by decide)]

theorem irqHead_spec (hbank : c.bank = .usr) (hap : Apart k.words) :
    ∃ c', run (irqHead k) c.irq = some c' ∧ c'.cpsr &&& modeMask = modeSystem ∧
      (∀ r, cached k c' r = c.get r) ∧ c'.mem k.irqLrCache = c.get lr ∧
      c'.spsr .usr = c.spsr .usr ∧ ∀ a, a ∉ k.scratch → c'.mem a = c.mem a := by
  have hirq : c.irq.bank = .irq := bank_of _ (bankOf_irq irq_mode)
  have hmem : ∀ a ∈ k.scratch, Aligned a := fun a ha => hap.aligned a (scratch_subset k ha)
  obtain ⟨hnd, -, -⟩ := hap.scratch
  have hlow : ∀ r, r < 13 → c.irq.get r = c.get r := fun r hr => by
    rw [Cpu.get, hirq, phys_low (by decide) hr, get_usr hbank]
    exact enter_file_of_ne _ (by simp)
  obtain ⟨c1, hc1⟩ : ∃ c1, c1 = (c.irq.set lr (c.irq.get lr - 4) |>.write k.r0Cache (c.get 0)
    |>.write k.r1Cache (c.get 1)) := ⟨_, rfl⟩
  have hne : k.r0Cache ≠ k.r1Cache := by
    simp only [Symbols.scratch, List.nodup_cons, List.mem_cons] at hnd
    tauto
  have hr0 : k.r0Cache ∈ k.scratch := by simp [Symbols.scratch]
  have hr1 : k.r1Cache ∈ k.scratch := by simp [Symbols.scratch]
  have hrun1 : run [.sub lr lr 4, .strAt 0 k.r0Cache, .strAt 1 k.r1Cache] c.irq = some c1 := by
    rw [irqCaches_run (hmem _ hr0) (hmem _ hr1), hlow 0 (by decide), hlow 1 (by decide), hc1]
  have hbank1 : c1.bank = .irq := by
    rw [hc1]
    exact hirq
  have hp1 : c1.privileged = true := by
    rw [hc1]
    exact privileged_irq irq_mode
  obtain ⟨v, w, hrun2, hmode, -⟩ := toSystem_spec hp1
  obtain ⟨c2, hc2⟩ : ∃ c2, c2 = (c1.set 1 v).withCpsr w := ⟨_, rfl⟩
  have hmode2 : c2.cpsr &&& modeMask = modeSystem := by
    rw [hc2]
    exact hmode
  have hbank2 : c2.bank = .usr := bank_of _ (bankOf_system hmode2)
  have hget2 : ∀ r, r ≠ 1 → c2.get r = c.get r := fun r hr => by
    rw [get_usr hbank2, hc2, withCpsr_file, set_file, hbank1, phys_low (by decide) (by decide),
      if_neg (by simpa using hr), hc1, write_file, write_file, set_file, hirq,
      phys_banked (by decide), if_neg (by simp), get_usr hbank]
    exact enter_file_of_ne _ (by simp)
  have hmem2 : ∀ a, c2.mem a = if a = k.r1Cache then c.get 1 else if a = k.r0Cache then c.get 0 else
      c.mem a := fun a => by
    rw [hc2, withCpsr_mem, set_mem, hc1, write_mem, write_mem]
    rfl
  obtain ⟨c3, hrun3, hframe, -, husr, hirqLr, hmem3⟩ :=
    @cacheSpAndLr_spec k c2 hap (k.irqReturn .saveSpAndLrUsr)
  rw [hget2 _ (by decide)] at husr hirqLr
  have hr0' : k.r0Cache ∉ [k.usrSpCache, k.irqLrCache] := by
    simp only [Symbols.scratch, List.nodup_cons, List.mem_cons] at hnd ⊢
    tauto
  have hr1' : k.r1Cache ∉ [k.usrSpCache, k.irqLrCache] := by
    simp only [Symbols.scratch, List.nodup_cons, List.mem_cons] at hnd ⊢
    tauto
  have hm0 : c3.mem k.r0Cache = c.get 0 := by rw [hmem3 _ hr0', hmem2, if_neg hne, if_pos rfl]
  have hm1 : c3.mem k.r1Cache = c.get 1 := by rw [hmem3 _ hr1', hmem2, if_pos rfl]
  refine ⟨c3.set 0 (c.get 0) |>.set 1 (c.get 1), ?_, ?_, ?_, ?_, ?_, fun a ha => ?_⟩
  · simp only [irqHead, List.append_assoc]
    rw [run_append_of hrun1, run_append_of hrun2, ← hc2, run_append_of hrun3,
      run_cons_of (exec_ldrAt (hmem _ hr0)), hm0, run_cons_of (exec_ldrAt (hmem _ hr1)), set_mem,
      hm1, run_nil]
  · rw [set_cpsr, set_cpsr, hframe.cpsr, hmode2]
  · refine cached_eq husr hirqLr fun r hsp hlr => ?_
    by_cases h1 : r = 1
    · rw [h1, get_set_self]
    by_cases h0 : r = 0
    · rw [h0, get_set_of_ne _ _ (by decide), get_set_self]
    · rw [get_set_of_ne _ _ h1, get_set_of_ne _ _ h0, hframe.get (by simp [h0, h1, hlr]),
        hget2 r h1]
  · exact hirqLr
  · rw [set_spsr, set_spsr, hframe.spsr, hc2, hc1]
    exact @enter_spsr_of_ne c .irq .usr 0x12 (iBit ||| 0x100) (c.pc + 4) (by decide)
  · have hsub : a ∉ [k.usrSpCache, k.irqLrCache] := fun hin =>
      ha (List.subset_append_left [k.usrSpCache, k.irqLrCache] _ hin)
    have h1 : a ≠ k.r1Cache := (ne_of_mem_of_not_mem hr1 ha).symm
    have h0 : a ≠ k.r0Cache := (ne_of_mem_of_not_mem hr0 ha).symm
    rw [set_mem, set_mem, hmem3 a hsub, hmem2, if_neg h1, if_neg h0]

/-- A process that is interrupted is saved the same way. -/
theorem irqPath_spec (hbank : c.bank = .usr) (hcur : c.mem k.currentProcess = pcb)
    (hap : Apart (k.words ++ (pcbWords pcb ++ below (c.mem k.osSpCache) 2))) :
    ∃ c', irqPath k c = some c' ∧ Entered k pcb c c' := by
  obtain ⟨c1, hrun1, hmode, hcached, hirq, hspsr, hmem⟩ := irqHead_spec hbank hap.left
  obtain ⟨c2, hrun2, hentered⟩ :=
    entered_of hcur hap hmode hcached hirq hspsr (fun a _ => hmem a) k.irqReturn
  refine ⟨c2, ?_, hentered⟩
  rw [irqPath, irqHandlerAsm, run_append_of hrun1, hrun2]

end BeagleKernel.Switch
