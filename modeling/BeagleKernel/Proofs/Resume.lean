import BeagleKernel.Proofs.Entry

/-!
# What restoring a context loads

`restore_context_asm` copies a context to the stack, writes `cpsr`, and pops the registers from
the stack of the mode it has written. Its last write to `os_sp_cache` is made with one word of
the copy still on the stack.
-/

namespace BeagleKernel.Switch

open Arm Arm.Cpu

variable {k : Symbols} {c : Cpu} {pcb : UInt32}

theorem stageContext_spec (hcur : c.mem k.currentProcess = pcb)
    (hap : Apart (k.words ++ (pcbWords pcb ++ below (c.get sp) 15))) :
    ∃ c', run (stageContext k) c = some c' ∧ Frame [0, 1, sp] c c' ∧
      c'.get sp = pushed (c.get sp) 15 ∧ c'.get 1 = c.mem (pcb + cpsrOff) &&& ~~~iBit ∧
      (above (pushed (c.get sp) 15) 15).map c'.mem =
        (poppedRegs ++ [sp]).map (fun r => c.mem (pcb + regOff r)) ∧
      c'.mem k.pcCache = c.mem (pcb + pcOff) ∧
      ∀ a, a ∉ k.pcCache :: below (c.get sp) 15 → c'.mem a = c.mem a := by
  generalize hs : c.get sp = s at hap ⊢
  have hkpc : k.pcCache ∈ k.words := by simp [Symbols.words]
  have hpcb : ∀ a ∈ pcbWords pcb, Aligned a := hap.right.left.aligned
  obtain ⟨c1, hc1⟩ : ∃ c1, c1 = (c.set 0 pcb |>.set 1 (c.mem (pcb + pcOff))
    |>.write k.pcCache (c.mem (pcb + pcOff))) := ⟨_, rfl⟩
  have hrun1 : run (ldrCurrentProcess k ++ [.ldr 1 0 pcOff, .strAt 1 k.pcCache]) c = some c1 := by
    have hbase : (c.set 0 pcb).get 0 = pcb := get_set_self ..
    rw [run_append_of (ldrCurrentProcess_spec hcur (hap.left.aligned _ (by simp [Symbols.words]))),
      run_cons_of (exec_ldr (by rw [hbase]; exact hpcb _ (pc_mem_pcbWords pcb))), hbase,
      run_cons_of (exec_strAt (hap.left.aligned _ hkpc)), run_nil, get_set_self, hc1]
    rfl
  have hframe1 : Frame [0, 1, sp] c c1 := by
    rw [hc1]
    exact (((Frame.refl c).set (by simp) _).set (by simp) _).write _ _
  have h10 : c1.get 0 = pcb := by
    rw [hc1, write_get, get_set_of_ne _ _ (by decide), get_set_self]
  have h1sp : c1.get sp = s := by
    rw [hc1, write_get, get_set_of_ne _ _ (by decide), get_set_of_ne _ _ (by decide), hs]
  have hmem1 : ∀ a, a ≠ k.pcCache → c1.mem a = c.mem a := fun a ha => by
    rw [hc1, write_mem_of_ne _ _ ha]
    rfl
  have hpcb1 : ∀ a ∈ pcbWords pcb, c1.mem a = c.mem a := fun a ha =>
    hmem1 a (hap.ne hkpc (List.mem_append_left _ ha)).symm
  have hlen : (pushedRegs.map regOff).length = 15 := rfl
  have hoffs : ∀ off ∈ pushedRegs.map regOff, pcb + off ∈ pcbWords pcb := fun off ho => by
    obtain ⟨r, -, rfl⟩ := List.mem_map.1 ho
    exact reg_mem_pcbWords pcb r
  obtain ⟨c2, hrun2, hframe2, hsp2, hmap, hmem2⟩ := @pushWords_spec 0 1 (by decide) (by decide)
    (by decide) (pushedRegs.map regOff) c1
    (by rw [h1sp, hlen]; exact hap.right.right.aligned)
    (by rw [h1sp, hlen]; exact hap.right.right.nodup)
    (by rw [h10]; exact fun off ho => hpcb _ (hoffs off ho))
    (by rw [h10, h1sp, hlen]; exact fun off ho hin => hap.right.ne (hoffs off ho) hin rfl)
  rw [h1sp, hlen] at hsp2 hmap hmem2
  rw [h10] at hmap
  have h20 : c2.get 0 = pcb := (hframe2.get (by decide)).trans h10
  have hcpsr2 : c2.mem (pcb + cpsrOff) = c.mem (pcb + cpsrOff) := by
    rw [hmem2 _ fun hin => hap.right.ne (cpsr_mem_pcbWords pcb) hin rfl,
      hpcb1 _ (cpsr_mem_pcbWords pcb)]
  refine ⟨c2.set 1 (c.mem (pcb + cpsrOff)) |>.set 1 (c.mem (pcb + cpsrOff) &&& ~~~iBit), ?_, ?_, ?_,
    get_set_self .., ?_, ?_, fun a ha => ?_⟩
  · have hldr : exec (.ldr 1 0 cpsrOff) c2 = some (c2.set 1 (c.mem (pcb + cpsrOff))) := by
      rw [exec_ldr (by rw [h20]; exact hpcb _ (cpsr_mem_pcbWords pcb)), h20, hcpsr2]
    have hbic : exec (.bic 1 1 iBit) (c2.set 1 (c.mem (pcb + cpsrOff))) =
        some ((c2.set 1 (c.mem (pcb + cpsrOff))).set 1 (c.mem (pcb + cpsrOff) &&& ~~~iBit)) := by
      rw [exec, get_set_self]
    rw [stageContext, List.append_assoc, run_append_of hrun1, run_append_of hrun2,
      run_cons_of hldr, run_cons_of hbic, run_nil]
  · exact ((hframe1.trans (hframe2.mono (by simp))).set (by simp) _).set (by simp) _
  · rw [get_set_of_ne _ _ (by decide), get_set_of_ne _ _ (by decide), hsp2]
  · rw [above_pushed, List.map_reverse, set_mem, set_mem, hmap, List.map_map, ← List.map_reverse]
    exact List.map_congr_left fun r _ => hpcb1 _ (reg_mem_pcbWords pcb r)
  · rw [set_mem, set_mem, hmem2 _ fun hin => hap.ne hkpc (List.mem_append_right _ hin) rfl, hc1,
      write_mem_self]
  · rw [List.mem_cons, not_or] at ha
    rw [set_mem, set_mem, hmem2 _ ha.2, hmem1 _ ha.1]

theorem sp_not_popped : ∀ r ∈ poppedRegs, r ≠ sp := by decide

theorem popped_or_sp : ∀ r, r ∈ poppedRegs ∨ r = sp := by decide

theorem resumeContext_spec (hk : Apart k.words) (hal : Aligned (c.get sp)) :
    ∃ c', run (resumeContext k) c = some c' ∧ c'.cpsr = c.cpsr ∧
      poppedRegs.map c'.get = (above (c.get sp) 14).map c.mem ∧
      (k.osSpCache ≠ popped (c.get sp) 14 → c'.get sp = c.mem (popped (c.get sp) 14)) ∧
      c'.pc = c.mem k.pcCache ∧ c'.mem k.osSpCache = popped (c.get sp) 14 := by
  generalize hs : c.get sp = s at hal ⊢
  have habove : ∀ a ∈ above s 15, Aligned a := aligned_above hal 15
  have hos : Aligned k.osSpCache := hk.aligned _ (by simp [Symbols.words])
  have hpc : Aligned k.pcCache := hk.aligned _ (by simp [Symbols.words])
  have hne : k.pcCache ≠ k.osSpCache := by
    have := hk.nodup
    simp only [Symbols.words, List.nodup_cons, List.mem_cons] at this
    tauto
  have hlen : poppedRegs.length = 14 := rfl
  obtain ⟨c1, hrun1, hframe, hmem, hsp, hmap⟩ := pops_spec poppedRegs c (by decide) (by decide)
    (by rw [hs]; exact aligned_above hal _)
  rw [hs, hlen] at hsp hmap
  have hal14 : Aligned (popped s 14) := habove _ (by simp [above_concat])
  obtain ⟨c2, hc2⟩ : ∃ c2, c2 = c1.write k.osSpCache (popped s 14) := ⟨_, rfl⟩
  have hsp2 : c2.get sp = popped s 14 := by rw [hc2, write_get, hsp]
  obtain ⟨c3, hc3⟩ : ∃ c3, c3 =
    (c2.set sp (popped s 14 + 4)).set sp (c2.mem (popped s 14)) := ⟨_, rfl⟩
  refine ⟨c3.jump (c3.mem k.pcCache), ?_, ?_, ?_, ?_, ?_, ?_⟩
  · have hstr : exec (.strAt sp k.osSpCache) c1 = some c2 := by
      rw [exec_strAt hos, hsp, hc2]
    have hpop : exec (.pop sp) c2 = some c3 := by
      rw [exec_pop (by rw [hsp2]; exact hal14), hsp2, hc3]
    rw [resumeContext, run_append_of hrun1, run_cons_of hstr, run_cons_of hpop,
      run_cons_of (exec_ldrPc hpc), run_nil]
  · rw [jump_cpsr, hc3, set_cpsr, set_cpsr, hc2, write_cpsr, hframe.cpsr]
  · rw [← hmap]
    refine List.map_congr_left fun r hr => ?_
    have hrsp : r ≠ sp := sp_not_popped r hr
    rw [jump_get, hc3, get_set_of_ne _ _ hrsp, get_set_of_ne _ _ hrsp, hc2, write_get]
  · intro hos14
    rw [jump_get, hc3, get_set_self, hc2, write_mem_of_ne _ _ hos14.symm, hmem]
  · rw [jump_pc, hc3, set_mem, set_mem, hc2, write_mem_of_ne _ _ hne, hmem]
  · rw [jump_mem, hc3, set_mem, set_mem, hc2, write_mem_self]

/-! ## The whole routine -/

theorem and_not_iBit (u : UInt32) : bankOf (u &&& ~~~iBit) = bankOf u :=
  bankOf_congr (by rw [UInt32.and_assoc]; rfl)

theorem msr_eq (hmode : c.cpsr &&& modeMask = modeSystem) (u : UInt32) :
    c.msr (u &&& ~~~iBit) = c.setCpsr (masked fcMask c.cpsr (u &&& ~~~iBit)) ∧
      bankOf (masked fcMask c.cpsr (u &&& ~~~iBit)) = bankOf u := by
  refine ⟨?_, ?_⟩
  · rw [Cpu.msr, privileged_system hmode, if_pos rfl]
  · rw [← and_not_iBit u]
    exact bankOf_congr (masked_and_of_sub (by decide) _ _)

/-- From a saved context with a `cpsr` of System or User mode, the process goes on with it. -/
theorem restoreContextAsm_spec {regs : Reg → UInt32} {pc u : UInt32}
    (hmode : c.cpsr &&& modeMask = modeSystem) (hcur : c.mem k.currentProcess = pcb)
    (hap : Apart (k.words ++ (pcbWords pcb ++ below (c.get sp) 15)))
    (hsaved : Saved c.mem pcb regs pc u) (hu : bankOf u = some .usr) :
    ∃ c', run (restoreContextAsm k) c = some c' ∧ (∀ r, c'.get r = regs r) ∧ c'.pc = pc ∧
      c'.cpsr = masked fcMask c.cpsr (u &&& ~~~iBit) ∧ c'.mem k.osSpCache = c.get sp - 4 := by
  generalize hs : c.get sp = s at hap ⊢
  obtain ⟨c1, hrun1, hframe1, hsp1, hget1, hmap1, hpc1, -⟩ := stageContext_spec hcur (by rwa [hs])
  rw [hs] at hsp1 hmap1
  rw [hsaved.cpsr] at hget1
  have hmode1 : c1.cpsr &&& modeMask = modeSystem := by rw [hframe1.cpsr, hmode]
  obtain ⟨hmsr, hbank⟩ := msr_eq hmode1 u
  rw [hu] at hbank
  obtain ⟨c2, hc2⟩ : ∃ c2, c2 = c1.withCpsr (masked fcMask c1.cpsr (u &&& ~~~iBit)) := ⟨_, rfl⟩
  have hexec : exec (.msr 1) c1 = some c2 := by
    rw [exec, hget1, hmsr, setCpsr_of _ _ hbank, hc2]
  have hget2 : ∀ r, c2.get r = c1.get r := fun r => by
    rw [get_usr (bank_of _ (by rw [hc2]; exact hbank)),
      get_usr (bank_of _ (bankOf_system hmode1)), hc2, withCpsr_file]
  have habove : above (pushed s 15) 15 = (below s 15).reverse := above_pushed s 15
  have hal : Aligned (c2.get sp) := by
    rw [hget2, hsp1]
    exact hap.right.right.aligned _ (List.mem_reverse.1 (habove ▸ List.mem_cons_self))
  obtain ⟨c3, hrun3, hcpsr, hmap, hsp, hpc, hos⟩ := resumeContext_spec hap.left hal
  rw [hget2, hsp1] at hmap hsp hos
  have hpopped : popped (pushed s 15) 14 = s - 4 := popped_pushed (s - 4) 14
  have hmem2 : c2.mem = c1.mem := by rw [hc2, withCpsr_mem]
  rw [above_concat, List.map_append, List.map_append, ← hmem2] at hmap1
  obtain ⟨hlow, hlast⟩ := List.append_inj' hmap1 rfl
  rw [hlow] at hmap
  rw [List.map_singleton, List.map_singleton, List.singleton_inj] at hlast
  have hos14 : k.osSpCache ≠ popped (pushed s 15) 14 := by
    rw [hpopped]
    exact hap.ne (by simp [Symbols.words]) (List.mem_append_right _ List.mem_cons_self)
  refine ⟨c3, ?_, fun r => ?_, ?_, ?_, ?_⟩
  · rw [restoreContextAsm, run_append_of hrun1, run_cons_of hexec, hrun3]
  · rcases popped_or_sp r with hr | rfl
    · rw [List.map_inj_left.1 hmap r hr, hsaved.reg]
    · rw [hsp hos14, hlast, hsaved.reg]
  · rw [hpc, hmem2, hpc1, hsaved.pc]
  · rw [hcpsr, hc2, withCpsr_cpsr, hframe1.cpsr]
  · rw [hos, hpopped]

end BeagleKernel.Switch
