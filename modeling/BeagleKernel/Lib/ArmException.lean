import BeagleKernel.Lib.ArmBlocks

/-!
# Exceptions that return to where they came from

A handler pushes registers and `spsr`, runs a body, pops them again and ends in `subs pc, lr, #4`.
The body is code that keeps the contract of a call: it may change the registers a call may change
and the memory, but not what is on the stack above it. Such a handler puts back every register,
whichever of them it pushes, as long as all that a call may change are among them.
-/

namespace BeagleKernel.Arm

open Cpu

/-- `msr spsr_cxsf`. -/
def Cpu.msrSpsr (c : Cpu) (v : UInt32) : Cpu :=
  { c with spsr := Function.update c.spsr c.bank v }

/-- `subs pc, lr, #off`. -/
def Cpu.subsPc (c : Cpu) (off : UInt32) : Option Cpu :=
  (c.setCpsr (c.spsr c.bank)).map fun c' => c'.jump (c.get lr - off)

section
variable (c : Cpu) (v : UInt32)

@[simp] theorem msrSpsr_bank : (c.msrSpsr v).bank = c.bank := rfl
@[simp] theorem msrSpsr_file : (c.msrSpsr v).file = c.file := rfl
@[simp] theorem msrSpsr_get (r : Reg) : (c.msrSpsr v).get r = c.get r := rfl
@[simp] theorem msrSpsr_mem : (c.msrSpsr v).mem = c.mem := rfl

end

/-- What a call may change. -/
def scratch : List Reg := [0, 1, 2, 3, 12, lr]

/-- The contract of a call, with the words `stack` of its callers' frames. -/
structure Called (stack : List UInt32) (c c' : Cpu) : Prop where
  mode : c'.cpsr &&& modeMask = c.cpsr &&& modeMask
  spsr : c'.spsr = c.spsr
  file : ∀ p, p ∉ scratch.map (phys c.bank) → c'.file p = c.file p
  mem : ∀ a ∈ stack, c'.mem a = c.mem a

/-- A handler that pushes `rs` around `body`. -/
def around (rs : List Reg) (body : Cpu → Option Cpu) (c : Cpu) : Option Cpu := do
  let c ← run (rs.map .push) c
  let c ← run [.mrsSpsr 0, .push 0] c
  let c ← body c
  let c ← run [.pop 0] c
  let c ← run (rs.reverse.map .pop) (c.msrSpsr (c.get 0))
  c.subsPc 4

/-! ## Stack words -/

theorem pushed_concat (a : UInt32) (n : ℕ) : pushed a (n + 1) = pushed a n - 4 :=
  Function.iterate_succ_apply' ..

theorem below_concat (a : UInt32) (n : ℕ) : below a (n + 1) = below a n ++ [pushed a (n + 1)] :=
  List.iterate_add (· - 4) (a - 4) n 1

theorem toNat_sub_four (a : UInt32) : (a - 4).toNat = (2 ^ 32 - 4 + a.toNat) % 2 ^ 32 :=
  UInt32.toNat_sub ..

theorem toNat_pushed (a : UInt32) (n : ℕ) : ((pushed a n).toNat + 4 * n) % 2 ^ 32 = a.toNat := by
  induction n with
  | zero => exact Nat.mod_eq_of_lt a.toNat_lt
  | succ n ih =>
    rw [pushed_concat, toNat_sub_four]
    omega

theorem mem_below {a x : UInt32} {n : ℕ} (h : x ∈ below a n) : ∃ i < n, x = pushed a (i + 1) := by
  induction n with
  | zero => cases h
  | succ n ih =>
    rw [below_concat, List.mem_append, List.mem_singleton] at h
    rcases h with h | h
    · obtain ⟨i, hi, hx⟩ := ih h
      exact ⟨i, hi.trans n.lt_succ_self, hx⟩
    · exact ⟨n, n.lt_succ_self, h⟩

theorem aligned_pushed {a : UInt32} (h : Aligned a) (n : ℕ) : Aligned (pushed a n) := by
  induction n with
  | zero => exact h
  | succ n ih =>
    rw [Aligned] at ih
    rw [pushed_concat, Aligned, toNat_sub_four]
    omega

theorem aligned_below {a : UInt32} (h : Aligned a) (n : ℕ) : ∀ x ∈ below a n, Aligned x := by
  intro x hx
  obtain ⟨i, -, rfl⟩ := mem_below hx
  exact aligned_pushed h (i + 1)

theorem pushed_inj {a : UInt32} {i j : ℕ} (hi : i < 2 ^ 30) (hj : j < 2 ^ 30)
    (h : pushed a i = pushed a j) : i = j := by
  have hni := toNat_pushed a i
  have hnj := toNat_pushed a j
  rw [h] at hni
  omega

/-- A stack that does not go around all of memory grows into words of its own. -/
theorem nodup_below (a : UInt32) {n : ℕ} (hn : n < 2 ^ 30) : (below a n).Nodup := by
  induction n with
  | zero => exact List.nodup_nil
  | succ n ih =>
    rw [below_concat, List.nodup_append]
    refine ⟨ih (by omega), List.nodup_singleton _, fun x hx y hy => ?_⟩
    obtain ⟨i, hi, rfl⟩ := mem_below hx
    rw [List.mem_singleton.1 hy]
    exact fun heq => (Nat.succ_inj.1 (pushed_inj (by omega) hn heq)).not_lt hi

theorem pushes_spec :
    ∀ (rs : List Reg) (c : Cpu), sp ∉ rs → Aligned (c.get sp) → rs.length < 2 ^ 30 →
      ∃ c', run (rs.map .push) c = some c' ∧ Frame [sp] c c' ∧
        c'.get sp = pushed (c.get sp) rs.length ∧
        (below (c.get sp) rs.length).map c'.mem = rs.map c.get ∧
        ∀ a, a ∉ below (c.get sp) rs.length → c'.mem a = c.mem a
  | [], c, _, _, _ => ⟨c, rfl, .refl c, rfl, rfl, fun _ _ => rfl⟩
  | r :: rs, c, hrs, hal, hlen => by
    rw [List.mem_cons, not_or] at hrs
    have hal0 : Aligned (c.get sp - 4) := aligned_pushed hal 1
    set c1 := (c.set sp (c.get sp - 4)).write (c.get sp - 4) (c.get r) with hc1
    have hframe : Frame [sp] c c1 := ((Frame.refl c).set (by simp) _).write _ _
    have hsp : c1.get sp = c.get sp - 4 := by rw [hc1, write_get, get_set_self]
    obtain ⟨c', hrun, hframe', hsp', hmap, hmem⟩ := pushes_spec rs c1 hrs.2 (by rwa [hsp])
      (by simp only [List.length_cons] at hlen; omega)
    rw [hsp] at hsp' hmap hmem
    have hnd := nodup_below (c.get sp) hlen
    rw [List.length_cons, below_succ, List.nodup_cons] at hnd
    refine ⟨c', ?_, hframe.trans hframe', hsp', ?_, fun a ha => ?_⟩
    · rw [List.map_cons, run_cons_of (exec_push hal0), hrun]
    · rw [List.map_cons, List.length_cons, below_succ, List.map_cons, hmap, hmem _ hnd.1]
      congr 1
      · exact write_mem_self _ _ _
      · refine List.map_congr_left fun q hq => hframe.get ?_
        exact fun hin => hrs.2 (List.mem_singleton.1 hin ▸ hq)
    · rw [List.length_cons, below_succ, List.mem_cons, not_or] at ha
      rw [hmem a ha.2]
      exact write_mem_of_ne _ _ ha.1

/-! ## The handler -/

theorem Called.bank {stack : List UInt32} {c c' : Cpu} (h : Called stack c c') :
    c'.bank = c.bank := by
  rw [Cpu.bank, Cpu.bank, bankOf_congr h.mode]

theorem Called.get {stack : List UInt32} {c c' : Cpu} (h : Called stack c c') {r : Reg}
    (hr : r ∉ scratch) : c'.get r = c.get r := by
  rw [Cpu.get, h.bank]
  refine h.file _ fun hin => ?_
  obtain ⟨q, hq, heq⟩ := List.mem_map.1 hin
  exact hr (phys_inj.1 heq ▸ hq)

theorem Called.of_set {stack : List UInt32} {c c' : Cpu} {r : Reg} {v : UInt32}
    (hr : r ∈ scratch) (h : Called stack (c.set r v) c') : Called stack c c' :=
  ⟨h.mode, h.spsr, fun p hp => by
    have hpr : p ≠ phys c.bank r := fun hpr => hp (hpr ▸ List.mem_map_of_mem hr)
    rw [h.file p hp, set_file, if_neg hpr], h.mem⟩

/-- `spsr` goes on the stack behind the registers. -/
theorem pushSpsr_spec {c : Cpu} (hal : Aligned (c.get sp - 4)) :
    ∃ c', run [.mrsSpsr 0, .push 0] c = some c' ∧ Frame [0, sp] c c' ∧
      c'.get sp = c.get sp - 4 ∧ c'.mem (c.get sp - 4) = c.spsr c.bank ∧
      ∀ a, a ≠ c.get sp - 4 → c'.mem a = c.mem a := by
  set c1 := c.set 0 (c.spsr c.bank) with hc1
  have hsp : c1.get sp = c.get sp := get_set_of_ne _ _ (by decide)
  have hv : c1.get 0 = c.spsr c.bank := get_set_self _ _ _
  refine ⟨(c1.set sp (c.get sp - 4)).write (c.get sp - 4) (c.spsr c.bank), ?_, ?_, ?_, ?_, ?_⟩
  · rw [run_cons_of (rfl : exec (.mrsSpsr 0) c = some c1)]
    rw [run_cons_of (exec_push (by rwa [hsp])), hsp, hv, run_nil]
  · exact (((Frame.refl c).set (by simp) _).set (by simp) _).write _ _
  · rw [write_get, get_set_self]
  · exact write_mem_self _ _ _
  · exact fun a ha => write_mem_of_ne _ _ ha

/-- The registers `rs` and `spsr` of `c` are on the stack. -/
structure Stacked (rs : List Reg) (c c' : Cpu) : Prop where
  bank : c'.bank = c.bank
  spsr : c'.spsr = c.spsr
  file : ∀ p, p ∉ (sp :: rs).map (phys c.bank) → c'.file p = c.file p
  stack : c'.get sp = pushed (c.get sp) (rs.length + 1)
  words : (below (c.get sp) rs.length).map c'.mem = rs.map c.get
  top : c'.mem (pushed (c.get sp) (rs.length + 1)) = c.spsr c.bank

section
variable {rs : List Reg} {c c' : Cpu}

theorem stack_spec (hsp : sp ∉ rs) (h0 : 0 ∈ rs) (hal : Aligned (c.get sp))
    (hlen : rs.length + 1 < 2 ^ 30) :
    ∃ c', (run (rs.map .push) c).bind (run [.mrsSpsr 0, .push 0]) = some c' ∧
      Frame [0, sp] c c' ∧ Stacked rs c c' ∧
      ∀ a, a ∉ below (c.get sp) (rs.length + 1) → c'.mem a = c.mem a := by
  obtain ⟨c1, hrun1, hf1, hsp1, hmap1, hmem1⟩ := pushes_spec rs c hsp hal (by omega)
  have htop : c1.get sp - 4 = pushed (c.get sp) (rs.length + 1) := by rw [hsp1, pushed_concat]
  obtain ⟨c2, hrun2, hf2, hsp2, hspsr2, hmem2⟩ := pushSpsr_spec (c := c1)
    (by rw [htop]; exact aligned_pushed hal _)
  rw [htop] at hsp2 hspsr2 hmem2
  have hf : Frame [0, sp] c c2 := (hf1.mono (by simp)).trans hf2
  have hnd := nodup_below (c.get sp) hlen
  rw [below_concat, List.nodup_append] at hnd
  have hkeep : ∀ a ∈ below (c.get sp) rs.length, c2.mem a = c1.mem a := fun a ha =>
    hmem2 a (hnd.2.2 a ha _ (List.mem_singleton_self _))
  refine ⟨c2, by rw [hrun1, Option.bind_some, hrun2], hf, ⟨hf.bank, hf.spsr, fun p hp => ?_, hsp2,
    ?_, ?_⟩, fun a ha => ?_⟩
  · refine hf.file p fun hin => hp ?_
    simp only [List.map_cons, List.map_nil, List.mem_cons, List.not_mem_nil, or_false] at hin ⊢
    rcases hin with rfl | rfl
    · exact .inr (List.mem_map_of_mem h0)
    · exact .inl rfl
  · rw [← hmap1]
    exact List.map_congr_left hkeep
  · rw [hspsr2, hf1.bank, hf1.spsr]
  · rw [below_concat, List.mem_append, List.mem_singleton, not_or] at ha
    rw [hmem2 a ha.2, hmem1 a ha.1]

/-- A call leaves them there. -/
theorem Stacked.called {c'' : Cpu} (h : Stacked rs c c') (hscratch : scratch ⊆ rs)
    (hcall : Called (below (c.get sp) (rs.length + 1)) c' c'') : Stacked rs c c'' := by
  rw [below_concat] at hcall
  refine ⟨hcall.bank.trans h.bank, hcall.spsr.trans h.spsr, fun p hp => ?_, ?_, ?_, ?_⟩
  · refine (hcall.file p fun hin => hp ?_).trans (h.file p hp)
    rw [h.bank] at hin
    exact List.map_subset _ (fun _ hq => List.mem_cons_of_mem _ (hscratch hq)) hin
  · exact (hcall.get (by decide)).trans h.stack
  · rw [← h.words]
    exact List.map_congr_left fun a ha => hcall.mem a (by simp [ha])
  · exact (hcall.mem _ (by simp)).trans h.top

theorem Stacked.popSpsr (h : Stacked rs c c') (hal : Aligned (c.get sp)) :
    exec (.pop 0) c' =
      some ((c'.set sp (pushed (c.get sp) rs.length)).set 0 (c.spsr c.bank)) := by
  rw [exec_pop (by rw [h.stack]; exact aligned_pushed hal _), h.stack, h.top, pushed_concat,
    UInt32.sub_add_cancel]

/-- What was stacked is found again, and the rest of the core is what it was. -/
theorem Stacked.pops (h : Stacked rs c c') (hnd : rs.Nodup) (hsp : sp ∉ rs) (h0 : 0 ∈ rs)
    (hal : Aligned (c.get sp)) {c1 : Cpu}
    (hc1 : c1 = ((c'.set sp (pushed (c.get sp) rs.length)).set 0 (c.spsr c.bank)).msrSpsr
      (c.spsr c.bank)) :
    ∃ c2, run (rs.reverse.map .pop) c1 = some c2 ∧ c2.bank = c.bank ∧ c2.spsr = c.spsr ∧
      c2.file = c.file ∧ c2.mem = c'.mem := by
  have hbank1 : c1.bank = c.bank := by rw [hc1, msrSpsr_bank, set_bank, set_bank, h.bank]
  have hspsr1 : c1.spsr = c.spsr := by
    rw [hc1]
    change Function.update c'.spsr c'.bank _ = _
    rw [h.spsr, h.bank, Function.update_eq_self]
  have hsp1 : c1.get sp = pushed (c.get sp) rs.length := by
    rw [hc1, msrSpsr_get, get_set_of_ne _ _ (by decide), get_set_self]
  have habove : above (c1.get sp) rs.length = (below (c.get sp) rs.length).reverse := by
    rw [hsp1, above_pushed]
  obtain ⟨c2, hrun, hf, hmem, hsp2, hmap⟩ := pops_spec rs.reverse c1 (by simpa using hnd)
    (by simpa using hsp) (by
      rw [List.length_reverse, habove]
      exact fun a ha => aligned_below hal _ a (List.mem_reverse.1 ha))
  rw [List.length_reverse] at hsp2 hmap
  have hmem' : c2.mem = c'.mem := by rw [hmem, hc1, msrSpsr_mem, set_mem, set_mem]
  have hbank2 : c2.bank = c.bank := hf.bank.trans hbank1
  -- every register pushed is popped
  have hregs : rs.reverse.map c2.get = rs.reverse.map c.get := by
    have hwords : (below (c.get sp) rs.length).map c1.mem = rs.map c.get := by
      rw [← h.words, hc1, msrSpsr_mem, set_mem, set_mem]
    rw [hmap, habove, List.map_reverse, hwords, List.map_reverse]
  refine ⟨c2, hrun, hbank2, hf.spsr.trans hspsr1, funext fun p => ?_, hmem'⟩
  by_cases hp : p ∈ (sp :: rs).map (phys c.bank)
  · obtain ⟨r, hr, rfl⟩ := List.mem_map.1 hp
    have hget : c2.get r = c.get r := by
      rcases List.mem_cons.1 hr with rfl | hr
      · rw [hsp2, hsp1, popped_pushed]
      · exact List.map_inj_left.1 hregs r (List.mem_reverse.2 hr)
    rwa [Cpu.get, hbank2] at hget
  · have hout : ∀ r ∈ sp :: rs, p ≠ phys c.bank r := fun r hr heq =>
      hp (heq ▸ List.mem_map_of_mem hr)
    have h1 : c1.file p = c'.file p := by
      rw [hc1, msrSpsr_file, set_file, set_file, set_bank, h.bank,
        if_neg (hout 0 (by simp [h0])), if_neg (hout sp (by simp))]
    rw [hf.file p (by rw [hbank1]; simpa using hp), h1, h.file p hp]

end

/-- Nothing but the memory remembers the body. -/
theorem around_spec (rs : List Reg) (body : Cpu → Option Cpu) (c : Cpu) (hnd : rs.Nodup)
    (hsp : sp ∉ rs) (hscratch : scratch ⊆ rs) (hal : Aligned (c.get sp))
    (hlen : rs.length + 1 < 2 ^ 30) (hmode : (bankOf (c.spsr c.bank)).isSome) :
    ∃ called, Frame [0, sp] c called ∧ called.get sp = pushed (c.get sp) (rs.length + 1) ∧
      (∀ a, a ∉ below (c.get sp) (rs.length + 1) → called.mem a = c.mem a) ∧
      ((∀ c', body called = some c' → Called (below (c.get sp) (rs.length + 1)) called c') →
        around rs body c = (body called).map fun c' =>
          { c with cpsr := c.spsr c.bank, pc := c.get lr - 4, mem := c'.mem }) := by
  have h0 : (0 : Reg) ∈ rs := hscratch (by simp [scratch])
  obtain ⟨c1, hrun1, hframe, hst, hmem⟩ := stack_spec hsp h0 hal hlen
  obtain ⟨c0, hrun0, hrun1⟩ := Option.bind_eq_some_iff.1 hrun1
  refine ⟨c1, hframe, hst.stack, hmem, fun hcalled => ?_⟩
  rcases hbody : body c1 with _ | c2
  · simp only [around, hrun0, hrun1, hbody, Option.bind_eq_bind, Option.bind_some,
      Option.bind_none, Option.map_none]
  · have hst2 := hst.called hscratch (hcalled c2 hbody)
    obtain ⟨c3, hrun3, hbank3, hspsr3, hfile3, hmem3⟩ := hst2.pops hnd hsp h0 hal rfl
    obtain ⟨b, hb⟩ := Option.isSome_iff_exists.1 hmode
    have hlr : c3.get lr = c.get lr := by rw [Cpu.get, Cpu.get, hbank3, hfile3]
    have hend : c3.subsPc 4 =
        some { c with cpsr := c.spsr c.bank, pc := c.get lr - 4, mem := c2.mem } := by
      rw [subsPc, hspsr3, hbank3, setCpsr_of _ _ hb, Option.map_some, hlr, Cpu.jump, Cpu.withCpsr,
        hfile3, hmem3, hspsr3]
    have hpop := run_cons_of (hst2.popSpsr hal) []
    simp only [around, hrun0, hrun1, hbody, hpop, run_nil, get_set_self, hrun3, hend,
      Option.bind_eq_bind, Option.bind_some, Option.map_some]

end BeagleKernel.Arm
