import BeagleKernel.Lib.Arm
import Mathlib.Data.List.Iterate
import Mathlib.Data.List.Nodup

/-!
# Blocks of pushes, pops and stores

Words of a record pushed one by one, registers popped one by one, and registers stored to the
words of a record, each by induction on the list of words or registers. `Frame rs` is what a
block that writes only the registers `rs` and the memory leaves alone.
-/

namespace BeagleKernel.Arm

open Cpu

/-- Of the core, only the registers `rs` and the memory differ. -/
structure Frame (rs : List Reg) (c c' : Cpu) : Prop where
  cpsr : c'.cpsr = c.cpsr
  spsr : c'.spsr = c.spsr
  pc : c'.pc = c.pc
  file : ∀ p, p ∉ rs.map (phys c.bank) → c'.file p = c.file p

namespace Frame

variable {rs : List Reg} {c c' c'' : Cpu}

theorem refl (c : Cpu) : Frame rs c c := ⟨rfl, rfl, rfl, fun _ _ => rfl⟩

theorem bank (h : Frame rs c c') : c'.bank = c.bank := by
  rw [Cpu.bank, Cpu.bank, h.cpsr]

theorem privileged (h : Frame rs c c') : c'.privileged = c.privileged := by
  rw [Cpu.privileged, Cpu.privileged, h.cpsr]

theorem get (h : Frame rs c c') {r : Reg} (hr : r ∉ rs) : c'.get r = c.get r := by
  rw [Cpu.get, h.bank]
  refine h.file _ fun hin => ?_
  obtain ⟨q, hq, heq⟩ := List.mem_map.1 hin
  exact hr (phys_inj.1 heq ▸ hq)

theorem trans (h : Frame rs c c') (h' : Frame rs c' c'') : Frame rs c c'' :=
  ⟨h'.cpsr.trans h.cpsr, h'.spsr.trans h.spsr, h'.pc.trans h.pc,
    fun p hp => (h'.file p (by rwa [h.bank])).trans (h.file p hp)⟩

theorem mono {qs : List Reg} (h : Frame rs c c') (hsub : rs ⊆ qs) : Frame qs c c' :=
  ⟨h.cpsr, h.spsr, h.pc, fun p hp => h.file p fun hp' => hp (List.map_subset _ hsub hp')⟩

/-- A register put back is left alone. -/
theorem drop {r : Reg} (h : Frame (r :: rs) c c') (hr : c'.get r = c.get r) : Frame rs c c' :=
  ⟨h.cpsr, h.spsr, h.pc, fun p hp => by
    rcases eq_or_ne p (phys c.bank r) with rfl | hpr
    · rw [← Cpu.get, ← hr, Cpu.get, h.bank]
    · exact h.file p
        (by simp only [List.map_cons, List.mem_cons, hpr, hp, or_self, not_false_eq_true])⟩

theorem set {r : Reg} (hr : r ∈ rs) (v : UInt32) (h : Frame rs c c') : Frame rs c (c'.set r v) :=
  ⟨h.cpsr, h.spsr, h.pc, fun p hp => by
    have hpr : p ≠ phys c'.bank r := fun hpr => hp (by
      rw [hpr, h.bank]
      exact List.mem_map_of_mem hr)
    rw [← h.file p hp]
    exact Function.update_of_ne hpr ..⟩

theorem write (a v : UInt32) (h : Frame rs c c') : Frame rs c (c'.write a v) :=
  ⟨h.cpsr, h.spsr, h.pc, h.file⟩

end Frame

/-! ## Stack words -/

/-- The `n` words a stack grows into from `a`, the first pushed first. -/
def below (a : UInt32) (n : ℕ) : List UInt32 := List.iterate (· - 4) (a - 4) n

/-- The `n` words from `a` up. -/
def above (a : UInt32) (n : ℕ) : List UInt32 := List.iterate (· + 4) a n

/-- The stack pointer after `n` pushes. -/
def pushed (a : UInt32) (n : ℕ) : UInt32 := (· - 4)^[n] a

/-- The stack pointer after `n` pops. -/
def popped (a : UInt32) (n : ℕ) : UInt32 := (· + 4)^[n] a

theorem below_succ (a : UInt32) (n : ℕ) : below a (n + 1) = (a - 4) :: below (a - 4) n := rfl

theorem above_succ (a : UInt32) (n : ℕ) : above a (n + 1) = a :: above (a + 4) n := rfl

theorem pushed_succ (a : UInt32) (n : ℕ) : pushed a (n + 1) = pushed (a - 4) n := rfl

theorem popped_pushed (a : UInt32) (n : ℕ) : popped (pushed a n) n = a :=
  Function.LeftInverse.iterate (fun x => UInt32.sub_add_cancel x 4) n a

theorem above_concat (a : UInt32) (n : ℕ) : above a (n + 1) = above a n ++ [popped a n] :=
  List.iterate_add (· + 4) a n 1

theorem below_sublist (a : UInt32) {m n : ℕ} (h : m ≤ n) : (below a m).Sublist (below a n) := by
  obtain ⟨d, rfl⟩ := Nat.exists_eq_add_of_le h
  rw [below, below, List.iterate_add]
  exact List.sublist_append_left ..

/-- What was pushed is found from the end up, the last first. -/
theorem above_pushed (a : UInt32) (n : ℕ) : above (pushed a n) n = (below a n).reverse := by
  induction n generalizing a with
  | zero => rfl
  | succ n ih =>
    rw [pushed_succ, above_concat, ih, popped_pushed, below_succ, List.reverse_cons]

theorem aligned_above {a : UInt32} (h : Aligned a) (n : ℕ) : ∀ x ∈ above a n, Aligned x := by
  induction n generalizing a with
  | zero => simp [above]
  | succ n ih => exact List.forall_mem_cons.2 ⟨h, ih (aligned_add_four h)⟩

/-! ## Blocks -/

section
variable (base tmp : Reg)

/-- Push the word at `off` of the record at `base`. -/
def pushWord (off : UInt32) : List Instr := [.ldr tmp base off, .push tmp]

/-- Store the register `r` at `off r` of the record at `base`. -/
def storeReg (off : Reg → UInt32) (r : Reg) : List Instr := [.mov tmp r, .str tmp base (off r)]

variable {base tmp}

theorem pushWords_spec (hbt : base ≠ tmp) (hb : base ≠ sp) (ht : tmp ≠ sp) :
    ∀ (offs : List UInt32) (c : Cpu),
      (∀ a ∈ below (c.get sp) offs.length, Aligned a) → (below (c.get sp) offs.length).Nodup →
      (∀ off ∈ offs, Aligned (c.get base + off)) →
      (∀ off ∈ offs, c.get base + off ∉ below (c.get sp) offs.length) →
      ∃ c', run (offs.flatMap (pushWord base tmp)) c = some c' ∧ Frame [tmp, sp] c c' ∧
        c'.get sp = pushed (c.get sp) offs.length ∧
        (below (c.get sp) offs.length).map c'.mem = offs.map (fun off => c.mem (c.get base + off)) ∧
        ∀ a, a ∉ below (c.get sp) offs.length → c'.mem a = c.mem a
  | [], c, _, _, _, _ => ⟨c, rfl, .refl c, rfl, rfl, fun _ _ => rfl⟩
  | off :: offs, c, hal, hnd, hoff, hsep => by
    rw [List.length_cons, below_succ] at hal hnd hsep
    obtain ⟨hal0, hal⟩ := List.forall_mem_cons.1 hal
    obtain ⟨hnd0, hnd⟩ := List.nodup_cons.1 hnd
    obtain ⟨hoff0, hoff⟩ := List.forall_mem_cons.1 hoff
    obtain ⟨hsep0, hsep⟩ := List.forall_mem_cons.1 hsep
    set v := c.mem (c.get base + off) with hv
    set c1 := (c.set tmp v).write (c.get sp - 4) v with hc1
    set c2 := c1.set sp (c.get sp - 4) with hc2
    have hrun : run (pushWord base tmp off) c = some c2 := by
      have hpush : exec (.push tmp) (c.set tmp v) = some c2 := by
        rw [exec, get_set_of_ne _ _ ht.symm, get_set_self, store_of _ hal0]
        rfl
      rw [pushWord, run_cons_of (exec_ldr hoff0), run_cons_of hpush, run_nil]
    have hframe : Frame [tmp, sp] c c2 :=
      (((Frame.refl c).set (by simp) v).write _ _).set (by simp) _
    have hsp : c2.get sp = c.get sp - 4 := get_set_self _ _ _
    have hbase : c2.get base = c.get base := hframe.get (by simp [hbt, hb])
    obtain ⟨c', hrun', hframe', hsp', hmap, hmem⟩ := pushWords_spec hbt hb ht offs c2
      (by rwa [hsp]) (by rwa [hsp]) (by rwa [hbase])
      (by
        rw [hsp, hbase]
        exact fun o ho hin => hsep o ho (List.mem_cons_of_mem _ hin))
    rw [hsp] at hsp' hmap hmem
    have hc2mem : ∀ a, a ≠ c.get sp - 4 → c2.mem a = c.mem a := fun a ha =>
      write_mem_of_ne _ _ ha
    refine ⟨c', ?_, hframe.trans hframe', hsp', ?_, fun a ha => ?_⟩
    · rw [List.flatMap_cons, run_append_of hrun, hrun']
    · rw [List.length_cons, below_succ, List.map_cons, List.map_cons, hmap, hmem _ hnd0, hbase]
      congr 1
      · exact write_mem_self _ _ _
      · refine List.map_congr_left fun o ho => hc2mem _ fun heq => ?_
        exact hsep o ho (heq ▸ List.mem_cons_self)
    · rw [List.length_cons, below_succ, List.mem_cons, not_or] at ha
      rw [hmem a ha.2, hc2mem a ha.1]

theorem pops_spec :
    ∀ (rs : List Reg) (c : Cpu), rs.Nodup → sp ∉ rs →
      (∀ a ∈ above (c.get sp) rs.length, Aligned a) →
      ∃ c', run (rs.map .pop) c = some c' ∧ Frame (sp :: rs) c c' ∧ c'.mem = c.mem ∧
        c'.get sp = popped (c.get sp) rs.length ∧
        rs.map c'.get = (above (c.get sp) rs.length).map c.mem
  | [], c, _, _, _ => ⟨c, rfl, .refl c, rfl, rfl, rfl⟩
  | r :: rs, c, hnd, hrs, hal => by
    rw [List.length_cons, above_succ] at hal
    obtain ⟨hal0, hal⟩ := List.forall_mem_cons.1 hal
    obtain ⟨hnd0, hnd⟩ := List.nodup_cons.1 hnd
    rw [List.mem_cons, not_or] at hrs
    set c1 := (c.set sp (c.get sp + 4)).set r (c.mem (c.get sp)) with hc1
    have hframe : Frame (sp :: r :: rs) c c1 := ((Frame.refl c).set (by simp) _).set (by simp) _
    have hsp : c1.get sp = c.get sp + 4 := by
      rw [hc1, get_set_of_ne _ _ hrs.1, get_set_self]
    obtain ⟨c', hrun, hframe', hmem, hsp', hmap⟩ := pops_spec rs c1 hnd hrs.2 (by rwa [hsp])
    rw [hsp] at hsp' hmap
    refine ⟨c', ?_, hframe.trans (hframe'.mono (by simp)), hmem, hsp', ?_⟩
    · rw [List.map_cons, run_cons_of (exec_pop hal0), hrun]
    · rw [List.map_cons, List.length_cons, above_succ, List.map_cons, hmap,
        hframe'.get (by simp [Ne.symm hrs.1, hnd0])]
      congr 1
      exact get_set_self _ _ _

theorem storeRegs_spec {off : Reg → UInt32} (hbt : base ≠ tmp) :
    ∀ (rs : List Reg) (c : Cpu), tmp ∉ rs → (∀ r ∈ rs, Aligned (c.get base + off r)) →
      (rs.map (c.get base + off ·)).Nodup →
      ∃ c', run (rs.flatMap (storeReg base tmp off)) c = some c' ∧ Frame [tmp] c c' ∧
        (∀ r ∈ rs, c'.mem (c.get base + off r) = c.get r) ∧
        ∀ a, a ∉ rs.map (c.get base + off ·) → c'.mem a = c.mem a
  | [], c, _, _, _ => ⟨c, rfl, .refl c, by simp, fun _ _ => rfl⟩
  | r :: rs, c, htmp, hal, hnd => by
    rw [List.mem_cons, not_or] at htmp
    obtain ⟨hal0, hal⟩ := List.forall_mem_cons.1 hal
    rw [List.map_cons, List.nodup_cons] at hnd
    set c1 := (c.set tmp (c.get r)).write (c.get base + off r) (c.get r) with hc1
    have hrun : run (storeReg base tmp off r) c = some c1 := by
      have hstr : exec (.str tmp base (off r)) (c.set tmp (c.get r)) = some c1 := by
        rw [exec, get_set_of_ne _ _ hbt, get_set_self, store_of _ hal0]
      rw [storeReg, run_cons_of (rfl : exec (.mov tmp r) c = _), run_cons_of hstr, run_nil]
    have hframe : Frame [tmp] c c1 := ((Frame.refl c).set (by simp) _).write _ _
    have hbase : c1.get base = c.get base := hframe.get (by simpa using hbt)
    obtain ⟨c', hrun', hframe', hregs, hmem⟩ := storeRegs_spec hbt rs c1 htmp.2
      (by rwa [hbase]) (by rw [hbase]; exact hnd.2)
    rw [hbase] at hregs hmem
    refine ⟨c', ?_, hframe.trans hframe', fun q hq => ?_, fun a ha => ?_⟩
    · rw [List.flatMap_cons, run_append_of hrun, hrun']
    · rcases List.mem_cons.1 hq with rfl | hq
      · rw [hmem _ hnd.1]
        exact write_mem_self _ _ _
      · rw [hregs q hq]
        exact hframe.get (by simpa using fun h : q = tmp => htmp.2 (h ▸ hq))
    · rw [List.map_cons, List.mem_cons, not_or] at ha
      rw [hmem a ha.2]
      exact write_mem_of_ne _ _ ha.1

end

end BeagleKernel.Arm
