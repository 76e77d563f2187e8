import BeagleKernel.Drivers.Intc
import BeagleKernel.Lib.Masks

/-!
# The lines of the interrupt controller

A call reaches the mask of its line and no other: the registers that set and clear masks read as
zero, so writing one bit of them back writes no other. So the masks and the table of handlers are
those of `Lines`, call after call, and the handler called is that of a line that is enabled.
-/

namespace BeagleKernel.Intc

open Device Bus Controller

variable {η : Type} {c c' : Controller} {v : UInt32} {l : Lines η} {table : ℕ → η}
  {e : ℕ → Bool} {line k : Fin numInterrupts}

/-! ## Offsets and bits -/

theorem mirClear_inj : ∀ {m n : Fin 4}, mirClear m = mirClear n ↔ m = n := by decide

theorem mirSet_inj : ∀ {m n : Fin 4}, mirSet m = mirSet n ↔ m = n := by decide

theorem mirClear_ne_mirSet : ∀ {m n : Fin 4}, mirClear m ≠ mirSet n := by decide

theorem mirnClrOff_line : ∀ k : Fin numInterrupts,
    intcMirnClrOff (UInt32.ofNat k) = mirClear (bank k) := by decide

theorem mirnSetOff_line : ∀ k : Fin numInterrupts,
    intcMirnSetOff (UInt32.ofNat k) = mirSet (bank k) := by decide

theorem irqRegBit_line : ∀ k : Fin numInterrupts,
    (intcIrqRegBit (UInt32.ofNat k)).toBitVec = BitVec.twoPow 32 (k % 32) := by decide

theorem ilenOff_line : ∀ k : Fin numInterrupts, intcIlenOff (UInt32.ofNat k) ≠ intcSysconfigOff ∧
    ∀ n, intcIlenOff (UInt32.ofNat k) ≠ mirClear n ∧ intcIlenOff (UInt32.ofNat k) ≠ mirSet n := by
  decide

theorem line_eq_iff : line = k ↔ bank line = bank k ∧ line.val % 32 = k.val % 32 := by
  refine ⟨fun h => h ▸ ⟨rfl, rfl⟩, fun ⟨hbank, hbit⟩ => Fin.ext ?_⟩
  have hdiv : line.val / 32 = k.val / 32 := congrArg Fin.val hbank
  omega

theorem getLsbD_bit : (intcIrqRegBit (UInt32.ofNat k.val)).toBitVec.getLsbD (line % 32) =
    decide (line.val % 32 = k.val % 32) := by
  have hlt : k.val % 32 < 32 := Nat.mod_lt _ (by decide)
  rw [irqRegBit_line, BitVec.getLsbD_twoPow, decide_eq_true hlt, Bool.true_and]
  exact decide_eq_decide.2 eq_comm

/-! ## One mask -/

theorem write_mir (offset : UInt32) (n : Fin 4) : (c.write offset v).mir n =
    if offset = mirClear n then c.mir n &&& ~~~v
    else if offset = mirSet n then c.mir n ||| v else c.mir n := rfl

/-- A write to a register that clears masks, of the bit of one line. -/
theorem masked_clear : (c.write (mirClear (bank k)) (intcIrqRegBit (UInt32.ofNat k.val))).masked
    line = (c.masked line && decide (line ≠ k)) := by
  have hlt : line.val % 32 < 32 := Nat.mod_lt _ (by decide)
  by_cases hbank : bank line = bank k
  · have hline : line = k ↔ line.val % 32 = k.val % 32 := by
      rw [line_eq_iff, hbank, eq_self, true_and]
    rw [masked, masked, write_mir, if_pos (mirClear_inj.2 hbank.symm),
      UInt32.toBitVec_and, UInt32.toBitVec_not, BitVec.getLsbD_and, BitVec.getLsbD_not, getLsbD_bit,
      decide_eq_true hlt, Bool.true_and, decide_not, decide_eq_decide.2 hline]
  · have hline : line ≠ k := fun h => hbank (congrArg bank h)
    rw [masked, masked, write_mir, if_neg fun h => hbank (mirClear_inj.1 h).symm,
      if_neg mirClear_ne_mirSet, decide_eq_true hline, Bool.and_true]

theorem masked_set : (c.write (mirSet (bank k)) (intcIrqRegBit (UInt32.ofNat k.val))).masked
    line = (c.masked line || decide (line = k)) := by
  have hclear : ∀ n, mirSet (bank k) ≠ mirClear n := fun n => mirClear_ne_mirSet.symm
  by_cases hbank : bank line = bank k
  · have hline : line = k ↔ line.val % 32 = k.val % 32 := by
      rw [line_eq_iff, hbank, eq_self, true_and]
    rw [masked, masked, write_mir, if_neg (hclear _), if_pos (mirSet_inj.2 hbank.symm),
      UInt32.toBitVec_or, BitVec.getLsbD_or, getLsbD_bit, decide_eq_decide.2 hline]
  · have hline : line ≠ k := fun h => hbank (congrArg bank h)
    rw [masked, masked, write_mir, if_neg (hclear _),
      if_neg fun h => hbank (mirSet_inj.1 h).symm, decide_eq_false hline, Bool.or_false]

/-! ## The calls -/

/-- The controller runs, and the lines `e` are not masked. -/
structure Enabled (e : ℕ → Bool) (c : Controller) : Prop where
  running : c.resetting = false
  masked : ∀ line : Fin numInterrupts, c.masked line = !e line

/-- The table has the handlers of `l`. -/
def Holds (l : Lines η) (table : ℕ → η) : Prop :=
  ∀ line : Fin numInterrupts, table line = l.handler line

theorem keeps_enabled : device.Keeps (Enabled e) := by
  rintro c c' h (⟨asks⟩ | ⟨hreset⟩)
  · exact ⟨h.running, h.masked⟩
  · exact nomatch hreset.symm.trans h.running

theorem access_read {base offset : UInt32} : device.Access (.read base offset v) c c' ↔
    c' = c ∧ (base = intcBaseAddr → c.Read offset v) := Iff.rfl

theorem access_write {offset : UInt32} :
    device.Access (.write intcBaseAddr offset v) c c' ↔ c' = c.write offset v := Iff.rfl

/-- A masked write to a register that reads as zero writes its value. -/
theorem writeMasked_zero {offset bit : UInt32} {P : Controller → Prop}
    {Q : Unit → Controller → Prop} (hP : device.Keeps P)
    (hoff : ∃ n, offset = mirClear n ∨ offset = mirSet n)
    (hwrite : ∀ c, P c → Q () (c.write offset bit)) :
    device.Triple P (reg32WriteMasked intcBaseAddr offset bit bit) Q := by
  have hzero : (0 &&& ~~~bit) ||| (bit &&& bit) = bit := by
    rw [UInt32.zero_and, UInt32.and_self, UInt32.zero_or]
  refine triple_writeMasked 0 hP (fun v c c' h hacc => ?_) fun c c' h hacc => ?_
  · obtain ⟨rfl, hread⟩ := access_read.1 hacc
    obtain ⟨n, hn⟩ := hoff
    exact ⟨(hread rfl).1 n hn, h⟩
  · rw [hzero] at hacc
    rw [access_write.1 hacc]
    exact hwrite c h

theorem mir_ne_sysconfig : ∀ n, mirClear n ≠ intcSysconfigOff ∧ mirSet n ≠ intcSysconfigOff := by
  decide

theorem Enabled.write {offset : UInt32} (h : Enabled e c)
    (hoff : offset = intcSysconfigOff → v &&& 0x2 = 0) {e' : ℕ → Bool}
    (hmasked : ∀ line, (c.write offset v).masked line = !e' line) :
    Enabled e' (c.write offset v) := by
  refine ⟨?_, hmasked⟩
  have hreset : (offset == intcSysconfigOff && v &&& 0x2 != 0) = false := by
    by_cases h : offset = intcSysconfigOff
    · rw [hoff h, bne_self_eq_false, Bool.and_false]
    · rw [beq_false_of_ne h, Bool.false_and]
  show (c.resetting || (offset == intcSysconfigOff && v &&& 0x2 != 0)) = false
  rw [h.running, hreset, Bool.or_false]

/-- A write to a register without masks. -/
theorem Enabled.write_other {offset : UInt32} (h : Enabled e c)
    (hoff : offset = intcSysconfigOff → v &&& 0x2 = 0)
    (hmir : ∀ n, offset ≠ mirClear n ∧ offset ≠ mirSet n) : Enabled e (c.write offset v) :=
  h.write hoff fun line => by
    have hsame : (c.write offset v).masked line = c.masked line := by
      rw [Controller.masked, Controller.masked, write_mir, if_neg (hmir _).1, if_neg (hmir _).2]
    exact hsame.trans (h.masked line)

theorem toNat_line (k : Fin numInterrupts) : (UInt32.ofNat k.val).toNat = k.val :=
  UInt32.toNat_ofNat_of_lt' (k.isLt.trans (by decide))

/-- A write that masks one line, or clears its mask. -/
theorem writeMasked_line {offset bit : UInt32} (k : Fin numInterrupts) (enabled : Bool)
    (hoff : ∃ n, offset = mirClear n ∨ offset = mirSet n)
    (hwrite : ∀ (c : Controller) (line : Fin numInterrupts),
      (c.write offset bit).masked line = if line = k then !enabled else c.masked line) :
    device.Triple (Enabled e) (reg32WriteMasked intcBaseAddr offset bit bit)
      fun _ => Enabled (Function.update e k enabled) := by
  have hsys : offset ≠ intcSysconfigOff := by
    obtain ⟨n, rfl | rfl⟩ := hoff
    · exact (mir_ne_sysconfig n).1
    · exact (mir_ne_sysconfig n).2
  refine writeMasked_zero keeps_enabled hoff fun c h => h.write (absurd · hsys) fun line => ?_
  rw [hwrite, h.masked, Function.update_apply]
  by_cases hline : line = k
  · simp [hline]
  · simp [hline, Fin.val_ne_of_ne hline]

theorem intcEnableIrq_line (k : Fin numInterrupts) :
    device.Triple (Enabled e) (intcEnableIrq (UInt32.ofNat k.val))
      fun _ => Enabled (Function.update e k true) := by
  have hk := toNat_line k
  rw [intcEnableIrq, if_neg (by rw [hk]; exact not_le.2 k.isLt), mirnClrOff_line]
  refine (writeMasked_line k true ⟨_, .inl rfl⟩ fun c line => ?_).bind fun _ => .pure fun _ h => h
  rw [masked_clear]
  by_cases hline : line = k <;> simp [hline]

theorem intcDisableIrq_line (k : Fin numInterrupts) :
    device.Triple (Enabled e) (intcDisableIrq (UInt32.ofNat k.val))
      fun _ => Enabled (Function.update e k false) := by
  have hk := toNat_line k
  rw [intcDisableIrq, if_neg (by rw [hk]; exact not_le.2 k.isLt), mirnSetOff_line]
  refine (writeMasked_line k false ⟨_, .inr rfl⟩ fun c line => ?_).bind fun _ => .pure fun _ h => h
  rw [masked_set]
  by_cases hline : line = k <;> simp [hline]

theorem intcSetPriority_line (k : Fin numInterrupts) (priority : UInt32) :
    device.Triple (Enabled e) (intcSetPriority (UInt32.ofNat k.val) priority)
      fun _ => Enabled e :=
  triple_write keeps_enabled fun c c' h hacc => by
    rw [access_write.1 hacc]
    exact h.write_other (absurd · (ilenOff_line k).1) (ilenOff_line k).2

/-- A call does to the controller and the table what it does to the lines. -/
theorem exec_call {call : Call η} (hok : call.Ok) :
    device.Triple (fun c => Enabled l.enabled c ∧ Holds l table) (Call.exec table call)
      fun table' c => Enabled (l.call call).enabled c ∧ Holds (l.call call) table' := by
  have hline : ∀ {n : UInt32} (h : n.toNat < numInterrupts),
      n = UInt32.ofNat (⟨n.toNat, h⟩ : Fin numInterrupts).val := fun _ => UInt32.ofNat_toNat.symm
  rcases call with ⟨n, handler⟩ | n | n | ⟨n, priority⟩
  · refine .pure fun c ⟨henabled, hholds⟩ => ?_
    by_cases h : n.toNat < numInterrupts
    · rw [intcRegisterIrq, if_neg (not_le.2 h), Lines.call, if_pos h]
      refine ⟨henabled, fun line => ?_⟩
      show Function.update table n.toNat handler line =
        Function.update l.handler n.toNat handler line
      rw [Function.update_apply, Function.update_apply, hholds line]
    · rw [intcRegisterIrq, if_pos (not_lt.1 h), Lines.call, if_neg h]
      exact ⟨henabled, hholds⟩
  · by_cases h : n.toNat < numInterrupts
    · rw [Call.exec, Lines.call, if_pos h, hline h]
      exact (intcEnableIrq_line ⟨n.toNat, h⟩).frame.bind fun _ => .pure fun c hc => by
        rwa [toNat_line]
    · rw [Call.exec, Lines.call, if_neg h, intcEnableIrq, if_pos (not_lt.1 h)]
      exact .pure fun c hc => hc
  · by_cases h : n.toNat < numInterrupts
    · rw [Call.exec, Lines.call, if_pos h, hline h]
      exact (intcDisableIrq_line ⟨n.toNat, h⟩).frame.bind fun _ => .pure fun c hc => by
        rwa [toNat_line]
    · rw [Call.exec, Lines.call, if_neg h, intcDisableIrq, if_pos (not_lt.1 h)]
      exact .pure fun c hc => hc
  · rw [Call.exec, Lines.call, hline hok]
    exact (intcSetPriority_line ⟨n.toNat, hok⟩ priority).frame.bind fun _ => .pure fun c hc => hc

theorem foldlM_calls : ∀ {calls : List (Call η)} {l : Lines η} {table : ℕ → η},
    (∀ call ∈ calls, call.Ok) →
    device.Triple (fun c => Enabled l.enabled c ∧ Holds l table) (calls.foldlM Call.exec table)
      fun table' c => Enabled (calls.foldl Lines.call l).enabled c ∧
        Holds (calls.foldl Lines.call l) table'
  | [], _, _, _ => .pure fun _ h => h
  | call :: calls, l, table, hok => by
    obtain ⟨hcall, hcalls⟩ := List.forall_mem_cons.1 hok
    exact (exec_call hcall).bind fun table' => foldlM_calls hcalls

/-! ## From the reset to an interrupt -/

/-- A reset that is under way, or done. -/
def Resetting (c : Controller) : Prop := c.resetting = true ∨ Enabled (fun _ => false) c

theorem keeps_resetting : device.Keeps Resetting := by
  rintro c c' (hreset | h) hmove
  · rcases hmove with ⟨asks⟩ | -
    · exact .inl hreset
    · refine .inr ⟨rfl, fun line => ?_⟩
      exact BitVec.getLsbD_allOnes.trans (decide_eq_true (Nat.mod_lt _ (by decide)))
  · exact .inr (keeps_enabled c c' h hmove)

/-- A masked write to a register without masks that does not reset. -/
theorem writeMasked_other {offset mask value : UInt32}
    (hreset : ∀ v : UInt32, v &&& 0x2 = 0 → offset = intcSysconfigOff →
      ((v &&& ~~~mask) ||| (value &&& mask)) &&& 0x2 = 0)
    (hmir : ∀ n, offset ≠ mirClear n ∧ offset ≠ mirSet n) :
    device.Triple (Enabled e) (reg32WriteMasked intcBaseAddr offset mask value)
      fun _ => Enabled e := by
  have hread : device.Triple (Enabled e) (reg32Read intcBaseAddr offset) fun v c =>
      Enabled e c ∧ (offset = intcSysconfigOff → v &&& 0x2 = 0) :=
    triple_read keeps_enabled fun v c c' h hacc => by
      obtain ⟨rfl, hread⟩ := access_read.1 hacc
      exact ⟨h, (hread rfl).2.1⟩
  refine hread.bind fun v => triple_write
    (fun c c' h hmove => ⟨keeps_enabled c c' h.1 hmove, h.2⟩) fun c c' h hacc => ?_
  rw [access_write.1 hacc]
  exact h.1.write_other (fun hoff => hreset v (h.2 hoff) hoff) hmir

theorem intcInit_reset (intcVectorTable : ℕ → η) (defaultHandler : η) :
    device.Triple (fun _ => True) (intcInit intcVectorTable defaultHandler)
      fun table' c => Enabled (Lines.reset defaultHandler).enabled c ∧
        Holds (Lines.reset defaultHandler) table' := by
  have hstart : device.Triple (fun _ => True) (reg32Write intcBaseAddr intcSysconfigOff 0x2)
      fun _ => Resetting :=
    triple_write (fun _ _ _ _ => trivial) fun c c' _ hacc => by
      rw [access_write.1 hacc]
      exact .inl (Bool.or_true _)
  have hwait : device.Triple Resetting
      (waitUntil intcBaseAddr intcStatusOff (· &&& 0x1 == 0x1))
      fun _ => Enabled fun _ => false :=
    triple_waitUntil keeps_resetting fun v c c' h hacc => by
      obtain ⟨rfl, hread⟩ := access_read.1 hacc
      refine ⟨h, fun hstop => h.resolve_left fun hreset => ?_⟩
      have hdone := ((hread rfl).2.2.1 rfl).1 (beq_iff_eq.1 hstop)
      exact nomatch hdone.symm.trans hreset
  have hthreshold : device.Triple (Enabled fun _ => false)
      (reg32Write intcBaseAddr intcThresholdOff 0xFF) fun _ => Enabled fun _ => false :=
    triple_write keeps_enabled fun c c' h hacc => by
      rw [access_write.1 hacc]
      exact h.write_other (fun hoff => absurd hoff (by decide)) (by decide)
  refine hstart.bind fun _ => hwait.bind fun _ =>
    (writeMasked_other (fun v hv _ => ?_) (by decide)).bind fun _ =>
    (writeMasked_other (fun _ _ hoff => absurd hoff (by decide)) (by decide)).bind fun _ =>
    hthreshold.bind fun _ => .pure fun c h => ⟨h, fun line => if_pos line.isLt⟩
  rw [UInt32.or_and_distrib, UInt32.and_assoc, UInt32.and_comm (~~~0x1), ← UInt32.and_assoc, hv]
  decide

/-- What `irq_handler_asm` calls. -/
theorem activeHandler_line : device.Triple (fun c => Enabled l.enabled c ∧ Holds l table)
    (activeHandler table) fun handler c => Enabled l.enabled c ∧
      ∃ line : Fin numInterrupts, handler = l.handler line ∧
        ((∃ asking : Fin numInterrupts, c.asks asking ∧ l.enabled asking) →
          c.asks line ∧ l.enabled line) := by
  have hread : device.Triple (fun c => Enabled l.enabled c ∧ Holds l table)
      (reg32Read intcBaseAddr intcSirIrqOff) fun v c =>
        (Enabled l.enabled c ∧ Holds l table) ∧ c.Read intcSirIrqOff v :=
    triple_read (fun c c' h hmove => ⟨keeps_enabled c c' h.1 hmove, h.2⟩) fun v c c' h hacc => by
      obtain ⟨rfl, hread⟩ := access_read.1 hacc
      exact ⟨h, hread rfl⟩
  refine hread.bind fun v => .pure fun c ⟨⟨henabled, hholds⟩, hread⟩ => ⟨henabled, ?_⟩
  have hmasked : ∀ line : Fin numInterrupts, c.masked line = false ↔ l.enabled line :=
    fun line => by rw [henabled.masked, Bool.not_eq_false']
  by_cases hasks : ∃ asking : Fin numInterrupts, c.asks asking ∧ l.enabled asking
  · obtain ⟨asking, hasking, hline⟩ := hasks
    obtain ⟨line, hv, hlineAsks, hlineMasked⟩ :=
      hread.2.2.2 rfl ⟨asking, hasking, (hmasked asking).2 hline⟩
    refine ⟨line, ?_, fun _ => ⟨hlineAsks, (hmasked line).1 hlineMasked⟩⟩
    rw [hv, toNat_line, hholds]
  · -- without an interrupt to serve, the number is still that of a line
    have hlt : (v &&& 0x7F).toNat < numInterrupts := by
      rw [UInt32.toNat_and]
      exact Nat.lt_of_le_of_lt Nat.and_le_right (by decide)
    exact ⟨⟨_, hlt⟩, hholds ⟨_, hlt⟩, fun h => absurd h hasks⟩

/-- The handler called is that of a line, and where an enabled line asks for an interrupt, that of
an enabled line that asks for one; the lines that are masked are those that are not enabled. -/
theorem active_registered (intcVectorTable : ℕ → η) (defaultHandler handler : η)
    {calls : List (Call η)} (hok : ∀ call ∈ calls, call.Ok) {vs rest : List UInt32}
    {log : List BusAccess}
    (hrun : handlerAfter intcVectorTable defaultHandler calls vs = some ⟨handler, log, rest⟩)
    (hserves : device.Serves c log c') :
    (∀ line : Fin numInterrupts,
      c'.masked line = !(Lines.after defaultHandler calls).enabled line) ∧
      ∃ line : Fin numInterrupts,
        handler = (Lines.after defaultHandler calls).handler line ∧
        ((∃ asking : Fin numInterrupts, c'.asks asking ∧
          (Lines.after defaultHandler calls).enabled asking) →
          c'.asks line ∧ (Lines.after defaultHandler calls).enabled line) := by
  have h := (intcInit_reset intcVectorTable defaultHandler).bind fun _ =>
    (foldlM_calls hok).bind fun _ => activeHandler_line
  obtain ⟨henabled, hline⟩ := h c vs handler log rest c' trivial hrun hserves
  exact ⟨henabled.masked, hline⟩

/-- `uart0_interrupt_init`, with `1` for `handle_uart0_irq`. -/
def uart0InterruptInit : List (Call ℕ) := [.register 72 1, .setPriority 72 1, .enable 72]

/-- What the controller returns for a reset, `uart0_interrupt_init` and an interrupt of UART0. -/
def uart0Reads : List UInt32 := [1, 0, 0, 0, 72]

def uart0Log : List BusAccess :=
  [.write intcBaseAddr 0x10 2, .read intcBaseAddr 0x14 1, .read intcBaseAddr 0x10 0,
    .write intcBaseAddr 0x10 1, .read intcBaseAddr 0x50 0, .write intcBaseAddr 0x50 1,
    .write intcBaseAddr 0x68 0xFF, .write intcBaseAddr 0x220 4, .read intcBaseAddr 0xC8 0,
    .write intcBaseAddr 0xC8 0x100, .read intcBaseAddr 0x40 72]

theorem uart0Log_run : handlerAfter (fun _ => 0) 0 uart0InterruptInit uart0Reads =
    some ⟨1, uart0Log, []⟩ := by rfl

theorem served_read {offset : UInt32} {log : List BusAccess} (h : c.Read offset v)
    (hrest : ∃ c', device.Serves c log c') :
    ∃ c', device.Serves c (.read intcBaseAddr offset v :: log) c' :=
  hrest.imp fun _ hrest => .access .refl ⟨rfl, fun _ => h⟩ hrest

theorem served_write {offset : UInt32} {log : List BusAccess}
    (hrest : ∃ c', device.Serves (c.write offset v) log c') :
    ∃ c', device.Serves c (.write intcBaseAddr offset v :: log) c' :=
  hrest.imp fun _ hrest => .access .refl (access_write.2 rfl) hrest

theorem served_move {log : List BusAccess} (hmove : Move c c') (hlog : log ≠ [])
    (hrest : ∃ c'', device.Serves c' log c'') : ∃ c'', device.Serves c log c'' := by
  obtain ⟨c'', hrest⟩ := hrest
  cases hrest with
  | done => exact absurd rfl hlog
  | access moves access rest => exact ⟨_, .access (.head hmove moves) access rest⟩

/-- A read of a register that says nothing of an interrupt or a reset. -/
theorem read_zero {offset : UInt32} (hstat : offset ≠ intcStatusOff)
    (hsir : offset ≠ intcSirIrqOff) : c.Read offset 0 :=
  ⟨fun _ _ => rfl, fun _ => by decide, fun h => absurd h hstat, fun h => absurd h hsir⟩

theorem uart0Log_served :
    ∃ c', device.Serves ⟨fun _ => 0, fun _ => false, false⟩ uart0Log c' := by
  refine served_write (served_move (.reset rfl) (by simp) (served_read ?_ ?_))
  · exact ⟨by decide, by decide, fun _ => ⟨fun _ => rfl, fun _ => by decide⟩,
      fun h => absurd h (by decide)⟩
  refine served_read (read_zero (by decide) (by decide)) (served_write ?_)
  refine served_read (read_zero (by decide) (by decide)) (served_write (served_write ?_))
  refine served_write (served_read (read_zero (by decide) (by decide)) (served_write ?_))
  refine served_move (.asks _ fun line => line == 72) (by simp) (served_read ?_ ⟨_, .done _⟩)
  exact ⟨by decide, by decide, fun h => absurd h (by decide), fun _ _ => ⟨72, rfl, rfl, rfl⟩⟩

theorem active_registered_uart0 : ∃ c' : Controller,
    (∀ line : Fin numInterrupts, c'.masked line =
      !(Lines.after 0 uart0InterruptInit).enabled line) ∧
    ∃ line : Fin numInterrupts, 1 = (Lines.after 0 uart0InterruptInit).handler line ∧
      ((∃ asking : Fin numInterrupts, c'.asks asking ∧
        (Lines.after 0 uart0InterruptInit).enabled asking) →
        c'.asks line ∧ (Lines.after 0 uart0InterruptInit).enabled line) := by
  obtain ⟨c', hserves⟩ := uart0Log_served
  refine ⟨c', active_registered (fun _ => 0) 0 1 ?_ uart0Log_run hserves⟩
  simp only [uart0InterruptInit, List.forall_mem_cons, List.not_mem_nil, false_imp_iff,
    implies_true, and_true]
  exact ⟨trivial, (by decide : (72 : UInt32).toNat < numInterrupts), trivial⟩

end BeagleKernel.Intc
