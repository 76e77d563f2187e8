import BeagleKernel.Drivers.Timer
import BeagleKernel.Lib.Masks

/-!
# A timer ticks once for every time it comes to its end

Once it is started the counter goes round every `period` counts, and each time raises the flag of
an overflow. The handler writes back the flag it read and so clears it; so the tick function is
called once for every overflow, but for those that found the flag still raised, and the one that
has yet to be served.
-/

namespace BeagleKernel.Timers

open Device Bus Intc Timer

variable {i : UInt16} {ms v : UInt32} {ticks : ℕ} {running : Bool} {s t t' : Timer}
  {P : Timer → Prop}

/-! ## The bus -/

theorem valid_iff : Valid i ↔ i = 2 ∨ i = 3 ∨ i = 4 ∨ i = 5 ∨ i = 6 ∨ i = 7 := by
  simp only [Valid, UInt16.le_iff_toNat_le, ← UInt16.toNat_inj, UInt16.reduceToNat]
  omega

/-- The base of a timer is that of nothing else. -/
theorem timerBase_other (hi : Valid i) :
    cmDpllBase ≠ timerBase i ∧ cmPerBase ≠ timerBase i ∧ intcBaseAddr ≠ timerBase i := by
  rcases valid_iff.1 hi with rfl | rfl | rfl | rfl | rfl | rfl <;> decide

theorem access_read {base offset : UInt32} (h : (device i).Access (.read base offset v) t t') :
    t' = t ∧ (base = timerBase i → t.Read offset v) ∧ (base = intcBaseAddr →
      offset = intcSirIrqOff → v &&& 0x7F = timerIrqNum i → t.asks) := h

theorem access_write {offset : UInt32}
    (h : (device i).Access (.write (timerBase i) offset v) t t') : t' = t.write offset v :=
  Eq.trans h (if_pos rfl)

theorem access_other {base offset : UInt32} (hbase : base ≠ timerBase i)
    (h : (device i).Access (.write base offset v) t t') : t' = t := Eq.trans h (if_neg hbase)

/-- Reads change nothing. -/
theorem wait_keeps (hP : (device i).Keeps P) (base offset : UInt32) (stop : UInt32 → Bool) :
    (device i).Triple P (waitUntil base offset stop) fun _ => P :=
  triple_waitUntil hP fun v t t' h hacc => by
    rw [(access_read hacc).1]
    exact ⟨h, fun _ => h⟩

theorem write_other {base offset : UInt32} (hbase : base ≠ timerBase i)
    (hP : (device i).Keeps P) : (device i).Triple P (reg32Write base offset v) fun _ => P :=
  triple_write hP fun t t' h hacc => by rwa [access_other hbase hacc]

theorem writeMasked_other {base offset mask value : UInt32} (hbase : base ≠ timerBase i)
    (hP : (device i).Keeps P) :
    (device i).Triple P (reg32WriteMasked base offset mask value) fun _ => P :=
  (triple_read (Q := fun _ => P) hP fun v t t' h hacc => by rwa [(access_read hacc).1]).bind
    fun _ => write_other hbase hP

/-! ## `timer_init` -/

/-- A timer that neither runs nor is being reset is as it was left. -/
theorem keeps_stopped (hrunning : ¬ s.running) (hreset : s.resetting = false) :
    (device i).Keeps (· = s) := by
  rintro t t' rfl (⟨hrun, -⟩ | ⟨hrun, -, -, -⟩ | ⟨hrst⟩)
  · exact absurd hrun hrunning
  · exact absurd hrun hrunning
  · exact nomatch hrst.symm.trans hreset

theorem write_stopped {offset : UInt32} (hrunning : ¬ s.running) (hreset : s.resetting = false) :
    (device i).Triple (· = s) (reg32Write (timerBase i) offset v)
      fun _ => (· = s.write offset v) :=
  triple_write (keeps_stopped hrunning hreset) fun t t' h hacc => by rw [access_write hacc, h]

/-- A masked write to `TCLR`. -/
theorem writeMasked_stopped {mask value : UInt32} (hrunning : ¬ s.running)
    (hreset : s.resetting = false) :
    (device i).Triple (· = s) (reg32WriteMasked (timerBase i) tclrOff mask value)
      fun _ => (· = { s with tclr := (s.tclr &&& ~~~mask) ||| (value &&& mask) }) := by
  refine triple_writeMasked s.tclr (keeps_stopped hrunning hreset) (fun v t t' h hacc => ?_)
    fun t t' h hacc => ?_
  · obtain ⟨rfl, hread, -⟩ := access_read hacc
    exact ⟨h ▸ (hread rfl).2.1 rfl, h⟩
  · rw [access_write hacc, h]
    rfl

/-- A reset that is under way, or done. -/
def Resetting (t : Timer) : Prop := t.resetting = true ∨ t = initial

theorem keeps_resetting : (device i).Keeps Resetting := by
  rintro t t' (hreset | h) hmove
  · rcases hmove with ⟨-, -⟩ | ⟨-, -, -, -⟩ | -
    · refine .inl ?_
      rw [Timer.count]
      split_ifs <;> exact hreset
    · exact .inl hreset
    · exact .inr rfl
  · exact .inr (keeps_stopped (s := initial) (by decide) rfl t t' h hmove)

theorem clockAndReset_initial (hi : Valid i) :
    (device i).Triple (fun _ => True) (clockAndReset i) fun _ => (· = initial) := by
  obtain ⟨hdpll, hper, -⟩ := timerBase_other hi
  have hany : (device i).Keeps fun _ => True := fun _ _ _ _ => trivial
  have hstart : (device i).Triple (fun _ => True)
      (reg32WriteMasked (timerBase i) tiocpCfgOff 0x1 0x1) fun _ => Resetting := by
    refine (triple_read (Q := fun _ _ => True) hany fun _ _ _ _ _ => trivial).bind fun v =>
      triple_write hany fun t t' _ hacc => .inl ?_
    have hbit : (v &&& ~~~0x1 ||| (0x1 &&& 0x1)) &&& 0x1 ≠ 0 := by
      have hmask : (v &&& ~~~0x1) &&& 0x1 = 0 := by
        rw [UInt32.and_assoc, UInt32.and_comm (~~~0x1), UInt32.and_not_self, UInt32.and_zero]
      rw [UInt32.or_and_distrib, hmask]
      decide
    rw [access_write hacc, Timer.write, if_pos rfl, if_pos hbit]
  have hwait : (device i).Triple Resetting (waitClear (timerBase i) tiocpCfgOff 0x1)
      fun _ => (· = initial) :=
    triple_waitClear keeps_resetting fun v t t' h hacc => by
      obtain ⟨rfl, hread, -⟩ := access_read hacc
      refine ⟨h, fun hstop => h.resolve_left fun hreset => ?_⟩
      exact nomatch (((hread rfl).1 rfl).1 hstop).symm.trans hreset
  exact (write_other hdpll hany).bind fun _ => (wait_keeps hany _ _ _).bind fun _ =>
    (writeMasked_other hper hany).bind fun _ => (wait_keeps hany _ _ _).bind fun _ =>
    hstart.bind fun _ => hwait

/-- A timer as `timer_init` leaves it. -/
def ready (ms : UInt32) : Timer := ⟨0x2, tickValue ms, tickValue ms, 0, 0x2, false, 0, 0, 0⟩

theorem not_running (h : t.tclr = 0x2) : ¬ t.running := by
  rw [Timer.running, h]
  decide

theorem timerSetup_ready :
    (device i).Triple (· = initial) (timerSetup i ms) fun _ => (· = ready ms) := by
  have hwait : ∀ {s : Timer}, ¬ s.running → s.resetting = false →
      (device i).Triple (· = s) (timerRegWriteWaitDone i) fun _ => (· = s) :=
    fun hrunning hreset => wait_keeps (keeps_stopped hrunning hreset) _ _ _
  have hload : (device i).Triple (· = { initial with tclr := 0x2 })
      (reg32Write (timerBase i) tldrOff (tickValue ms))
      fun _ => (· = { initial with tclr := 0x2, tldr := tickValue ms }) :=
    write_stopped (not_running rfl) rfl
  have hcounter : (device i).Triple (· = { initial with tclr := 0x2, tldr := tickValue ms })
      (reg32Write (timerBase i) tcrrOff (tickValue ms))
      fun _ => (· = { initial with tclr := 0x2, tldr := tickValue ms, tcrr := tickValue ms }) :=
    write_stopped (not_running rfl) rfl
  have henable : (device i).Triple
      (· = { initial with tclr := 0x2, tldr := tickValue ms, tcrr := tickValue ms })
      (reg32Write (timerBase i) irqenableSetOff 0x2) fun _ => (· = ready ms) := by
    refine (write_stopped (not_running rfl) rfl).post fun _ t h => ?_
    have hor : (0 : UInt32) ||| 0x2 = 0x2 := by decide
    rw [h, ready, ← hor]
    rfl
  exact (writeMasked_stopped (by decide) rfl).bind fun _ => (hwait (by decide) rfl).bind fun _ =>
    (writeMasked_stopped (by decide) rfl).bind fun _ => (hwait (not_running rfl) rfl).bind fun _ =>
    hload.bind fun _ => hcounter.bind fun _ => (hwait (not_running rfl) rfl).bind fun _ =>
    henable.bind fun _ => hwait (not_running rfl) rfl

/-! ## The counts -/

/-- The counts from one overflow to the next. -/
def period (ms : UInt32) : ℕ := 32 * ms.toNat % 2 ^ 32 + 1

theorem tickValue_period (ms : UInt32) : (tickValue ms).toNat + period ms = 2 ^ 32 := by
  have hlt : 32 * ms.toNat % 2 ^ 32 < 2 ^ 32 := Nat.mod_lt _ (by decide)
  have hmul : (ms * 32).toNat = 32 * ms.toNat % 2 ^ 32 := by
    rw [UInt32.toNat_mul, Nat.mul_comm]
    rfl
  have hmax : timerMaxCount.toNat = 2 ^ 32 - 1 := rfl
  rw [tickValue, UInt32.toNat_sub, hmul, hmax, period]
  omega

theorem counts_wrap {c p : ℕ} (h : c % p + 1 = p) :
    (c + 1) / p = c / p + 1 ∧ (c + 1) % p = 0 := by
  refine (Nat.div_mod_unique (by omega)).2 ⟨?_, by omega⟩
  have := Nat.mod_add_div c p
  rw [Nat.mul_add, Nat.mul_one]
  omega

theorem counts_next {c p : ℕ} (h : c % p + 1 < p) :
    (c + 1) / p = c / p ∧ (c + 1) % p = c % p + 1 := by
  refine (Nat.div_mod_unique (by omega)).2 ⟨?_, h⟩
  have := Nat.mod_add_div c p
  omega

/-- `TCLR` of a timer that is set up. -/
def control (running : Bool) : UInt32 := if running then 0x3 else 0x2

/-- A timer that is set up, and runs if it is `running`, after `ticks` calls of its tick
function. -/
structure Going (ms : UInt32) (running : Bool) (ticks : ℕ) (t : Timer) : Prop where
  tclr : t.tclr = control running
  tldr : t.tldr = tickValue ms
  irqenable : t.irqenable = 0x2
  settled : t.resetting = false
  flags : t.irqstatus = 0 ∨ t.irqstatus = overflow
  overflows : t.overflows = t.counts / period ms
  tcrr : t.tcrr.toNat = (tickValue ms).toNat + t.counts % period ms
  served : ticks + (if t.raised then 1 else 0) + t.merged = t.overflows

theorem raised_iff : t.raised ↔ t.irqstatus &&& overflow ≠ 0 := Iff.rfl

theorem not_raised (h : t.irqstatus = 0) : ¬ t.raised := fun hraised => hraised (by rw [h]; decide)

theorem Going.raised (h : Going ms running ticks t) : t.raised ↔ t.irqstatus = overflow := by
  rw [raised_iff]
  rcases h.flags with hflags | hflags <;> rw [hflags] <;> decide

theorem Going.or_overflow (h : Going ms running ticks t) : t.irqstatus ||| overflow = overflow := by
  rcases h.flags with hflags | hflags <;> rw [hflags] <;> decide

theorem count_top (h : t.tcrr = timerMaxCount) : t.count =
    { t with
      tcrr := t.tldr
      irqstatus := t.irqstatus ||| overflow
      counts := t.counts + 1
      overflows := t.overflows + 1
      merged := if t.raised then t.merged + 1 else t.merged } := if_pos h

theorem count_below (h : t.tcrr ≠ timerMaxCount) :
    t.count = { t with tcrr := t.tcrr + 1, counts := t.counts + 1 } := if_neg h

theorem Going.count (h : Going ms running ticks t) : Going ms running ticks t.count := by
  have hlt : t.counts % period ms < period ms := Nat.mod_lt _ (Nat.succ_pos _)
  have hperiod := tickValue_period ms
  have htcrr := h.tcrr
  by_cases hmax : t.tcrr = timerMaxCount
  · have htop : t.tcrr.toNat = 2 ^ 32 - 1 := by rw [hmax]; rfl
    obtain ⟨hdiv, hmod⟩ := counts_wrap (by omega : t.counts % period ms + 1 = period ms)
    rw [count_top hmax, h.or_overflow]
    refine ⟨h.tclr, h.tldr, h.irqenable, h.settled, .inr rfl, ?_, ?_, ?_⟩
    · rw [hdiv, ← h.overflows]
    · rw [hmod, ← h.tldr]
      rfl
    · have hserved := h.served
      rw [if_pos (raised_iff.2 (by decide : overflow &&& overflow ≠ 0))]
      show ticks + 1 + (if t.raised then t.merged + 1 else t.merged) = t.overflows + 1
      split_ifs at hserved ⊢ <;> omega
  · have hne : t.tcrr.toNat ≠ 2 ^ 32 - 1 := fun h => hmax (UInt32.toNat_inj.1 h)
    have htop : t.tcrr.toNat < 2 ^ 32 := t.tcrr.toNat_lt
    obtain ⟨hdiv, hmod⟩ := counts_next (by omega : t.counts % period ms + 1 < period ms)
    have hnext : (t.tcrr + 1).toNat = t.tcrr.toNat + 1 := by
      rw [UInt32.toNat_add]
      exact Nat.mod_eq_of_lt (show t.tcrr.toNat + 1 < 2 ^ 32 by omega)
    rw [count_below hmax]
    refine ⟨h.tclr, h.tldr, h.irqenable, h.settled, h.flags, ?_, ?_, h.served⟩
    · rw [hdiv, ← h.overflows]
    · rw [hnext, hmod, htcrr, Nat.add_assoc]

theorem Going.periodic (h : Going ms running ticks t) : t.periodic := by
  rw [Timer.periodic, h.tclr]
  cases running <;> decide

theorem keeps_going : (device i).Keeps (Going ms running ticks) := by
  rintro t t' h (⟨-, -⟩ | ⟨-, hother, -, -⟩ | ⟨hreset⟩)
  · exact h.count
  · exact absurd h.periodic hother
  · exact nomatch hreset.symm.trans h.settled

theorem raised_count (h : t.raised) : t.count.raised := by
  by_cases hmax : t.tcrr = timerMaxCount
  · rw [count_top hmax, raised_iff, UInt32.or_and_distrib, UInt32.and_self]
    exact fun hor => absurd (UInt32.or_eq_zero_iff.1 hor).2 (by decide)
  · rw [count_below hmax]
    exact h

/-- Nothing but the handler clears the flag. -/
theorem keeps_raised : (device i).Keeps fun t => Going ms running ticks t ∧ t.raised := by
  rintro t t' ⟨h, hraised⟩ hmove
  refine ⟨keeps_going t t' h hmove, ?_⟩
  rcases hmove with ⟨-, -⟩ | ⟨-, hother, -, -⟩ | ⟨hreset⟩
  · exact raised_count hraised
  · exact absurd h.periodic hother
  · exact nomatch hreset.symm.trans h.settled

/-! ## Starting and stopping -/

theorem ready_going : Going ms false 0 (ready ms) := by
  have hcount : (tickValue ms).toNat = (tickValue ms).toNat + 0 % period ms := by
    rw [Nat.zero_mod, Nat.add_zero]
  refine ⟨rfl, rfl, rfl, rfl, .inl rfl, (Nat.zero_div _).symm, hcount, ?_⟩
  rw [if_neg (not_raised rfl)]
  rfl

/-- Until it is started again, a timer that is stopped stands still. -/
theorem Going.stands (h : Going ms false ticks t) (hmoves : (device i).Moves t t') : t' = t :=
  (keeps_stopped (not_running h.tclr) h.settled).moves rfl hmoves

/-- A masked write to the lowest bit of `TCLR` does nothing else. -/
theorem control_going {running' : Bool} {value : UInt32}
    (hvalue : (control running &&& ~~~0x1) ||| (value &&& 0x1) = control running') :
    (device i).Triple (Going ms running ticks) (reg32WriteMasked (timerBase i) tclrOff 0x1 value)
      fun _ => Going ms running' ticks := by
  refine triple_writeMasked (control running) keeps_going (fun v t t' h hacc => ?_)
    fun t t' h hacc => ?_
  · obtain ⟨rfl, hread, -⟩ := access_read hacc
    exact ⟨((hread rfl).2.1 rfl).trans h.tclr, h⟩
  · rw [access_write hacc, hvalue]
    exact ⟨rfl, h.tldr, h.irqenable, h.settled, h.flags, h.overflows, h.tcrr, h.served⟩

/-- A line of the controller is none of the timer's registers. -/
theorem intcLine_keeps (hi : Valid i) (hP : (device i).Keeps P) {c : Prop} [Decidable c]
    (offset mask value : UInt32) :
    (device i).Triple P (if c then return false else do
      reg32WriteMasked intcBaseAddr offset mask value
      return true) fun _ => P := by
  split_ifs
  · exact .pure fun _ h => h
  · exact (writeMasked_other (timerBase_other hi).2.2 hP).bind fun _ => .pure fun _ h => h

theorem timerStart_going (hi : Valid i) :
    (device i).Triple (Going ms running ticks) (timerStart i) fun _ => Going ms true ticks := by
  have hset : (control running &&& ~~~0x1) ||| (0x1 &&& 0x1) = control true := by
    cases running <;> decide
  rw [timerStart, if_neg (not_not.2 hi)]
  exact (control_going hset).bind fun _ => (wait_keeps keeps_going _ _ _).bind fun _ =>
    (intcLine_keeps hi keeps_going _ _ _).bind fun _ => .pure fun _ h => h

theorem timerStop_going (hi : Valid i) :
    (device i).Triple (Going ms running ticks) (timerStop i) fun _ => Going ms false ticks := by
  have hclear : (control running &&& ~~~0x1) ||| (0x0 &&& 0x1) = control false := by
    cases running <;> decide
  rw [timerStop, if_neg (not_not.2 hi)]
  exact (control_going hclear).bind fun _ => (wait_keeps keeps_going _ _ _).bind fun _ =>
    (intcLine_keeps hi keeps_going _ _ _).bind fun _ => .pure fun _ h => h

/-! ## The interrupts -/

/-- The flag the handler reads is the flag it clears. -/
theorem handleTimerIrq_clears :
    (device i).Triple (fun t => Going ms running ticks t ∧ t.raised) (handleTimerIrq i)
      fun _ => Going ms running (ticks + 1) := by
  refine (triple_writeMasked overflow (Q := fun _ => Going ms running (ticks + 1)) keeps_raised
    (fun v t t' h hacc => ?_) fun t t' h hacc => ?_).bind fun _ => wait_keeps keeps_going _ _ _
  · obtain ⟨rfl, hread, -⟩ := access_read hacc
    refine ⟨?_, h⟩
    rw [(hread rfl).2.2.2 rfl, h.1.raised.1 h.2, h.1.irqenable]
    decide
  · obtain ⟨h, hraised⟩ := h
    rw [access_write hacc]
    have hserved := h.served
    rw [if_pos hraised] at hserved
    have hclear : t.irqstatus &&& ~~~((overflow &&& ~~~0x1) ||| (0x1 &&& 0x1)) = 0 := by
      rw [h.raised.1 hraised]
      decide
    refine ⟨h.tclr, h.tldr, h.irqenable, h.settled, .inl hclear, h.overflows, h.tcrr, ?_⟩
    have hdown : ¬ (t.write irqstatusOff ((overflow &&& ~~~0x1) ||| (0x1 &&& 0x1))).raised :=
      not_raised hclear
    rw [if_neg hdown]
    exact hserved

theorem interrupt_going :
    (device i).Triple (Going ms running ticks) (interrupt i ticks)
      fun ticks' => Going ms running ticks' := by
  have hread : (device i).Triple (Going ms running ticks) (reg32Read intcBaseAddr intcSirIrqOff)
      fun v t => Going ms running ticks t ∧ (v &&& 0x7F = timerIrqNum i → t.raised) :=
    triple_read keeps_going fun v t t' h hacc => by
      obtain ⟨rfl, -, hasks⟩ := access_read hacc
      refine ⟨h, fun hirq => ?_⟩
      have hset := hasks rfl rfl hirq
      rwa [Timer.asks, h.irqenable] at hset
  refine hread.bind fun v => ?_
  show (device i).Triple _ (if v &&& 0x7F = timerIrqNum i then
    (do handleTimerIrq i; return ticks + 1) else return ticks) _
  split_ifs with hirq
  · exact (handleTimerIrq_clears.pre fun t h => ⟨h.1, h.2 hirq⟩).bind fun _ => .pure fun _ h => h
  · exact .pure fun _ h => h.1

theorem interrupts_going : ∀ (n : ℕ) {ticks : ℕ},
    (device i).Triple (Going ms running ticks) (interrupts i n ticks)
      fun ticks' => Going ms running ticks'
  | 0, _ => .pure fun _ h => h
  | n + 1, _ => interrupt_going.bind fun _ => interrupts_going n

theorem exec_going (hi : Valid i) (call : TimerCall) :
    (device i).Triple (Going ms running ticks) (call.exec i ticks)
      fun ticks' => Going ms (call.runs running) ticks' := by
  cases call with
  | start => exact (timerStart_going hi).bind fun _ => .pure fun _ h => h
  | stop => exact (timerStop_going hi).bind fun _ => .pure fun _ h => h
  | interrupt => exact interrupt_going

theorem calls_going (hi : Valid i) : ∀ (calls : List TimerCall) {running : Bool} {ticks : ℕ},
    (device i).Triple (Going ms running ticks) (calls.foldlM (TimerCall.exec i) ticks)
      fun ticks' => Going ms (calls.foldl TimerCall.runs running) ticks'
  | [], _, _ => .pure fun _ h => h
  | call :: calls, _, _ => (exec_going hi call).bind fun _ => calls_going hi calls

/-! ## From the start -/

section
variable {η : Type}

theorem timerInit_going (intcVectorTable : ℕ → η) (handler : η) (hi : Valid i) :
    (device i).Triple (fun _ => True) (timerInit intcVectorTable handler i ms)
      fun _ => Going ms false 0 := by
  rw [timerInit, if_neg (not_not.2 hi)]
  refine (clockAndReset_initial hi).bind fun _ => timerSetup_ready.bind fun _ =>
    .pure fun t h => ?_
  rw [h]
  exact ready_going

theorem timerValue_going (hi : Valid i) :
    (device i).Triple (Going ms running ticks) (timerValue i)
      fun v t => Going ms running ticks t ∧ v = t.tcrr := by
  rw [timerValue, if_neg (not_not.2 hi)]
  refine triple_read keeps_going fun v t t' h hacc => ?_
  obtain ⟨rfl, hread, -⟩ := access_read hacc
  exact ⟨h, (hread rfl).2.2.1 rfl⟩

theorem ticksAfter_going (intcVectorTable : ℕ → η) (handler : η) (hi : Valid i) (n : ℕ) :
    (device i).Triple (fun _ => True) (ticksAfter intcVectorTable handler i ms n)
      fun r t => Going ms true r.1 t ∧ r.2 = t.tcrr :=
  (timerInit_going intcVectorTable handler hi).bind fun _ => (timerStart_going hi).bind
    fun _ => (interrupts_going n).bind fun _ => (timerValue_going hi).bind fun _ =>
      .pure fun _ h => h

theorem callsAfter_going (intcVectorTable : ℕ → η) (handler : η) (hi : Valid i)
    (calls : List TimerCall) :
    (device i).Triple (fun _ => True) (callsAfter intcVectorTable handler i ms calls)
      fun r t => Going ms (calls.foldl TimerCall.runs false) r.1 t ∧ r.2 = t.tcrr :=
  (timerInit_going intcVectorTable handler hi).bind fun _ => (calls_going hi calls).bind
    fun _ => (timerValue_going hi).bind fun _ => .pure fun _ h => h

/-- `timer_value` is how far the counter has come. -/
theorem Going.value (h : Going ms running ticks t) :
    t.tcrr.toNat + period ms = 2 ^ 32 + t.counts % period ms := by
  have hperiod := tickValue_period ms
  rw [h.tcrr]
  omega

/-- Whatever the timer was, and however late an interrupt is served: the timer comes to its end
once in every `period` counts, `timer_value` says how far it is, and every overflow has had its
tick but for one that is still to be served and those that came while one was. -/
theorem timer_ticks (intcVectorTable : ℕ → η) (handler : η) (hi : Valid i) {n : ℕ}
    {vs rest : List UInt32} {log : List BusAccess}
    (hrun : ticksAfter intcVectorTable handler i ms n vs = some ⟨(ticks, v), log, rest⟩)
    (hserves : (device i).Serves t log t') :
    t'.overflows = t'.counts / period ms ∧
      ticks + (if t'.raised then 1 else 0) + t'.merged = t'.overflows ∧
      v.toNat + period ms = 2 ^ 32 + t'.counts % period ms := by
  obtain ⟨h, hv⟩ :=
    ticksAfter_going intcVectorTable handler hi n t vs (ticks, v) log rest t' trivial hrun hserves
  exact ⟨h.overflows, h.served, (show v = t'.tcrr from hv) ▸ h.value⟩

/-- However often the timer is started and stopped, whether it runs or not: no count is lost, no
overflow but those that found the flag raised, and where `timer_stop` came last nothing goes on. -/
theorem timer_restarts (intcVectorTable : ℕ → η) (handler : η) (hi : Valid i)
    {calls : List TimerCall} {vs rest : List UInt32} {log : List BusAccess}
    (hrun : callsAfter intcVectorTable handler i ms calls vs = some ⟨(ticks, v), log, rest⟩)
    (hserves : (device i).Serves t log t') :
    t'.overflows = t'.counts / period ms ∧
      ticks + (if t'.raised then 1 else 0) + t'.merged = t'.overflows ∧
      v.toNat + period ms = 2 ^ 32 + t'.counts % period ms ∧
      (calls.foldl TimerCall.runs false = false →
        ∀ t'', (device i).Moves t' t'' → t'' = t') := by
  obtain ⟨h, hv⟩ := callsAfter_going intcVectorTable handler hi calls t vs (ticks, v) log rest t'
    trivial hrun hserves
  refine ⟨h.overflows, h.served, (show v = t'.tcrr from hv) ▸ h.value, fun hstop t'' hmoves => ?_⟩
  have hstopped : Going ms false ticks t' := hstop ▸ h
  exact hstopped.stands hmoves

end

/-! ## A timer for a run -/

/-- A reset, or some counts. -/
def settle (n : ℕ) (t : Timer) : Timer :=
  if t.resetting = true then initial else if t.tclr = 0x3 then Timer.count^[n] t else t

/-- A timer that settles before each access. -/
def serve (i : UInt16) (n : ℕ) (t : Timer) (w : BusAccess) : Option Timer :=
  match w with
  | .read base offset v =>
    if (base = timerBase i → (settle n t).Read offset v) ∧ (base = intcBaseAddr →
      offset = intcSirIrqOff → v &&& 0x7F = timerIrqNum i → (settle n t).asks) then
      some (settle n t)
    else none
  | .write base offset v =>
    some (if base = timerBase i then (settle n t).write offset v else settle n t)

theorem count_tclr : t.count.tclr = t.tclr := by
  rw [Timer.count]
  split_ifs <;> rfl

theorem counts_moves : ∀ (n : ℕ) {t : Timer}, t.tclr = 0x3 →
    (device i).Moves t (Timer.count^[n] t)
  | 0, _, _ => .refl
  | n + 1, t, h => by
    have hmove : Move t t.count :=
      .count (by rw [Timer.running, h]; decide) (by rw [Timer.periodic, h]; decide)
    exact .head hmove (counts_moves n (count_tclr.trans h))

theorem settle_moves {n : ℕ} : (device i).Moves t (settle n t) := by
  unfold settle
  split_ifs with hreset hset
  · exact .single (.reset hreset)
  · exact counts_moves n hset
  · exact .refl

theorem serve_access {n : ℕ} {w : BusAccess} (h : serve i n t w = some t') :
    ∃ t₁, (device i).Moves t t₁ ∧ (device i).Access w t₁ t' := by
  refine ⟨settle n t, settle_moves, ?_⟩
  rcases w with ⟨base, offset, v⟩ | ⟨base, offset, v⟩
  · rw [serve] at h
    split_ifs at h with hread
    exact ⟨(Option.some.inj h).symm, hread⟩
  · exact (Option.some.inj h).symm

/-- A run with a result that a timer serves. -/
theorem exists_serves {n : ℕ} {o : Option (Outcome UInt32 BusAccess (ℕ × UInt32))}
    {r : ℕ × UInt32} (h : (o.bind fun out => if out.val = r then
      out.log.foldlM (serve i n) initial else none).isSome) :
    ∃ log rest t', o = some ⟨r, log, rest⟩ ∧ (device i).Serves initial log t' := by
  obtain ⟨t', ht'⟩ := Option.isSome_iff_exists.1 h
  obtain ⟨⟨val, log, rest⟩, hrun, hlog⟩ := Option.bind_eq_some_iff.1 ht'
  split_ifs at hlog with hval
  obtain rfl : val = r := hval
  exact ⟨log, rest, t', hrun, serves_of_foldlM (fun _ _ _ => serve_access) hlog⟩

/-- Timer 2, ticking every millisecond: two interrupts are asked for, and one is its own. -/
def tickRun (values : List UInt32) : Option (Outcome UInt32 BusAccess (ℕ × UInt32)) :=
  ticksAfter (fun _ => 0) 1 2 1 2 values

def tickReads : List UInt32 :=
  [2, 0, 0, 0, 0, 0, 0, 0, 0, 0, 0, 2, 0, 0, 68, 2, 0, 0, 0xFFFFFFEE]

theorem timer_ticks_one : ∃ t' : Timer, t'.overflows = t'.counts / period 1 ∧
    1 + (if t'.raised then 1 else 0) + t'.merged = t'.overflows ∧
    (0xFFFFFFEE : UInt32).toNat + period 1 = 2 ^ 32 + t'.counts % period 1 := by
  have hserved : ((tickRun tickReads).bind fun r => if r.val = (1, 0xFFFFFFEE) then
      r.log.foldlM (serve 2 20) initial else none).isSome := by
    decide +kernel
  obtain ⟨log, rest, t', hrun, hserves⟩ := exists_serves hserved
  exact ⟨t', timer_ticks (fun _ => 0) 1 (by decide) hrun hserves⟩

/-- Timer 2, stopped after its first tick. -/
def stopRun (values : List UInt32) : Option (Outcome UInt32 BusAccess (ℕ × UInt32)) :=
  callsAfter (fun _ => 0) 1 2 1 [.start, .interrupt, .stop, .interrupt] values

def stopReads : List UInt32 :=
  [2, 0, 0, 0, 0, 0, 0, 0, 0, 0, 0, 2, 0, 0, 68, 2, 0, 3, 0, 0, 0, 0xFFFFFFEE]

theorem timer_restarts_stopped : ∃ t' : Timer, 1 + t'.merged ≤ t'.overflows ∧
    ∀ t'', (device 2).Moves t' t'' → t'' = t' := by
  have hserved : ((stopRun stopReads).bind fun r => if r.val = (1, 0xFFFFFFEE) then
      r.log.foldlM (serve 2 20) initial else none).isSome := by
    decide +kernel
  obtain ⟨log, rest, t', hrun, hserves⟩ := exists_serves hserved
  obtain ⟨-, hticks, -, hstands⟩ := timer_restarts (fun _ => 0) 1 (by decide) hrun hserves
  exact ⟨t', by omega, hstands rfl⟩

end BeagleKernel.Timers
