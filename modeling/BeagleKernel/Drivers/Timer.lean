import BeagleKernel.Drivers.Intc

/-!
# The timers

`timer.c`, and a timer: it counts up and, at the end of its range, reloads and raises a flag, which
stays until a one is written to it. `counts`, `overflows` and `merged` are what happened since the
timer was last given a count: how often it counted, how often it came to the end, and how often it
did with the flag still raised.
-/

namespace BeagleKernel.Timers

open Bus Intc

abbrev timerMaxCount : UInt32 := 0xFFFFFFFF

abbrev tiocpCfgOff : UInt32 := 0x10
abbrev irqstatusOff : UInt32 := 0x28
abbrev irqenableSetOff : UInt32 := 0x2C
abbrev tclrOff : UInt32 := 0x38
abbrev tcrrOff : UInt32 := 0x3C
abbrev tldrOff : UInt32 := 0x40
abbrev twpsOff : UInt32 := 0x48

abbrev cmPerBase : UInt32 := 0x44E00000
abbrev cmDpllBase : UInt32 := 0x44E00500

/-- `timer_base`, and with the other tables what they hold for `-1`. -/
def timerBase (timerIndex : UInt16) : UInt32 :=
  [0xFFFFFFFF, 0xFFFFFFFF, 0x48040000, 0x48042000, 0x48044000, 0x48046000, 0x48048000,
    0x4804A000].getD timerIndex.toNat 0

/-- `timer_module_clk_off`. -/
def timerModuleClkOff (timerIndex : UInt16) : UInt32 :=
  [0xFFFFFFFF, 0xFFFFFFFF, 0x80, 0x84, 0x88, 0xEC, 0xF0, 0x7C].getD timerIndex.toNat 0

/-- `timer_pll_clksel_off`. -/
def timerPllClkselOff (timerIndex : UInt16) : UInt32 :=
  [0xFFFFFFFF, 0xFFFFFFFF, 0x08, 0x0C, 0x10, 0x18, 0x1C, 0x04].getD timerIndex.toNat 0

/-- `timer_irq_num`. -/
def timerIrqNum (timerIndex : UInt16) : UInt32 :=
  [130, 130, 68, 69, 92, 93, 94, 95].getD timerIndex.toNat 0

/-- The check of an index. -/
def Valid (timerIndex : UInt16) : Prop := 2 ≤ timerIndex ∧ timerIndex ≤ 7

instance (timerIndex : UInt16) : Decidable (Valid timerIndex) :=
  inferInstanceAs (Decidable (_ ∧ _))

/-- `TIMER_REG_WRITE_WAIT_DONE`. -/
def timerRegWriteWaitDone (timerIndex : UInt16) : Bus Unit :=
  waitClear (timerBase timerIndex) twpsOff 0x1F

/-- The clock and the reset of `timer_init`. -/
def clockAndReset (timerIndex : UInt16) : Bus Unit := do
  reg32Write cmDpllBase (timerPllClkselOff timerIndex) 0x2
  waitUntil cmDpllBase (timerPllClkselOff timerIndex) (· &&& 0x3 == 0x2)
  reg32WriteMasked cmPerBase (timerModuleClkOff timerIndex) 0x3 0x2
  waitUntil cmPerBase (timerModuleClkOff timerIndex)
    (fun v => v &&& ((0x3 : UInt32) <<< 16) &&& 0x3 == 0)
  reg32WriteMasked (timerBase timerIndex) tiocpCfgOff 0x1 0x1
  waitClear (timerBase timerIndex) tiocpCfgOff 0x1

/-- The value `timer_init` gives the counter and its reload register. -/
def tickValue (timerTickMs : UInt32) : UInt32 := timerMaxCount - timerTickMs * 32

/-- The setup of the timer in `timer_init`. -/
def timerSetup (timerIndex : UInt16) (timerTickMs : UInt32) : Bus Unit := do
  reg32WriteMasked (timerBase timerIndex) tclrOff 0x1 0x0
  timerRegWriteWaitDone timerIndex
  reg32WriteMasked (timerBase timerIndex) tclrOff 0x7FFE ((0x1 : UInt32) <<< 1)
  timerRegWriteWaitDone timerIndex
  reg32Write (timerBase timerIndex) tldrOff (tickValue timerTickMs)
  reg32Write (timerBase timerIndex) tcrrOff (tickValue timerTickMs)
  timerRegWriteWaitDone timerIndex
  reg32Write (timerBase timerIndex) irqenableSetOff 0x2
  timerRegWriteWaitDone timerIndex

section
variable {η : Type} (intcVectorTable : ℕ → η) (handler : η)

/-- `timer_init`, with the table after it; `handler` is that of the timer. -/
def timerInit (timerIndex : UInt16) (timerTickMs : UInt32) : Bus (Bool × (ℕ → η)) :=
  if ¬ Valid timerIndex then return (false, intcVectorTable)
  else do
    clockAndReset timerIndex
    timerSetup timerIndex timerTickMs
    return (true, (intcRegisterIrq intcVectorTable (timerIrqNum timerIndex) handler).2)

end

/-- `timer_start`. -/
def timerStart (timerIndex : UInt16) : Bus Bool :=
  if ¬ Valid timerIndex then return false
  else do
    reg32WriteMasked (timerBase timerIndex) tclrOff 0x1 0x1
    timerRegWriteWaitDone timerIndex
    let _ ← intcEnableIrq (timerIrqNum timerIndex)
    return true

/-- `timer_stop`. -/
def timerStop (timerIndex : UInt16) : Bus Bool :=
  if ¬ Valid timerIndex then return false
  else do
    reg32WriteMasked (timerBase timerIndex) tclrOff 0x1 0x0
    timerRegWriteWaitDone timerIndex
    let _ ← intcDisableIrq (timerIrqNum timerIndex)
    return true

/-- `timer_value`. -/
def timerValue (timerIndex : UInt16) : Bus UInt32 :=
  if ¬ Valid timerIndex then return 0
  else reg32Read (timerBase timerIndex) tcrrOff

/-- `handle_timer_irq` after the call of the tick function. -/
def handleTimerIrq (timerIndex : UInt16) : Bus Unit := do
  reg32WriteMasked (timerBase timerIndex) irqstatusOff 0x1 0x1
  timerRegWriteWaitDone timerIndex

/-- An interrupt: where it is that of the timer, its tick function and its handler are called. -/
def interrupt (timerIndex : UInt16) (ticks : ℕ) : Bus ℕ := do
  let irq := (← reg32Read intcBaseAddr intcSirIrqOff) &&& 0x7F
  if irq = timerIrqNum timerIndex then do
    handleTimerIrq timerIndex
    return ticks + 1
  else return ticks

/-- Some interrupts: how often the tick function was called. -/
def interrupts (timerIndex : UInt16) : (n : ℕ) → (ticks : ℕ) → Bus ℕ
  | 0, ticks => return ticks
  | n + 1, ticks => do
    let ticks ← interrupt timerIndex ticks
    interrupts timerIndex n ticks

/-- `timer_init`, `timer_start` and some interrupts: how often the tick function was called, and
what `timer_value` then returns. -/
def ticksAfter {η : Type} (intcVectorTable : ℕ → η) (handler : η) (timerIndex : UInt16)
    (timerTickMs : UInt32) (n : ℕ) : Bus (ℕ × UInt32) := do
  let _ ← timerInit intcVectorTable handler timerIndex timerTickMs
  let _ ← timerStart timerIndex
  let ticks ← interrupts timerIndex n 0
  return (ticks, ← timerValue timerIndex)

/-- A call of the driver for a timer that is set up, or an interrupt. -/
inductive TimerCall
  | start
  | stop
  | interrupt

/-- A call; the result is how often the tick function has been called by then. -/
def TimerCall.exec (timerIndex : UInt16) (ticks : ℕ) : TimerCall → Bus ℕ
  | .start => do
    let _ ← timerStart timerIndex
    return ticks
  | .stop => do
    let _ ← timerStop timerIndex
    return ticks
  | .interrupt => Timers.interrupt timerIndex ticks

/-- Whether the timer runs after a call. -/
def TimerCall.runs (running : Bool) : TimerCall → Bool
  | .start => true
  | .stop => false
  | .interrupt => running

/-- `timer_init` and some calls: as `ticksAfter`. -/
def callsAfter {η : Type} (intcVectorTable : ℕ → η) (handler : η) (timerIndex : UInt16)
    (timerTickMs : UInt32) (calls : List TimerCall) : Bus (ℕ × UInt32) := do
  let _ ← timerInit intcVectorTable handler timerIndex timerTickMs
  let ticks ← calls.foldlM (TimerCall.exec timerIndex) 0
  return (ticks, ← timerValue timerIndex)

/-! ## A timer -/

structure Timer where
  tclr : UInt32
  tldr : UInt32
  tcrr : UInt32
  /-- The flags raised, and those that ask for an interrupt. -/
  irqstatus : UInt32
  irqenable : UInt32
  resetting : Bool
  counts : ℕ
  overflows : ℕ
  merged : ℕ

/-- The flag of an overflow. -/
abbrev overflow : UInt32 := 0x2

namespace Timer

/-- `ST`. -/
def running (t : Timer) : Prop := t.tclr &&& 0x1 ≠ 0

/-- `AR`, and no prescaler. -/
def periodic (t : Timer) : Prop := t.tclr &&& 0x22 = 0x2

/-- Whether the overflow flag is raised. -/
def raised (t : Timer) : Prop := t.irqstatus &&& overflow ≠ 0

instance (t : Timer) : Decidable t.running := inferInstanceAs (Decidable (_ ≠ _))

instance (t : Timer) : Decidable t.raised := inferInstanceAs (Decidable (_ ≠ _))

/-- Whether the timer asks for an interrupt. -/
def asks (t : Timer) : Prop := t.irqstatus &&& t.irqenable ≠ 0

instance (t : Timer) : Decidable t.asks := inferInstanceAs (Decidable (_ ≠ _))

/-- A count of a timer that reloads. -/
def count (t : Timer) : Timer :=
  if t.tcrr = timerMaxCount then
    { t with
      tcrr := t.tldr
      irqstatus := t.irqstatus ||| overflow
      counts := t.counts + 1
      overflows := t.overflows + 1
      merged := if t.raised then t.merged + 1 else t.merged }
  else { t with tcrr := t.tcrr + 1, counts := t.counts + 1 }

/-- After a reset; nothing has happened yet. -/
def initial : Timer := ⟨0, 0, 0, 0, 0, false, 0, 0, 0⟩

/-- What happens between two accesses. A timer that is not set up as `timer_init` does may do
anything to its counter and its flags. -/
inductive Move : Timer → Timer → Prop
  | count {t : Timer} (hrunning : t.running) (hperiodic : t.periodic) : Move t t.count
  | free {t : Timer} (hrunning : t.running) (hother : ¬ t.periodic) (tcrr irqstatus : UInt32) :
      Move t { t with tcrr := tcrr, irqstatus := irqstatus }
  | reset {t : Timer} (h : t.resetting = true) : Move t initial

/-- What a read of a register returns. -/
def Read (t : Timer) (offset v : UInt32) : Prop :=
  (offset = tiocpCfgOff → (v &&& 0x1 = 0 ↔ t.resetting = false)) ∧
    (offset = tclrOff → v = t.tclr) ∧ (offset = tcrrOff → v = t.tcrr) ∧
    (offset = irqstatusOff → v = t.irqstatus &&& t.irqenable)

instance (t : Timer) (offset v : UInt32) : Decidable (t.Read offset v) :=
  inferInstanceAs (Decidable (_ ∧ _))

/-- What a write of a register does; a count written starts anew. -/
def write (t : Timer) (offset v : UInt32) : Timer :=
  if offset = tiocpCfgOff then if v &&& 0x1 ≠ 0 then { t with resetting := true } else t
  else if offset = tclrOff then { t with tclr := v }
  else if offset = tldrOff then { t with tldr := v }
  else if offset = tcrrOff then { t with tcrr := v, counts := 0, overflows := 0, merged := 0 }
  else if offset = irqenableSetOff then { t with irqenable := t.irqenable ||| v }
  else if offset = irqstatusOff then { t with irqstatus := t.irqstatus &&& ~~~v }
  else t

/-- The timer at its base. The controller shows its number while it asks for an interrupt. -/
def Access (timerIndex : UInt16) : BusAccess → Timer → Timer → Prop
  | .read base offset v, t, t' => t' = t ∧ (base = timerBase timerIndex → t.Read offset v) ∧
      (base = intcBaseAddr → offset = intcSirIrqOff → v &&& 0x7F = timerIrqNum timerIndex → t.asks)
  | .write base offset v, t, t' => t' = if base = timerBase timerIndex then t.write offset v else t

def device (timerIndex : UInt16) : Device Timer BusAccess := ⟨Move, Access timerIndex⟩

end Timer

end BeagleKernel.Timers
