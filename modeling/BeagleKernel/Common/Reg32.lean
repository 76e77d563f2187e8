import BeagleKernel.Lib.Device

/-!
# Registers on the bus

The registers of the peripherals, each by the base of its peripheral and its offset there, with the
ways `utils.h` reads and writes them and the loops that wait for some of their bits.
-/

namespace BeagleKernel

/-- An access to a register. -/
inductive BusAccess
  | read (base offset value : UInt32)
  | write (base offset value : UInt32)
  deriving DecidableEq

abbrev Bus := Polled UInt32 BusAccess

namespace Bus

/-- `REG32_read`. -/
def reg32Read (base offset : UInt32) : Bus UInt32 := Polled.read (.read base offset)

/-- `REG32_write`. -/
def reg32Write (base offset value : UInt32) : Bus Unit := Polled.emit (.write base offset value)

/-- `REG32_read_masked`. -/
def reg32ReadMasked (base offset mask : UInt32) : Bus UInt32 := do
  return (← reg32Read base offset) &&& mask

/-- `REG32_write_masked`. -/
def reg32WriteMasked (base offset mask value : UInt32) : Bus Unit := do
  let reg ← reg32Read base offset
  reg32Write base offset ((reg &&& ~~~mask) ||| (value &&& mask))

/-- A loop that reads a register until `stop` of it. -/
def waitUntil (base offset : UInt32) (stop : UInt32 → Bool) : Bus Unit := Polled.loop do
  if stop (← reg32Read base offset) then return some () else return none

/-- `while (REG32_read(base, offset) & mask)`. -/
def waitClear (base offset mask : UInt32) : Bus Unit := waitUntil base offset (· &&& mask == 0)

/-- `while (!(REG32_read(base, offset) & mask))`. -/
def waitSet (base offset mask : UInt32) : Bus Unit := waitUntil base offset (· &&& mask != 0)

/-! ## On a device -/

section
variable {σ α : Type} {D : Device σ BusAccess} {P : σ → Prop} {base offset mask value : UInt32}

theorem triple_read {Q : UInt32 → σ → Prop} (hP : D.Keeps P)
    (h : ∀ v s s', P s → D.Access (.read base offset v) s s' → Q v s') :
    D.Triple P (reg32Read base offset) Q := .read hP h

theorem triple_write {Q : Unit → σ → Prop} (hP : D.Keeps P)
    (h : ∀ s s', P s → D.Access (.write base offset value) s s' → Q () s') :
    D.Triple P (reg32Write base offset value) Q := .emit hP h

theorem triple_readMasked {Q : UInt32 → σ → Prop} (hP : D.Keeps P)
    (h : ∀ v s s', P s → D.Access (.read base offset v) s s' → Q (v &&& mask) s') :
    D.Triple P (reg32ReadMasked base offset mask) Q :=
  (triple_read hP h : D.Triple P (reg32Read base offset) fun v s => Q (v &&& mask) s).bind
    fun _ => .pure fun _ hQ => hQ

/-- What is read is known, so what is written is. -/
theorem triple_writeMasked (reg : UInt32) {Q : Unit → σ → Prop} (hP : D.Keeps P)
    (hread : ∀ v s s', P s → D.Access (.read base offset v) s s' → v = reg ∧ P s')
    (hwrite : ∀ s s', P s →
      D.Access (.write base offset ((reg &&& ~~~mask) ||| (value &&& mask))) s s' → Q () s') :
    D.Triple P (reg32WriteMasked base offset mask value) Q := by
  refine (triple_read hP hread).bind fun v s vs u log rest s' hs hx hserves => ?_
  obtain ⟨rfl, hs⟩ := hs
  exact triple_write hP hwrite s vs u log rest s' hs hx hserves

theorem triple_waitUntil {stop : UInt32 → Bool} {Q : Unit → σ → Prop} (hP : D.Keeps P)
    (h : ∀ v s s', P s → D.Access (.read base offset v) s s' →
      P s' ∧ (stop v = true → Q () s')) :
    D.Triple P (waitUntil base offset stop) Q := by
  refine .loop ((triple_read hP h).bind fun v => ?_)
  split_ifs with hstop
  · exact .pure fun _ hs => hs.2 hstop
  · exact .pure fun _ hs => hs.1

theorem triple_waitClear {Q : Unit → σ → Prop} (hP : D.Keeps P)
    (h : ∀ v s s', P s → D.Access (.read base offset v) s s' →
      P s' ∧ (v &&& mask = 0 → Q () s')) :
    D.Triple P (waitClear base offset mask) Q :=
  triple_waitUntil hP fun v s s' hs hacc =>
    ⟨(h v s s' hs hacc).1, fun hstop => (h v s s' hs hacc).2 (beq_iff_eq.1 hstop)⟩

theorem triple_waitSet {Q : Unit → σ → Prop} (hP : D.Keeps P)
    (h : ∀ v s s', P s → D.Access (.read base offset v) s s' →
      P s' ∧ (v &&& mask ≠ 0 → Q () s')) :
    D.Triple P (waitSet base offset mask) Q :=
  triple_waitUntil hP fun v s s' hs hacc =>
    ⟨(h v s s' hs hacc).1, fun hstop => (h v s s' hs hacc).2 (bne_iff_ne.1 hstop)⟩

end

end Bus

end BeagleKernel
