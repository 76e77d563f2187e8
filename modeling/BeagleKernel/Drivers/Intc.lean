import BeagleKernel.Common.Reg32
import Mathlib.Data.Fin.Basic

/-!
# The interrupt controller

The `INTC` functions and the table of handlers they fill, the part of `irq_handler_asm` that calls
one of them, and the controller: 128 lines in four registers of masks, which are set and cleared
through registers of their own that read as zero. `Lines` is what the calls are for.
-/

namespace BeagleKernel.Intc

open Bus

abbrev intcBaseAddr : UInt32 := 0x48200000
abbrev intcSysconfigOff : UInt32 := 0x10
abbrev intcStatusOff : UInt32 := 0x14
abbrev intcSirIrqOff : UInt32 := 0x40
abbrev intcIdleOff : UInt32 := 0x50
abbrev intcThresholdOff : UInt32 := 0x68

abbrev numInterrupts : ℕ := 128

/-- `INTC_IRQ_REG_BIT`. -/
def intcIrqRegBit (irqNum : UInt32) : UInt32 := 1 <<< (irqNum % 32)

/-- `INTC_IRQ_REG_NUM`. -/
def intcIrqRegNum (irqNum : UInt32) : UInt32 := irqNum / 32

/-- `INTC_MIRn_CLR_OFF`. -/
def intcMirnClrOff (irqNum : UInt32) : UInt32 := 0x88 + (8 * intcIrqRegNum irqNum) * 4

/-- `INTC_MIRn_SET_OFF`. -/
def intcMirnSetOff (irqNum : UInt32) : UInt32 := 0x8c + (8 * intcIrqRegNum irqNum) * 4

/-- `INTC_ILEn_OFF`. -/
def intcIlenOff (irqNum : UInt32) : UInt32 := 0x100 + irqNum * 4

section
variable {η : Type}

/-- `INTC_init`, with the table as it leaves it. -/
def intcInit (intcVectorTable : ℕ → η) (defaultHandler : η) : Bus (ℕ → η) := do
  reg32Write intcBaseAddr intcSysconfigOff 0x2
  waitUntil intcBaseAddr intcStatusOff (· &&& 0x1 == 0x1)
  reg32WriteMasked intcBaseAddr intcSysconfigOff 0x1 0x1
  reg32WriteMasked intcBaseAddr intcIdleOff 0x3 0x01
  reg32Write intcBaseAddr intcThresholdOff 0xFF
  return fun i => if i < numInterrupts then defaultHandler else intcVectorTable i

/-- `INTC_register_irq`: its result, and the table after it. -/
def intcRegisterIrq (intcVectorTable : ℕ → η) (intNum : UInt32) (handler : η) : Bool × (ℕ → η) :=
  if intNum.toNat ≥ numInterrupts then (false, intcVectorTable)
  else (true, Function.update intcVectorTable intNum.toNat handler)

/-- `INTC_enable_irq`. -/
def intcEnableIrq (intNum : UInt32) : Bus Bool :=
  if intNum.toNat ≥ numInterrupts then return false
  else do
    reg32WriteMasked intcBaseAddr (intcMirnClrOff intNum) (intcIrqRegBit intNum)
      (intcIrqRegBit intNum)
    return true

/-- `INTC_disable_irq`. -/
def intcDisableIrq (intNum : UInt32) : Bus Bool :=
  if intNum.toNat ≥ numInterrupts then return false
  else do
    reg32WriteMasked intcBaseAddr (intcMirnSetOff intNum) (intcIrqRegBit intNum)
      (intcIrqRegBit intNum)
    return true

/-- `INTC_set_priority`. -/
def intcSetPriority (intNum priority : UInt32) : Bus Unit :=
  reg32Write intcBaseAddr (intcIlenOff intNum) ((priority <<< 2) &&& 0b111111100)

/-- `INTC_active_irq_num`, and `irq_handler_asm` where it loads the handler it calls. -/
def activeHandler (intcVectorTable : ℕ → η) : Bus η := do
  return intcVectorTable ((← reg32Read intcBaseAddr intcSirIrqOff) &&& 0x7F).toNat

/-- A call of the driver. -/
inductive Call (η : Type)
  | register (intNum : UInt32) (handler : η)
  | enable (intNum : UInt32)
  | disable (intNum : UInt32)
  | setPriority (intNum priority : UInt32)

/-- `INTC_set_priority` does not check its number. -/
def Call.Ok : Call η → Prop
  | setPriority intNum _ => intNum.toNat < numInterrupts
  | _ => True

/-- The table after a call. -/
def Call.exec (intcVectorTable : ℕ → η) : Call η → Bus (ℕ → η)
  | register intNum handler => return (intcRegisterIrq intcVectorTable intNum handler).2
  | enable intNum => do
    let _ ← intcEnableIrq intNum
    return intcVectorTable
  | disable intNum => do
    let _ ← intcDisableIrq intNum
    return intcVectorTable
  | setPriority intNum priority => do
    intcSetPriority intNum priority
    return intcVectorTable

/-- `INTC_init`, calls, and the handler called for the interrupt that is then active. -/
def handlerAfter (intcVectorTable : ℕ → η) (defaultHandler : η) (calls : List (Call η)) :
    Bus η := do
  let table ← intcInit intcVectorTable defaultHandler
  let table ← calls.foldlM Call.exec table
  activeHandler table

/-! ## What the calls are for -/

/-- The lines: which are enabled, and their handlers. -/
structure Lines (η : Type) where
  enabled : ℕ → Bool
  handler : ℕ → η

namespace Lines

/-- A call with a number that is not a line's does nothing. -/
def call (l : Lines η) : Call η → Lines η
  | .register intNum handler =>
    if intNum.toNat < numInterrupts then
      { l with handler := Function.update l.handler intNum.toNat handler }
    else l
  | .enable intNum =>
    if intNum.toNat < numInterrupts then
      { l with enabled := Function.update l.enabled intNum.toNat true }
    else l
  | .disable intNum =>
    if intNum.toNat < numInterrupts then
      { l with enabled := Function.update l.enabled intNum.toNat false }
    else l
  | .setPriority _ _ => l

def reset (defaultHandler : η) : Lines η := ⟨fun _ => false, fun _ => defaultHandler⟩

/-- The lines after a reset and some calls. -/
def after (defaultHandler : η) (calls : List (Call η)) : Lines η :=
  calls.foldl call (reset defaultHandler)

end Lines

end

/-! ## The controller -/

/-- The controller: its masks by register, the lines that ask for an interrupt, and whether it is
being reset. -/
structure Controller where
  mir : Fin 4 → UInt32
  asks : ℕ → Bool
  resetting : Bool

namespace Controller

/-- The register of the masks of a line. -/
def bank (line : Fin numInterrupts) : Fin 4 :=
  ⟨line / 32, by
    have : line.val < 128 := line.isLt
    omega⟩

def masked (c : Controller) (line : Fin numInterrupts) : Bool :=
  (c.mir (bank line)).toBitVec.getLsbD (line % 32)

def mirClear (n : Fin 4) : UInt32 := 0x88 + 0x20 * UInt32.ofNat n

def mirSet (n : Fin 4) : UInt32 := 0x8c + 0x20 * UInt32.ofNat n

/-- Peripherals ask, or no longer do; a reset masks all lines. -/
inductive Move : Controller → Controller → Prop
  | asks (c : Controller) (asks : ℕ → Bool) : Move c { c with asks := asks }
  | reset {c : Controller} (h : c.resetting = true) :
      Move c { c with mir := fun _ => 0xFFFFFFFF, resetting := false }

/-- What a read of a register returns. The active line is one that asks and is not masked, if there
is one. -/
def Read (c : Controller) (offset v : UInt32) : Prop :=
  (∀ n, offset = mirClear n ∨ offset = mirSet n → v = 0) ∧
    (offset = intcSysconfigOff → v &&& 0x2 = 0) ∧
    (offset = intcStatusOff → (v &&& 0x1 = 0x1 ↔ c.resetting = false)) ∧
    (offset = intcSirIrqOff → (∃ line, c.asks line.val ∧ c.masked line = false) →
      ∃ line, v &&& 0x7F = UInt32.ofNat line.val ∧ c.asks line.val ∧ c.masked line = false)

/-- What a write of a register does. -/
def write (c : Controller) (offset v : UInt32) : Controller :=
  { c with
    resetting := c.resetting || (offset == intcSysconfigOff && v &&& 0x2 != 0)
    mir := fun n =>
      if offset = mirClear n then c.mir n &&& ~~~v
      else if offset = mirSet n then c.mir n ||| v
      else c.mir n }

def Access : BusAccess → Controller → Controller → Prop
  | .read base offset v, c, c' => c' = c ∧ (base = intcBaseAddr → c.Read offset v)
  | .write base offset v, c, c' => c' = if base = intcBaseAddr then c.write offset v else c

def device : Device Controller BusAccess := ⟨Move, Access⟩

end Controller

end BeagleKernel.Intc
