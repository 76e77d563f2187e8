import BeagleKernel.Lib.Masks
import Mathlib.Logic.Function.Basic

/-!
# General-purpose pins

A driver sets and clears pins through registers that take the pins as a mask, and it may share a
bank of them with others. What the pins of a mask are held at changes only by a write that touches
them (`held_write_of_not_touches`).
-/

namespace BeagleKernel.Drivers

abbrev gpio1Base : UInt32 := 0x4804c000

abbrev gpioOeOff : UInt32 := 0x134
abbrev gpioCleardataoutOff : UInt32 := 0x190
abbrev gpioSetdataoutOff : UInt32 := 0x194

abbrev gpioPinOut : UInt32 := 0

/-- A write to a register of a bank. -/
structure RegWrite where
  base : UInt32
  offset : UInt32
  value : UInt32
  deriving DecidableEq

/-- The banks by their bases: `GPIO_OE`, which has a bit set for an input, `GPIO_DATAOUT`, and the
levels the pins are given from outside. -/
structure Gpio where
  oe : UInt32 → UInt32
  dataout : UInt32 → UInt32
  outside : UInt32 → UInt32

namespace Gpio

def write (g : Gpio) (w : RegWrite) : Gpio :=
  if w.offset = gpioOeOff then { g with oe := Function.update g.oe w.base w.value }
  else if w.offset = gpioSetdataoutOff then
    { g with dataout := Function.update g.dataout w.base (g.dataout w.base ||| w.value) }
  else if w.offset = gpioCleardataoutOff then
    { g with dataout := Function.update g.dataout w.base (g.dataout w.base &&& ~~~w.value) }
  else g

def writeAll (g : Gpio) (ws : List RegWrite) : Gpio := ws.foldl write g

/-- `GPIO_DATAIN`: an output is read as it is driven. -/
def datain (g : Gpio) (base : UInt32) : UInt32 :=
  (g.dataout base &&& ~~~g.oe base) ||| (g.outside base &&& g.oe base)

/-- What the pins of a mask are driven at. -/
def held (g : Gpio) (base pins : UInt32) : UInt32 := g.dataout base &&& pins

/-- Whether a pin is driven high. -/
def level (g : Gpio) (base pin : UInt32) : Bool := decide (g.held base pin ≠ 0)

end Gpio

/-- `GPIO_set`. -/
def gpioSet (base pins : UInt32) : RegWrite := ⟨base, gpioSetdataoutOff, pins⟩

/-- `GPIO_clear`. -/
def gpioClear (base pins : UInt32) : RegWrite := ⟨base, gpioCleardataoutOff, pins⟩

/-- `GpioSetPinMode`. -/
def gpioSetPinMode (g : Gpio) (base pinMask dir : UInt32) : RegWrite :=
  ⟨base, gpioOeOff, (g.oe base &&& ~~~pinMask) ||| (dir &&& pinMask)⟩

/-- `GPIO_get`. The language leaves a shift by the width of an `int` or more undefined; `wide` is
what the machine makes of one. -/
def gpioGet (wide : Int32 → UInt32 → Int32) (g : Gpio) (base pin : UInt32) : Int32 :=
  let bank := (g.datain base).toInt32
  (if pin < 32 then bank >>> pin.toInt32 else wide bank pin) &&& 0x1

/-- Whether a write may change one of the pins. -/
def RegWrite.touches (w : RegWrite) (base pins : UInt32) : Prop :=
  w.base = base ∧ w.value &&& pins ≠ 0

namespace Gpio

variable {g : Gpio} {w : RegWrite} {ws ws' : List RegWrite} {base pins pin : UInt32}

@[simp] theorem writeAll_nil : g.writeAll [] = g := rfl

@[simp] theorem writeAll_cons : g.writeAll (w :: ws) = (g.write w).writeAll ws := rfl

@[simp] theorem writeAll_append : g.writeAll (ws ++ ws') = (g.writeAll ws).writeAll ws' :=
  List.foldl_append

theorem held_write_of_not_touches (h : ¬ w.touches base pins) :
    (g.write w).held base pins = g.held base pins := by
  unfold write held
  by_cases hb : base = w.base
  · subst hb
    have hw : w.value &&& pins = 0 := by_contra fun hne => h ⟨rfl, hne⟩
    split_ifs
    · rfl
    · simp only [Function.update_self, set_and_of_disjoint hw]
    · simp only [Function.update_self, clear_and_of_disjoint hw]
    · rfl
  · split_ifs <;> simp only [Function.update_of_ne hb]

theorem held_writeAll_of_not_touches (h : ∀ w ∈ ws, ¬ w.touches base pins) :
    (g.writeAll ws).held base pins = g.held base pins := by
  induction ws generalizing g with
  | nil => rfl
  | cons w ws ih =>
    rw [writeAll_cons, ih fun w' hw' => h w' (.tail _ hw'),
      held_write_of_not_touches (h w (.head _))]

theorem held_gpioSet : (g.write (gpioSet base pins)).held base pins = pins := by
  show Function.update g.dataout base (g.dataout base ||| pins) base &&& pins = pins
  rw [Function.update_self, set_and_self]

theorem held_gpioClear : (g.write (gpioClear base pins)).held base pins = 0 := by
  show Function.update g.dataout base (g.dataout base &&& ~~~pins) base &&& pins = 0
  rw [Function.update_self, clear_and_self]

theorem level_congr {g' : Gpio} (h : g'.held base pin = g.held base pin) :
    g'.level base pin = g.level base pin := by
  rw [level, level, h]

theorem level_eq_false : g.level base pin = false ↔ g.held base pin = 0 := by
  simp [level]

@[simp] theorem level_gpioClear : (g.write (gpioClear base pin)).level base pin = false :=
  level_eq_false.2 held_gpioClear

theorem level_gpioSet (h : pin ≠ 0) : (g.write (gpioSet base pin)).level base pin = true := by
  rw [level, held_gpioSet]
  exact decide_eq_true h

end Gpio

end BeagleKernel.Drivers
