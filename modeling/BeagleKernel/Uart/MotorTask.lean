import BeagleKernel.Uart.Uart
import Mathlib.Data.Int.Notation

/-!
# The motor task

`motor_task` polls UART1 for a line. A line of five characters is a frame of the joystick's, with
one coordinate in its second character and the other in its fourth.
-/

namespace BeagleKernel.Uart

abbrev motorDirForward : UInt32 := 0x1
abbrev motorDirBackward : UInt32 := 0x2
abbrev motorDirStop : UInt32 := 0x4
abbrev motorDirLeft : UInt32 := 0x8
abbrev motorDirRight : UInt32 := 0x10

/-- What `motor_task` gives `motor_ioctl` to set for a position of the joystick. -/
def motorDirection (x y : ℤ) : UInt32 :=
  if x > -5 ∧ x < 5 ∧ y > 5 then motorDirForward
  else if x > -5 ∧ x < 5 ∧ y < -5 then motorDirBackward
  else if x > 5 ∧ y > 5 then motorDirForward ||| motorDirRight
  else if x > 5 ∧ y < -5 then motorDirBackward ||| motorDirRight
  else if x < -5 ∧ y > 5 then motorDirForward ||| motorDirLeft
  else if x < -5 ∧ y < -5 then motorDirBackward ||| motorDirLeft
  else motorDirStop

/-- A position `motor_task` decodes, and the direction it sets for it. -/
structure Command where
  x : ℤ
  y : ℤ
  direction : UInt32

/-- A round of `motor_task` up to its `yield`: the command it reads, if any, and its buffer and
the receive buffers after it. -/
def motorRound (u : UartBuffers) (uartBuffer : ℕ → UInt8) :
    Option Command × (ℕ → UInt8) × UartBuffers :=
  let (read, uartBuffer, u) := uartReadline u 1 uartBuffer 100
  if read = 5 then
    let x : ℤ := (uartBuffer 1).toNat - 128
    let y : ℤ := (uartBuffer 3).toNat - 128
    (some ⟨x, y, motorDirection x y⟩, uartBuffer, u)
  else (none, uartBuffer, u)

/-- A position of the joystick. -/
structure Joystick where
  x : ℤ
  y : ℤ
  x_range : -128 ≤ x ∧ x ≤ 127
  y_range : -128 ≤ y ∧ y ≤ 127

/-- The byte a coordinate is sent as. -/
def payload (v : ℤ) : UInt8 := UInt8.ofNat (v + 128).toNat

/-- The five bytes a position is sent as. -/
def Joystick.frame (j : Joystick) : List UInt8 := [0x78, payload j.x, 0x79, payload j.y, newline]

/-- The positions `motor_task` decodes when it polls after each frame. -/
def decoded : UartBuffers → (ℕ → UInt8) → List Joystick → List (ℤ × ℤ)
  | _, _, [] => []
  | u, uartBuffer, j :: js =>
    match motorRound (j.frame.foldl handleUart1Irq u) uartBuffer with
    | (some command, uartBuffer, u) => (command.x, command.y) :: decoded u uartBuffer js
    | (none, uartBuffer, u) => decoded u uartBuffer js

end BeagleKernel.Uart
