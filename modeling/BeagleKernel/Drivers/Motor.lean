import BeagleKernel.Drivers.Gpio
import BeagleKernel.Uart.MotorTask

/-!
# The motor driver

Two motors on one bank of pins. A motor has an enable pin and two pins for its direction, and the
driver writes masks of them. The table is memory: an index past its end reads what lies behind it.
-/

namespace BeagleKernel.Drivers

open Uart

abbrev left : ℕ := 0
abbrev right : ℕ := 1
abbrev numMotors : ℕ := 2

abbrev leftMotorPin1 : UInt32 := (0x1 : UInt32) <<< 5
abbrev leftMotorPin2 : UInt32 := (0x1 : UInt32) <<< 4
abbrev rightMotorPin1 : UInt32 := (0x1 : UInt32) <<< 2
abbrev rightMotorPin2 : UInt32 := (0x1 : UInt32) <<< 3
abbrev leftMotorEn : UInt32 := (0x1 : UInt32) <<< 7
abbrev rightMotorEn : UInt32 := (0x1 : UInt32) <<< 6

/-- `motor_state_t`. -/
inductive MotorState
  | stop
  | forward
  | backward
  deriving DecidableEq

/-- The levels of the two direction pins. -/
def MotorState.levels : MotorState → Bool × Bool
  | .stop => (false, false)
  | .forward => (true, false)
  | .backward => (false, true)

/-- `motor_t`. -/
structure Motor where
  motorNumber : Int32
  gpioBase : UInt32
  pin1 : UInt32
  pin2 : UInt32
  enPin : UInt32
  state : MotorState

def Motor.pins (m : Motor) : UInt32 := m.pin1 ||| m.pin2 ||| m.enPin

/-- `motors`, with what lies behind it. -/
abbrev Motors := ℕ → Motor

/-- The first `n` rounds of the loop of `motors_stop`. -/
def stopMotors (motors : Motors) : (n : ℕ) → List RegWrite
  | 0 => []
  | n + 1 => stopMotors motors n ++ [gpioClear (motors n).gpioBase (motors n).enPin]

/-- `motors_stop`. -/
def motorsStop (motors : Motors) : List RegWrite := stopMotors motors numMotors

/-- The `switch` over a motor's state. -/
def setPins (motor : Motor) : List RegWrite :=
  match motor.state with
  | .stop => [gpioClear motor.gpioBase motor.pin1, gpioClear motor.gpioBase motor.pin2]
  | .forward => [gpioSet motor.gpioBase motor.pin1, gpioClear motor.gpioBase motor.pin2]
  | .backward => [gpioClear motor.gpioBase motor.pin1, gpioSet motor.gpioBase motor.pin2]

/-- A round of the loop of `motors_start`. -/
def startMotor (motor : Motor) : List RegWrite :=
  setPins motor ++ if motor.state ≠ .stop then [gpioSet motor.gpioBase motor.enPin] else []

/-- The first `n` rounds. -/
def startMotors (motors : Motors) : (n : ℕ) → List RegWrite
  | 0 => []
  | n + 1 => startMotors motors n ++ startMotor (motors n)

/-- `motors_start`. -/
def motorsStart (motors : Motors) : List RegWrite := startMotors motors numMotors

/-- The six pins. -/
abbrev motorPins : UInt32 :=
  leftMotorPin1 ||| leftMotorPin2 ||| leftMotorEn ||| rightMotorPin1 ||| rightMotorPin2 |||
    rightMotorEn

/-- `motor_init`. The states of the motors stay as they are. -/
def motorInit (motors : Motors) (g : Gpio) : Motors × List RegWrite :=
  let motors := Function.update motors left
    { motors left with
      motorNumber := 0
      gpioBase := gpio1Base
      pin1 := leftMotorPin1
      pin2 := leftMotorPin2
      enPin := leftMotorEn }
  let motors := Function.update motors right
    { motors right with
      motorNumber := 1
      gpioBase := gpio1Base
      pin1 := rightMotorPin1
      pin2 := rightMotorPin2
      enPin := rightMotorEn }
  (motors, [gpioSetPinMode g gpio1Base motorPins gpioPinOut, gpioClear gpio1Base motorPins])

theorem eq_left_or_right {i : ℕ} (hi : i < numMotors) : i = left ∨ i = right := by
  have hi : i < 2 := hi
  show i = 0 ∨ i = 1
  omega

theorem motorInit_left (motors : Motors) (g : Gpio) : (motorInit motors g).1 left =
    ⟨0, gpio1Base, leftMotorPin1, leftMotorPin2, leftMotorEn, (motors left).state⟩ := rfl

theorem motorInit_right (motors : Motors) (g : Gpio) : (motorInit motors g).1 right =
    ⟨1, gpio1Base, rightMotorPin1, rightMotorPin2, rightMotorEn, (motors right).state⟩ := rfl

/-- `motors[i].state = state`. -/
def setState (motors : Motors) (i : ℕ) (state : MotorState) : Motors :=
  Function.update motors i { motors i with state := state }

/-- `motors_set_dir`. -/
def motorsSetDir (motors : Motors) (dirs : UInt32) : Motors :=
  if dirs &&& motorDirStop ≠ 0 then setState (setState motors left .stop) right .stop
  else
    let motors := if dirs &&& motorDirForward ≠ 0 then
      setState (setState motors left .forward) right .forward else motors
    let motors := if dirs &&& motorDirBackward ≠ 0 then
      setState (setState motors left .backward) right .backward else motors
    let motors := if dirs &&& motorDirLeft ≠ 0 then setState motors left .stop else motors
    if dirs &&& motorDirRight ≠ 0 then setState motors right .stop else motors

abbrev motorSetDir : Int32 := 0x1
abbrev motorSetSpeed : Int32 := 0x2

/-- `motor_ioctl`: what it returns, the motors after it and what it writes. -/
def motorIoctl (motors : Motors) (cmd : Int32) (value : UInt32) :
    Int32 × Motors × List RegWrite :=
  let stopped := motorsStop motors
  let motors :=
    if cmd = motorSetDir then motorsSetDir motors value
    else if cmd = motorSetSpeed then motors
    else motors
  (0, motors, stopped ++ motorsStart motors)

/-- A call of `motor_ioctl`. -/
structure IoctlCall where
  cmd : Int32
  value : UInt32

/-- A sequence of calls: the motors after it and what it writes. -/
def ioctlRun (motors : Motors) : List IoctlCall → Motors × List RegWrite
  | [] => (motors, [])
  | c :: cs =>
    let (_, motors, ws) := motorIoctl motors c.cmd c.value
    let (motors, ws') := ioctlRun motors cs
    (motors, ws ++ ws')

/-! ## Reading and writing a motor -/

/-- `motor_write`, of the `int` in its buffer: what it returns and what it writes. -/
def motorWrite (motors : Motors) (motorNum v : Int32) : Int32 × List RegWrite :=
  if motorNum < 0 ∨ motorNum > 2 then (-1, [])
  else
    let motor := motors motorNum.toNatClampNeg
    if v = 0 then
      (0, [gpioClear motor.gpioBase motor.pin1, gpioClear motor.gpioBase motor.pin2])
    else if v > 0 then
      (0, [gpioSet motor.gpioBase motor.pin1, gpioClear motor.gpioBase motor.pin2])
    else (0, [gpioClear motor.gpioBase motor.pin1, gpioSet motor.gpioBase motor.pin2])

/-- What `motor_read` makes of the values of the two pins, from the `v` it has read. -/
def readDirection (pin1Value pin2Value v : Int32) : Int32 :=
  let v := if (pin1Value = 0 ∧ pin2Value = 0) ∨ (pin1Value = 1 ∧ pin2Value = 1) then 0 else v
  let v := if pin1Value = 0 ∧ pin2Value = 1 then 1 else v
  if pin1Value = 1 ∧ pin2Value = 0 then -1 else v

/-- `motor_read`: what it returns and the `int` its buffer then holds. It keeps the direction in a
variable of its own. -/
def motorRead (wide : Int32 → UInt32 → Int32) (motors : Motors) (g : Gpio)
    (motorNum buf : Int32) : Int32 × Int32 :=
  let v := buf
  if motorNum < 0 ∨ motorNum > 2 then (-1, buf)
  else
    let motor := motors motorNum.toNatClampNeg
    let pin1Value := gpioGet wide g motor.gpioBase motor.pin1
    let pin2Value := gpioGet wide g motor.gpioBase motor.pin2
    let _v := readDirection pin1Value pin2Value v
    (0, buf)

end BeagleKernel.Drivers
