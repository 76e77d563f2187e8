import BeagleKernel.Drivers.Motor
import BeagleKernel.Uart.Interleaved

/-!
# The robot

`motor_task` with the port it reads, its buffer, and the motors it drives, one step at a time: a
byte can arrive before `motor_init`, between two calls of `uart_readline` and between two rounds of
the loop of one. What the task prints on the other port is left out.
-/

namespace BeagleKernel.Drivers

open Uart

structure Robot where
  port : Port
  uartBuffer : ℕ → UInt8
  motors : Motors
  gpio : Gpio
  /-- `motor_init` has returned. -/
  ready : Bool

inductive RobotAction
  | receive (byte : UInt8)
  | init
  | poll
  | round
  | ret

/-- The action on the port; `motor_init` takes none. -/
def RobotAction.onPort (r : Robot) : RobotAction → Option Action
  | receive byte => some (.receive byte)
  | init => none
  | poll => some (.call r.uartBuffer 100)
  | round => some .round
  | ret => some .ret

/-- What `motor_task` does with what it has read. -/
def Robot.obey (r : Robot) (read : ℕ) : Robot :=
  if read = 5 then
    let x : ℤ := (r.uartBuffer 1).toNat - 128
    let y : ℤ := (r.uartBuffer 3).toNat - 128
    let (_, motors, writes) := motorIoctl r.motors motorSetDir (motorDirection x y)
    { r with motors, gpio := r.gpio.writeAll writes }
  else r

/-- A call that finds no line returns at once, with nothing read. -/
def RobotAction.exec (r : Robot) : RobotAction → Option Robot
  | receive byte => ((Action.receive byte).exec r.port).map fun port => { r with port }
  | init =>
    if r.ready then none
    else
      let (motors, writes) := motorInit r.motors r.gpio
      some { r with motors, gpio := r.gpio.writeAll writes, ready := true }
  | poll =>
    if r.ready then
      ((Action.call r.uartBuffer 100).exec r.port).map fun port => { r with port }
    else none
  | round => (Action.round.exec r.port).map fun port => { r with port }
  | ret => r.port.call.bind fun c => (Action.ret.exec r.port).map fun port =>
    Robot.obey { r with port, uartBuffer := Function.update c.buffer c.i 0 } c.i

def RobotStep (a : RobotAction) (r r' : Robot) : Prop := a.exec r = some r'

/-- `motors` as it is loaded, with what lies behind it. -/
def loadedMotors (behind : Motors) : Motors := fun i =>
  if i < numMotors then ⟨0, 0, 0, 0, 0, .stop⟩ else behind i

/-- After `uart_init(1)`, before the task runs. -/
def Robot.start (u : UartBuffers) (uartBuffer : ℕ → UInt8) (behind : Motors) (g : Gpio) : Robot :=
  ⟨Port.start u, uartBuffer, loadedMotors behind, g, false⟩

/-- The run of the port. -/
def portRun (as : List (Robot × RobotAction)) : List (Port × Action) :=
  as.filterMap fun x => (x.2.onPort x.1).map (x.1.port, ·)

/-! ## What the robot is for -/

/-- The states of the two motors for a position of the joystick: it drives forwards or backwards,
and to turn it stops one side. At the edge between the two it stops. -/
def steering (x y : ℤ) : MotorState × MotorState :=
  let drive : MotorState := if y > 5 then .forward else if y < -5 then .backward else .stop
  if x = 5 ∨ x = -5 then (.stop, .stop)
  else (if x < -5 then .stop else drive, if x > 5 then .stop else drive)

/-- The states after a line. -/
def steer (s : MotorState × MotorState) : List UInt8 → MotorState × MotorState
  | [_, x, _, y, _] => steering (x.toNat - 128) (y.toNat - 128)
  | _ => s

/-- The states after the lines. -/
def driven (lines : List (List UInt8)) : MotorState × MotorState :=
  lines.foldl steer (.stop, .stop)

/-- The pins of a motor: its enable pin and the two for its direction. -/
def MotorState.pins (s : MotorState) : Bool × Bool × Bool := (s ≠ .stop, s.levels)

/-- The levels of the pins of the left motor and of the right one. -/
def Gpio.motorLevels (g : Gpio) : (Bool × Bool × Bool) × (Bool × Bool × Bool) :=
  ((g.level gpio1Base leftMotorEn, g.level gpio1Base leftMotorPin1,
      g.level gpio1Base leftMotorPin2),
    (g.level gpio1Base rightMotorEn, g.level gpio1Base rightMotorPin1,
      g.level gpio1Base rightMotorPin2))

end BeagleKernel.Drivers
