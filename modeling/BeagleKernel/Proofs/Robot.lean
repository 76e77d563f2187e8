import BeagleKernel.Drivers.Robot
import BeagleKernel.Proofs.Joystick
import BeagleKernel.Proofs.Motor
import BeagleKernel.Proofs.Stream

/-!
# The robot follows its stream

The pins of both motors are at each time what the lines read so far ask for, and those are the
first lines of the stream (`robot_follows`). A joystick whose frames all arrive is followed to its
last position (`robot_follows_joystick`).
-/

namespace BeagleKernel.Drivers

open Uart

variable {r r' : Robot} {a : RobotAction} {as : List (Robot × RobotAction)} {c : Call}
  {motors motors' behind : Motors} {g : Gpio} {u : UartBuffers} {uartBuffer : ℕ → UInt8}
  {lines : List (List UInt8)}

/-! ## The direction -/

theorem motorsSetDir_states (motors : Motors) (x y : ℤ) :
    ((motorsSetDir motors (motorDirection x y) left).state,
      (motorsSetDir motors (motorDirection x y) right).state) = steering x y := by
  have hlr : left ≠ right := by decide
  unfold motorDirection steering
  split_ifs <;> first
    | omega
    | simp +decide [motorsSetDir, setState]

/-! ## The run of the port -/

theorem portRun_snoc : portRun (as ++ [(r, a)]) =
    portRun as ++ ((a.onPort r).map (r.port, ·)).toList := by
  rw [portRun, List.filterMap_append]
  rcases h : a.onPort r <;> simp [h, portRun]

/-- What a step does: it sets up the motors, or it is one of the port's, and a call that returns
is obeyed. -/
theorem step_cases (hs : RobotStep a r r') :
    (a = .init ∧ r.ready = false ∧ r' = { r with
        motors := (motorInit r.motors r.gpio).1
        gpio := r.gpio.writeAll (motorInit r.motors r.gpio).2
        ready := true }) ∨
    (∃ b, a.onPort r = some b ∧ b ≠ .ret ∧ (∀ buffer size, b = .call buffer size →
        size = 100 ∧ r.ready = true) ∧ ∃ port, PortStep b r.port port ∧ r' = { r with port }) ∨
    (a = .ret ∧ ∃ c port, r.port.call = some c ∧ PortStep .ret r.port port ∧
      r' = Robot.obey { r with port, uartBuffer := Function.update c.buffer c.i 0 } c.i) := by
  cases a with
  | receive byte =>
    simp only [RobotStep, RobotAction.exec] at hs
    obtain ⟨port, hp, rfl⟩ := Option.map_eq_some_iff.1 hs
    exact .inr (.inl ⟨_, rfl, by simp, by simp, port, hp, rfl⟩)
  | init =>
    simp only [RobotStep, RobotAction.exec] at hs
    split_ifs at hs with hr
    cases hs
    exact .inl ⟨rfl, by simpa using hr, rfl⟩
  | poll =>
    simp only [RobotStep, RobotAction.exec] at hs
    split_ifs at hs with hr
    obtain ⟨port, hp, rfl⟩ := Option.map_eq_some_iff.1 hs
    refine .inr (.inl ⟨_, rfl, by simp, ?_, port, hp, rfl⟩)
    rintro buffer size heq
    cases heq
    exact ⟨rfl, hr⟩
  | round =>
    obtain ⟨port, hp, rfl⟩ := Option.map_eq_some_iff.1 hs
    exact .inr (.inl ⟨_, rfl, by simp, by simp, port, hp, rfl⟩)
  | ret =>
    obtain ⟨c, hc, hs⟩ := Option.bind_eq_some_iff.1 hs
    obtain ⟨port, hp, rfl⟩ := Option.map_eq_some_iff.1 hs
    exact .inr (.inr ⟨rfl, c, port, hc, hp, rfl⟩)

theorem obey_port (r : Robot) (read : ℕ) : (r.obey read).port = r.port := by
  unfold Robot.obey
  split_ifs <;> rfl

theorem obey_ready (r : Robot) (read : ℕ) : (r.obey read).ready = r.ready := by
  unfold Robot.obey
  split_ifs <;> rfl

theorem run_port (h : Run RobotStep (Robot.start u uartBuffer behind g) as r) :
    Run PortStep (Port.start u) (portRun as) r.port := by
  induction h with
  | nil => exact .nil
  | snoc run last ih =>
    rw [portRun_snoc]
    obtain ⟨rfl, -, rfl⟩ | ⟨b, hb, -, -, port, hp, rfl⟩ | ⟨rfl, c, port, -, hp, rfl⟩ :=
      step_cases last
    · simpa [RobotAction.onPort] using ih
    · rw [hb]
      exact ih.snoc hp
    · rw [obey_port]
      exact ih.snoc hp

theorem portRun_calls (h : Run RobotStep (Robot.start u uartBuffer behind g) as r) :
    CallsOf 100 (portRun as) := by
  induction h with
  | nil => exact fun _ hx => nomatch hx
  | snoc run last ih =>
    rw [portRun_snoc]
    intro x hx buffer size hcall
    rcases List.mem_append.1 hx with hx | hx
    · exact ih x hx buffer size hcall
    · obtain ⟨rfl, -, rfl⟩ | ⟨b, hb, -, hsize, -⟩ | ⟨rfl, -⟩ := step_cases last
      · simp [RobotAction.onPort] at hx
      · obtain rfl : x = (_, b) := by simpa [hb] using hx
        exact (hsize buffer size hcall).1
      · obtain rfl : x = (_, .ret) := by simpa [RobotAction.onPort] using hx
        cases hcall

/-! ## The motors -/

/-- The motors are those of `motor_init` in the states `s`, and their pins are outputs at the
levels that these ask for. -/
structure Robot.Follows (r : Robot) (s : MotorState × MotorState) : Prop where
  left_eq : r.motors left = ⟨0, gpio1Base, leftMotorPin1, leftMotorPin2, leftMotorEn, s.1⟩
  right_eq : r.motors right = ⟨1, gpio1Base, rightMotorPin1, rightMotorPin2, rightMotorEn, s.2⟩
  powered : ∀ i < numMotors, (r.motors i).Powered r.gpio
  outputs : r.gpio.oe gpio1Base &&& motorPins = 0

theorem Wired.congr (h : ∀ i < numMotors, motors' i = motors i) (hw : Wired motors) :
    Wired motors' where
  distinct i hi := by
    rw [h i hi]
    exact hw.distinct i hi
  apart i hi j hj hne := by
    rw [h i hi, h j hj]
    exact hw.apart i hi j hj hne

section

variable {s : MotorState × MotorState}

theorem Robot.Follows.wired (h : r.Follows s) : Wired r.motors := by
  refine Wired.congr (fun i hi => ?_) (wired_motorInit r.motors r.gpio)
  rcases eq_left_or_right hi with rfl | rfl
  · rw [motorInit_left, h.left_eq]
  · rw [motorInit_right, h.right_eq]

/-- The levels of the pins are those of the states. -/
theorem Robot.Follows.motorLevels (h : r.Follows s) :
    r.gpio.motorLevels = (s.1.pins, s.2.pins) := by
  have hl := h.powered left (by decide)
  have hr := h.powered right (by decide)
  rw [h.left_eq] at hl
  rw [h.right_eq] at hr
  have pins_eq : ∀ {state : MotorState} {en : Bool} {levels : Bool × Bool},
      (en = true ↔ state ≠ .stop) → levels = state.levels → (en, levels) = state.pins := by
    intro state en levels hen hlevels
    rw [MotorState.pins, hlevels, Bool.eq_iff_iff.2 (hen.trans (by simp) :
      en = true ↔ decide (state ≠ .stop) = true)]
  exact Prod.ext (pins_eq hl.enabled hl.levels) (pins_eq hr.enabled hr.levels)

theorem oe_writeAll {ws : List RegWrite} {base : UInt32}
    (h : ∀ w ∈ ws, w.offset = gpioSetdataoutOff ∨ w.offset = gpioCleardataoutOff) :
    (g.writeAll ws).oe base = g.oe base := by
  induction ws generalizing g with
  | nil => rfl
  | cons w ws ih =>
    rw [Gpio.writeAll_cons, ih fun w' hw' => h w' (.tail _ hw')]
    have hw : w.offset ≠ gpioOeOff := by
      rcases h w (.head _) with hw | hw <;> rw [hw] <;> decide
    unfold Gpio.write
    rw [if_neg hw]
    split_ifs <;> rfl

theorem offset_startMotor {m : Motor} : ∀ w ∈ startMotor m,
    w.offset = gpioSetdataoutOff ∨ w.offset = gpioCleardataoutOff := by
  intro w hw
  unfold startMotor setPins at hw
  rcases hs : m.state <;> rw [hs] at hw <;>
    simp only [List.mem_append, List.mem_cons, List.not_mem_nil, or_false, ne_eq, reduceCtorEq,
      not_true_eq_false, not_false_eq_true, if_true, if_false] at hw
  · rcases hw with rfl | rfl
    · exact .inr rfl
    · exact .inr rfl
  all_goals
    rcases hw with (rfl | rfl) | rfl
    all_goals first | exact .inl rfl | exact .inr rfl

theorem offset_motorIoctl (motors : Motors) (cmd : Int32) (value : UInt32) :
    ∀ w ∈ (motorIoctl motors cmd value).2.2,
      w.offset = gpioSetdataoutOff ∨ w.offset = gpioCleardataoutOff := by
  have hstart : ∀ (motors : Motors) (n : ℕ), ∀ w ∈ startMotors motors n,
      w.offset = gpioSetdataoutOff ∨ w.offset = gpioCleardataoutOff := by
    intro motors n w hw
    induction n with
    | zero => nomatch hw
    | succ n ih =>
      rcases List.mem_append.1 hw with hw | hw
      · exact ih hw
      · exact offset_startMotor w hw
  intro w hw
  rcases List.mem_append.1 hw with hw | hw
  · obtain ⟨j, -, rfl⟩ := mem_stopMotors hw
    exact .inr rfl
  · exact hstart _ _ w hw

/-- A position is obeyed. -/
theorem Robot.Follows.ioctl (h : r.Follows s) (x y : ℤ) :
    Robot.Follows { r with
      motors := (motorIoctl r.motors motorSetDir (motorDirection x y)).2.1
      gpio := r.gpio.writeAll (motorIoctl r.motors motorSetDir (motorDirection x y)).2.2 }
      (steering x y) where
  left_eq := by
    obtain ⟨s', hs'⟩ := sameWires_motorsSetDir r.motors (motorDirection x y) left
    have hstate := congrArg Prod.fst (motorsSetDir_states r.motors x y)
    show motorsSetDir r.motors (motorDirection x y) left = _
    rw [hs'] at hstate ⊢
    rw [h.left_eq, ← hstate]
  right_eq := by
    obtain ⟨s', hs'⟩ := sameWires_motorsSetDir r.motors (motorDirection x y) right
    have hstate := congrArg Prod.snd (motorsSetDir_states r.motors x y)
    show motorsSetDir r.motors (motorDirection x y) right = _
    rw [hs'] at hstate ⊢
    rw [h.right_eq, ← hstate]
  powered i hi := (motorIoctl_step h.wired r.gpio motorSetDir (motorDirection x y) hi).2
  outputs := by
    show (r.gpio.writeAll _).oe gpio1Base &&& motorPins = 0
    rw [oe_writeAll (offset_motorIoctl _ _ _)]
    exact h.outputs

theorem Robot.Follows.obey (h : r.Follows s) (hc : r.uartBuffer = Function.update c.buffer c.i 0) :
    (r.obey c.i).Follows (steer s c.line) := by
  unfold Robot.obey
  split_ifs with hi
  · have hx : r.uartBuffer 1 = c.buffer 1 := by rw [hc, Function.update_of_ne (by omega)]
    have hy : r.uartBuffer 3 = c.buffer 3 := by rw [hc, Function.update_of_ne (by omega)]
    have hline : c.line = [c.buffer 0, c.buffer 1, c.buffer 2, c.buffer 3, c.buffer 4] := by
      rw [Call.line, hi]
      rfl
    rw [hline, hx, hy]
    exact h.ioctl _ _
  · have hlen : c.line.length ≠ 5 := by rwa [Call.line_length]
    have hsame : steer s c.line = s := by
      unfold steer
      split
      · rename_i heq
        rw [heq] at hlen
        simp at hlen
      · rfl
    rwa [hsame]

end

/-! ## A run -/

theorem level_of_held {base pins p : UInt32} (h : g.held base pins = 0) (hp : pins &&& p = p) :
    g.level base p = false := by
  rw [Gpio.level_eq_false, Gpio.held, ← hp, ← UInt32.and_assoc]
  rw [Gpio.held] at h
  rw [h, UInt32.zero_and]

theorem powered_stop {m : Motor} (hs : m.state = .stop)
    (hen : g.level m.gpioBase m.enPin = false) (h1 : g.level m.gpioBase m.pin1 = false)
    (h2 : g.level m.gpioBase m.pin2 = false) : m.Powered g where
  enabled := by simp [hs, hen]
  levels := by
    rw [h1, h2, hs]
    rfl

/-- `motor_init` leaves every pin low. -/
theorem follows_init (hm : r.motors = loadedMotors behind) : Robot.Follows { r with
    motors := (motorInit r.motors r.gpio).1
    gpio := r.gpio.writeAll (motorInit r.motors r.gpio).2
    ready := true } (.stop, .stop) where
  left_eq := by
    show (motorInit r.motors r.gpio).1 left = _
    rw [motorInit_left, hm]
    rfl
  right_eq := by
    show (motorInit r.motors r.gpio).1 right = _
    rw [motorInit_right, hm]
    rfl
  powered i hi := by
    have hlow : ∀ p, motorPins &&& p = p →
        (r.gpio.writeAll (motorInit r.motors r.gpio).2).level gpio1Base p = false :=
      fun p hp => level_of_held Gpio.held_gpioClear hp
    rcases eq_left_or_right hi with rfl | rfl
    · have hstate : (r.motors left).state = .stop := by rw [hm]; rfl
      exact powered_stop hstate (hlow leftMotorEn (by decide)) (hlow leftMotorPin1 (by decide))
        (hlow leftMotorPin2 (by decide))
    · have hstate : (r.motors right).state = .stop := by rw [hm]; rfl
      exact powered_stop hstate (hlow rightMotorEn (by decide)) (hlow rightMotorPin1 (by decide))
        (hlow rightMotorPin2 (by decide))
  outputs := by
    show Function.update r.gpio.oe gpio1Base _ gpio1Base &&& motorPins = 0
    rw [Function.update_self]
    show (r.gpio.oe gpio1Base &&& ~~~motorPins ||| 0 &&& motorPins) &&& motorPins = 0
    rw [UInt32.zero_and, UInt32.or_zero, clear_and_self]

/-- The motors of a run are as its lines ask for, once they are set up. -/
structure Driven (behind : Motors) (as : List (Robot × RobotAction)) (r : Robot) : Prop where
  waiting : r.ready = false →
    r.port.call = none ∧ results (portRun as) = [] ∧ r.motors = loadedMotors behind
  follows : r.ready = true → r.Follows (driven (results (portRun as)))

theorem driven_start :
    Driven behind [] (Robot.start u uartBuffer behind g) where
  waiting _ := ⟨rfl, rfl, rfl⟩
  follows h := nomatch h

theorem Driven.init (h : Driven behind as r) (hr : r.ready = false) :
    Driven behind (as ++ [(r, .init)]) { r with
      motors := (motorInit r.motors r.gpio).1
      gpio := r.gpio.writeAll (motorInit r.motors r.gpio).2
      ready := true } where
  waiting h := nomatch h
  follows _ := by
    obtain ⟨-, hres, hm⟩ := h.waiting hr
    rw [portRun_snoc]
    simp only [RobotAction.onPort, Option.map_none, Option.toList_none, List.append_nil, hres]
    exact follows_init hm

/-- Before the motors are set up the task makes no call, and no line is read but by a return. -/
theorem Driven.port {b : Action} {port : Port} (h : Driven behind as r) (hb : a.onPort r = some b)
    (hret : b ≠ .ret) (hcall : ∀ buffer size, b = .call buffer size → size = 100 ∧ r.ready = true)
    (hp : PortStep b r.port port) : Driven behind (as ++ [(r, a)]) { r with port } := by
  have hres : results (portRun (as ++ [(r, a)])) = results (portRun as) := by
    rw [portRun_snoc, hb]
    exact results_snoc hret
  refine ⟨fun hr => ?_, fun hr => ?_⟩
  · obtain ⟨hidle, hnone, hm⟩ := h.waiting hr
    refine ⟨?_, hres.trans hnone, hm⟩
    cases b with
    | receive byte =>
      cases hp
      exact hidle
    | call buffer size =>
      have := (hcall buffer size rfl).2
      rw [show r.ready = false from hr] at this
      cases this
    | round => simp [PortStep, Action.exec, hidle] at hp
    | ret => exact absurd rfl hret
  · rw [hres]
    obtain ⟨hl, hri, hpow, hout⟩ := h.follows hr
    exact ⟨hl, hri, hpow, hout⟩

/-- A line that is read is obeyed. -/
theorem Driven.ret {port : Port} (h : Driven behind as r) (hc : r.port.call = some c) :
    Driven behind (as ++ [(r, .ret)])
      (Robot.obey { r with port, uartBuffer := Function.update c.buffer c.i 0 } c.i) := by
  have hready : r.ready = true := by
    by_contra hr
    rw [(h.waiting (by simpa using hr)).1] at hc
    cases hc
  have hres : results (portRun (as ++ [(r, RobotAction.ret)])) =
      results (portRun as) ++ [c.line] := by
    rw [portRun_snoc]
    exact results_ret hc
  obtain ⟨hl, hri, hpow, hout⟩ := h.follows hready
  refine ⟨fun hr => ?_, fun _ => ?_⟩
  · rw [obey_ready] at hr
    exact absurd (hready.symm.trans hr) (by decide)
  · rw [hres, driven, List.foldl_append]
    exact Robot.Follows.obey ⟨hl, hri, hpow, hout⟩ rfl

theorem Driven.step (h : Driven behind as r) (hs : RobotStep a r r') :
    Driven behind (as ++ [(r, a)]) r' := by
  obtain ⟨rfl, hr, rfl⟩ | ⟨b, hb, hret, hcall, port, hp, rfl⟩ | ⟨rfl, c, port, hc, -, rfl⟩ :=
    step_cases hs
  · exact h.init hr
  · exact h.port hb hret hcall hp
  · exact h.ret hc

theorem run_driven (h : Run RobotStep (Robot.start u uartBuffer behind g) as r) :
    Driven behind as r := by
  induction h with
  | nil => exact driven_start
  | snoc run last ih => exact ih.step last

/-- While the lines that are accepted have room in the task's buffer, nothing is written past its
end, the lines the task has read are the first of them, and the pins are what they ask for. -/
theorem robot_follows (h : Run RobotStep (Robot.start u uartBuffer behind g) as r)
    (hready : r.ready = true)
    (hshort : ∀ l ∈ (records newline (accepted (portRun as))).1, l.length < uartBufferLength) :
    WritesInside (portRun as) ∧
      results (portRun as) ++ pieces newline 99 (r.port.stored ++ r.port.queue) =
        (records newline (accepted (portRun as))).1 ∧
      r.gpio.oe gpio1Base &&& motorPins = 0 ∧
      r.gpio.motorLevels = Prod.map MotorState.pins MotorState.pins
        (driven (results (portRun as))) := by
  have hport := run_port h
  have hcalls := portRun_calls h
  have hfollows := (run_driven h).follows hready
  have hten : uartBufferLength = 10 := rfl
  refine ⟨writesInside_of_records hport hcalls hshort, ?_, hfollows.outputs,
    hfollows.motorLevels⟩
  exact @reads_records _ _ _ 100 hport hcalls (by decide) fun l hl =>
    Nat.le_of_lt (Nat.lt_trans (hshort l hl) (by decide))

/-- Nothing has arrived. -/
def still : Robot :=
  Robot.start zeroed (fun _ => 0) (fun _ => ⟨0, 0, 0, 0, 0, .stop⟩)
    ⟨fun _ => 0, fun _ => 0, fun _ => 0⟩

theorem aheadX_range : (-128 : ℤ) ≤ 0 ∧ (0 : ℤ) ≤ 127 := by decide

theorem aheadY_range : (-128 : ℤ) ≤ 100 ∧ (100 : ℤ) ≤ 127 := by decide

def ahead : Joystick := ⟨0, 100, aheadX_range, aheadY_range⟩

/-- A frame arrives and is read. -/
def driveAhead : List (Robot × RobotAction) × Robot :=
  (trace RobotAction.exec still
    (.init :: ahead.frame.map .receive ++
      [.poll, .round, .round, .round, .round, .round, .ret])).get (by decide +kernel)

theorem driveAhead_run : Run RobotStep still driveAhead.1 driveAhead.2 :=
  Run.of_trace (Option.some_get _).symm

theorem robot_follows_ahead : WritesInside (portRun driveAhead.1) ∧
    results (portRun driveAhead.1) ++ pieces newline 99
      (driveAhead.2.port.stored ++ driveAhead.2.port.queue) =
        (records newline (accepted (portRun driveAhead.1))).1 ∧
    driveAhead.2.gpio.oe gpio1Base &&& motorPins = 0 ∧
    driveAhead.2.gpio.motorLevels = Prod.map MotorState.pins MotorState.pins
      (driven (results (portRun driveAhead.1))) :=
  robot_follows driveAhead_run (by decide +kernel) (by decide +kernel)

/-! ## A joystick -/

theorem frame_record {j : Joystick} (h : j.Plain) :
    ∃ body, newline ∉ body ∧ body.length = 4 ∧ j.frame = body ++ [newline] := by
  have hx := (receivedChar_payload j.x_range h.1).2
  have hy := (receivedChar_payload j.y_range h.2).2
  refine ⟨[0x78, payload j.x, 0x79, payload j.y], ?_, rfl, rfl⟩
  simp [hx.symm, hy.symm, newline]

/-- As much of a row of frames as has arrived: the frames that are there whole, and less than a
frame. -/
theorem frames_of_prefix : ∀ {js : List Joystick} {s : List UInt8}, (∀ j ∈ js, j.Plain) →
    s <+: js.flatMap Joystick.frame → ∃ t, newline ∉ t ∧
      s = ((js.take (s.length / 5)).map Joystick.frame).flatten ++ t
  | [], s, _, hs => ⟨[], by simp, by simpa using hs⟩
  | j :: js, s, hplain, hs => by
    obtain ⟨body, hbody, hlen, hframe⟩ := frame_record (hplain j (.head _))
    have hfive : j.frame.length = 5 := rfl
    rw [List.flatMap_cons] at hs
    by_cases hshort : s.length < 5
    · -- the newline of the frame has not arrived
      refine ⟨s, fun hn => hbody ?_, by simp [Nat.div_eq_of_lt hshort]⟩
      rw [hframe, List.append_assoc] at hs
      exact (List.prefix_of_prefix_length_le hs (List.prefix_append _ _) (by omega)).subset hn
    · obtain ⟨rest, rfl⟩ : j.frame <+: s :=
        List.prefix_of_prefix_length_le (List.prefix_append _ _) hs (by omega)
      obtain ⟨t, ht, heq⟩ := frames_of_prefix (fun j hj => hplain j (.tail _ hj))
        ((List.prefix_append_right_inj _).1 hs)
      refine ⟨t, ht, ?_⟩
      have hdiv : (j.frame ++ rest).length / 5 = rest.length / 5 + 1 := by
        rw [List.length_append, hfive]
        omega
      rw [hdiv, List.take_succ_cons, List.map_cons, List.flatten_cons, List.append_assoc, ← heq]

theorem records_of_frames {js : List Joystick} {s : List UInt8} (hplain : ∀ j ∈ js, j.Plain)
    (hs : s <+: js.flatMap Joystick.frame) :
    (records newline s).1 = (js.take (s.length / 5)).map Joystick.frame := by
  obtain ⟨t, ht, heq⟩ := frames_of_prefix hplain hs
  have hframes : ∀ r ∈ (js.take (s.length / 5)).map Joystick.frame,
      ∃ body, newline ∉ body ∧ r = body ++ [newline] := by
    intro r hr
    obtain ⟨j, hj, rfl⟩ := List.mem_map.1 hr
    obtain ⟨body, hbody, -, hframe⟩ := frame_record (hplain j (List.mem_of_mem_take hj))
    exact ⟨body, hbody, hframe⟩
  conv_lhs => rw [heq]
  rw [records_flatten hframes ht]

/-- Where the joystick was last, and what that asks for. -/
def lastSteering (js : List Joystick) : MotorState × MotorState :=
  js.getLast?.elim (.stop, .stop) fun j => steering j.x j.y

theorem driven_frames (js : List Joystick) : driven (js.map Joystick.frame) = lastSteering js := by
  rcases List.eq_nil_or_concat js with rfl | ⟨js, j, rfl⟩
  · rfl
  · rw [List.concat_eq_append, List.map_append, driven, List.foldl_append, lastSteering,
      List.getLast?_append]
    show steering ((payload j.x).toNat - 128) ((payload j.y).toNat - 128) = steering j.x j.y
    rw [payload_toNat j.x_range, payload_toNat j.y_range, Int.add_sub_cancel, Int.add_sub_cancel]

/-- Of a joystick's frames the task has read the first, and has yet to read the others. -/
theorem reads_frames (h : Run RobotStep (Robot.start u uartBuffer behind g) as r)
    {js : List Joystick} (hplain : ∀ j ∈ js, j.Plain)
    (hframes : accepted (portRun as) <+: js.flatMap Joystick.frame) :
    WritesInside (portRun as) ∧
      results (portRun as) ++ pieces newline 99 (r.port.stored ++ r.port.queue) =
        (js.take ((accepted (portRun as)).length / 5)).map Joystick.frame := by
  have hport := run_port h
  have hcalls := portRun_calls h
  have hrecords := records_of_frames hplain hframes
  have hfive : ∀ l ∈ (records newline (accepted (portRun as))).1, l.length = 5 := by
    intro l hl
    rw [hrecords] at hl
    obtain ⟨j, -, rfl⟩ := List.mem_map.1 hl
    rfl
  refine ⟨writesInside_of_records hport hcalls fun l hl => by rw [hfive l hl]; decide, ?_⟩
  rw [← hrecords]
  exact @reads_records _ _ _ 100 hport hcalls (by decide) fun l hl => by
    rw [hfive l hl]
    decide

theorem frames_le {js : List Joystick} {s : List UInt8} (hs : s <+: js.flatMap Joystick.frame) :
    s.length / 5 ≤ js.length := by
  have hlen := hs.length_le
  have hall : (js.flatMap Joystick.frame).length = 5 * js.length := by
    simp [List.length_flatMap, Joystick.frame, Nat.mul_comm, List.map_const']
  omega

/-- While what is accepted are the frames of a joystick, whatever the times at which the task runs,
the pins are what one of its positions so far asks for, and the last one's once the task has read
all that is there. -/
theorem robot_follows_joystick (h : Run RobotStep (Robot.start u uartBuffer behind g) as r)
    (hready : r.ready = true) {js : List Joystick} (hplain : ∀ j ∈ js, j.Plain)
    (hframes : accepted (portRun as) <+: js.flatMap Joystick.frame) :
    WritesInside (portRun as) ∧ ∃ k ≤ (accepted (portRun as)).length / 5,
      r.gpio.motorLevels = Prod.map MotorState.pins MotorState.pins (lastSteering (js.take k)) ∧
      (r.port.call = none → newline ∉ r.port.queue →
        k = (accepted (portRun as)).length / 5) := by
  obtain ⟨hinside, hreads⟩ := reads_frames h hplain hframes
  have hle := frames_le hframes
  set n := (accepted (portRun as)).length / 5 with hn
  refine ⟨hinside, ?_⟩
  -- the lines that were read are the first of the frames
  have hlen := congrArg List.length hreads
  rw [List.length_append, List.length_map, List.length_take, Nat.min_eq_left hle] at hlen
  have hk : (results (portRun as)).length ≤ n := by omega
  have hres : results (portRun as) =
      (js.take (results (portRun as)).length).map Joystick.frame := by
    rw [← Nat.min_eq_left hk, ← List.take_take, List.map_take, ← hreads]
    simp
  refine ⟨_, hk, ?_, fun hidle hempty => ?_⟩
  · rw [← driven_frames, ← hres]
    exact ((run_driven h).follows hready).motorLevels
  · rw [stored_none hidle, List.nil_append, pieces_of_notMem hempty, List.length_nil] at hlen
    exact hlen

theorem robot_follows_joystick_ahead : WritesInside (portRun driveAhead.1) ∧
    ∃ k ≤ (accepted (portRun driveAhead.1)).length / 5,
      driveAhead.2.gpio.motorLevels =
        Prod.map MotorState.pins MotorState.pins (lastSteering ([ahead].take k)) ∧
      (driveAhead.2.port.call = none → newline ∉ driveAhead.2.port.queue →
        k = (accepted (portRun driveAhead.1)).length / 5) :=
  have hplain : ∀ j ∈ [ahead], j.Plain :=
    List.forall_mem_singleton.2 ⟨⟨by decide, by decide⟩, ⟨by decide, by decide⟩⟩
  robot_follows_joystick driveAhead_run (by decide +kernel) hplain (by decide +kernel)

end BeagleKernel.Drivers
