import BeagleKernel.Drivers.Motor

/-!
# The interlock of the motors

A motor changes direction while its enable pin is low. A call lowers every enable pin first and
then sets up one motor after the other, so it matters that no two motors share a pin (`Wired`): a
write for one leaves the levels of the others (`startMotor_not_touches`).
-/

namespace BeagleKernel.Drivers

/-- Each write that touches one of `pins` finds the pin `en` low. -/
def Interlocked (base pins en : UInt32) : Gpio → List RegWrite → Prop
  | _, [] => True
  | g, w :: ws =>
    (w.touches base pins → g.level base en = false) ∧ Interlocked base pins en (g.write w) ws

section

variable {base pins en : UInt32} {g : Gpio} {xs ys : List RegWrite}

theorem interlocked_append : Interlocked base pins en g (xs ++ ys) ↔
    Interlocked base pins en g xs ∧ Interlocked base pins en (g.writeAll xs) ys := by
  induction xs generalizing g with
  | nil => simp [Interlocked]
  | cons w xs ih => simp only [List.cons_append, Interlocked, Gpio.writeAll_cons, ih, and_assoc]

theorem interlocked_of_not_touches (h : ∀ w ∈ xs, ¬ w.touches base pins) :
    Interlocked base pins en g xs := by
  induction xs generalizing g with
  | nil => trivial
  | cons w xs ih => exact ⟨fun hw => absurd hw (h w (.head _)), ih fun w' hw' => h w' (.tail _ hw')⟩

/-- Writes that leave a low enable pin alone may touch any others. -/
theorem interlocked_of_low (hlow : g.level base en = false)
    (h : ∀ w ∈ xs, ¬ w.touches base en) : Interlocked base pins en g xs := by
  induction xs generalizing g with
  | nil => trivial
  | cons w xs ih =>
    refine ⟨fun _ => hlow, ih ?_ fun w' hw' => h w' (.tail _ hw')⟩
    rw [Gpio.level_congr (Gpio.held_write_of_not_touches (h w (.head _))), hlow]

end

namespace Motor

/-- Each write to one of the motor's direction pins finds its enable pin low. -/
def Interlocked (m : Motor) (g : Gpio) (ws : List RegWrite) : Prop :=
  Drivers.Interlocked m.gpioBase (m.pin1 ||| m.pin2) m.enPin g ws

/-- The pins are as the state asks for. -/
structure Powered (m : Motor) (g : Gpio) : Prop where
  enabled : g.level m.gpioBase m.enPin = true ↔ m.state ≠ .stop
  levels : (g.level m.gpioBase m.pin1, g.level m.gpioBase m.pin2) = m.state.levels

/-- Three pins, no two the same. -/
structure Distinct (m : Motor) : Prop where
  pin1_ne : m.pin1 ≠ 0
  pin2_ne : m.pin2 ≠ 0
  en_ne : m.enPin ≠ 0
  pin1_pin2 : m.pin1 &&& m.pin2 = 0
  pin1_en : m.pin1 &&& m.enPin = 0
  pin2_en : m.pin2 &&& m.enPin = 0

theorem Distinct.en_dir {m : Motor} (h : m.Distinct) : m.enPin &&& (m.pin1 ||| m.pin2) = 0 :=
  and_or_eq_zero.2 ⟨and_eq_zero_comm.1 h.pin1_en, and_eq_zero_comm.1 h.pin2_en⟩

/-- No pin of one motor is the other's. -/
def Apart (m m' : Motor) : Prop := m.gpioBase = m'.gpioBase → m.pins &&& m'.pins = 0

end Motor

structure Wired (motors : Motors) : Prop where
  distinct : ∀ i < numMotors, (motors i).Distinct
  apart : ∀ i < numMotors, ∀ j < numMotors, i ≠ j → (motors i).Apart (motors j)

section

variable {m m' : Motor} {g : Gpio} {w : RegWrite} {ws : List RegWrite} {base : UInt32}

theorem touches_pins {p : UInt32} (hp : p = m.pin1 ∨ p = m.pin2 ∨ p = m.enPin ∨
    p = m.pin1 ||| m.pin2) (h : w.touches base p) : w.touches base m.pins := by
  refine ⟨h.1, fun hz => h.2 ?_⟩
  obtain ⟨hz, hen⟩ := and_or_eq_zero.1 hz
  rcases hp with rfl | rfl | rfl | rfl
  · exact (and_or_eq_zero.1 hz).1
  · exact (and_or_eq_zero.1 hz).2
  · exact hen
  · exact hz

theorem Motor.Powered.writeAll (h : m.Powered g)
    (hws : ∀ w ∈ ws, ¬ w.touches m.gpioBase m.pins) : m.Powered (g.writeAll ws) := by
  have hkeep : ∀ p, p = m.pin1 ∨ p = m.pin2 ∨ p = m.enPin ∨ p = m.pin1 ||| m.pin2 →
      (g.writeAll ws).level m.gpioBase p = g.level m.gpioBase p := fun p hp =>
    Gpio.level_congr <| Gpio.held_writeAll_of_not_touches fun w hw ht =>
      hws w hw (touches_pins hp ht)
  constructor
  · rw [hkeep _ (.inr (.inr (.inl rfl)))]
    exact h.enabled
  · rw [hkeep _ (.inl rfl), hkeep _ (.inr (.inl rfl))]
    exact h.levels

/-! ## One motor -/

theorem mem_startMotor (hw : w ∈ startMotor m) :
    w.base = m.gpioBase ∧ (w.value = m.pin1 ∨ w.value = m.pin2 ∨ w.value = m.enPin) := by
  unfold startMotor setPins at hw
  rcases hs : m.state <;> rw [hs] at hw <;>
    simp only [List.mem_append, List.mem_cons, List.not_mem_nil, or_false, ne_eq, reduceCtorEq,
      not_true_eq_false, not_false_eq_true, if_true, if_false] at hw
  · rcases hw with rfl | rfl
    · exact ⟨rfl, .inl rfl⟩
    · exact ⟨rfl, .inr (.inl rfl)⟩
  all_goals
    rcases hw with (rfl | rfl) | rfl
    · exact ⟨rfl, .inl rfl⟩
    · exact ⟨rfl, .inr (.inl rfl)⟩
    · exact ⟨rfl, .inr (.inr rfl)⟩

/-- A write of a pin of one motor leaves the pins of the other. -/
theorem not_touches_of_apart (ha : m.Apart m') (hb : w.base = m.gpioBase)
    (hv : w.value = m.pin1 ∨ w.value = m.pin2 ∨ w.value = m.enPin) :
    ¬ w.touches m'.gpioBase m'.pins := by
  rintro ⟨hb', hne⟩
  obtain ⟨h12, h3⟩ := and_or_eq_zero.1 (and_eq_zero_comm.1 (ha (hb.symm.trans hb')))
  obtain ⟨h1, h2⟩ := and_or_eq_zero.1 h12
  rw [UInt32.and_comm] at hne
  rcases hv with hv | hv | hv <;> rw [hv] at hne
  · exact hne h1
  · exact hne h2
  · exact hne h3

theorem startMotor_not_touches (ha : m.Apart m') : ∀ w ∈ startMotor m,
    ¬ w.touches m'.gpioBase m'.pins := fun _ hw =>
  not_touches_of_apart ha (mem_startMotor hw).1 (mem_startMotor hw).2

/-- The direction pins are set up while the enable pin is low; raising it does not touch them. -/
theorem startMotor_interlocked (hd : m.Distinct) (hlow : g.level m.gpioBase m.enPin = false) :
    m.Interlocked g (startMotor m) := by
  have hset : ∀ w ∈ setPins m, ¬ w.touches m.gpioBase m.enPin := by
    rintro w hw ⟨-, hne⟩
    unfold setPins at hw
    rcases hs : m.state <;> rw [hs] at hw <;>
      simp only [List.mem_cons, List.not_mem_nil, or_false] at hw <;> rcases hw with rfl | rfl
    all_goals first | exact hne hd.pin1_en | exact hne hd.pin2_en
  refine interlocked_append.2 ⟨interlocked_of_low hlow hset, interlocked_of_not_touches ?_⟩
  split_ifs
  · rw [List.forall_mem_singleton]
    exact fun ht => ht.2 hd.en_dir
  · exact fun _ hw => nomatch hw

theorem level_write_of_disjoint {p q : UInt32} (h : p &&& q = 0) :
    (g.write (gpioSet base p)).level base q = g.level base q ∧
      (g.write (gpioClear base p)).level base q = g.level base q := by
  constructor
  · exact Gpio.level_congr (Gpio.held_write_of_not_touches fun ht => ht.2 h)
  · exact Gpio.level_congr (Gpio.held_write_of_not_touches fun ht => ht.2 h)

theorem startMotor_powered (hd : m.Distinct) (hlow : g.level m.gpioBase m.enPin = false) :
    m.Powered (g.writeAll (startMotor m)) := by
  have h21 := and_eq_zero_comm.1 hd.pin1_pin2
  obtain ⟨hen1, hen2⟩ := and_or_eq_zero.1 hd.en_dir
  unfold startMotor setPins
  rcases hs : m.state
  all_goals
    constructor
    · simp [hs, level_write_of_disjoint hd.pin1_en, level_write_of_disjoint hd.pin2_en,
        Gpio.level_gpioSet hd.en_ne, hlow]
    · simp [hs, MotorState.levels, level_write_of_disjoint hen1, level_write_of_disjoint hen2,
        level_write_of_disjoint h21,
        Gpio.level_gpioSet hd.pin1_ne, Gpio.level_gpioSet hd.pin2_ne]

end

/-! ## The loops -/

section

variable {motors : Motors} {g : Gpio} {w : RegWrite} {i n : ℕ}

theorem mem_stopMotors (hw : w ∈ stopMotors motors n) :
    ∃ j < n, w = gpioClear (motors j).gpioBase (motors j).enPin := by
  induction n with
  | zero => nomatch hw
  | succ n ih =>
    rcases List.mem_append.1 hw with hw | hw
    · obtain ⟨j, hj, rfl⟩ := ih hw
      exact ⟨j, by omega, rfl⟩
    · exact ⟨n, by omega, List.mem_singleton.1 hw⟩

theorem stopMotors_interlocked (hw : Wired motors) (hn : n ≤ numMotors) (hi : i < numMotors) :
    (motors i).Interlocked g (stopMotors motors n) := by
  refine interlocked_of_not_touches fun w hmem ht => ?_
  obtain ⟨j, hj, rfl⟩ := mem_stopMotors hmem
  rcases eq_or_ne j i with rfl | hne
  · exact ht.2 (hw.distinct j hi).en_dir
  · exact not_touches_of_apart (hw.apart j (by omega) i hi hne) rfl (.inr (.inr rfl))
      (touches_pins (.inr (.inr (.inr rfl))) ht)

theorem stopMotors_low (hw : Wired motors) (hn : n ≤ numMotors) (hi : i < n) :
    (g.writeAll (stopMotors motors n)).level (motors i).gpioBase (motors i).enPin = false := by
  induction n with
  | zero => omega
  | succ n ih =>
    rw [stopMotors, Gpio.writeAll_append, Gpio.writeAll_cons, Gpio.writeAll_nil]
    rcases eq_or_ne n i with rfl | hne
    · exact Gpio.level_gpioClear
    · have ha := hw.apart n (by omega) i (by omega) hne
      rw [Gpio.level_congr (Gpio.held_write_of_not_touches fun ht =>
        not_touches_of_apart ha rfl (.inr (.inr rfl)) (touches_pins (.inr (.inr (.inl rfl))) ht))]
      exact ih (by omega) (by omega)

theorem startMotors_not_touches (hw : Wired motors) (hn : n ≤ i) (hi : i < numMotors) :
    ∀ w ∈ startMotors motors n, ¬ w.touches (motors i).gpioBase (motors i).pins := by
  induction n with
  | zero => exact fun _ h => nomatch h
  | succ n ih =>
    intro w hmem
    rcases List.mem_append.1 hmem with h | h
    · exact ih (by omega) w h
    · exact startMotor_not_touches (hw.apart n (by omega) i hi (by omega)) w h

/-- The rounds before a motor's own leave its enable pin low. -/
theorem startMotors_low (hw : Wired motors) (hi : i < numMotors)
    (hlow : g.level (motors i).gpioBase (motors i).enPin = false) :
    (g.writeAll (startMotors motors i)).level (motors i).gpioBase (motors i).enPin = false := by
  rw [Gpio.level_congr (Gpio.held_writeAll_of_not_touches fun w hmem ht =>
    startMotors_not_touches hw le_rfl hi w hmem (touches_pins (.inr (.inr (.inl rfl))) ht)), hlow]

theorem startMotors_interlocked (hw : Wired motors) (hn : n ≤ numMotors) (hi : i < numMotors)
    (hlow : g.level (motors i).gpioBase (motors i).enPin = false) :
    (motors i).Interlocked g (startMotors motors n) := by
  induction n with
  | zero => trivial
  | succ n ih =>
    refine interlocked_append.2 ⟨ih (by omega), ?_⟩
    rcases eq_or_ne n i with rfl | hne
    · exact startMotor_interlocked (hw.distinct n hi) (startMotors_low hw hi hlow)
    · exact interlocked_of_not_touches fun w hmem ht =>
        startMotor_not_touches (hw.apart n (by omega) i hi hne) w hmem
          (touches_pins (.inr (.inr (.inr rfl))) ht)

theorem startMotors_powered (hw : Wired motors) (hn : n ≤ numMotors) (hi : i < n)
    (hlow : g.level (motors i).gpioBase (motors i).enPin = false) :
    (motors i).Powered (g.writeAll (startMotors motors n)) := by
  induction n with
  | zero => omega
  | succ n ih =>
    rw [startMotors, Gpio.writeAll_append]
    rcases eq_or_ne n i with rfl | hne
    · exact startMotor_powered (hw.distinct n (by omega)) (startMotors_low hw (by omega) hlow)
    · exact (ih (by omega) (by omega)).writeAll
        (startMotor_not_touches (hw.apart n (by omega) i (by omega) hne))

end

/-! ## The calls -/

section

variable {motors : Motors}

theorem setState_apply (motors : Motors) (j : ℕ) (state : MotorState) (i : ℕ) :
    ∃ s, setState motors j state i = { motors i with state := s } := by
  unfold setState
  rcases eq_or_ne i j with rfl | hne
  · exact ⟨state, by rw [Function.update_self]⟩
  · exact ⟨(motors i).state, by rw [Function.update_of_ne hne]⟩

/-- A table that differs from another in the states only. -/
def SameWires (motors motors' : Motors) : Prop :=
  ∀ i, ∃ s, motors' i = { motors i with state := s }

theorem SameWires.refl (motors : Motors) : SameWires motors motors := fun i =>
  ⟨(motors i).state, rfl⟩

theorem SameWires.setState {motors' : Motors} (h : SameWires motors motors') (j : ℕ)
    (state : MotorState) : SameWires motors (setState motors' j state) := by
  intro i
  obtain ⟨s, hs⟩ := setState_apply motors' j state i
  obtain ⟨s', hs'⟩ := h i
  exact ⟨s, by rw [hs, hs']⟩

theorem sameWires_motorsSetDir (motors : Motors) (dirs : UInt32) :
    SameWires motors (motorsSetDir motors dirs) := by
  unfold motorsSetDir
  split_ifs <;> repeat' apply SameWires.setState
  all_goals exact .refl motors

theorem SameWires.wired {motors' : Motors} (h : SameWires motors motors') (hw : Wired motors) :
    Wired motors' := by
  constructor
  · intro i hi
    obtain ⟨s, hs⟩ := h i
    obtain ⟨h1, h2, h3, h4, h5, h6⟩ := hw.distinct i hi
    rw [hs]
    exact ⟨h1, h2, h3, h4, h5, h6⟩
  · intro i hi j hj hne
    obtain ⟨s, hs⟩ := h i
    obtain ⟨s', hs'⟩ := h j
    rw [hs, hs']
    exact hw.apart i hi j hj hne

theorem SameWires.interlocked {motors' : Motors} (h : SameWires motors motors') {i : ℕ} {g : Gpio}
    {ws : List RegWrite} : (motors' i).Interlocked g ws ↔ (motors i).Interlocked g ws := by
  obtain ⟨s, hs⟩ := h i
  rw [hs]
  exact Iff.rfl

theorem sameWires_motorIoctl (motors : Motors) (cmd : Int32) (value : UInt32) :
    SameWires motors (motorIoctl motors cmd value).2.1 := by
  unfold motorIoctl
  split_ifs
  · exact sameWires_motorsSetDir motors value
  · exact .refl motors
  · exact .refl motors

theorem motorIoctl_step (hw : Wired motors) (g : Gpio) (cmd : Int32) (value : UInt32) {i : ℕ}
    (hi : i < numMotors) :
    (motors i).Interlocked g (motorIoctl motors cmd value).2.2 ∧
      ((motorIoctl motors cmd value).2.1 i).Powered
        (g.writeAll (motorIoctl motors cmd value).2.2) := by
  have hsame := sameWires_motorIoctl motors cmd value
  have hw' := hsame.wired hw
  have hlow : (g.writeAll (motorsStop motors)).level
      ((motorIoctl motors cmd value).2.1 i).gpioBase
      ((motorIoctl motors cmd value).2.1 i).enPin = false := by
    obtain ⟨s, hs⟩ := hsame i
    rw [hs]
    exact stopMotors_low hw le_rfl hi
  constructor
  · refine interlocked_append.2 ⟨stopMotors_interlocked hw le_rfl hi, ?_⟩
    exact hsame.interlocked.1 (startMotors_interlocked hw' le_rfl hi hlow)
  · show Motor.Powered _ (g.writeAll (motorsStop motors ++ motorsStart _))
    rw [Gpio.writeAll_append]
    exact startMotors_powered hw' le_rfl hi hlow

theorem ioctlRun_interlocked (hw : Wired motors) (g : Gpio) (calls : List IoctlCall) {i : ℕ}
    (hi : i < numMotors) : (motors i).Interlocked g (ioctlRun motors calls).2 := by
  induction calls generalizing motors g with
  | nil => trivial
  | cons c cs ih =>
    have hsame := sameWires_motorIoctl motors c.cmd c.value
    refine interlocked_append.2 ⟨(motorIoctl_step hw g c.cmd c.value hi).1, ?_⟩
    exact hsame.interlocked.1 (ih (hsame.wired hw) _)

theorem ioctlRun_powered (hw : Wired motors) (g : Gpio) (calls : List IoctlCall) (c : IoctlCall)
    {i : ℕ} (hi : i < numMotors) :
    ((ioctlRun motors (calls ++ [c])).1 i).Powered
      (g.writeAll (ioctlRun motors (calls ++ [c])).2) := by
  induction calls generalizing motors g with
  | nil =>
    show Motor.Powered _ (g.writeAll (_ ++ []))
    rw [List.append_nil]
    exact (motorIoctl_step hw g c.cmd c.value hi).2
  | cons c' cs ih =>
    show Motor.Powered _ (g.writeAll (_ ++ _))
    rw [Gpio.writeAll_append]
    exact ih ((sameWires_motorIoctl motors c'.cmd c'.value).wired hw) _

theorem wired_motorInit (motors : Motors) (g : Gpio) : Wired (motorInit motors g).1 := by
  have hpins : ((motorInit motors g).1 left).pins &&& ((motorInit motors g).1 right).pins = 0 := by
    rw [motorInit_left, motorInit_right]
    exact (by decide : (leftMotorPin1 ||| leftMotorPin2 ||| leftMotorEn) &&&
      (rightMotorPin1 ||| rightMotorPin2 ||| rightMotorEn) = 0)
  constructor
  · intro i hi
    rcases eq_left_or_right hi with rfl | rfl
    · rw [motorInit_left]
      constructor <;> simp +decide only
    · rw [motorInit_right]
      constructor <;> simp +decide only
  · intro i hi j hj hne _
    rcases eq_left_or_right hi with rfl | rfl <;> rcases eq_left_or_right hj with rfl | rfl
    · exact absurd rfl hne
    · exact hpins
    · exact and_eq_zero_comm.1 hpins
    · exact absurd rfl hne

/-- Whatever is called after `motor_init`, no direction pin is written while its motor is enabled,
and each call leaves the pins as the states ask for. -/
theorem motors_interlocked (motors : Motors) (g : Gpio) (calls : List IoctlCall) :
    let start := motorInit motors g
    ∀ i < numMotors,
      (start.1 i).Interlocked (g.writeAll start.2) (ioctlRun start.1 calls).2 ∧
      ∀ before call after, calls = before ++ call :: after →
        ((ioctlRun start.1 (before ++ [call])).1 i).Powered
          ((g.writeAll start.2).writeAll (ioctlRun start.1 (before ++ [call])).2) := by
  intro start i hi
  have hw := wired_motorInit motors g
  exact ⟨ioctlRun_interlocked hw _ calls hi, fun before call _ _ =>
    ioctlRun_powered hw _ before call hi⟩

end

end BeagleKernel.Drivers
