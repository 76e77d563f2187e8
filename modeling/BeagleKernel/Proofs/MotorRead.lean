import BeagleKernel.Proofs.Motor

/-!
# Reading back a motor

`motor_write` sets the pins of a motor as asked, but `motor_read` keeps what it finds in a
variable of its own, and both let the index past the end of the table through. So a read after a
write stores the direction exactly where the buffer held it before (`readsBack_iff`).
-/

namespace BeagleKernel.Drivers

/-- 1, -1 or 0. -/
def sign (v : Int32) : Int32 := if v > 0 then 1 else if v < 0 then -1 else 0

/-- A write of `v` to a motor and a read of it return 0, the read stores the sign of `v`, and the
pins of the other motor stay as they are. For a number that is no motor's both return -1 and touch
nothing. -/
def ReadsBack (wide : Int32 → UInt32 → Int32) (motors : Motors) (g : Gpio)
    (motorNum v buf : Int32) : Prop :=
  let written := motorWrite motors motorNum v
  let g' := g.writeAll written.2
  if 0 ≤ motorNum ∧ motorNum < 2 then
    written.1 = 0 ∧ motorRead wide motors g' motorNum buf = (0, sign v) ∧
      ∀ i < numMotors, i ≠ motorNum.toNatClampNeg →
        g'.held (motors i).gpioBase (motors i).pins = g.held (motors i).gpioBase (motors i).pins
  else written = (-1, []) ∧ motorRead wide motors g' motorNum buf = (-1, buf)

section

variable {wide : Int32 → UInt32 → Int32} {motors : Motors} {g : Gpio} {motorNum v buf : Int32}

theorem motorWrite_of_out (h : motorNum < 0 ∨ motorNum > 2) :
    motorWrite motors motorNum v = (-1, []) :=
  if_pos h

theorem motorWrite_fst (h : ¬ (motorNum < 0 ∨ motorNum > 2)) :
    (motorWrite motors motorNum v).1 = 0 := by
  rw [motorWrite, if_neg h]
  split_ifs <;> rfl

theorem mem_motorWrite {w : RegWrite} (hw : w ∈ (motorWrite motors motorNum v).2) :
    w.base = (motors motorNum.toNatClampNeg).gpioBase ∧
      (w.value = (motors motorNum.toNatClampNeg).pin1 ∨
        w.value = (motors motorNum.toNatClampNeg).pin2) := by
  unfold motorWrite at hw
  split_ifs at hw
  · nomatch hw
  all_goals
    simp only [List.mem_cons, List.not_mem_nil, or_false] at hw
    rcases hw with rfl | rfl
    · exact ⟨rfl, .inl rfl⟩
    · exact ⟨rfl, .inr rfl⟩

theorem motorWrite_frame (hw : Wired motors) (hm : motorNum.toNatClampNeg < numMotors) {i : ℕ}
    (hi : i < numMotors) (hne : i ≠ motorNum.toNatClampNeg) :
    (g.writeAll (motorWrite motors motorNum v).2).held (motors i).gpioBase (motors i).pins =
      g.held (motors i).gpioBase (motors i).pins := by
  refine Gpio.held_writeAll_of_not_touches fun w hmem => ?_
  obtain ⟨hb, hv⟩ := mem_motorWrite hmem
  exact not_touches_of_apart (hw.apart _ hm i hi hne.symm) hb (hv.imp_right .inl)

/-- The pins a write leaves, by the sign of what is written. -/
theorem motorWrite_levels (hd : (motors motorNum.toNatClampNeg).Distinct)
    (h : ¬ (motorNum < 0 ∨ motorNum > 2)) :
    let motor := motors motorNum.toNatClampNeg
    let g' := g.writeAll (motorWrite motors motorNum v).2
    (g'.level motor.gpioBase motor.pin1, g'.level motor.gpioBase motor.pin2) =
      (decide (v > 0), decide (v < 0)) := by
  have h21 := and_eq_zero_comm.1 hd.pin1_pin2
  rw [motorWrite, if_neg h]
  split_ifs with h0 hpos
  · subst h0
    simp [level_write_of_disjoint h21]
  · have hneg : ¬ v < 0 := Int32.not_lt.2 (Int32.le_of_lt hpos)
    simp [level_write_of_disjoint h21, Gpio.level_gpioSet hd.pin1_ne, hpos, hneg]
  · have hneg : v < 0 := Int32.lt_of_le_of_ne (Int32.not_lt.1 hpos) h0
    simp [level_write_of_disjoint h21, Gpio.level_gpioSet hd.pin2_ne, hpos, hneg]

/-- What `motor_read` would make of these pins has the other sign. -/
theorem readDirection_levels (v buf : Int32) :
    readDirection (if v > 0 then 1 else 0) (if v < 0 then 1 else 0) buf = - sign v := by
  unfold sign
  by_cases hpos : v > 0
  · have hneg : ¬ v < 0 := Int32.not_lt.2 (Int32.le_of_lt hpos)
    rw [if_pos hpos, if_neg hneg, if_pos hpos]
    rfl
  · rw [if_neg hpos, if_neg hpos]
    by_cases hneg : v < 0
    · rw [if_pos hneg, if_pos hneg]
      rfl
    · rw [if_neg hneg, if_neg hneg]
      rfl

theorem motorRead_eq : motorRead wide motors g motorNum buf =
    if motorNum < 0 ∨ motorNum > 2 then (-1, buf) else (0, buf) := rfl

/-- No state of the pins and no shift matters: the buffer stays as it was. -/
theorem readsBack_iff (wide : Int32 → UInt32 → Int32) (motors : Motors) (init g : Gpio)
    (motorNum v buf : Int32) :
    ReadsBack wide (motorInit motors init).1 g motorNum v buf ↔
      motorNum < 0 ∨ motorNum > 2 ∨ motorNum < 2 ∧ buf = sign v := by
  have hwired := wired_motorInit motors init
  have h0 : (0 : Int32).toInt = 0 := rfl
  have h2 : (2 : Int32).toInt = 2 := rfl
  simp only [ReadsBack, motorRead_eq]
  by_cases hout : motorNum < 0 ∨ motorNum > 2
  · have hno : ¬ (0 ≤ motorNum ∧ motorNum < 2) := by
      simp only [Int32.lt_iff_toInt_lt, Int32.le_iff_toInt_le, gt_iff_lt] at hout ⊢
      omega
    rw [if_neg hno, if_pos hout, motorWrite_of_out hout]
    exact iff_of_true ⟨rfl, rfl⟩ (hout.elim .inl fun h => .inr (.inl h))
  rw [if_neg hout]
  by_cases hin : 0 ≤ motorNum ∧ motorNum < 2
  · have hm : motorNum.toNatClampNeg < numMotors := by
      have hlt := Int32.lt_iff_toInt_lt.1 hin.2
      show motorNum.toInt.toNat < 2
      omega
    rw [if_pos hin]
    constructor
    · rintro ⟨-, hread, -⟩
      exact .inr (.inr ⟨hin.2, (Prod.mk.inj hread).2⟩)
    · rintro (h | h | ⟨-, rfl⟩)
      · exact absurd (.inl h) hout
      · exact absurd (.inr h) hout
      · exact ⟨motorWrite_fst hout, rfl, fun i hi hne => motorWrite_frame hwired hm hi hne⟩
  · -- The number is that of the entry behind the table, and both take it for a motor.
    rw [if_neg hin]
    refine iff_of_false (fun h => ?_) ?_
    · exact absurd ((motorWrite_fst hout).symm.trans (congrArg Prod.fst h.1)) (by decide)
    · rintro (h | h | ⟨h, -⟩)
      · exact hout (.inl h)
      · exact hout (.inr h)
      · exact hin ⟨Int32.not_lt.1 fun h => hout (.inl h), h⟩

/-- Of a motor set forward from a buffer of 0, a read leaves 0. -/
theorem not_readsBack_forward :
    ¬ ReadsBack (fun _ _ => 0)
      (motorInit (fun _ => ⟨0, 0, 0, 0, 0, .stop⟩) ⟨fun _ => 0, fun _ => 0, fun _ => 0⟩).1
      ⟨fun _ => 0, fun _ => 0, fun _ => 0⟩ 1 5 0 := by
  rintro ⟨-, h, -⟩
  exact absurd (Prod.mk.inj h).2 (by decide)

end

end BeagleKernel.Drivers
