import Mathlib.Data.Int.Notation
import Mathlib.Algebra.Ring.Nat
import Mathlib.Tactic.Common

/-!
# Machine words as numbers

`uint32_t` and `int` values as naturals and integers: the operations that do not wrap, and the
conversions between the two that keep the value.
-/

namespace BeagleKernel

theorem UInt32.toNat_add_of_lt {a b : UInt32} (h : a.toNat + b.toNat < 2 ^ 32) :
    (a + b).toNat = a.toNat + b.toNat := by
  rw [UInt32.toNat_add]
  exact Nat.mod_eq_of_lt h

theorem UInt32.toNat_mul_of_lt {a b : UInt32} (h : a.toNat * b.toNat < 2 ^ 32) :
    (a * b).toNat = a.toNat * b.toNat := by
  rw [UInt32.toNat_mul]
  exact Nat.mod_eq_of_lt h

theorem UInt32.toNat_sub_of_toNat_le {a b : UInt32} (h : b.toNat ≤ a.toNat) :
    (a - b).toNat = a.toNat - b.toNat :=
  UInt32.toNat_sub_of_le a b (UInt32.le_iff_toNat_le.2 h)

theorem UInt32.toNat_ofNat_lt {n : ℕ} (h : n < 2 ^ 32) : (UInt32.ofNat n).toNat = n :=
  UInt32.toNat_ofNat_of_lt h

theorem UInt32.ne_zero_iff {a : UInt32} : a ≠ 0 ↔ 0 < a.toNat := by
  rw [Ne, ← UInt32.toNat_inj, Nat.pos_iff_ne_zero]
  rfl

theorem UInt32.min_toNat (a b : UInt32) : (if a < b then a else b).toNat = min a.toNat b.toNat := by
  rw [Nat.min_def]
  split_ifs with h1 h2 h2 <;> rw [UInt32.lt_iff_toNat_lt] at h1 <;> omega

theorem UInt32.toInt_toInt32 {a : UInt32} (h : a.toNat < 2 ^ 31) :
    a.toInt32.toInt = a.toNat := by
  show a.toBitVec.toInt = a.toBitVec.toNat
  have ha : a.toBitVec.toNat < 2 ^ 31 := h
  rw [BitVec.toInt_eq_toNat_cond]
  split <;> omega

theorem UInt32.toInt32_nonneg {a : UInt32} : 0 ≤ a.toInt32 ↔ a.toNat < 2 ^ 31 := by
  rw [Int32.le_iff_toInt_le]
  show (0 : ℤ) ≤ a.toBitVec.toInt ↔ a.toBitVec.toNat < 2 ^ 31
  rw [BitVec.toInt_eq_toNat_cond]
  have := a.toBitVec.isLt
  split <;> omega

theorem Int32.toNat_toUInt32 {a : Int32} (h : 0 ≤ a) : (a.toUInt32.toNat : ℤ) = a.toInt := by
  rw [Int32.le_iff_toInt_le] at h
  have h' : (0 : ℤ) ≤ a.toBitVec.toInt := h
  show (a.toBitVec.toNat : ℤ) = a.toBitVec.toInt
  rw [BitVec.toInt_eq_toNat_cond] at h' ⊢
  have := a.toBitVec.isLt
  split at h'
  · rw [if_pos ‹_›]
  · omega

theorem Int32.toUInt32_lt {a : Int32} (h : 0 ≤ a) : a.toUInt32.toNat < 2 ^ 31 := by
  have := Int32.toNat_toUInt32 h
  have hlt := a.toInt_lt
  omega

theorem Int32.toUInt32_eq_zero {a : Int32} : a.toUInt32 = 0 ↔ a = 0 := by
  constructor
  · intro h
    have := congrArg UInt32.toInt32 h
    simpa using this
  · rintro rfl
    rfl

theorem UInt32.or_and_distrib (a b c : UInt32) : (a ||| b) &&& c = a &&& c ||| b &&& c :=
  UInt32.toBitVec_inj.1 BitVec.and_or_distrib_right

/-- A step that stays below the next multiple of `n`. -/
theorem Nat.add_div_mod_of_lt {o j n : ℕ} (h : o % n + j < n) :
    (o + j) / n = o / n ∧ (o + j) % n = o % n + j := by
  have hdm := Nat.div_add_mod o n
  have heq : o + j = o % n + j + n * (o / n) := by omega
  constructor
  · rw [heq, Nat.add_mul_div_left _ _ (by omega), Nat.div_eq_of_lt h, Nat.zero_add]
  · rw [heq, Nat.add_mul_mod_self_left, Nat.mod_eq_of_lt h]

theorem Nat.or_shiftLeft_of_lt {x b k : ℕ} (hx : x < 2 ^ k) : x ||| b <<< k = x + b * 2 ^ k := by
  rw [Nat.or_comm, Nat.shiftLeft_eq, Nat.mul_comm, ← Nat.two_pow_add_eq_or_of_lt hx, Nat.add_comm]

theorem UInt32.toNat_or_shiftLeft {x k : UInt32} {b : UInt8} (hk : k.toNat ≤ 24)
    (hx : x.toNat < 2 ^ k.toNat) :
    (x ||| b.toUInt32 <<< k).toNat = x.toNat + b.toNat * 2 ^ k.toNat := by
  have hb := b.toNat_lt
  have hlt : b.toNat * 2 ^ k.toNat < 2 ^ 32 :=
    calc b.toNat * 2 ^ k.toNat < 2 ^ 8 * 2 ^ k.toNat :=
          Nat.mul_lt_mul_of_pos_right hb (Nat.two_pow_pos _)
      _ = 2 ^ (8 + k.toNat) := (Nat.pow_add 2 8 _).symm
      _ ≤ 2 ^ 32 := Nat.pow_le_pow_right (by decide) (by omega)
  rw [UInt32.toNat_or, UInt32.toNat_shiftLeft, UInt8.toNat_toUInt32,
    Nat.mod_eq_of_lt (show k.toNat < 32 by omega), Nat.mod_eq_of_lt (by rwa [Nat.shiftLeft_eq]),
    Nat.or_shiftLeft_of_lt hx]

theorem UInt16.toNat_or_shiftLeft {x : UInt16} {b : UInt8} (hx : x.toNat < 2 ^ 8) :
    (x ||| b.toUInt16 <<< 8).toNat = x.toNat + b.toNat * 2 ^ 8 := by
  have hb := b.toNat_lt
  rw [UInt16.toNat_or, UInt16.toNat_shiftLeft, UInt8.toNat_toUInt16,
    show (8 : UInt16).toNat % 16 = 8 from rfl, Nat.mod_eq_of_lt (by rw [Nat.shiftLeft_eq]; omega),
    Nat.or_shiftLeft_of_lt hx]

theorem Nat.and_shiftLeft_mask {x k m : ℕ} (hx : x < 2 ^ (k + m)) :
    x &&& (2 ^ m - 1) <<< k = x / 2 ^ k * 2 ^ k := by
  rw [← Nat.shiftRight_eq_div_pow, ← Nat.shiftLeft_eq]
  refine Nat.eq_of_testBit_eq fun i => ?_
  simp only [Nat.testBit_and, Nat.testBit_shiftLeft, Nat.testBit_two_pow_sub_one,
    Nat.testBit_shiftRight]
  rcases Nat.lt_or_ge i k with hi | hi
  · simp [Nat.not_le.2 hi]
  · rw [Nat.add_sub_cancel' hi]
    rcases Nat.lt_or_ge i (k + m) with him | him
    · simp [hi, show i - k < m by omega]
    · have : x.testBit i = false :=
        Nat.testBit_lt_two_pow (Nat.lt_of_lt_of_le hx (Nat.pow_le_pow_right (by decide) him))
      simp [this]

theorem UInt16.toNat_next {t : UInt16} (h : t.toNat < 512) :
    ((t + 1) % 512).toNat = (t.toNat + 1) % 512 := by
  rw [UInt16.toNat_mod, UInt16.toNat_add]
  have h1 : (1 : UInt16).toNat = 1 := rfl
  have h512 : (512 : UInt16).toNat = 512 := rfl
  rw [h1, h512, Nat.mod_eq_of_lt (show t.toNat + 1 < 2 ^ 16 by omega)]

theorem UInt16.toNat_succ {n : UInt16} (h : n.toNat < 512) : (n + 1).toNat = n.toNat + 1 := by
  have h1 : (1 : UInt16).toNat = 1 := rfl
  rw [UInt16.toNat_add, h1, Nat.mod_eq_of_lt (by omega)]

theorem UInt16.toNat_pred {n : UInt16} (h : 0 < n.toNat) : (n - 1).toNat = n.toNat - 1 := by
  have h1 : (1 : UInt16).toNat = 1 := rfl
  rw [UInt16.toNat_sub_of_le _ _ (UInt16.le_iff_toNat_le.2 (by rw [h1]; exact h)), h1]

end BeagleKernel
