import Mathlib.Data.Nat.Digits.Lemmas
import Mathlib.Data.UInt

/-!
# Numerals

The digits of a number, most significant first and as characters (`numeral`), and the reading of a
numeral with an optional minus sign (`parseNumeral`). What is written is read back
(`parseNumeral_numeral`, `parseNumeral_neg`), and does not begin with a zero unless it is one.
-/

namespace BeagleKernel.Numeral

/-- `'0'` to `'9'`, then `'a'` on. -/
def digitChar (d : ℕ) : UInt8 := UInt8.ofNat (if d < 10 then 0x30 + d else 0x61 + (d - 10))

/-- The digit a character stands for. -/
def digitVal (c : UInt8) : Option ℕ :=
  if 0x30 ≤ c ∧ c ≤ 0x39 then some (c.toNat - 0x30)
  else if 0x61 ≤ c ∧ c ≤ 0x66 then some (c.toNat - 0x61 + 10)
  else none

/-- The number the digits of a numeral stand for after `acc`. -/
def parseDigits (base : ℕ) : (acc : ℕ) → List UInt8 → Option ℕ
  | acc, [] => some acc
  | acc, c :: cs =>
    match digitVal c with
    | some d => if d < base then parseDigits base (base * acc + d) cs else none
    | none => none

/-- `'-'`. -/
abbrev minus : UInt8 := 0x2D

/-- A numeral has a digit, and may have a minus sign before it. -/
def parseNumeral (base : ℕ) : List UInt8 → Option ℤ
  | [] => none
  | c :: cs =>
    if c = minus then
      if cs = [] then none else (parseDigits base 0 cs).map fun n => -(n : ℤ)
    else (parseDigits base 0 (c :: cs)).map fun n => (n : ℤ)

/-- A numeral as it is written. -/
def numeral (base n : ℕ) : List UInt8 :=
  if n = 0 then [digitChar 0] else ((Nat.digits base n).map digitChar).reverse

theorem digitVal_digitChar : ∀ d < 16, digitVal (digitChar d) = some d := by decide

theorem digitChar_ne_minus : ∀ d < 16, digitChar d ≠ minus := by decide

theorem digitChar_inj_zero : ∀ d < 16, digitChar d = digitChar 0 → d = 0 := by decide

variable {base n : ℕ}

theorem parseDigits_append : ∀ {cs cs' : List UInt8} {acc : ℕ}, parseDigits base acc (cs ++ cs') =
    (parseDigits base acc cs).bind fun n => parseDigits base n cs'
  | [], _, _ => rfl
  | c :: cs, cs', acc => by
    rw [List.cons_append, parseDigits, parseDigits]
    rcases digitVal c with _ | d
    · rfl
    · by_cases hd : d < base
      · simp only [if_pos hd, parseDigits_append]
      · simp only [if_neg hd, Option.bind_none]

/-- Digits least significant first, written in reverse. -/
theorem parseDigits_reverse (hbase : base ≤ 16) : ∀ {ds : List ℕ}, (∀ d ∈ ds, d < base) →
    parseDigits base 0 (ds.map digitChar).reverse = some (Nat.ofDigits base ds)
  | [], _ => rfl
  | d :: ds, h => by
    have hd : d < base := h d List.mem_cons_self
    rw [List.map_cons, List.reverse_cons, parseDigits_append,
      parseDigits_reverse hbase fun d hd => h d (List.mem_cons_of_mem _ hd), Option.bind_some,
      parseDigits, digitVal_digitChar d (by omega)]
    simp only [if_pos hd, parseDigits]
    rw [Nat.ofDigits_cons, Nat.add_comm]

theorem parseDigits_numeral (h2 : 2 ≤ base) (hbase : base ≤ 16) (n : ℕ) :
    parseDigits base 0 (numeral base n) = some n := by
  by_cases h0 : n = 0
  · subst h0
    rw [numeral, if_pos rfl, parseDigits, digitVal_digitChar 0 (by decide)]
    simp only [if_pos (show 0 < base by omega), parseDigits, Nat.mul_zero]
  · rw [numeral, if_neg h0, parseDigits_reverse hbase fun d => Nat.digits_lt_base h2,
      Nat.ofDigits_digits]

theorem numeral_eq_cons (h2 : 2 ≤ base) (hbase : base ≤ 16) (n : ℕ) :
    ∃ d cs, numeral base n = digitChar d :: cs ∧ d < 16 ∧ (d = 0 → n = 0 ∧ cs = []) := by
  by_cases h0 : n = 0
  · exact ⟨0, [], by rw [numeral, if_pos h0], by decide, fun _ => ⟨h0, rfl⟩⟩
  · have hne : Nat.digits base n ≠ [] := Nat.digits_ne_nil_iff_ne_zero.2 h0
    refine ⟨(Nat.digits base n).getLast hne, ((Nat.digits base n).dropLast.map digitChar).reverse,
      ?_, ?_, fun hd => absurd hd (Nat.getLast_digit_ne_zero base h0)⟩
    · rw [numeral, if_neg h0]
      conv_lhs => rw [← List.dropLast_append_getLast hne]
      simp
    · have := Nat.digits_lt_base h2 (List.getLast_mem hne)
      omega

theorem parseNumeral_numeral (h2 : 2 ≤ base) (hbase : base ≤ 16) (n : ℕ) :
    parseNumeral base (numeral base n) = some (n : ℤ) := by
  obtain ⟨d, cs, hcs, hd, -⟩ := numeral_eq_cons h2 hbase n
  have hparse := parseDigits_numeral h2 hbase n
  rw [hcs] at hparse ⊢
  rw [parseNumeral, if_neg (digitChar_ne_minus d hd), hparse]
  rfl

theorem parseNumeral_neg (h2 : 2 ≤ base) (hbase : base ≤ 16) (n : ℕ) :
    parseNumeral base (minus :: numeral base n) = some (-(n : ℤ)) := by
  obtain ⟨d, cs, hcs, -, -⟩ := numeral_eq_cons h2 hbase n
  rw [parseNumeral, if_pos rfl, if_neg (by rw [hcs]; simp), parseDigits_numeral h2 hbase]
  rfl

end BeagleKernel.Numeral
