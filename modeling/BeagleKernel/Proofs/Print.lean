import BeagleKernel.Lib.Numeral
import BeagleKernel.Lib.Reverse
import BeagleKernel.Proofs.Readline
import BeagleKernel.Uart.Print

/-!
# The numbers `print_number` prints

The first loop stores the digits from the last on (`digitLoop_eq`), a minus sign may follow, and the
reversal puts all of it in order. Eleven characters at most and the NUL are inside the buffer.
-/

namespace BeagleKernel.Uart

open Numeral

/-- The bytes transmitted for a character. -/
def transmitted (c : UInt8) : List UInt8 := if c = newline then [carriageReturn, c] else [c]

theorem uartPutc_eq (c : UInt8) : uartPutc c = ⟨.ok (), (transmitted c).map .transmit⟩ := by
  rw [uartPutc, transmitted]
  split_ifs
  · rfl
  · rfl

theorem uartPuts_eq {str : ℕ → UInt8} : ∀ {s : List UInt8} {room i : ℕ}, HoldsAt str i (s ++ [0]) →
    0 ∉ s → s.length < room →
    uartPuts str room i = ⟨.ok (), (s.flatMap transmitted).map .transmit⟩
  | [], room + 1, i, h, _, _ => if_pos h.1
  | c :: s, room + 1, i, ⟨hc, h⟩, h0, hlen => by
    have hne : ¬ str i = 0 := fun h => h0 (by rw [← h, hc]; exact List.mem_cons_self)
    rw [uartPuts, if_neg hne, uartPutc_eq, Traced.bind_of_ok rfl,
      uartPuts_eq h (fun hs => h0 (List.mem_cons_of_mem c hs)) (by simpa using hlen), hc,
      List.flatMap_cons, List.map_append]

theorem lastDigit_eq {num base : UInt32} (hbase : base ≠ 0) (h16 : base.toNat ≤ 16) :
    lastDigit num base = pure (digitChar (num.toNat % base.toNat)) := by
  have hpos : 0 < base.toNat := Nat.pos_of_ne_zero fun h => hbase (UInt32.toNat_inj.1 h)
  have hlt : num.toNat % base.toNat < 16 := (Nat.mod_lt _ hpos).trans_le h16
  have hchars : ∀ d < 16, digitChars[d]? = some (digitChar d) := by decide
  rw [lastDigit, if_neg hbase, UInt32.toNat_mod, hchars _ hlt]

/-- The digits are stored in turn, the last first. -/
theorem digitLoop_eq {base : UInt32} (h2 : 2 ≤ base.toNat) (h16 : base.toNat ≤ 16) :
    ∀ {room ptr : ℕ} {t : UInt32} {buffer : ℕ → UInt8},
      (Nat.digits base.toNat t.toNat).length ≤ room →
      digitLoop base room ptr t buffer =
        pure (ptr + (Nat.digits base.toNat t.toNat).length,
          store buffer ptr ((Nat.digits base.toNat t.toNat).map digitChar)) := by
  have hbase : base ≠ 0 := by
    rintro rfl
    exact absurd h2 (by decide)
  intro room
  induction room with
  | zero =>
    intro ptr t buffer hlen
    have hnil := List.length_eq_zero_iff.1 (Nat.le_zero.1 hlen)
    have ht : t.toNat = 0 := Nat.digits_eq_nil_iff_eq_zero.1 hnil
    rw [digitLoop, if_neg (by rw [gt_iff_lt, UInt32.lt_iff_toNat_lt, ht]; exact Nat.lt_irrefl 0),
      hnil]
    rfl
  | succ room ih =>
    intro ptr t buffer hlen
    rw [digitLoop]
    by_cases ht : t > 0
    · have hpos : 0 < t.toNat := UInt32.lt_iff_toNat_lt.1 ht
      rw [Nat.digits_def' (by omega) hpos] at hlen ⊢
      rw [if_pos ht, lastDigit_eq hbase h16, Traced.pure_bind]
      rw [← UInt32.toNat_div] at hlen ⊢
      rw [ih (by simpa using hlen), List.map_cons, store, List.length_cons, Nat.add_assoc,
        Nat.add_comm 1]
    · have h0 : t.toNat = 0 := by
        rw [gt_iff_lt, UInt32.lt_iff_toNat_lt] at ht
        exact Nat.eq_zero_of_not_pos ht
      rw [if_neg ht, h0, Nat.digits_zero]
      rfl

theorem reverseLoop_eq : ∀ {ptr ptr1 : ℕ} {buffer : ℕ → UInt8}, ptr < numberBufferSize →
    reverseLoop ptr1 ptr buffer = pure (reverseBetween ptr1 ptr buffer)
  | 0, _, _, _ => rfl
  | ptr + 1, ptr1, buffer, h => by
    rw [reverseLoop, reverseBetween]
    split_ifs with hlt
    · rw [readAt, if_pos h, Traced.pure_bind, readAt, if_pos (by omega), Traced.pure_bind, writeAt,
        if_pos h, Traced.pure_bind, writeAt, if_pos (by omega), Traced.pure_bind,
        reverseLoop_eq (by omega)]
    · rfl

theorem holdsAt_store : ∀ {cs : List UInt8} {buffer : ℕ → UInt8} {i : ℕ},
    HoldsAt (store buffer i cs) i cs
  | [], _, _ => trivial
  | c :: cs, buffer, i => by
    rw [store]
    exact ⟨by rw [store_of_lt (Nat.lt_succ_self i), Function.update_self], holdsAt_store⟩

theorem flatMap_transmitted : ∀ {s : List UInt8}, (∀ c ∈ s, c ≠ 0 ∧ c ≠ newline) →
    s.flatMap transmitted = s
  | [], _ => rfl
  | c :: s, h => by
    rw [List.flatMap_cons, flatMap_transmitted fun d hd => h d (List.mem_cons_of_mem c hd),
      transmitted, if_neg (h c List.mem_cons_self).2]
    rfl

theorem printBuffer_eq {buffer : ℕ → UInt8} {s : List UInt8} (h : HoldsAt buffer 0 s)
    (hplain : ∀ c ∈ s, c ≠ 0 ∧ c ≠ newline) (hlen : s.length < 32) :
    (do
      let buffer ← writeAt buffer s.length 0
      let buffer ← reverseLoop 0 (s.length - 1) buffer
      uartPuts buffer numberBufferSize 0) =
      (⟨.ok (), s.reverse.map .transmit⟩ : PrintProg Unit) := by
  rw [writeAt, if_pos hlen, Traced.pure_bind, reverseLoop_eq (show _ < 32 by omega),
    Traced.pure_bind]
  have hs : HoldsAt (Function.update buffer s.length 0) 0 s := h.congr fun j _ hj => by
    rw [Function.update_of_ne (by omega)]
  have hrev := hs.reverseBetween
  have hplain' : ∀ c ∈ s.reverse, c ≠ 0 ∧ c ≠ newline := by simpa using hplain
  rw [Nat.zero_add] at hrev
  rw [uartPuts_eq (HoldsAt.append_iff.2 ⟨hrev, ?_, trivial⟩) (fun h0 => (hplain' 0 h0).1 rfl)
    (by simpa using hlen), flatMap_transmitted hplain']
  -- the NUL is past the last character, so the reversal leaves it
  rw [List.length_reverse, Nat.zero_add]
  rcases Nat.eq_zero_or_pos s.length with hnil | hpos
  · rw [hnil, reverseBetween_of_le le_rfl, Function.update_self]
  · rw [reverseBetween_of_outside (.inr (by omega)), Function.update_self]

section

variable {base n : ℕ}

theorem plain_numeral {c : UInt8} (h2 : 2 ≤ base) (hbase : base ≤ 16) (hc : c ∈ numeral base n) :
    c ≠ 0 ∧ c ≠ newline := by
  have hplain : ∀ d < 16, digitChar d ≠ 0 ∧ digitChar d ≠ newline := by decide
  rw [numeral] at hc
  split_ifs at hc
  · rw [List.mem_singleton.1 hc]
    exact hplain 0 (by decide)
  · obtain ⟨d, hd, rfl⟩ := List.mem_map.1 (List.mem_reverse.1 hc)
    exact hplain d ((Nat.digits_lt_base h2 hd).trans_le hbase)

theorem length_digits_le (h10 : 10 ≤ base) (t : UInt32) :
    (Nat.digits base t.toNat).length ≤ 10 := by
  rw [Nat.digits_length_le_iff (by omega)]
  calc t.toNat < 2 ^ 32 := t.toNat_lt
    _ ≤ 10 ^ 10 := by decide
    _ ≤ base ^ 10 := Nat.pow_le_pow_left h10 10

theorem holdsAt_push {buffer : ℕ → UInt8} {s : List UInt8} (h : HoldsAt buffer 0 s) (c : UInt8) :
    HoldsAt (Function.update buffer s.length c) 0 (s ++ [c]) := by
  refine HoldsAt.append_iff.2 ⟨h.congr fun j _ hj => ?_, ?_, trivial⟩
  · rw [Function.update_of_ne (by omega)]
  · rw [Nat.zero_add, Function.update_self]

/-- What `print_number` prints. -/
def printed (num : Int32) (base : UInt8) (isSigned : Bool) : List UInt8 :=
  if num < 0 && base == 10 && isSigned then minus :: numeral base.toNat (-num).toUInt32.toNat
  else numeral base.toNat num.toUInt32.toNat

theorem toNat_toUInt32 (num : Int32) : (num.toUInt32.toNat : ℤ) = num.toInt % 2 ^ 32 := by
  have hlt : num.toUInt32.toNat < 2 ^ 32 := num.toUInt32.toNat_lt
  show (num.toUInt32.toNat : ℤ) = num.toBitVec.toInt % ((2 ^ 32 : ℕ) : ℤ)
  rw [BitVec.toInt_eq_toNat_bmod, Int.bmod_emod]
  exact (Int.emod_eq_of_lt (Int.natCast_nonneg _) (by exact_mod_cast hlt)).symm

theorem toNat_neg {num : Int32} (h : num < 0) : ((-num).toUInt32.toNat : ℤ) = -num.toInt := by
  have hneg : num.toInt < 0 := Int32.lt_iff_toInt_lt.1 h
  have hle := Int32.le_toInt num
  rw [toNat_toUInt32, Int32.toInt_neg]
  show Int.bmod _ (2 ^ 32) % ((2 ^ 32 : ℕ) : ℤ) = _
  rw [Int.bmod_emod]
  exact Int.emod_eq_of_lt (by omega) (by omega)

theorem toNat_of_nonneg {num : Int32} (h : ¬ num < 0) : (num.toUInt32.toNat : ℤ) = num.toInt := by
  have hpos : ¬ num.toInt < 0 := fun h' => h (Int32.lt_iff_toInt_lt.2 h')
  have hlt := Int32.toInt_lt num
  rw [toNat_toUInt32]
  exact Int.emod_eq_of_lt (by omega) (by omega)

theorem toUInt32_ne_zero {num : Int32} (h : num ≠ 0) : num.toUInt32.toNat ≠ 0 := by
  intro h0
  have hmod := toNat_toUInt32 num
  have hle := Int32.le_toInt num
  have hlt := Int32.toInt_lt num
  exact h (Int32.toInt_inj.1 (show num.toInt = 0 by omega))

/-- The digits of a number that is not 0, as the first loop leaves them. -/
theorem digitLoop_holds {base : UInt8} (h10 : 10 ≤ base.toNat) (h16 : base.toNat ≤ 16)
    {t : UInt32} (ht : t.toNat ≠ 0) (prior : ℕ → UInt8) :
    ∃ (s : List UInt8) (buffer : ℕ → UInt8),
      digitLoop base.toUInt32 numberBufferSize 0 t prior = pure (s.length, buffer) ∧
        HoldsAt buffer 0 s ∧ s.reverse = numeral base.toNat t.toNat ∧ s.length ≤ 10 := by
  have hbase : base.toUInt32.toNat = base.toNat := UInt8.toNat_toUInt32 base
  have hlen := length_digits_le h10 t
  refine ⟨(Nat.digits base.toNat t.toNat).map digitChar,
    store prior 0 ((Nat.digits base.toNat t.toNat).map digitChar), ?_, holdsAt_store, ?_, ?_⟩
  · have hfits : (Nat.digits base.toUInt32.toNat t.toNat).length ≤ 32 := by
      rw [hbase]
      exact hlen.trans (by decide)
    rw [digitLoop_eq (by omega) (by omega) hfits, hbase, Nat.zero_add, List.length_map]
  · rw [numeral, if_neg ht]
  · rwa [List.length_map]

theorem printNumber_eq {num : Int32} {base : UInt8} (h10 : 10 ≤ base.toNat)
    (h16 : base.toNat ≤ 16) (isSigned : Bool) (prior : ℕ → UInt8) :
    printNumber num base isSigned prior =
      ⟨.ok (), (printed num base isSigned).map .transmit⟩ := by
  rw [printNumber, printed]
  by_cases h0 : num = 0
  · subst h0
    rw [if_pos rfl, uartPutc_eq]
    rfl
  rw [if_neg h0]
  -- the digits in the buffer are those of a numeral, in reverse
  have hdigits : ∀ {s : List UInt8} {n : ℕ}, s.reverse = numeral base.toNat n →
      ∀ c ∈ s, c ≠ 0 ∧ c ≠ newline := fun hs c hc =>
    plain_numeral (by omega) h16 (hs ▸ List.mem_reverse.2 hc)
  by_cases hneg : (num < 0 && base == 10 && isSigned) = true
  · have hlt : num < 0 := by
      simp only [Bool.and_eq_true, decide_eq_true_eq] at hneg
      exact hneg.1.1
    have ht : (-num).toUInt32.toNat ≠ 0 := by
      have habs := toNat_neg hlt
      have : num.toInt < 0 := Int32.lt_iff_toInt_lt.1 hlt
      omega
    obtain ⟨s, buffer, hloop, hs, hrev, hlen⟩ := digitLoop_holds h10 h16 ht prior
    have hminus : minusSign ≠ 0 ∧ minusSign ≠ newline := ⟨by decide, by decide⟩
    have hplain : ∀ c ∈ s ++ [minusSign], c ≠ 0 ∧ c ≠ newline :=
      List.forall_mem_append.2 ⟨hdigits hrev, List.forall_mem_singleton.2 hminus⟩
    have hlen' : (s ++ [minusSign]).length < 32 := by
      rw [List.length_append, List.length_singleton]
      omega
    have hprint := printBuffer_eq (holdsAt_push hs minusSign) hplain hlen'
    simp only [hneg, if_true, hloop, Traced.pure_bind]
    rw [writeAt, if_pos (show _ < 32 by omega), Traced.pure_bind]
    rw [List.length_append, List.reverse_append, hrev] at hprint
    exact hprint
  · obtain ⟨s, buffer, hloop, hs, hrev, hlen⟩ :=
      digitLoop_holds h10 h16 (toUInt32_ne_zero h0) prior
    have hprint := printBuffer_eq hs (hdigits hrev) (by omega)
    simp only [hneg, Bool.false_eq_true, if_false, hloop, Traced.pure_bind]
    rw [hrev] at hprint
    exact hprint

end

/-! ## The calls -/

namespace NumberCall

/-- The numeral of an argument: no leading zero, a minus sign before a negative number, and the
number it stands for. -/
structure Canonical (call : NumberCall) (w : UInt32) (s : List UInt8) : Prop where
  leading : s = [digitZero] ∨ ∀ t, s ≠ digitZero :: t ∧ s ≠ minusSign :: digitZero :: t
  sign : s.head? = some minusSign ↔ call = d ∧ w.toInt32 < 0
  parses : parseNumeral call.base.toNat s = some (call.value w)

variable {call : NumberCall} {w : UInt32}

theorem ten_le_base : ∀ call : NumberCall, 10 ≤ call.base.toNat
  | d => by decide
  | u => by decide
  | x => by decide

theorem base_le : ∀ call : NumberCall, call.base.toNat ≤ 16
  | d => by decide
  | u => by decide
  | x => by decide

theorem numeral_canonical (hsign : ¬ (call = d ∧ w.toInt32 < 0)) (hvalue : call.value w = w.toNat) :
    Canonical call w (numeral call.base.toNat w.toNat) := by
  have h2 : 2 ≤ call.base.toNat := le_trans (by decide) call.ten_le_base
  obtain ⟨a, cs, hcs, ha, hzero⟩ := numeral_eq_cons h2 call.base_le w.toNat
  refine ⟨?_, iff_of_false ?_ hsign, ?_⟩
  · rw [hcs]
    by_cases h0 : a = 0
    · rw [h0, (hzero h0).2]
      exact .inl rfl
    · refine .inr fun t => ⟨fun h => h0 (digitChar_inj_zero a ha ?_), fun h => ?_⟩
      · exact (List.cons.inj h).1
      · exact digitChar_ne_minus a ha (List.cons.inj h).1
  · rw [hcs, List.head?_cons, Option.some_inj]
    exact digitChar_ne_minus a ha
  · rw [parseNumeral_numeral h2 call.base_le, hvalue]

theorem neg_canonical (hneg : w.toInt32 < 0) :
    Canonical d w (minus :: numeral 10 (-w.toInt32).toUInt32.toNat) := by
  have habs := toNat_neg hneg
  have hlt : w.toInt32.toInt < 0 := Int32.lt_iff_toInt_lt.1 hneg
  obtain ⟨a, cs, hcs, ha, hzero⟩ := numeral_eq_cons (show 2 ≤ 10 by decide) (by decide)
    (-w.toInt32).toUInt32.toNat
  refine ⟨.inr fun t => ⟨fun h => ?_, fun h => ?_⟩, iff_of_true rfl ⟨rfl, hneg⟩, ?_⟩
  · exact absurd (List.cons.inj h).1 (by decide)
  · have h0 := hzero (digitChar_inj_zero a ha (List.cons.inj (hcs ▸ (List.cons.inj h).2)).1)
    omega
  · show parseNumeral 10 _ = some w.toInt32.toInt
    rw [parseNumeral_neg (by decide) (by decide), habs, neg_neg]

end NumberCall

/-- Each call prints the numeral of its argument, and stays inside its buffer. -/
theorem printNumber_canonical (call : NumberCall) (w : UInt32) (prior : ℕ → UInt8) :
    ∃ s, printNumber w.toInt32 call.base call.isSigned prior =
        (⟨.ok (), s.map .transmit⟩ : PrintProg Unit) ∧ call.Canonical w s := by
  refine ⟨_, printNumber_eq call.ten_le_base call.base_le _ prior, ?_⟩
  rw [printed]
  have hword : w.toInt32.toUInt32 = w := rfl
  cases call with
  | d =>
    by_cases hneg : w.toInt32 < 0
    · rw [if_pos (by simp [hneg, NumberCall.base, NumberCall.isSigned])]
      exact NumberCall.neg_canonical hneg
    · rw [if_neg (by simp [hneg]), hword]
      exact NumberCall.numeral_canonical (fun h => hneg h.2) (toNat_of_nonneg hneg).symm
  | u =>
    rw [if_neg (by simp [NumberCall.isSigned]), hword]
    exact NumberCall.numeral_canonical (fun h => nomatch h.1) rfl
  | x =>
    rw [if_neg (by simp [NumberCall.base]), hword]
    exact NumberCall.numeral_canonical (fun h => nomatch h.1) rfl

end BeagleKernel.Uart
