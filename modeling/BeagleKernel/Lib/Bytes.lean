import BeagleKernel.Lib.Words

/-!
# Bytes in memory

What a packed structure leaves in memory: its fields one after the other (`bytesAt_append`), the
numbers among them low byte first. A store leaves its bytes there (`bytesAt_writeBytes`) and
everything else as it was.
-/

namespace BeagleKernel

/-- The bytes of a 16-bit value, the low one first. -/
def le16Bytes (v : UInt16) : List UInt8 := [v.toUInt8, (v >>> 8).toUInt8]

/-- The bytes of a 32-bit value, the low one first. -/
def le32Bytes (v : UInt32) : List UInt8 :=
  [v.toUInt8, (v >>> 8).toUInt8, (v >>> 16).toUInt8, (v >>> 24).toUInt8]

@[simp] theorem length_le16Bytes (v : UInt16) : (le16Bytes v).length = 2 := rfl
@[simp] theorem length_le32Bytes (v : UInt32) : (le32Bytes v).length = 4 := rfl

theorem UInt32.toNat_le32 (b0 b1 b2 b3 : UInt8) :
    (b0.toUInt32 ||| b1.toUInt32 <<< 8 ||| b2.toUInt32 <<< 16 ||| b3.toUInt32 <<< 24).toNat =
      b0.toNat + b1.toNat * 2 ^ 8 + b2.toNat * 2 ^ 16 + b3.toNat * 2 ^ 24 := by
  have h0 := b0.toNat_lt
  have h1 := b1.toNat_lt
  have h2 := b2.toNat_lt
  have e1 := UInt32.toNat_or_shiftLeft (x := b0.toUInt32) (k := 8) (b := b1) (by decide)
    (by rw [UInt8.toNat_toUInt32]; exact h0)
  rw [UInt8.toNat_toUInt32] at e1
  have e2 := UInt32.toNat_or_shiftLeft (x := b0.toUInt32 ||| b1.toUInt32 <<< 8) (k := 16) (b := b2)
    (by decide) (by simp only [e1, UInt32.reduceToNat]; omega)
  simp only [e1, UInt32.reduceToNat] at e2
  have e3 := UInt32.toNat_or_shiftLeft
    (x := b0.toUInt32 ||| b1.toUInt32 <<< 8 ||| b2.toUInt32 <<< 16) (k := 24) (b := b3)
    (by decide) (by simp only [e2, UInt32.reduceToNat]; omega)
  simp only [e2, UInt32.reduceToNat] at e3
  exact e3

theorem le16_decode (v : UInt16) :
    v.toUInt8.toUInt16 ||| (v >>> 8).toUInt8.toUInt16 <<< 8 = v := by
  have hlow := UInt16.toNat_or_shiftLeft (x := v.toUInt8.toUInt16) (b := (v >>> 8).toUInt8)
    (by rw [UInt8.toNat_toUInt16]; exact v.toUInt8.toNat_lt)
  have hv := v.toNat_lt
  rw [← UInt16.toNat_inj, hlow, UInt8.toNat_toUInt16, UInt16.toNat_toUInt8, UInt16.toNat_toUInt8,
    UInt16.toNat_shiftRight]
  simp only [UInt16.reduceToNat, Nat.shiftRight_eq_div_pow, Nat.reduceMod, Nat.reducePow]
  omega

theorem le32_decode (v : UInt32) :
    v.toUInt8.toUInt32 ||| (v >>> 8).toUInt8.toUInt32 <<< 8 |||
      (v >>> 16).toUInt8.toUInt32 <<< 16 ||| (v >>> 24).toUInt8.toUInt32 <<< 24 = v := by
  have hv := v.toNat_lt
  rw [← UInt32.toNat_inj, UInt32.toNat_le32]
  simp only [UInt32.toNat_toUInt8, UInt32.toNat_shiftRight, UInt32.reduceToNat,
    Nat.shiftRight_eq_div_pow, Nat.reduceMod, Nat.reducePow]
  omega

theorem le32Bytes_encode (b0 b1 b2 b3 : UInt8) :
    le32Bytes (b0.toUInt32 ||| b1.toUInt32 <<< 8 ||| b2.toUInt32 <<< 16 ||| b3.toUInt32 <<< 24) =
      [b0, b1, b2, b3] := by
  have hv := UInt32.toNat_le32 b0 b1 b2 b3
  have h0 := b0.toNat_lt
  have h1 := b1.toNat_lt
  have h2 := b2.toNat_lt
  have h3 := b3.toNat_lt
  simp only [le32Bytes, List.cons.injEq, and_true, ← UInt8.toNat_inj, UInt32.toNat_toUInt8,
    UInt32.toNat_shiftRight, hv, UInt32.reduceToNat, Nat.shiftRight_eq_div_pow, Nat.reduceMod,
    Nat.reducePow]
  omega

/-- The bytes are in memory from `p` on. -/
def BytesAt (mem : ℕ → UInt8) (p : ℕ) (bs : List UInt8) : Prop :=
  ∀ i (h : i < bs.length), mem (p + i) = bs[i]

section

variable {mem : ℕ → UInt8} {p : ℕ}

@[simp] theorem bytesAt_append {as bs : List UInt8} :
    BytesAt mem p (as ++ bs) ↔ BytesAt mem p as ∧ BytesAt mem (p + as.length) bs := by
  constructor
  · intro h
    refine ⟨fun i hi => ?_, fun i hi => ?_⟩
    · rw [h i (by simp; omega), List.getElem_append_left hi]
    · rw [Nat.add_assoc, h (as.length + i) (by simp; omega),
        List.getElem_append_right (Nat.le_add_right _ _)]
      simp
  · rintro ⟨ha, hb⟩ i hi
    rcases Nat.lt_or_ge i as.length with h | h
    · rw [ha i h, List.getElem_append_left h]
    · rw [List.getElem_append_right h, ← hb (i - as.length) (by simp at hi; omega)]
      congr 1
      omega

theorem length_flatMap_range {f : ℕ → List UInt8} {k : ℕ} (hlen : ∀ i, (f i).length = k) :
    ∀ n, ((List.range n).flatMap f).length = k * n
  | 0 => rfl
  | n + 1 => by
    rw [List.range_succ, List.flatMap_append, List.length_append, length_flatMap_range hlen n,
      List.flatMap_singleton, hlen, Nat.mul_succ]

/-- Pieces of one length, one after the other. -/
theorem bytesAt_flatMap {f : ℕ → List UInt8} {k : ℕ} (hlen : ∀ i, (f i).length = k) :
    ∀ {n : ℕ}, BytesAt mem p ((List.range n).flatMap f) ↔ ∀ i < n, BytesAt mem (p + k * i) (f i)
  | 0 => iff_of_true (fun i hi => absurd hi (Nat.not_lt_zero i)) fun i hi =>
    absurd hi (Nat.not_lt_zero i)
  | n + 1 => by
    rw [List.range_succ, List.flatMap_append, bytesAt_append, bytesAt_flatMap hlen,
      length_flatMap_range hlen, List.flatMap_singleton, Nat.forall_lt_succ_right]

@[simp] theorem bytesAt_singleton {b : UInt8} : BytesAt mem p [b] ↔ mem p = b := by
  constructor
  · intro h
    exact h 0 Nat.one_pos
  · rintro h i hi
    obtain rfl : i = 0 := by simpa using hi
    exact h

theorem BytesAt.le16 {v : UInt16} (h : BytesAt mem p (le16Bytes v)) :
    (mem p).toUInt16 ||| (mem (p + 1)).toUInt16 <<< 8 = v := by
  rw [show mem p = v.toUInt8 from h 0 (by simp), show mem (p + 1) = (v >>> 8).toUInt8 from
    h 1 (by simp), le16_decode]

theorem BytesAt.le32 {v : UInt32} (h : BytesAt mem p (le32Bytes v)) :
    (mem p).toUInt32 ||| (mem (p + 1)).toUInt32 <<< 8 ||| (mem (p + 2)).toUInt32 <<< 16 |||
      (mem (p + 3)).toUInt32 <<< 24 = v := by
  rw [show mem p = v.toUInt8 from h 0 (by simp), show mem (p + 1) = (v >>> 8).toUInt8 from
    h 1 (by simp), show mem (p + 2) = (v >>> 16).toUInt8 from h 2 (by simp),
    show mem (p + 3) = (v >>> 24).toUInt8 from h 3 (by simp), le32_decode]

/-! ## Stores -/

/-- The memory with the bytes stored from `p` on. -/
def writeBytes (mem : ℕ → UInt8) (p : ℕ) (bs : List UInt8) : ℕ → UInt8 := fun q =>
  if p ≤ q ∧ q < p + bs.length then bs.getD (q - p) 0 else mem q

theorem writeBytes_outside {bs : List UInt8} {q : ℕ} (h : q < p ∨ p + bs.length ≤ q) :
    writeBytes mem p bs q = mem q :=
  if_neg (by omega)

theorem bytesAt_writeBytes (mem : ℕ → UInt8) (p : ℕ) (bs : List UInt8) :
    BytesAt (writeBytes mem p bs) p bs := by
  intro i hi
  rw [writeBytes, if_pos ⟨Nat.le_add_right p i, Nat.add_lt_add_left hi p⟩, Nat.add_sub_cancel_left,
    List.getD_eq_getElem?_getD, List.getElem?_eq_getElem hi, Option.getD_some]

end

end BeagleKernel
