import BeagleKernel.Lib.EditDistance

/-!
# Levenshtein

`levenshtein` of the boot loader, over the characters from the two pointers on. The lengths are
not negative; the results are `int`s.
-/

namespace BeagleKernel.Boot

/-- `min`. -/
protected def min (a b c : Int32) : Int32 :=
  if a ≤ b ∧ a ≤ c then a
  else if b ≤ a ∧ b ≤ c then b
  else c

/-- `levenshtein`. -/
def levenshtein (str1 str2 : ℕ → UInt8) : ℕ → ℕ → Int32
  | 0, len2 => Int32.ofNat len2
  | len1 + 1, 0 => Int32.ofNat (len1 + 1)
  | len1 + 1, len2 + 1 =>
    if str1 len1 = str2 len2 then levenshtein str1 str2 len1 len2
    else
      let insert := levenshtein str1 str2 (len1 + 1) len2
      let remove := levenshtein str1 str2 len1 (len2 + 1)
      let replace := levenshtein str1 str2 len1 len2
      1 + Boot.min insert remove replace
termination_by len1 len2 => len1 + len2

/-- The first `len` characters from a pointer on. -/
def firstChars (str : ℕ → UInt8) (len : ℕ) : List UInt8 := (List.range len).map str

@[simp] theorem length_firstChars (str : ℕ → UInt8) (len : ℕ) :
    (firstChars str len).length = len := by
  simp [firstChars]

theorem reverse_firstChars_succ (str : ℕ → UInt8) (len : ℕ) :
    (firstChars str (len + 1)).reverse = str len :: (firstChars str len).reverse := by
  simp [firstChars, List.range_succ]

end BeagleKernel.Boot
