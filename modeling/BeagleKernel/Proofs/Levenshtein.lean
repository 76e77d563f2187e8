import BeagleKernel.Boot.Levenshtein

/-!
# What `levenshtein` computes

It compares last characters, so it is `editDistance` of the reversed strings, and these are as far
apart as the strings.
-/

namespace BeagleKernel.Boot

theorem toInt_ofNat_lt {n : ℕ} (h : n < 2 ^ 31) : (Int32.ofNat n).toInt = n :=
  Int32.toInt_ofNat_of_lt h

theorem toInt_min {a b c : Int32} {x y z : ℕ} (ha : a.toInt = x) (hb : b.toInt = y)
    (hc : c.toInt = z) : (Boot.min a b c).toInt = (min (min x y) z : ℕ) := by
  unfold Boot.min
  simp only [Int32.le_iff_toInt_le, ha, hb, hc]
  split_ifs with h1 h2
  · omega
  · omega
  · omega

theorem toInt_one_add {a : Int32} {x : ℕ} (ha : a.toInt = x) (h : x + 1 < 2 ^ 31) :
    (1 + a).toInt = (1 + x : ℕ) := by
  rw [Int32.toInt_add, ha, Int32.toInt_one]
  exact Int.bmod_eq_of_le (by omega) (by omega)

/-- No sum overflows: a distance is at most the longer length. -/
theorem levenshtein_toInt (str1 str2 : ℕ → UInt8) (len1 len2 : ℕ) (h1 : len1 < 2 ^ 31)
    (h2 : len2 < 2 ^ 31) : (levenshtein str1 str2 len1 len2).toInt =
      editDistance (firstChars str1 len1).reverse (firstChars str2 len2).reverse := by
  fun_induction levenshtein str1 str2 len1 len2 with
  | case1 len2 =>
    rw [toInt_ofNat_lt h2]
    simp [firstChars]
  | case2 len1 =>
    rw [toInt_ofNat_lt h1]
    simp [firstChars]
  | case3 len1 len2 heq ih =>
    rw [ih (by omega) (by omega), reverse_firstChars_succ, reverse_firstChars_succ, heq,
      editDistance_cons_self]
  | case4 len1 len2 hne insert remove replace ih1 ih2 ih3 =>
    have hmin := toInt_min (ih1 h1 (by omega)) (ih2 (by omega) h2) (ih3 (by omega) (by omega))
    have hle := editDistance_le_max (firstChars str1 (len1 + 1)).reverse
      (firstChars str2 (len2 + 1)).reverse
    simp only [reverse_firstChars_succ, editDistance_cons_of_ne hne, List.length_cons,
      List.length_reverse, length_firstChars] at hmin hle ⊢
    exact toInt_one_add hmin (by omega)

theorem levenshtein_isLeast (str1 str2 : ℕ → UInt8) {len1 len2 : ℕ} (h1 : len1 < 2 ^ 31)
    (h2 : len2 < 2 ^ 31) : ∃ d : ℕ, (levenshtein str1 str2 len1 len2).toInt = d ∧
      IsLeast {n | Edits n (firstChars str1 len1) (firstChars str2 len2)} d := by
  refine ⟨_, levenshtein_toInt str1 str2 len1 len2 h1 h2, ?_⟩
  have hleast := editDistance_isLeast (firstChars str1 len1).reverse (firstChars str2 len2).reverse
  simpa only [edits_reverse] using hleast

theorem levenshtein_isLeast_small : ∃ d : ℕ,
    (levenshtein (fun i => UInt8.ofNat i) (fun i => UInt8.ofNat (i + 1)) 3 4).toInt = d ∧
      IsLeast {n | Edits n (firstChars (fun i => UInt8.ofNat i) 3)
        (firstChars (fun i => UInt8.ofNat (i + 1)) 4)} d :=
  levenshtein_isLeast _ _ (by decide) (by decide)

end BeagleKernel.Boot
