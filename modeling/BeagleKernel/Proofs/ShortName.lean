import BeagleKernel.Fat32.ShortName
import Mathlib.Data.List.GetD
import Mathlib.Data.List.OfFn
import Mathlib.Data.List.TakeWhile

/-!
# Short names come back in upper case

The eleven bytes of a name are its base and its extension in upper case, each filled up with
spaces, and no character of a short name is a space or becomes one.
-/

namespace BeagleKernel.Fat32

/-! ## The searches -/

theorem strlen_eq : ∀ s : List UInt8, strlen s = s.length
  | [] => rfl
  | _ :: s => congrArg (· + 1) (strlen_eq s)

theorem strchr_dot : ∀ s : List UInt8, strchr s dot =
    if dot ∈ s then some (baseOf s).length else none
  | [] => rfl
  | c :: s => by
    have ih := strchr_dot s
    rw [strchr, baseOf]
    by_cases hc : c = dot
    · subst hc
      simp
    · have hmem : dot ∈ c :: s ↔ dot ∈ s := by simp [Ne.symm hc]
      rw [if_neg hc, ih, List.takeWhile_cons_of_pos (by simpa using hc), List.length_cons]
      simp only [hmem]
      split_ifs <;> rfl

theorem eq_baseOf_append {s : List UInt8} (h : dot ∈ s) : s = baseOf s ++ dot :: extOf s := by
  induction s with
  | nil => nomatch h
  | cons c s ih =>
    by_cases hc : c = dot
    · subst hc
      simp [baseOf, extOf]
    · have hs : dot ∈ s := (List.mem_cons.1 h).resolve_left (Ne.symm hc)
      have hbase : baseOf (c :: s) = c :: baseOf s := List.takeWhile_cons_of_pos (by simpa using hc)
      have hext : extOf (c :: s) = extOf s := by
        rw [extOf, List.dropWhile_cons_of_pos (by simpa using hc), extOf]
      rw [hbase, hext, List.cons_append, ← ih hs]

theorem baseOf_of_not_mem {s : List UInt8} (h : dot ∉ s) : baseOf s = s ∧ extOf s = [] := by
  have hall : ∀ c ∈ s, decide (c ≠ dot) = true := fun c hc => decide_eq_true fun heq => h (heq ▸ hc)
  constructor
  · exact List.takeWhile_eq_self_iff.2 hall
  · rw [extOf, List.dropWhile_eq_nil_iff.2 hall, List.tail_nil]

theorem formatNameAt_eq (input : List UInt8) : formatNameAt input = formatNameToFat32 input := by
  funext i
  unfold formatNameAt formatNameToFat32
  rw [strchr_dot]
  by_cases hdot : dot ∈ input
  · have heq := eq_baseOf_append hdot
    rw [if_pos hdot]
    generalize baseOf input = base at heq ⊢
    generalize extOf input = ext at heq ⊢
    subst heq
    have hdrop : (base ++ dot :: ext).drop (base.length + 1) = ext := by simp
    have hbase (k : ℕ) (hk : k < base.length) :
        charAt (base ++ dot :: ext) k = charAt base k := by
      rw [charAt, charAt, List.getD_append _ _ _ _ hk]
    have hext (k : ℕ) : charAt (base ++ dot :: ext) (base.length + (1 + k)) = charAt ext k := by
      rw [charAt, charAt, List.getD_append_right _ _ _ _ (Nat.le_add_right _ _),
        Nat.add_sub_cancel_left, Nat.add_comm 1 k, List.getD_cons_succ]
    simp only [strlen_eq, hdrop, hext]
    split_ifs with h8 hlt
    · rw [hbase _ hlt]
    all_goals rfl
  · obtain ⟨hbase, hext⟩ := baseOf_of_not_mem hdot
    rw [if_neg hdot, hbase, hext]
    simp only [strlen_eq, List.length_nil, Nat.not_lt_zero, if_false]

/-! ## Upper case -/

theorem map_toupper_base (s : List UInt8) : baseOf (s.map toupper) = (baseOf s).map toupper ∧
    extOf (s.map toupper) = (extOf s).map toupper := by
  have hp : ((fun c => decide (c ≠ dot)) ∘ toupper) = fun c => decide (c ≠ dot) := by
    funext c
    simp only [Function.comp_apply, ne_eq, toupper_eq_iff (show dot.toNat < 0x41 by decide)]
  constructor
  · rw [baseOf, List.takeWhile_map, hp, baseOf]
  · rw [extOf, List.dropWhile_map, hp, ← List.map_tail, extOf]

theorem toupper_charAt (s : List UInt8) (i : ℕ) :
    toupper (charAt (s.map toupper) i) = toupper (charAt s i) := by
  have hzero : (0 : UInt8) = toupper 0 := rfl
  rw [charAt, hzero, List.getD_map, toupper_toupper]
  rfl

/-- The bytes depend on the name up to case. -/
theorem formatNameToFat32_map_toupper (s : List UInt8) :
    formatNameToFat32 (s.map toupper) = formatNameToFat32 s := by
  obtain ⟨hbase, hext⟩ := map_toupper_base s
  funext i
  simp only [formatNameToFat32, hbase, hext, List.length_map, toupper_charAt]

/-! ## Filling up and trimming -/

/-- A string filled up with spaces. -/
def pad (n : ℕ) (s : List UInt8) : List UInt8 := s ++ List.replicate (n - s.length) space

theorem trimEnd_pad {s : List UInt8} (h : space ∉ s) (n : ℕ) : trimEnd (pad n s) = s := by
  unfold pad
  induction n - s.length with
  | zero =>
    rw [List.replicate_zero, List.append_nil, trimEnd, List.rdropWhile_eq_self_iff]
    exact fun hl heq => h (of_decide_eq_true heq ▸ List.getLast_mem hl)
  | succ k ih =>
    rw [List.replicate_succ', ← List.append_assoc, trimEnd,
      List.rdropWhile_concat_pos _ _ _ (by rfl)]
    exact ih

theorem getElem_pad {n i : ℕ} {s : List UInt8} (h : i < (pad n (s.map toupper)).length) :
    (pad n (s.map toupper))[i] = if i < s.length then toupper (charAt s i) else space := by
  unfold pad at h ⊢
  split_ifs with hlt
  · rw [List.getElem_append_left (by rwa [List.length_map]), List.getElem_map, charAt,
      List.getD_eq_getElem _ _ hlt]
  · rw [List.getElem_append_right (by rw [List.length_map]; omega), List.getElem_replicate]

theorem length_pad {n : ℕ} {s : List UInt8} (h : s.length ≤ n) : (pad n s).length = n := by
  rw [pad, List.length_append, List.length_replicate]
  omega

theorem format_fields {s : List UInt8} (hbase : (baseOf s).length ≤ 8)
    (hext : (extOf s).length ≤ 3) :
    (List.ofFn (formatNameToFat32 s)).take 8 = pad 8 ((baseOf s).map toupper) ∧
      (List.ofFn (formatNameToFat32 s)).drop 8 = pad 3 ((extOf s).map toupper) := by
  have hlen8 : (pad 8 ((baseOf s).map toupper)).length = 8 :=
    length_pad (by rwa [List.length_map])
  have hlen3 : (pad 3 ((extOf s).map toupper)).length = 3 :=
    length_pad (by rwa [List.length_map])
  constructor
  · refine List.ext_getElem (by rw [hlen8]; simp) fun i h _ => ?_
    have hi : i < 8 := by simpa using h
    rw [List.getElem_take, List.getElem_ofFn, getElem_pad]
    exact if_pos hi
  · refine List.ext_getElem (by rw [hlen3]; simp) fun i h _ => ?_
    rw [List.getElem_drop, List.getElem_ofFn, getElem_pad]
    simp [formatNameToFat32]

namespace ShortName

variable (s t : ShortName)

theorem baseOf_chars : baseOf s.chars = s.base ∧ extOf s.chars = s.ext := by
  have hbase : dot ∉ s.base := fun h => (s.plain dot (List.mem_append_left _ h)).1 rfl
  unfold chars joinName
  split_ifs with hnil
  · rw [hnil]
    exact baseOf_of_not_mem hbase
  · have hall : ∀ c ∈ s.base, decide (c ≠ dot) = true := fun c hc =>
      decide_eq_true fun heq => hbase (heq ▸ hc)
    constructor
    · rw [baseOf, List.takeWhile_append_of_pos hall, List.takeWhile_cons_of_neg (by simp),
        List.append_nil]
    · rw [extOf, List.dropWhile_append_of_pos hall, List.dropWhile_cons_of_neg (by simp),
        List.tail_cons]

theorem map_toupper_chars :
    s.chars.map toupper = joinName (s.base.map toupper) (s.ext.map toupper) := by
  unfold chars joinName
  by_cases hnil : s.ext = []
  · rw [if_pos hnil, if_pos (by rw [hnil, List.map_nil])]
  · rw [if_neg hnil, if_neg (by rwa [List.map_eq_nil_iff]), List.map_append, List.map_cons]
    rfl

theorem space_not_mem {l : List UInt8} (hl : ∀ c ∈ l, c ∈ s.base ++ s.ext) :
    space ∉ l.map toupper := by
  intro h
  obtain ⟨c, hc, heq⟩ := List.mem_map.1 h
  exact (s.plain c (hl c hc)).2.1 ((toupper_eq_iff (by decide)).1 heq)

theorem entryName_format : entryName (formatNameToFat32 s.chars) = s.chars.map toupper := by
  obtain ⟨hbase, hext⟩ := s.baseOf_chars
  obtain ⟨htake, hdrop⟩ := @format_fields s.chars (by rw [hbase]; exact s.base_length.2)
    (by rw [hext]; exact s.ext_length)
  rw [entryName, htake, hdrop, hbase, hext,
    trimEnd_pad (s.space_not_mem fun c hc => List.mem_append_left _ hc),
    trimEnd_pad (s.space_not_mem fun c hc => List.mem_append_right _ hc), map_toupper_chars]

/-- A short name comes back in upper case, so two of them have the same bytes only if they are the
same up to case. -/
theorem format_roundTrip :
    entryName (formatNameAt s.chars) = s.chars.map toupper ∧
      (formatNameAt s.chars = formatNameAt t.chars ↔
        s.chars.map toupper = t.chars.map toupper) := by
  rw [formatNameAt_eq, formatNameAt_eq]
  refine ⟨s.entryName_format, fun h => ?_, fun h => ?_⟩
  · rw [← s.entryName_format, h, t.entryName_format]
  · rw [← formatNameToFat32_map_toupper s.chars, h, formatNameToFat32_map_toupper]

/-- `kernel.bin`. -/
def kernel : ShortName where
  base := [0x6B, 0x65, 0x72, 0x6E, 0x65, 0x6C]
  ext := [0x62, 0x69, 0x6E]
  base_length := by decide
  ext_length := by decide
  plain := by simp [dot, space, slash]

/-- `KERNEL.BIN`. -/
def kernelUpper : ShortName where
  base := [0x4B, 0x45, 0x52, 0x4E, 0x45, 0x4C]
  ext := [0x42, 0x49, 0x4E]
  base_length := by decide
  ext_length := by decide
  plain := by simp [dot, space, slash]

/-- `kernel.bin` comes back as `KERNEL.BIN`, and has its bytes. -/
theorem format_roundTrip_kernel : entryName (formatNameAt kernel.chars) = kernelUpper.chars ∧
    formatNameAt kernel.chars = formatNameAt kernelUpper.chars := by
  obtain ⟨hname, hsame⟩ := format_roundTrip kernel kernelUpper
  exact ⟨hname.trans (by decide), hsame.2 (by decide)⟩

end ShortName

end BeagleKernel.Fat32
