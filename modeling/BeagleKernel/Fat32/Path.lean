import BeagleKernel.Fat32.Types
import Mathlib.Data.List.Basic

/-!
# Paths and 8.3 names

`parse_fat32_path` and `format_name_to_fat32`, with the string functions the driver brings along.
A C string is the list of its bytes before the NUL. The path structure is the memory it takes, 16
rows of 64 bytes, since the parser leaves the rows it does not fill as they were.
-/

namespace BeagleKernel.Fat32

/-- A NUL-terminated string, without its NUL. -/
structure CString where
  chars : List UInt8
  noNul : 0 ∉ chars

/-- `str[i]`, the NUL included. -/
def charAt (s : List UInt8) (i : ℕ) : UInt8 := s.getD i 0

abbrev slash : UInt8 := 0x2F
abbrev dot : UInt8 := 0x2E
abbrev space : UInt8 := 0x20

/-- `toupper`. -/
def toupper (c : UInt8) : UInt8 := if 0x61 ≤ c ∧ c ≤ 0x7A then c - (0x61 - 0x41) else c

theorem toupper_cases (c : UInt8) :
    toupper c = c ∨ 0x41 ≤ (toupper c).toNat ∧ (toupper c).toNat ≤ 0x5A := by
  unfold toupper
  split_ifs with hlow
  · have h1 : 0x61 ≤ c.toNat := UInt8.le_iff_toNat_le.1 hlow.1
    have h2 : c.toNat ≤ 0x7A := UInt8.le_iff_toNat_le.1 hlow.2
    have hle : (0x61 - 0x41 : UInt8) ≤ c :=
      UInt8.le_iff_toNat_le.2 (show 0x20 ≤ c.toNat by omega)
    have hsub : (c - (0x61 - 0x41)).toNat = c.toNat - 0x20 := UInt8.toNat_sub_of_le _ _ hle
    rw [hsub]
    omega
  · exact .inl rfl

theorem toupper_eq_self {c : UInt8} (h : c.toNat < 0x61) : toupper c = c :=
  if_neg fun hlow => absurd (UInt8.le_iff_toNat_le.1 hlow.1) (Nat.not_le.2 h)

@[simp] theorem toupper_toupper (c : UInt8) : toupper (toupper c) = toupper c := by
  rcases toupper_cases c with h | h
  · rw [h, h]
  · exact toupper_eq_self (by omega)

/-- No letter comes from or goes to a character below the letters. -/
theorem toupper_eq_iff {c d : UInt8} (hd : d.toNat < 0x41) : toupper c = d ↔ c = d := by
  constructor
  · rintro rfl
    rcases toupper_cases c with h | h
    · exact h.symm
    · omega
  · rintro rfl
    exact toupper_eq_self (by omega)

/-- The upper case is that of ASCII. -/
theorem ofUInt8_toupper (c : UInt8) : Char.ofUInt8 (toupper c) = (Char.ofUInt8 c).toUpper := by
  have hlow : (0x61 ≤ c ∧ c ≤ 0x7A) ↔
      ('a'.val ≤ (Char.ofUInt8 c).val ∧ (Char.ofUInt8 c).val ≤ 'z'.val) := by
    have hval : (Char.ofUInt8 c).val.toNat = c.toNat := UInt8.toNat_toUInt32 c
    simp only [UInt8.le_iff_toNat_le, UInt32.le_iff_toNat_le, hval]
    rfl
  unfold toupper Char.toUpper
  by_cases h : 0x61 ≤ c ∧ c ≤ 0x7A
  · rw [if_pos h, dif_pos (hlow.1 h)]
    have h1 : 0x61 ≤ c.toNat := UInt8.le_iff_toNat_le.1 h.1
    have hsub : (c - (0x61 - 0x41)).toNat = c.toNat - 0x20 :=
      UInt8.toNat_sub_of_le _ _ (UInt8.le_iff_toNat_le.2 (show 0x20 ≤ c.toNat by omega))
    have hc := c.toNat_lt
    refine Char.ext (UInt32.toNat_inj.1 ?_)
    show (c - (0x61 - 0x41)).toUInt32.toNat = (c.toUInt32 + ('A'.val - 'a'.val)).toNat
    rw [UInt8.toNat_toUInt32, hsub, UInt32.toNat_add, UInt8.toNat_toUInt32]
    have : ('A'.val - 'a'.val).toNat = 2 ^ 32 - 0x20 := rfl
    omega
  · rw [if_neg h, dif_neg (fun h' => h (hlow.2 h'))]
/-- `strncpy(dest + p, src, n)`. -/
def strncpy (dest : ℕ → UInt8) (p : ℕ) (src : List UInt8) (n : ℕ) : ℕ → UInt8 :=
  fun j => if p ≤ j ∧ j < p + n then charAt src (j - p) else dest j

/-- `fat32_path_static_t`: `components[i][j]` is the byte `64 * i + j`. -/
structure Fat32Path where
  components : ℕ → UInt8
  numComponents : ℕ

/-- Where the parser stands before an index: the start of the component there and the number it
has captured. -/
structure ParseState where
  start : ℕ
  componentIdx : ℕ
  components : ℕ → UInt8

/-- The capture of `path[start .. start + len)` as component `idx`. -/
def captureComponent (path : List UInt8) (start len idx : ℕ) (components : ℕ → UInt8) :
    ℕ → UInt8 :=
  Function.update (strncpy components (fat32MaxComponentLength * idx) (path.drop start) len)
    (fat32MaxComponentLength * idx + len) 0

/-- One index of `parse_fat32_path`'s loop. -/
def parseStep (path : List UInt8) (st : ParseState) (i : ℕ) : ParseState :=
  if charAt path i = slash ∨ charAt path i = 0 then
    if i > st.start ∧ i - st.start < fat32MaxComponentLength ∧
        st.componentIdx < fat32MaxComponents then
      { start := i + 1
        componentIdx := st.componentIdx + 1
        components := captureComponent path st.start (i - st.start) st.componentIdx st.components }
    else { st with start := i + 1 }
  else st

/-- The path after its leading dot, if it has one. -/
def skipLeadingDot (path : List UInt8) : List UInt8 :=
  if charAt path 0 = dot then path.tail else path

/-- `parse_fat32_path`, into a structure whose memory holds `prior`. -/
def parseFat32Path (path : CString) (prior : ℕ → UInt8) : Fat32Path :=
  let p := skipLeadingDot path.chars
  let st := (List.range (p.length + 1)).foldl (parseStep p) ⟨0, 0, prior⟩
  ⟨st.components, st.componentIdx⟩

/-- The string at `pos`, where `left` bytes are left of the memory it is in. -/
def cstringAt (mem : ℕ → UInt8) : (left pos : ℕ) → Option (List UInt8)
  | 0, _ => none
  | left + 1, pos =>
    if mem pos = 0 then some [] else (cstringAt mem left (pos + 1)).map (mem pos :: ·)

/-- `components[i]`, read as a string. -/
def Fat32Path.component (path : Fat32Path) (i : ℕ) : Prog (List UInt8) :=
  if i < fat32MaxComponents then
    match cstringAt path.components (fat32MaxComponentLength * (fat32MaxComponents - i))
        (fat32MaxComponentLength * i) with
    | some name => return name
    | none => Traced.fault .outOfBounds
  else Traced.fault .outOfBounds

/-- What `format_name_to_fat32` copies as the base name: all up to the first dot. -/
def baseOf (input : List UInt8) : List UInt8 := input.takeWhile (· ≠ dot)

/-- What it copies as the extension: all after the first dot. -/
def extOf (input : List UInt8) : List UInt8 := (input.dropWhile (· ≠ dot)).tail

/-- `format_name_to_fat32`. -/
def formatNameToFat32 (input : List UInt8) : Fin 11 → UInt8 := fun i =>
  if i.val < 8 then
    if i.val < (baseOf input).length then toupper (charAt (baseOf input) i) else space
  else
    if i.val - 8 < (extOf input).length then toupper (charAt (extOf input) (i - 8)) else space

end BeagleKernel.Fat32
