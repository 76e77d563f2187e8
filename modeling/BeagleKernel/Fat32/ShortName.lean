import BeagleKernel.Fat32.Path
import Mathlib.Data.List.DropRight

/-!
# Short names

`format_name_to_fat32` with the searches it makes, the names it is made for, and how an entry's
eleven bytes read as a name again.
-/

namespace BeagleKernel.Fat32

/-- `strchr`, as an index. -/
def strchr : (str : List UInt8) → (ch : UInt8) → Option ℕ
  | [], ch => if ch = 0 then some 0 else none
  | c :: str, ch => if c = ch then some 0 else (strchr str ch).map (· + 1)

/-- `strlen`. -/
def strlen : (str : List UInt8) → ℕ
  | [] => 0
  | _ :: str => strlen str + 1

/-- `format_name_to_fat32`, by the position of the dot. -/
def formatNameAt (input : List UInt8) : Fin 11 → UInt8 :=
  let extPos := strchr input dot
  let (nameLen, extLen) := match extPos with
    | some p => (p, strlen (input.drop (p + 1)))
    | none => (strlen input, 0)
  fun i =>
    if i.val < 8 then
      if i.val < nameLen then toupper (charAt input i) else space
    else match extPos with
      | some p =>
        if i.val - 8 < extLen then toupper (charAt input (p + (1 + (i.val - 8)))) else space
      | none => space

/-- A base of one to eight characters, and an extension of up to three. -/
structure ShortName where
  base : List UInt8
  ext : List UInt8
  base_length : 1 ≤ base.length ∧ base.length ≤ 8
  ext_length : ext.length ≤ 3
  plain : ∀ c ∈ base ++ ext, c ≠ dot ∧ c ≠ space ∧ c ≠ slash ∧ c ≠ 0

/-- A base and an extension, joined by a dot if there is an extension. -/
def joinName (base ext : List UInt8) : List UInt8 :=
  if ext = [] then base else base ++ dot :: ext

def ShortName.chars (name : ShortName) : List UInt8 := joinName name.base name.ext

/-- The string without the spaces at its end. -/
def trimEnd (s : List UInt8) : List UInt8 := s.rdropWhile (· = space)

/-- The name in the eleven bytes of an entry. -/
def entryName (output : Fin 11 → UInt8) : List UInt8 :=
  joinName (trimEnd ((List.ofFn output).take 8)) (trimEnd ((List.ofFn output).drop 8))

end BeagleKernel.Fat32
