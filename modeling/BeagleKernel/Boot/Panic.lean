import BeagleKernel.Boot.Load
import BeagleKernel.Fat32.Label
import BeagleKernel.Uart.Print

/-!
# What a boot that fails prints

The texts of the errors and of the panics, as they are sent to the console.
-/

namespace BeagleKernel

/-- The characters of a text in ASCII. -/
def ascii (text : String) : List UInt8 := text.toList.map fun c => c.val.toUInt8

namespace Fat32

/-- The texts of `fat32_geterror`. -/
def errorText (err : Int32) : String :=
  if err = fat32Success then "Success"
  else if err = fat32ErrorBadParameter then "Bad parameter"
  else if err = fat32ErrorIo then "I/O error"
  else if err = fat32ErrorNoPath then "Path not found"
  else if err = fat32ErrorNoFile then "File not found"
  else if err = fat32ErrorIsDir then "Path is a directory"
  else if err = fat32ErrorCorruptedFs then "Corrupted filesystem"
  else if err = fat32ErrorInvalidBootSector then "Invalid boot sector"
  else if err = fat32ErrorNoLabel then "No volume label found"
  else "Unknown error"

theorem errorText_noNul (err : Int32) : 0 ∉ ascii (errorText err) := by
  unfold errorText
  split_ifs <;> decide

/-- `fat32_geterror`. -/
def fat32Geterror (err : Int32) : CString := ⟨ascii (errorText err), errorText_noNul err⟩

end Fat32

namespace Uart

theorem panicPrefix_noNul : 0 ∉ ascii "PANIC: " := by decide

/-- What `panic` prints first. -/
def panicPrefix : Fat32.CString := ⟨ascii "PANIC: ", panicPrefix_noNul⟩

/-- `panic`, up to the loop it ends in; `after` is in memory after the strings. -/
def panic (fmt : Fat32.CString) (ap : List VaArg) (after : ℕ → UInt8) (prior : ℕ → ℕ → UInt8)
    (fuel : ℕ) : PrintProg Unit := do
  let _ ← uartVprintf (inMemory panicPrefix after) prior fuel 0 []
  let _ ← uartVprintf (inMemory fmt after) prior fuel 0 ap
  return ()

end Uart

namespace Boot.BootPanic

open Fat32 (CString fat32Geterror)
open Uart (VaArg)

def formatText : BootPanic → String
  | .mount _ => "Failed to mount FAT32 filesystem: %s\n"
  | .open _ => "Failed to open kernel.bin: %s\n"
  | .read _ => "Failed to read kernel.bin: %s (%d bytes)\n"
  | .magic _ => "Invalid kernel magic value: %x\n"

theorem formatText_noNul (p : BootPanic) : 0 ∉ ascii p.formatText := by
  cases p with
  | mount code => exact (by decide : 0 ∉ ascii "Failed to mount FAT32 filesystem: %s\n")
  | «open» code => exact (by decide : 0 ∉ ascii "Failed to open kernel.bin: %s\n")
  | read res => exact (by decide : 0 ∉ ascii "Failed to read kernel.bin: %s (%d bytes)\n")
  | magic value => exact (by decide : 0 ∉ ascii "Invalid kernel magic value: %x\n")

/-- The format `panic` is called with. -/
def format (p : BootPanic) : CString := ⟨ascii p.formatText, p.formatText_noNul⟩

theorem format_chars (p : BootPanic) : p.format.chars = ascii p.formatText := rfl

/-- The arguments after it. -/
def args : BootPanic → List VaArg
  | .mount code => [.str (fat32Geterror code)]
  | .open code => [.str (fat32Geterror code)]
  | .read res => [.str (fat32Geterror res), .word res.toUInt32]
  | .magic value => [.word value]

/-- The call of `panic`. -/
def print (p : BootPanic) (after : ℕ → UInt8) (prior : ℕ → ℕ → UInt8) (fuel : ℕ) :
    Uart.PrintProg Unit := Uart.panic p.format p.args after prior fuel

end Boot.BootPanic

end BeagleKernel
