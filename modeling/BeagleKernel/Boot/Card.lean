import BeagleKernel.Boot.Mmc
import BeagleKernel.Fat32.Types
import BeagleKernel.Lib.Device

/-!
# The card behind the controller

The controller as `mmc_read_sector` meets it. A bit of its status word is set by what happens, and
stays until it is written. The response to a command comes some time after it, the data some time
after that, and a card may fail before either. The driver does not look for errors once there is
data, so a transfer that fails, which it would take for a sector, is left out. A command written
while another is under way may do anything.
-/

namespace BeagleKernel.Boot

open Fat32 (Sector Fat32Diskio)

/-- `BRR`: there is data to read. -/
abbrev sdStatBrr : UInt32 := (1 : UInt32) <<< 5
/-- The bits of a command or a transfer that failed. -/
abbrev sdStatErrors : UInt32 := (1 : UInt32) <<< 20 ||| 0x78000
/-- The bits of the status word that the driver looks at. -/
abbrev watchedBits : UInt32 := sdStatCc ||| sdStatBrr ||| sdStatErrors

/-- The word `sendCommand` writes for a sector. -/
abbrev readCommand : UInt32 := commandReg cmd17 sdCmd48bitrsp

/-- What the controller is at. -/
inductive Phase
  | idle
  | command (sector : UInt32)
  /-- The response is there, and has been looked at `polls` times. -/
  | response (sector : UInt32) (polls : ℕ)
  /-- The data is there, and `n` words of it have been read. -/
  | transfer (sector : UInt32) (n : ℕ)

structure Controller where
  phase : Phase
  stat : UInt32
  arg : UInt32

namespace Controller

/-- The status bits that are set. -/
def raise (c : Controller) (bits : UInt32) : Controller := { c with stat := c.stat ||| bits }

def goTo (c : Controller) (phase : Phase) : Controller := { c with phase := phase }

/-- After a look at the status word. -/
def polled (c : Controller) : Controller :=
  match c.phase with
  | .response sector polls => c.goTo (.response sector (polls + 1))
  | _ => c

end Controller

/-- A card: its sectors, whether it may fail before it has the data, and how often the controller
may be looked at until then. -/
structure Card where
  sector : UInt32 → Sector
  fails : Prop
  late : ℕ → Prop

namespace Card

/-- The card as a disk. -/
def disk (card : Card) : Fat32Diskio := ⟨fun s => some (card.sector s)⟩

/-- A word of a sector. -/
def word (card : Card) (sector : UInt32) (n : ℕ) : UInt32 := (card.sector sector).le32 (4 * n)

/-- After another word of a transfer. -/
def next (sector : UInt32) (n : ℕ) : Phase :=
  if n + 1 = sectorWords then .idle else .transfer sector (n + 1)

/-- What happens between two accesses. -/
inductive Move (card : Card) : Controller → Controller → Prop
  | responds {c : Controller} {sector : UInt32} (h : c.phase = .command sector) :
      Move card c ((c.goTo (.response sector 0)).raise sdStatCc)
  | ready {c : Controller} {sector : UInt32} {polls : ℕ} (h : c.phase = .response sector polls) :
      Move card c ((c.goTo (.transfer sector 0)).raise sdStatBrr)
  | fails {c : Controller} {bits : UInt32} (h : card.fails)
      (hbusy : ∃ sector, c.phase = .command sector ∨ ∃ polls, c.phase = .response sector polls)
      (herror : bits &&& sdStatErrors ≠ 0) (hbits : bits &&& (sdStatCc ||| sdStatBrr) = 0) :
      Move card c ((c.goTo .idle).raise bits)
  | other {c : Controller} {bits : UInt32} (hbits : bits &&& watchedBits = 0) :
      Move card c (c.raise bits)

/-- What a read of a register may return, and what it does. -/
def Read (card : Card) (offset v : UInt32) (c c' : Controller) : Prop :=
  if offset = sdStat then v = c.stat ∧ c' = c.polled ∧
    ∀ sector polls, c.phase = .response sector polls → card.late polls
  else if offset = sdPstate then c' = c ∧
    ∀ sector, c.phase = .command sector → v &&& sdPstateCc ≠ sdPstateCAllowed
  else if offset = sdData then
    match c.phase with
    | .transfer sector n => v = card.word sector n ∧ c' = c.goTo (next sector n)
    | _ => c' = c
  else c' = c

/-- What a write of a register does. -/
def Write (offset v : UInt32) (c c' : Controller) : Prop :=
  if offset = sdStat then c' = { c with stat := c.stat &&& ~~~v }
  else if offset = sdArg then c' = { c with arg := v }
  else if offset = sdCmd then c.phase = .idle → v = readCommand → c' = c.goTo (.command c.arg)
  else c' = c

/-- What an access returns and does. -/
def Access (card : Card) : RegAccess → Controller → Controller → Prop
  | .read offset v => card.Read offset v
  | .write offset v => Write offset v

/-- The controller with the card in it. -/
def device (card : Card) : Device Controller RegAccess := ⟨card.Move, card.Access⟩

end Card

/-- Calls of `mmc_read_sector` for one sector after the other, with one buffer, up to the first that
fails: the code of the last, and the sectors read. -/
def readSectorsInto (buffer : ℕ → UInt8) : List UInt32 → Driver (Int32 × List Sector)
  | [] => return (0, [])
  | sector :: sectors => do
    let (r, buffer) ← mmcReadSector sector buffer
    if r ≠ 0 then return (r, [])
    else do
      let (r, rest) ← readSectorsInto buffer sectors
      return (r, (fun i => buffer i) :: rest)

end BeagleKernel.Boot
