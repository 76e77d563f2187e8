import BeagleKernel.Lib.Polled
import Mathlib.Logic.Function.Basic

/-!
# The card controller

`mmc_read_sector` and the `sendCommand` under it, as what they read from the registers of
`MMCHS0_BASE` and write to them. What the log is told stays out.
-/

namespace BeagleKernel.Boot

abbrev sdCon : UInt32 := 0x12C
abbrev sdArg : UInt32 := 0x208
abbrev sdCmd : UInt32 := 0x20C
abbrev sdRsp10 : UInt32 := 0x210
abbrev sdRsp32 : UInt32 := 0x214
abbrev sdRsp54 : UInt32 := 0x218
abbrev sdRsp76 : UInt32 := 0x21C
abbrev sdData : UInt32 := 0x220
abbrev sdPstate : UInt32 := 0x224
abbrev sdStat : UInt32 := 0x230

abbrev sdPstateCc : UInt32 := 0x1
abbrev sdPstateCAllowed : UInt32 := 0

abbrev sdStatClear : UInt32 := 0xFFFFFFFF
abbrev sdStatCc : UInt32 := 0x1
abbrev sdStatCto : UInt32 := (0x1 : UInt32) <<< 16
abbrev sdStatCcClear : UInt32 := 0x1

abbrev sdCmdRsptypeShift : UInt32 := 16
abbrev sdCmdCcceCiceEnable : UInt32 := (0x3 : UInt32) <<< 19
abbrev sdCmdIndxShift : UInt32 := 24
abbrev sdCmdCmdtypeNormal : UInt32 := (0x0 : UInt32) <<< 22
abbrev sdCmdDp : UInt32 := (0x1 : UInt32) <<< 21
abbrev sdCmdDdirRead : UInt32 := (0x1 : UInt32) <<< 4
abbrev sdCmd48bitrsp : UInt32 := 0x2

/-- `CC`, for a completed command. -/
abbrev cc : Int32 := 0
/-- `CTO_ERROR`. -/
abbrev ctoError : Int32 := -16

abbrev cmd0 : UInt32 := 0x0
abbrev cmd13 : UInt32 := 0x0D
abbrev cmd17 : UInt32 := 0x11

/-- The commands whose response is one word: those of type R1, R1b, R3 and R7. -/
def oneWordCommands : List UInt32 :=
  [0x1, 0x6, 0x9, 0x0A, 0x10, 0x11, 0x12, 0x18, 0x19, 0x1B, 0x1E, 0x20, 0x21, 0x2A, 0x37, 0x38,
    0x3B, 0x29] ++ [0x0C, 0x1C, 0x1D, 0x26] ++ [0x3A] ++ [0x8]

/-- An access to a register, by its offset. -/
inductive RegAccess
  | read (offset value : UInt32)
  | write (offset value : UInt32)
  deriving DecidableEq

abbrev Driver := Polled UInt32 RegAccess

/-- `REG32_read`. -/
def reg32Read (offset : UInt32) : Driver UInt32 := Polled.read (.read offset)

/-- `REG32_write`. -/
def reg32Write (offset value : UInt32) : Driver Unit := Polled.emit (.write offset value)

/-- `REG32_read_masked`. -/
def reg32ReadMasked (offset mask : UInt32) : Driver UInt32 := do
  return (← reg32Read offset) &&& mask

/-- `REG32_write_masked`. -/
def reg32WriteMasked (offset mask value : UInt32) : Driver Unit := do
  let reg ← reg32Read offset
  reg32Write offset ((reg &&& ~~~mask) ||| (value &&& mask))

/-! ## Commands -/

/-- A look at whether issuing a command is allowed. -/
def pollAllowed : Driver (Option Unit) := do
  if (← reg32ReadMasked sdPstate sdPstateCc) ≠ sdPstateCAllowed then return none
  else return some ()

/-- The wait until it is. -/
def waitAllowed : Driver Unit := Polled.loop pollAllowed

/-- A look at whether the command is done: `CC` for a complete one, `CTO_ERROR` for one that timed
out. -/
def pollComplete : Driver (Option Int32) := do
  if (← reg32ReadMasked sdStat sdStatCc) = sdStatCc then return some cc
  else if (← reg32ReadMasked sdStat sdStatCto) = sdStatCto then do
    reg32Write sdStat sdStatClear
    return some ctoError
  else return none

/-- The wait for the command to complete. -/
def waitComplete : Driver Int32 := Polled.loop pollComplete

/-- The word for `SD_CMD`. -/
def commandReg (cmdNum rspType : UInt32) : UInt32 :=
  let reg := (rspType <<< sdCmdRsptypeShift) ||| sdCmdCcceCiceEnable |||
    (cmdNum <<< sdCmdIndxShift) ||| sdCmdCmdtypeNormal
  if cmdNum = cmd17 then reg ||| sdCmdDp ||| sdCmdDdirRead else reg

/-- The `switch` over the command, with what it stores in `response`. -/
def readResponse (cmdNum : UInt32) : Driver (Int32 × List UInt32) :=
  if cmdNum ∈ oneWordCommands then do
    return (cc, [← reg32Read sdRsp10])
  else if cmdNum = cmd13 then do
    return (cc, [← reg32Read sdRsp10, ← reg32Read sdRsp32, ← reg32Read sdRsp54,
      ← reg32Read sdRsp76])
  else if cmdNum = cmd0 then return (cc, [])
  else return (-1, [])

/-- `sendCommand` up to the write of the command. -/
def writeCommand (cmdNum args rspType : UInt32) : Driver Unit := do
  waitAllowed
  reg32Write sdStat sdStatClear
  reg32Write sdArg args
  reg32Write sdCmd (commandReg cmdNum rspType)

/-- `sendCommand`. -/
def sendCommand (cmdNum args rspType : UInt32) : Driver (Int32 × List UInt32) := do
  writeCommand cmdNum args rspType
  if (← waitComplete) ≠ cc then return (ctoError, [])
  else if cmdNum ≠ cmd17 then do
    reg32WriteMasked sdStat sdStatCcClear sdStatCcClear
    readResponse cmdNum
  else readResponse cmdNum

/-! ## Reading a sector -/

/-- How the wait for the data ends. -/
inductive WaitEnd
  | bufferReady
  | noResponse
  | dataTimeout
  | otherError
  | timeout
  deriving DecidableEq

/-- The checks of one status word; `none` where the wait goes on. -/
def checkStat (stat : UInt32) : Option WaitEnd :=
  if stat &&& ((1 : UInt32) <<< 5) ≠ 0 then some .bufferReady
  else if stat = 0 then some .noResponse
  else if stat &&& ((1 : UInt32) <<< 20) ≠ 0 then some .dataTimeout
  else if stat &&& 0x78000 ≠ 0 then some .otherError
  else none

/-- The loop that waits, with what is left of its `timeout`. -/
def waitData : (timeout : ℕ) → Driver WaitEnd
  | 0 => return .timeout
  | timeout + 1 => do
    match checkStat (← reg32Read sdStat) with
    | some e => return e
    | none => waitData timeout

/-- Whether an end of the wait is a `break`; the others return. -/
def WaitEnd.breaks : WaitEnd → Bool
  | bufferReady | noResponse => true
  | dataTimeout | otherError | timeout => false

/-- The four stores of the `i`-th word. -/
def storeWord (buffer : ℕ → UInt8) (i : ℕ) (word : UInt32) : ℕ → UInt8 :=
  let buffer := Function.update buffer (i * 4) (word &&& 0xFF).toUInt8
  let buffer := Function.update buffer (i * 4 + 1) ((word >>> 8) &&& 0xFF).toUInt8
  let buffer := Function.update buffer (i * 4 + 2) ((word >>> 16) &&& 0xFF).toUInt8
  Function.update buffer (i * 4 + 3) ((word >>> 24) &&& 0xFF).toUInt8

/-- The first `n` rounds of the loop that reads the data. -/
def readData (buffer : ℕ → UInt8) : (n : ℕ) → Driver (ℕ → UInt8)
  | 0 => return buffer
  | n + 1 => do
    let buffer ← readData buffer n
    return storeWord buffer n (← reg32Read sdData)

abbrev waitRounds : ℕ := 1000000
abbrev sectorWords : ℕ := 128

/-- What follows a `break`. -/
def finishRead (buffer : ℕ → UInt8) : Driver (Int32 × (ℕ → UInt8)) := do
  let buffer ← readData buffer sectorWords
  reg32Write sdStat sdStatCcClear
  reg32Write sdCon ((← reg32Read sdCon) &&& ~~~((1 : UInt32) <<< 1))
  return (0, buffer)

/-- `mmc_read_sector`, with the buffer as it leaves it. -/
def mmcReadSector (sector : UInt32) (buffer : ℕ → UInt8) : Driver (Int32 × (ℕ → UInt8)) := do
  if (← sendCommand cmd17 sector sdCmd48bitrsp).1 ≠ cc then return (-1, buffer)
  else if (← waitData waitRounds).breaks then finishRead buffer
  else return (-1, buffer)

end BeagleKernel.Boot
