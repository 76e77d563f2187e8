import BeagleKernel.Drivers.Intc
import BeagleKernel.Uart.Uart

/-!
# A serial port

`uart_init` and the functions of `uart.c` that touch the registers of a port, and the port: which
register an offset means depends on `LCR`, and a byte written to `THR` is on the wire some time
later. What arrives always finds room: the FIFO of the port has no end, and never overruns.
-/

namespace BeagleKernel.Serial

open Bus Intc Uart

abbrev uart0Base : UInt32 := 0x44E09000
abbrev uart1Base : UInt32 := 0x48022000

abbrev uartThrOff : UInt32 := 0x00
abbrev uartRhrOff : UInt32 := 0x00
abbrev uartDllOff : UInt32 := 0x00
abbrev uartIerUartOff : UInt32 := 0x04
abbrev uartDlhOff : UInt32 := 0x04
abbrev uartEfrOff : UInt32 := 0x08
abbrev uartFcrOff : UInt32 := 0x08
abbrev uartLcrOff : UInt32 := 0x0C
abbrev uartMcrOff : UInt32 := 0x10
abbrev uartLsrUartOff : UInt32 := 0x14
abbrev uartTlrOff : UInt32 := 0x1C
abbrev uartMdr1Off : UInt32 := 0x20
abbrev uartScrOff : UInt32 := 0x40
abbrev uartSyscOff : UInt32 := 0x54
abbrev uartSyssOff : UInt32 := 0x58

abbrev cmPerBase : UInt32 := 0x44E00000
abbrev cmWkupBase : UInt32 := 0x44E00400
abbrev cmPerUart1Clkctrl : UInt32 := 0x6C
abbrev cmWkupL4wkupClkctrl : UInt32 := 0x0C
abbrev cmWkupUart0Clkctrl : UInt32 := 0xB4

abbrev controlModuleBase : UInt32 := 0x44E10000
abbrev controlModuleUart0RxdOff : UInt32 := 0x970
abbrev controlModuleUart0TxdOff : UInt32 := 0x974
abbrev controlModuleUart1RxdOff : UInt32 := 0x980
abbrev controlModuleUart1TxdOff : UInt32 := 0x984

abbrev uart0IntNum : UInt32 := 72
abbrev uart1IntNum : UInt32 := 73

/-! ## The driver -/

/-- The format of a line, as `uart_init` is given it. -/
structure LineFormat where
  numStopBits : UInt16
  parityEn : UInt16
  parityType : UInt16
  charLength : UInt16

/-- The word for `LCR`. -/
def LineFormat.lcr (f : LineFormat) : UInt32 :=
  ((f.parityType.toUInt32 &&& 0x1) <<< 4) ||| ((f.parityEn.toUInt32 &&& 0x1) <<< 3) |||
    ((f.numStopBits.toUInt32 &&& 0x1) <<< 2) ||| ((f.charLength.toUInt32 - 5) &&& 0x3)

/-- The software reset of `uart_port_init`. -/
def softwareReset (baseAddr : UInt32) : Bus Unit := do
  reg32WriteMasked baseAddr uartSyscOff 0x2 0x2
  waitSet baseAddr uartSyssOff 0x1
  reg32Write baseAddr uartSyscOff 0x8

/-- The FIFO and DMA settings of `uart_port_init`. -/
def fifoSettings (baseAddr : UInt32) : Bus Unit := do
  let lcr ← reg32Read baseAddr uartLcrOff
  reg32Write baseAddr uartLcrOff 0xBF
  let efrBit4 ← reg32ReadMasked baseAddr uartEfrOff 0x10
  reg32WriteMasked baseAddr uartEfrOff 0x10 0x10
  reg32Write baseAddr uartLcrOff 0x80
  let mcrBit6 ← reg32ReadMasked baseAddr uartMcrOff 0x40
  reg32WriteMasked baseAddr uartMcrOff 0x40 0x40
  reg32Write baseAddr uartFcrOff 0x07
  reg32Write baseAddr uartLcrOff 0xBF
  reg32Write baseAddr uartTlrOff 0x00
  reg32Write baseAddr uartScrOff 0x00
  reg32WriteMasked baseAddr uartEfrOff 0x10 efrBit4
  reg32Write baseAddr uartLcrOff 0x80
  reg32WriteMasked baseAddr uartMcrOff 0x40 mcrBit6
  reg32Write baseAddr uartLcrOff lcr

/-- The protocol, baud rate and interrupt settings of `uart_port_init`. -/
def protocolSettings (baseAddr : UInt32) (format : LineFormat) : Bus Unit := do
  reg32WriteMasked baseAddr uartMdr1Off 0x7 0x7
  reg32Write baseAddr uartLcrOff 0xBF
  let efrBit4 ← reg32ReadMasked baseAddr uartEfrOff 0x10
  reg32WriteMasked baseAddr uartEfrOff 0x10 0x10
  reg32Write baseAddr uartLcrOff 0x00
  reg32Write baseAddr uartIerUartOff 0x00
  reg32Write baseAddr uartLcrOff 0xBF
  reg32Write baseAddr uartDllOff 0x1A
  reg32Write baseAddr uartDlhOff 0x00
  reg32Write baseAddr uartLcrOff 0x00
  reg32Write baseAddr uartIerUartOff 0x01
  reg32Write baseAddr uartLcrOff 0xBF
  reg32WriteMasked baseAddr uartEfrOff 0x10 efrBit4
  reg32Write baseAddr uartLcrOff format.lcr
  reg32Write baseAddr uartMdr1Off 0x0

/-- `uart_port_init`, which makes no use of its baud rate and of whether stop bits are enabled. -/
def uartPortInit (baseAddr _baudRate : UInt32) (_stopBitEn : UInt16) (format : LineFormat) :
    Bus Unit := do
  softwareReset baseAddr
  fifoSettings baseAddr
  protocolSettings baseAddr format

/-- The clocks and pins of UART0 in `uart_init`. -/
def uart0Clocks : Bus Unit := do
  reg32WriteMasked cmWkupBase cmWkupUart0Clkctrl 0x3 0x2
  waitClear cmWkupBase cmWkupUart0Clkctrl ((0x3 : UInt32) <<< 16)
  reg32WriteMasked cmWkupBase cmWkupL4wkupClkctrl 0x3 0x2
  waitClear cmWkupBase cmWkupL4wkupClkctrl ((0x3 : UInt32) <<< 16)
  reg32Write controlModuleBase controlModuleUart0RxdOff 0x30
  reg32Write controlModuleBase controlModuleUart0TxdOff 0x10

/-- The clocks and pins of UART1 in `uart_init`. -/
def uart1Clocks : Bus Unit := do
  reg32WriteMasked cmPerBase cmPerUart1Clkctrl 0x3 0x2
  waitClear cmPerBase cmPerUart1Clkctrl ((0x3 : UInt32) <<< 16)
  waitClear cmWkupBase cmWkupL4wkupClkctrl ((0x3 : UInt32) <<< 16)
  reg32Write controlModuleBase controlModuleUart1RxdOff 0x30
  reg32Write controlModuleBase controlModuleUart1TxdOff 0x10

section
variable {η : Type} (intcVectorTable : ℕ → η) (handler : η)

/-- `uart0_interrupt_init`, and with another number `uart1_interrupt_init`: the table after it. -/
def uartInterruptInit (intNum : UInt32) : Bus (ℕ → η) := do
  let table := (intcRegisterIrq intcVectorTable intNum handler).2
  intcSetPriority intNum 1
  let _ ← intcEnableIrq intNum
  return table

/-- `uart_init`, with the table and the receive buffers after it. -/
def uartInit (u : UartBuffers) (uartIndex : UInt16) (baudRate : UInt32) (stopBitEn : UInt16)
    (format : LineFormat) : Bus ((ℕ → η) × UartBuffers) :=
  if uartIndex = 0 then do
    uart0Clocks
    uartPortInit uart0Base baudRate stopBitEn format
    let table ← uartInterruptInit intcVectorTable handler uart0IntNum
    return (table, Function.update u 0 (u 0).init)
  else if uartIndex = 1 then do
    uart1Clocks
    uartPortInit uart1Base baudRate stopBitEn format
    let table ← uartInterruptInit intcVectorTable handler uart1IntNum
    return (table, Function.update u 1 (u 1).init)
  else return (intcVectorTable, u)

end

/-- `uart_putc`. -/
def uartPutc (c : UInt8) : Bus Unit := do
  if c = newline then do
    waitSet uart0Base uartLsrUartOff 0x20
    reg32Write uart0Base uartThrOff carriageReturn.toUInt32
  waitSet uart0Base uartLsrUartOff 0x20
  reg32Write uart0Base uartThrOff c.toUInt32

/-- `uart_puts`. -/
def uartPuts : List UInt8 → Bus Unit
  | [] => return ()
  | c :: cs => do
    uartPutc c
    uartPuts cs

/-- `uart_getc`, and `_uart_getc` of its base. -/
def uartGetc (uartBase : UInt32) : Bus UInt8 := do
  waitSet uartBase uartLsrUartOff 0x1
  return (← reg32Read uartBase uartRhrOff).toUInt8

/-- `handle_uart0_irq`, with the buffers it is called with. -/
def handleUart0Irq (u : UartBuffers) : Bus UartBuffers := do
  reg32Write uart0Base uartIerUartOff 0x00
  let c ← uartGetc uart0Base
  let c := receivedChar c
  uartPutc c
  reg32Write uart0Base uartIerUartOff 0x01
  return Function.update u 0 ((u 0).push c).2

/-- `handle_uart1_irq`, likewise. -/
def handleUart1Irq (u : UartBuffers) : Bus UartBuffers := do
  reg32Write uart1Base uartIerUartOff 0x00
  let c ← uartGetc uart1Base
  reg32Write uart1Base uartIerUartOff 0x01
  return Function.update u 1 ((u 1).push (receivedChar c)).2

/-- The handler of UART0, called `n` times. -/
def handleUart0Irqs : (n : ℕ) → UartBuffers → Bus UartBuffers
  | 0, u => return u
  | n + 1, u => do
    let u ← handleUart0Irq u
    handleUart0Irqs n u

/-- The handler of UART1, called `n` times. -/
def handleUart1Irqs : (n : ℕ) → UartBuffers → Bus UartBuffers
  | 0, u => return u
  | n + 1, u => do
    let u ← handleUart1Irq u
    handleUart1Irqs n u

/-! ## The port -/

/-- The registers of a port that hold what is written to them. -/
structure Config where
  lcr : UInt32
  efr : UInt32
  mcr : UInt32
  fcr : UInt32
  tlr : UInt32
  scr : UInt32
  dll : UInt32
  dlh : UInt32
  ier : UInt32
  mdr1 : UInt32
  sysc : UInt32
  deriving DecidableEq

/-- Which registers an offset means. -/
inductive Mode
  | operational
  | a
  | b
  deriving DecidableEq

namespace Config

variable (g : Config)

def mode : Mode :=
  if g.lcr = 0xBF then .b else if g.lcr &&& 0x80 ≠ 0 then .a else .operational

/-- The bits that `ENHANCED_EN` protects are not written without it. -/
def enhanced (bits old v : UInt32) : UInt32 :=
  if g.efr &&& 0x10 ≠ 0 then v else (old &&& bits) ||| (v &&& ~~~bits)

/-- `DLL` and `DLH` are written while the port is disabled. -/
def disabled : Bool := g.mdr1 &&& 0x7 == 0x7

def writeDivisor (g' : Config) : Config := if g.disabled then g' else g

def writeTlr (offset v : UInt32) : Config :=
  if offset = uartTlrOff ∧ g.efr &&& 0x10 ≠ 0 ∧ g.mcr &&& 0x40 ≠ 0 then { g with tlr := v } else g

/-- The registers after a write, but for `THR`. -/
def write (offset v : UInt32) : Config :=
  if offset = uartLcrOff then { g with lcr := v }
  else if offset = uartMdr1Off then { g with mdr1 := v }
  else if offset = uartScrOff then { g with scr := v }
  else if offset = uartSyscOff then { g with sysc := v }
  else match g.mode with
    | .operational =>
      if offset = uartIerUartOff then { g with ier := g.enhanced 0xF0 g.ier v }
      else if offset = uartFcrOff then { g with fcr := g.enhanced 0x30 g.fcr v }
      else if offset = uartMcrOff then { g with mcr := g.enhanced 0xE0 g.mcr v }
      else g.writeTlr offset v
    | .a =>
      if offset = uartDllOff then g.writeDivisor { g with dll := v }
      else if offset = uartDlhOff then g.writeDivisor { g with dlh := v }
      else if offset = uartFcrOff then { g with fcr := g.enhanced 0x30 g.fcr v }
      else if offset = uartMcrOff then { g with mcr := g.enhanced 0xE0 g.mcr v }
      else g.writeTlr offset v
    | .b =>
      if offset = uartDllOff then g.writeDivisor { g with dll := v }
      else if offset = uartDlhOff then g.writeDivisor { g with dlh := v }
      else if offset = uartEfrOff then { g with efr := v }
      else g.writeTlr offset v

/-- What a read returns, of the registers the driver reads back. -/
def read (offset : UInt32) : Option UInt32 :=
  if offset = uartLcrOff then some g.lcr
  else if offset = uartMdr1Off then some g.mdr1
  else if offset = uartSyscOff then some g.sysc
  else if offset = uartEfrOff ∧ g.mode = .b then some g.efr
  else if offset = uartMcrOff ∧ g.mode ≠ .b then some g.mcr
  else none

end Config

/-- A port. `holding` is what `THR` still holds, `wire` what has been sent, `fifo` what has been
received and not been read, and `arrived` all that has been received. -/
structure Port where
  config : Config
  resetting : Bool
  holding : Option UInt8
  wire : List UInt8
  fifo : List UInt8
  arrived : List UInt8
  deriving DecidableEq

/-- The 16x mode, in which a port sends and receives. -/
def Port.enabled (p : Port) : Prop := p.config.mdr1 &&& 0x7 = 0 ∧ p.resetting = false

namespace Port

/-- What happens between two accesses; a reset leaves the registers as `initial`. -/
inductive Move (initial : Config) : Port → Port → Prop
  | send {p : Port} {b : UInt8} (hp : p.enabled) (h : p.holding = some b) :
      Move initial p { p with holding := none, wire := p.wire ++ [b] }
  | receive {p : Port} (hp : p.enabled) (b : UInt8) :
      Move initial p { p with fifo := p.fifo ++ [b], arrived := p.arrived ++ [b] }
  | reset {p : Port} (h : p.resetting = true) :
      Move initial p { p with config := initial, resetting := false, holding := none, fifo := [] }

/-- What a read of a register may return, and what it does. -/
def Read (p : Port) (offset v : UInt32) (p' : Port) : Prop :=
  if offset = uartRhrOff ∧ p.config.mode = .operational then
    match p.fifo with
    | [] => p' = p
    | b :: fifo => v = b.toUInt32 ∧ p' = { p with fifo := fifo }
  else p' = p ∧
    (offset = uartLsrUartOff → p.config.mode ≠ .b →
      (v &&& 0x1 ≠ 0 ↔ p.fifo ≠ []) ∧ (v &&& 0x20 ≠ 0 ↔ p.holding = none)) ∧
    (offset = uartSyssOff → (v &&& 0x1 ≠ 0 ↔ p.resetting = false)) ∧
    ∀ r, p.config.read offset = some r → v = r

/-- What a write of a register does. -/
def write (p : Port) (offset v : UInt32) : Port :=
  if offset = uartThrOff ∧ p.config.mode = .operational then { p with holding := some v.toUInt8 }
  else if offset = uartSyscOff ∧ v &&& 0x2 ≠ 0 then { p with resetting := true }
  else if offset = uartFcrOff ∧ p.config.mode ≠ .b then
    { p with
      config := p.config.write offset v
      fifo := if v &&& 0x2 ≠ 0 then [] else p.fifo
      holding := if v &&& 0x4 ≠ 0 then none else p.holding }
  else { p with config := p.config.write offset v }

/-- The port at `base`; the registers of others are not its own. -/
def Access (base : UInt32) : BusAccess → Port → Port → Prop
  | .read base' offset v, p, p' => if base' = base then p.Read offset v p' else p' = p
  | .write base' offset v, p, p' => p' = if base' = base then p.write offset v else p

def device (base : UInt32) (initial : Config) : Device Port BusAccess :=
  ⟨Move initial, Access base⟩

/-- A port that is quick: what can be sent, is sent, and a reset is done at once. -/
def settle (initial : Config) (p : Port) : Port :=
  if p.resetting = true then
    { p with config := initial, resetting := false, holding := none, fifo := [] }
  else if p.config.mdr1 &&& 0x7 = 0 then
    { p with holding := none, wire := p.wire ++ p.holding.toList }
  else p

/-- What is read of a register whose value is known. -/
instance decidableValue (r : Option UInt32) (v : UInt32) :
    Decidable (∀ value, r = some value → v = value) := Option.decidableForallMem r

instance decidableTaken (p p' : Port) (v : UInt32) : Decidable (match p.fifo with
    | [] => p' = p
    | b :: fifo => v = b.toUInt32 ∧ p' = { p with fifo := fifo }) :=
  match p.fifo with
  | [] => inferInstance
  | _ :: _ => inferInstance

instance decidableRead (p p' : Port) (offset v : UInt32) : Decidable (p.Read offset v p') :=
  inferInstanceAs (Decidable (ite _ _ _))

/-- A quick port after a read. -/
def afterRead (p : Port) (offset : UInt32) : Port :=
  if offset = uartRhrOff ∧ p.config.mode = .operational then { p with fifo := p.fifo.tail } else p

/-- An access to a quick port, if it returns what it may. -/
def serve (base : UInt32) (initial : Config) (p : Port) : BusAccess → Option Port
  | .read base' offset v =>
    let p := p.settle initial
    if base' = base then
      if p.Read offset v (p.afterRead offset) then some (p.afterRead offset) else none
    else some p
  | .write base' offset v =>
    let p := p.settle initial
    some (if base' = base then p.write offset v else p)

end Port

end BeagleKernel.Serial
