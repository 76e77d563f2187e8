import BeagleKernel.Common.CircularBuffer

/-!
# The UART receive path

The interrupt handler of UART1 and the reading functions of `uart.c`, over their receive buffers.
A `char` is a byte: it is unsigned on this machine. The caller's buffer is the memory from `buffer`
on. The registers and the clocks stay out.
-/

namespace BeagleKernel.Uart

/-- `uart_buffers`. -/
abbrev UartBuffers := Fin 2 → CircularCharBuffer

/-- The receive buffers before `uart_init`. -/
def zeroed : UartBuffers := fun _ => ⟨fun _ => 0, 0, 0, 0, 0⟩

/-- `'\r'`. -/
abbrev carriageReturn : UInt8 := 0x0D

/-- What `uart_init` does to the receive buffers. -/
def uartInit (u : UartBuffers) (uartIndex : UInt16) : UartBuffers :=
  if h : uartIndex.toNat < 2 then Function.update u ⟨_, h⟩ (u ⟨_, h⟩).init else u

/-- The character a handler pushes for a byte it reads. -/
def receivedChar (byte : UInt8) : UInt8 := if byte = carriageReturn then newline else byte

/-- `handle_uart1_irq`, with `byte` in the receive register. -/
def handleUart1Irq (u : UartBuffers) (byte : UInt8) : UartBuffers :=
  Function.update u 1 ((u 1).push (receivedChar byte)).2

/-- `uart_getchar`: `*c`, or `none` where it returns 0. -/
def uartGetchar (u : UartBuffers) (uartIndex : UInt16) : Option UInt8 × UartBuffers :=
  if h : uartIndex.toNat < 2 then
    ((u ⟨_, h⟩).pop.1, Function.update u ⟨_, h⟩ (u ⟨_, h⟩).pop.2)
  else (none, u)

/-- The loop of `uart_readline`, with room for `room` more characters. -/
def readlineLoop (uartIndex : UInt16) :
    (room i : ℕ) → (buffer : ℕ → UInt8) → UartBuffers → ℕ × (ℕ → UInt8) × UartBuffers
  | 0, i, buffer, u => (i, buffer, u)
  | room + 1, i, buffer, u =>
    match uartGetchar u uartIndex with
    | (none, u) => (i, buffer, u)
    | (some c, u) =>
      let buffer := Function.update buffer i c
      if c = newline then (i + 1, buffer, u) else readlineLoop uartIndex room (i + 1) buffer u

/-- `uart_readline`: its result, and the caller's buffer and the receive buffers after it. -/
def uartReadline (u : UartBuffers) (uartIndex : UInt16) (buffer : ℕ → UInt8)
    (bufferSize : UInt32) : ℕ × (ℕ → UInt8) × UartBuffers :=
  if h : uartIndex.toNat < 2 then
    if (u ⟨_, h⟩).lines = 0 then (0, buffer, u)
    else
      let (i, buffer, u) := readlineLoop uartIndex (bufferSize - 1).toNat 0 buffer u
      (i, Function.update buffer i 0, u)
  else (0, buffer, u)

/-! ## UART1 over time -/

/-- What happens on UART1: a byte arrives, or a line is read into `buffer`. -/
inductive Event
  | receive (byte : UInt8)
  | readline (buffer : ℕ → UInt8) (size : UInt32)

def Event.exec (u : UartBuffers) : Event → UartBuffers
  | receive byte => handleUart1Irq u byte
  | readline buffer size => (uartReadline u 1 buffer size).2.2

def Step (e : Event) (u u' : UartBuffers) : Prop := e.exec u = u'

/-- A read has room for a character and the `NUL`. -/
def Event.Ok : Event → Prop
  | receive _ => True
  | readline _ size => 2 ≤ size.toNat

end BeagleKernel.Uart
