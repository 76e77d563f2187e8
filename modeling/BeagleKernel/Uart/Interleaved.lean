import BeagleKernel.Lib.Records
import BeagleKernel.Lib.Runs
import BeagleKernel.Uart.Uart

/-!
# UART1 while a line is read

`uart_readline` one round of its loop at a time, so that a byte can arrive between two of them.
Inside a round the interrupt and the pop share the buffer's fields; that race is not modelled.
-/

namespace BeagleKernel.Uart

/-- A call of `uart_readline(1, buffer, buffer_size)` past its checks, where `limit` is
`buffer_size - 1`; `looping` is false after a `break`. -/
structure Call where
  limit : ℕ
  i : ℕ
  buffer : ℕ → UInt8
  looping : Bool

/-- What the call has stored so far. -/
def Call.line (c : Call) : List UInt8 := (List.range c.i).map c.buffer

/-- The receive buffers, and the call that is going on. -/
structure Port where
  uart : UartBuffers
  call : Option Call

/-- A round of the loop. -/
def Call.round (c : Call) (u : UartBuffers) : Port :=
  match uartGetchar u 1 with
  | (none, u) => ⟨u, some { c with looping := false }⟩
  | (some a, u) =>
    ⟨u, some { c with
      i := c.i + 1
      buffer := Function.update c.buffer c.i a
      looping := a ≠ newline }⟩

inductive Action
  | receive (byte : UInt8)
  | call (buffer : ℕ → UInt8) (size : UInt32)
  | round
  | ret

/-- A call with no line to read returns at once; another one goes round the loop while there is
room, and then returns what it stored. -/
def Action.exec (p : Port) : Action → Option Port
  | receive byte => some { p with uart := handleUart1Irq p.uart byte }
  | call buffer size =>
    if p.call.isSome then none
    else if (p.uart 1).lines = 0 then some p
    else some { p with call := some ⟨(size - 1).toNat, 0, buffer, true⟩ }
  | round => p.call.bind fun c => if c.looping ∧ c.i < c.limit then some (c.round p.uart) else none
  | ret => p.call.bind fun c =>
    if c.looping ∧ c.i < c.limit then none else some { p with call := none }

def PortStep (a : Action) (p p' : Port) : Prop := a.exec p = some p'

/-- After `uart_init(1)`. -/
def Port.start (u : UartBuffers) : Port := ⟨uartInit u 1, none⟩

/-! ## What goes in and what comes out -/

/-- The byte stream a run received. -/
def received (as : List (Port × Action)) : List UInt8 :=
  as.filterMap fun x => match x.2 with
    | .receive byte => some (receivedChar byte)
    | _ => none

/-- The lines a run's calls returned. -/
def results (as : List (Port × Action)) : List (List UInt8) :=
  as.filterMap fun x => match x.2 with
    | .ret => x.1.call.map Call.line
    | _ => none

/-- The complete lines of what a run received. -/
def linesReceived (as : List (Port × Action)) : List (List UInt8) :=
  (records newline (received as)).1

/-- Each call has room for any line, its newline and the `NUL`. -/
def CallsFit (as : List (Port × Action)) : Prop :=
  ∀ x ∈ as, ∀ buffer size, x.2 = .call buffer size →
    ∀ l ∈ linesReceived as, l.length + 1 ≤ size.toNat

/-! ## Room for a line -/

/-- There is room in the receive buffer. -/
def Port.room (p : Port) : Bool := (p.uart 1).size ≠ charBufferSize

/-- Whether the first byte of the line that is arriving found room; `none` between two lines. -/
def lineRoom (as : List (Port × Action)) : Option Bool :=
  as.foldl (fun o x => match x.2 with
    | .receive byte => if receivedChar byte = newline then none else some (o.getD x.1.room)
    | _ => o) none

/-- Each byte finds room in the receive buffer exactly if the first byte of its line did. -/
def RoomByLine (as : List (Port × Action)) : Prop :=
  ∀ pre x post byte, as = pre ++ x :: post → x.2 = .receive byte →
    (lineRoom pre).getD x.1.room = x.1.room

end BeagleKernel.Uart
