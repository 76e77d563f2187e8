import BeagleKernel.Fat32.Path
import BeagleKernel.Lib.Traced
import BeagleKernel.Uart.Uart

/-!
# Printing

`uart_printf` down to the transmit register of UART0. A local array is the memory from its start
on, and an access past its end a fault, as is whatever else C leaves undefined. The variable
arguments are words, but for a string, which is passed as its characters.
-/

namespace BeagleKernel.Uart

open Fat32 (CString charAt)

/-- A byte of the format string is read, or a byte is transmitted. -/
inductive PrintEvent
  | format (i : ℕ)
  | transmit (c : UInt8)
  deriving DecidableEq

inductive PrintFault
  | outOfBounds
  | divisionByZero
  | badArgument
  | outOfFuel
  deriving DecidableEq

abbrev PrintProg := Traced PrintEvent PrintFault

/-- `'0'`. -/
abbrev digitZero : UInt8 := 0x30
/-- `'-'`. -/
abbrev minusSign : UInt8 := 0x2D
/-- `'%'`. -/
abbrev percent : UInt8 := 0x25

/-- `"0123456789abcdef"`, with its NUL. -/
def digitChars : List UInt8 :=
  [0x30, 0x31, 0x32, 0x33, 0x34, 0x35, 0x36, 0x37, 0x38, 0x39, 0x61, 0x62, 0x63, 0x64, 0x65, 0x66,
    0]

/-- `uart_putc`. -/
def uartPutc (c : UInt8) : PrintProg Unit := do
  if c = newline then
    Traced.event (.transmit carriageReturn) ()
    Traced.event (.transmit c) ()
  else Traced.event (.transmit c) ()

/-- `uart_puts` from `str[i]` on, in an array with `room` more bytes there. -/
def uartPuts (str : ℕ → UInt8) : (room i : ℕ) → PrintProg Unit
  | 0, _ => Traced.fault .outOfBounds
  | room + 1, i =>
    if str i = 0 then return ()
    else do
      uartPutc (str i)
      uartPuts str room (i + 1)

/-! ## Numbers -/

/-- The size of `buffer` in `print_number`. -/
abbrev numberBufferSize : ℕ := 32

def readAt (buffer : ℕ → UInt8) (i : ℕ) : PrintProg UInt8 :=
  if i < numberBufferSize then return buffer i else Traced.fault .outOfBounds

def writeAt (buffer : ℕ → UInt8) (i : ℕ) (c : UInt8) : PrintProg (ℕ → UInt8) :=
  if i < numberBufferSize then return Function.update buffer i c else Traced.fault .outOfBounds

/-- `"0123456789abcdef"[num % base]`. -/
def lastDigit (num base : UInt32) : PrintProg UInt8 :=
  if base = 0 then Traced.fault .divisionByZero
  else
    match digitChars[(num % base).toNat]? with
    | some c => return c
    | none => Traced.fault .outOfBounds

/-- The loop of `print_number` over the digits, with `room` bytes of the buffer from `ptr` on. -/
def digitLoop (base : UInt32) :
    (room ptr : ℕ) → (tempNum : UInt32) → (ℕ → UInt8) → PrintProg (ℕ × (ℕ → UInt8))
  | 0, ptr, tempNum, buffer =>
    if tempNum > 0 then Traced.fault .outOfBounds else return (ptr, buffer)
  | room + 1, ptr, tempNum, buffer =>
    if tempNum > 0 then do
      let c ← lastDigit tempNum base
      digitLoop base room (ptr + 1) (tempNum / base) (Function.update buffer ptr c)
    else return (ptr, buffer)

/-- The loop of `print_number` that reverses the string. -/
def reverseLoop : (ptr1 ptr : ℕ) → (ℕ → UInt8) → PrintProg (ℕ → UInt8)
  | _, 0, buffer => return buffer
  | ptr1, ptr + 1, buffer =>
    if ptr1 < ptr + 1 then do
      let tmpChar ← readAt buffer (ptr + 1)
      let c ← readAt buffer ptr1
      let buffer ← writeAt buffer (ptr + 1) c
      let buffer ← writeAt buffer ptr1 tmpChar
      reverseLoop (ptr1 + 1) ptr buffer
    else return buffer

/-- `print_number`, with `prior` in its buffer. -/
def printNumber (num : Int32) (base : UInt8) (isSigned : Bool) (prior : ℕ → UInt8) :
    PrintProg Unit :=
  if num = 0 then uartPutc digitZero
  else do
    let isNegative : Bool := num < 0 && base == 10 && isSigned
    -- the negation wraps, so that of the least `int` is itself
    let tempNum := if isNegative then (-num).toUInt32 else num.toUInt32
    let (ptr, buffer) ← digitLoop base.toUInt32 numberBufferSize 0 tempNum prior
    let (ptr, buffer) ←
      if isNegative then do
        let buffer ← writeAt buffer ptr minusSign
        pure (ptr + 1, buffer)
      else pure (ptr, buffer)
    let buffer ← writeAt buffer ptr 0
    let buffer ← reverseLoop 0 (ptr - 1) buffer
    uartPuts buffer numberBufferSize 0

/-- The conversions `uart_vprintf` calls `print_number` for. -/
inductive NumberCall
  | d
  | u
  | x

namespace NumberCall

/-- The character of the conversion. -/
def char : NumberCall → UInt8
  | d => 0x64
  | u => 0x75
  | x => 0x78

def base : NumberCall → UInt8
  | d => 10
  | u => 10
  | x => 16

def isSigned : NumberCall → Bool
  | d => true
  | u => false
  | x => true

/-- The number an argument stands for. -/
def value (w : UInt32) : NumberCall → ℤ
  | d => w.toInt32.toInt
  | u => w.toNat
  | x => w.toNat

end NumberCall

/-! ## Formats -/

/-- A variable argument. -/
inductive VaArg
  | word (w : UInt32)
  | str (s : CString)

/-- `va_arg(ap, int)`. -/
def vaWord : List VaArg → PrintProg (UInt32 × List VaArg)
  | .word w :: ap => return (w, ap)
  | _ => Traced.fault .badArgument

/-- `va_arg(ap, char*)`. -/
def vaStr : List VaArg → PrintProg (CString × List VaArg)
  | .str s :: ap => return (s, ap)
  | _ => Traced.fault .badArgument

/-- The `switch` of `uart_vprintf`, on the character after a `%`. -/
def convert (c : UInt8) (ap : List VaArg) (prior : ℕ → UInt8) : PrintProg (List VaArg) :=
  if c = 0x64 then do -- 'd'
    let (w, ap) ← vaWord ap
    printNumber w.toInt32 10 true prior
    return ap
  else if c = 0x75 then do -- 'u'
    let (w, ap) ← vaWord ap
    printNumber w.toInt32 10 false prior
    return ap
  else if c = 0x78 then do -- 'x'
    let (w, ap) ← vaWord ap
    printNumber w.toInt32 16 true prior
    return ap
  else if c = 0x73 then do -- 's'
    let (s, ap) ← vaStr ap
    uartPuts (charAt s.chars) (s.chars.length + 1) 0
    return ap
  else if c = 0x63 then do -- 'c'
    let (w, ap) ← vaWord ap
    uartPutc w.toUInt8
    return ap
  else do
    uartPutc c
    return ap

/-- `fmt[pos]`. -/
def readFormat (fmt : ℕ → UInt8) (pos : ℕ) : PrintProg UInt8 :=
  Traced.event (.format pos) (fmt pos)

/-- The loop of `uart_vprintf` from `fmt[pos]` on, for `fuel` characters and conversions: where it
stops. `prior pos` is in the buffer of a number converted at `pos`. -/
def uartVprintf (fmt : ℕ → UInt8) (prior : ℕ → ℕ → UInt8) :
    (fuel pos : ℕ) → List VaArg → PrintProg ℕ
  | 0, _, _ => Traced.fault .outOfFuel
  | fuel + 1, pos, ap => do
    let c ← readFormat fmt pos
    if c = 0 then return pos
    else if c = percent then do
      let conversion ← readFormat fmt (pos + 1)
      let ap ← convert conversion ap (prior pos)
      uartVprintf fmt prior fuel (pos + 2) ap
    else do
      uartPutc c
      uartVprintf fmt prior fuel (pos + 1) ap

/-- A string in memory, with its NUL and what comes after it. -/
def inMemory (s : CString) (after : ℕ → UInt8) (i : ℕ) : UInt8 :=
  if i ≤ s.chars.length then charAt s.chars i else after (i - s.chars.length - 1)

end BeagleKernel.Uart
