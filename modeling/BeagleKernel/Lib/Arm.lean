import BeagleKernel.Lib.Words
import Mathlib.Algebra.Ring.Nat
import Mathlib.Logic.Function.Basic
import Mathlib.Tactic.Common

/-!
# An ARM core

The instructions a context switch is written with, on the registers of an ARMv7-A core in ARM
state. A register is a physical one found by the mode's bank, so a change of mode changes what
`sp` and `lr` name. `exec` stops at an unaligned word and at a mode that does not exist. Of two
things the architecture leaves open something is assumed of the core: reading `spsr` where there
is none gives a value of its own, and a `sp` popped from its own stack is the word popped.
-/

namespace BeagleKernel.Arm

/-- The modes by the registers they see; User and System see the same. -/
inductive Bank
  | usr
  | fiq
  | irq
  | svc
  | abt
  | und
  deriving DecidableEq, Repr

/-- `r0` to `r14`. -/
abbrev Reg := Fin 15

instance neZero_reg : NeZero 15 := ⟨Nat.succ_ne_zero 14⟩

abbrev sp : Reg := 13
abbrev lr : Reg := 14

def modeMask : UInt32 := 0x1f
def iBit : UInt32 := 0x80
/-- What an instruction writes of `cpsr_fc`, and what it writes in User mode. -/
def fcMask : UInt32 := 0xf80000df
def flagMask : UInt32 := 0xf8000000

def bankOf (cpsr : UInt32) : Option Bank :=
  match (cpsr &&& modeMask).toNat with
  | 0x10 => some .usr
  | 0x11 => some .fiq
  | 0x12 => some .irq
  | 0x13 => some .svc
  | 0x17 => some .abt
  | 0x1b => some .und
  | 0x1f => some .usr
  | _ => none

/-- `old`, with the bits of `mask` from `new`. -/
def masked (mask old new : UInt32) : UInt32 := old &&& ~~~mask ||| new &&& mask

/-- Where a bank keeps a register. -/
def phys (b : Bank) (r : Reg) : Bank × Reg :=
  (if r < 8 then .usr else if r < 13 then (if b = .fiq then .fiq else .usr) else b, r)

/-- The core and its memory, by the word. `pc` is the instruction a process is at. -/
structure Cpu where
  file : Bank × Reg → UInt32
  spsr : Bank → UInt32
  cpsr : UInt32
  pc : UInt32
  mem : UInt32 → UInt32

def Aligned (a : UInt32) : Prop := a.toNat % 4 = 0

instance (a : UInt32) : Decidable (Aligned a) := inferInstanceAs (Decidable (_ = _))

namespace Cpu

variable (c : Cpu)

def bank : Bank := (bankOf c.cpsr).getD .usr

def privileged : Bool := c.cpsr &&& modeMask != 0x10

/-- `CPSR.I = 1`. -/
def Masked : Prop := c.cpsr &&& iBit = iBit

instance : Decidable c.Masked := inferInstanceAs (Decidable (_ = _))

def get (r : Reg) : UInt32 := c.file (phys c.bank r)

def set (r : Reg) (v : UInt32) : Cpu := { c with file := Function.update c.file (phys c.bank r) v }

def write (a v : UInt32) : Cpu := { c with mem := Function.update c.mem a v }

def load (a : UInt32) : Option UInt32 := if Aligned a then some (c.mem a) else none

def store (a v : UInt32) : Option Cpu := if Aligned a then some (c.write a v) else none

/-- Execution goes on at `v`. -/
def jump (v : UInt32) : Cpu := { c with pc := v }

def withCpsr (v : UInt32) : Cpu := { c with cpsr := v }

def setCpsr (v : UInt32) : Option Cpu := if (bankOf v).isSome then some (c.withCpsr v) else none

/-- `msr cpsr_fc`. -/
def msr (v : UInt32) : Option Cpu :=
  c.setCpsr (masked (if c.privileged then fcMask else flagMask) c.cpsr v)

/-- `cpsid i, #mode`. -/
def cpsid (mode : UInt32) : Option Cpu :=
  if c.privileged then c.setCpsr (masked (iBit ||| modeMask) c.cpsr (iBit ||| mode)) else some c

/-- The core takes an exception, to return to `ret` from. -/
def enter (b : Bank) (mode bits ret : UInt32) : Cpu :=
  { c with
    file := Function.update c.file (b, lr) ret
    spsr := Function.update c.spsr b c.cpsr
    cpsr := masked (bits ||| modeMask) c.cpsr (bits ||| mode) }

/-- The exception of a `swi`. -/
def swi : Cpu := c.enter .svc 0x13 iBit (c.pc + 4)

/-- An interrupt before the instruction at `pc`; it masks asynchronous aborts too. -/
def irq : Cpu := c.enter .irq 0x12 (iBit ||| 0x100) (c.pc + 4)

end Cpu

/-- A call is `bl`, with the address behind it, and then the instructions called, which end in a
`bx lr` to that address. `ldrAt` and `strAt` take their address from the program counter. -/
inductive Instr
  | push (r : Reg)
  | pop (r : Reg)
  | mov (d s : Reg)
  | sub (d s : Reg) (v : UInt32)
  | orr (d s : Reg) (v : UInt32)
  | bic (d s : Reg) (v : UInt32)
  | ldrConst (d : Reg) (v : UInt32)
  | ldr (d base : Reg) (off : UInt32)
  | str (s base : Reg) (off : UInt32)
  | ldrAt (d : Reg) (a : UInt32)
  | strAt (s : Reg) (a : UInt32)
  | ldrPc (a : UInt32)
  | mrsCpsr (d : Reg)
  | mrsSpsr (d : Reg)
  | msr (s : Reg)
  | msrImm (v : UInt32)
  | cpsid (mode : UInt32)
  | bl (ret : UInt32)
  | bx (ret : UInt32)
  deriving DecidableEq, Repr

/-- What `mrs` shows of `cpsr`. -/
def readMask : UInt32 := 0xf8ff03df

def exec : Instr → Cpu → Option Cpu
  | .push r, c => (c.store (c.get sp - 4) (c.get r)).map fun c' => c'.set sp (c.get sp - 4)
  | .pop r, c => (c.load (c.get sp)).map fun v => (c.set sp (c.get sp + 4)).set r v
  | .mov d s, c => some (c.set d (c.get s))
  | .sub d s v, c => some (c.set d (c.get s - v))
  | .orr d s v, c => some (c.set d (c.get s ||| v))
  | .bic d s v, c => some (c.set d (c.get s &&& ~~~v))
  | .ldrConst d v, c => some (c.set d v)
  | .ldr d base off, c => (c.load (c.get base + off)).map (c.set d)
  | .str s base off, c => c.store (c.get base + off) (c.get s)
  | .ldrAt d a, c => (c.load a).map (c.set d)
  | .strAt s a, c => c.store a (c.get s)
  | .ldrPc a, c => (c.load a).map c.jump
  | .mrsCpsr d, c => some (c.set d (c.cpsr &&& readMask))
  | .mrsSpsr d, c => some (c.set d (c.spsr c.bank))
  | .msr s, c => c.msr (c.get s)
  | .msrImm v, c => c.msr v
  | .cpsid mode, c => c.cpsid mode
  | .bl ret, c => some (c.set lr ret)
  | .bx ret, c => if c.get lr = ret then some c else none

def run : List Instr → Cpu → Option Cpu
  | [], c => some c
  | i :: is, c => (exec i c).bind (run is)

@[simp] theorem run_nil (c : Cpu) : run [] c = some c := rfl

theorem run_cons (i : Instr) (is : List Instr) (c : Cpu) :
    run (i :: is) c = (exec i c).bind (run is) := rfl

theorem run_append (is js : List Instr) (c : Cpu) :
    run (is ++ js) c = (run is c).bind (run js) := by
  induction is generalizing c with
  | nil => rfl
  | cons i is ih =>
    rw [List.cons_append, run_cons, run_cons, Option.bind_assoc]
    exact congrArg _ (funext ih)

theorem run_cons_of {i : Instr} {c c' : Cpu} (h : exec i c = some c') (is : List Instr) :
    run (i :: is) c = run is c' := by
  rw [run_cons, h, Option.bind_some]

theorem run_append_of {is : List Instr} {c c' : Cpu} (h : run is c = some c') (js : List Instr) :
    run (is ++ js) c = run js c' := by
  rw [run_append, h, Option.bind_some]

/-! ## Status words -/

theorem and_or_absorb (a k : UInt32) : a &&& k ||| k = k := by
  apply UInt32.toBitVec_inj.1
  ext i
  simp

/-- A field is written where the mask covers it. -/
theorem masked_and_of_sub {m k : UInt32} (h : m &&& k = k) (a b : UInt32) :
    masked m a b &&& k = b &&& k := by
  have h0 : ~~~m &&& k = 0 := by
    rw [← h, ← UInt32.and_assoc, UInt32.not_and_self, UInt32.zero_and]
  rw [masked, UInt32.or_and_distrib, UInt32.and_assoc, UInt32.and_assoc, h, h0, UInt32.and_zero,
    UInt32.zero_or]

theorem masked_and_of_disjoint {m k : UInt32} (h : m &&& k = 0) (h' : ~~~m &&& k = k)
    (a b : UInt32) : masked m a b &&& k = a &&& k := by
  rw [masked, UInt32.or_and_distrib, UInt32.and_assoc, UInt32.and_assoc, h, h', UInt32.and_zero,
    UInt32.or_zero]

theorem aligned_add_four {a : UInt32} (h : Aligned a) : Aligned (a + 4) := by
  rw [Aligned] at h ⊢
  rw [UInt32.toNat_add]
  have : (4 : UInt32).toNat = 4 := rfl
  omega

theorem bankOf_congr {a b : UInt32} (h : a &&& modeMask = b &&& modeMask) :
    bankOf a = bankOf b := by
  rw [bankOf, bankOf, h]

/-! ## Registers -/

theorem phys_inj {b : Bank} {q r : Reg} : phys b q = phys b r ↔ q = r :=
  ⟨fun h => congrArg Prod.snd h, fun h => h ▸ rfl⟩

namespace Cpu

variable (c : Cpu) (r q : Reg) (v : UInt32)

@[simp] theorem set_cpsr : (c.set r v).cpsr = c.cpsr := rfl
@[simp] theorem set_spsr : (c.set r v).spsr = c.spsr := rfl
@[simp] theorem set_pc : (c.set r v).pc = c.pc := rfl
@[simp] theorem set_mem : (c.set r v).mem = c.mem := rfl
@[simp] theorem set_bank : (c.set r v).bank = c.bank := rfl
@[simp] theorem set_privileged : (c.set r v).privileged = c.privileged := rfl

theorem set_file (p : Bank × Reg) :
    (c.set r v).file p = if p = phys c.bank r then v else c.file p :=
  Function.update_apply ..

theorem get_set : (c.set r v).get q = if q = r then v else c.get q := by
  simp only [get, set, Function.update_apply]
  exact if_congr phys_inj rfl rfl

@[simp] theorem get_set_self : (c.set r v).get r = v := by rw [get_set, if_pos rfl]

theorem get_set_of_ne {r q : Reg} (h : q ≠ r) : (c.set r v).get q = c.get q := by
  rw [get_set, if_neg h]

theorem set_set (w : UInt32) : (c.set r v).set r w = c.set r w :=
  congrArg (fun file => { c with file }) (Function.update_idem ..)

theorem set_comm {r q : Reg} (h : r ≠ q) (w : UInt32) :
    (c.set r v).set q w = (c.set q w).set r v :=
  congrArg (fun file => { c with file })
    (Function.update_comm (fun heq => h (phys_inj.1 heq)) v w c.file)

@[simp] theorem write_cpsr (a : UInt32) : (c.write a v).cpsr = c.cpsr := rfl
@[simp] theorem write_spsr (a : UInt32) : (c.write a v).spsr = c.spsr := rfl
@[simp] theorem write_file (a : UInt32) : (c.write a v).file = c.file := rfl
@[simp] theorem write_pc (a : UInt32) : (c.write a v).pc = c.pc := rfl
@[simp] theorem write_bank (a : UInt32) : (c.write a v).bank = c.bank := rfl
@[simp] theorem write_get (a : UInt32) : (c.write a v).get r = c.get r := rfl
@[simp] theorem write_set (a w : UInt32) : (c.write a v).set r w = (c.set r w).write a v := rfl

theorem write_mem (a b : UInt32) : (c.write a v).mem b = if b = a then v else c.mem b :=
  Function.update_apply ..

@[simp] theorem write_mem_self (a : UInt32) : (c.write a v).mem a = v := Function.update_self ..

theorem write_mem_of_ne {a b : UInt32} (h : b ≠ a) : (c.write a v).mem b = c.mem b :=
  Function.update_of_ne h ..

@[simp] theorem jump_get : (c.jump v).get r = c.get r := rfl
@[simp] theorem jump_cpsr : (c.jump v).cpsr = c.cpsr := rfl
@[simp] theorem jump_pc : (c.jump v).pc = v := rfl
@[simp] theorem jump_mem : (c.jump v).mem = c.mem := rfl

@[simp] theorem withCpsr_cpsr : (c.withCpsr v).cpsr = v := rfl
@[simp] theorem withCpsr_file : (c.withCpsr v).file = c.file := rfl
@[simp] theorem withCpsr_spsr : (c.withCpsr v).spsr = c.spsr := rfl
@[simp] theorem withCpsr_mem : (c.withCpsr v).mem = c.mem := rfl

theorem enter_file_of_ne {b : Bank} {mode bits ret : UInt32} {p : Bank × Reg} (h : p ≠ (b, lr)) :
    (c.enter b mode bits ret).file p = c.file p :=
  Function.update_of_ne h ..

theorem enter_spsr_of_ne {b b' : Bank} {mode bits ret : UInt32} (h : b' ≠ b) :
    (c.enter b mode bits ret).spsr b' = c.spsr b' :=
  Function.update_of_ne h ..

theorem bank_of {b : Bank} (h : bankOf c.cpsr = some b) : c.bank = b := by
  rw [bank, h, Option.getD_some]

theorem setCpsr_of {b : Bank} (h : bankOf v = some b) : c.setCpsr v = some (c.withCpsr v) := by
  rw [setCpsr, h]
  rfl

theorem load_of {a : UInt32} (h : Aligned a) : c.load a = some (c.mem a) := if_pos h

theorem store_of {a : UInt32} (h : Aligned a) (v : UInt32) : c.store a v = some (c.write a v) :=
  if_pos h

end Cpu

/-! ## Instructions that touch a word -/

section
variable {c : Cpu} {a ret : UInt32} {d r base : Reg} {off : UInt32}

theorem exec_push (h : Aligned (c.get sp - 4)) :
    exec (.push r) c = some ((c.set sp (c.get sp - 4)).write (c.get sp - 4) (c.get r)) := by
  rw [exec, Cpu.store_of _ h, Option.map_some, Cpu.write_set]

theorem exec_pop (h : Aligned (c.get sp)) :
    exec (.pop r) c = some ((c.set sp (c.get sp + 4)).set r (c.mem (c.get sp))) := by
  rw [exec, Cpu.load_of _ h, Option.map_some]

theorem exec_ldr (h : Aligned (c.get base + off)) :
    exec (.ldr d base off) c = some (c.set d (c.mem (c.get base + off))) := by
  rw [exec, Cpu.load_of _ h, Option.map_some]

theorem exec_ldrAt (h : Aligned a) : exec (.ldrAt d a) c = some (c.set d (c.mem a)) := by
  rw [exec, Cpu.load_of _ h, Option.map_some]

theorem exec_strAt (h : Aligned a) : exec (.strAt r a) c = some (c.write a (c.get r)) :=
  Cpu.store_of _ h _

theorem exec_ldrPc (h : Aligned a) : exec (.ldrPc a) c = some (c.jump (c.mem a)) := by
  rw [exec, Cpu.load_of _ h, Option.map_some]

theorem exec_bl : exec (.bl ret) c = some (c.set lr ret) := rfl

theorem exec_bx (h : c.get lr = ret) : exec (.bx ret) c = some c := if_pos h

end

end BeagleKernel.Arm
