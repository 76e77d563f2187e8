import BeagleKernel.Lib.ArmBlocks

/-!
# The context switch

`scheduler_asm.S`, and the handlers of `interrupt_handlers.S` that use it, as far as the branch to
the C code. The addresses are the linker's.
-/

namespace BeagleKernel.Switch

open Arm

/-- The calls of the two handlers. -/
inductive CallSite
  | saveSpAndLrUsr
  | loadOsSp
  | saveContext
  deriving DecidableEq, Repr

/-- The words the routines name, and the addresses behind their calls. -/
structure Symbols where
  currentProcess : UInt32
  pcCache : UInt32
  osSpCache : UInt32
  usrSpCache : UInt32
  irqLrCache : UInt32
  r0Cache : UInt32
  r1Cache : UInt32
  svcReturn : CallSite → UInt32
  irqReturn : CallSite → UInt32

/-- `R0_OFF` to `LR_OFF`. -/
def regOff (r : Reg) : UInt32 := 4 * UInt32.ofNat r

def cpsrOff : UInt32 := 60
def pcOff : UInt32 := 64

def modeSupervisor : UInt32 := 0x13
def modeSystem : UInt32 := 0x1f

/-- The registers `save_context_asm` stores as they are. -/
def plainRegs : List Reg := [2, 3, 4, 5, 6, 7, 8, 9, 10, 11, 12]

/-- The registers `restore_context_asm` pushes, and those it pops before it saves the OS stack. -/
def pushedRegs : List Reg := [sp, lr, 12, 11, 10, 9, 8, 7, 6, 5, 4, 3, 2, 1, 0]
def poppedRegs : List Reg := [0, 1, 2, 3, 4, 5, 6, 7, 8, 9, 10, 11, 12, lr]

variable (k : Symbols)

def saveSpAndLrUsr (ret : UInt32) : List Instr :=
  [.strAt 0 k.usrSpCache, .strAt 1 k.irqLrCache, .bx ret]

def loadOsSp (ret : UInt32) : List Instr :=
  [.ldrAt sp k.osSpCache, .bx ret]

/-- `r0 = current_process`. -/
def ldrCurrentProcess : List Instr := [.ldrConst 0 k.currentProcess, .ldr 0 0 0]

def saveContextAsm (ret : UInt32) : List Instr :=
  [.push 0, .push 1] ++ ldrCurrentProcess k ++ plainRegs.flatMap (storeReg 0 1 regOff) ++
    [.ldrAt 1 k.usrSpCache, .str 1 0 (regOff sp), .ldrAt 1 k.irqLrCache, .str 1 0 (regOff lr),
      .str 1 0 pcOff, .mrsSpsr 1, .str 1 0 cpsrOff] ++
    -- the word pushed last is `r1`, and goes to the slot of `r0`
    [.pop 1, .str 1 0 (regOff 0), .pop 1, .str 1 0 (regOff 1), .bx ret]

/-- `restore_context_asm`, to the `bic`. -/
def stageContext : List Instr :=
  ldrCurrentProcess k ++ [.ldr 1 0 pcOff, .strAt 1 k.pcCache] ++
    (pushedRegs.map regOff).flatMap (pushWord 0 1) ++ [.ldr 1 0 cpsrOff, .bic 1 1 iBit]

/-- What is left when `restore_context_asm` has written `cpsr`. -/
def resumeContext : List Instr :=
  poppedRegs.map .pop ++ [.strAt sp k.osSpCache, .pop sp, .ldrPc k.pcCache]

def restoreContextAsm : List Instr := stageContext k ++ .msr 1 :: resumeContext k

/-- To System mode, with `CPSR.I` as it is. -/
def toSystem : List Instr := [.mrsCpsr 1, .orr 1 1 modeSystem, .msr 1]

/-- `sp` and `lr` of the process to their caches. -/
def cacheSpAndLr (ret : UInt32) : List Instr :=
  [.mov 0 sp, .mov 1 lr, .bl ret] ++ saveSpAndLrUsr k ret

/-- The end of both handlers: on the stack of the OS, save the context. -/
def saveOnOsStack (ret : CallSite → UInt32) : List Instr :=
  .bl (ret .loadOsSp) :: loadOsSp k (ret .loadOsSp) ++
    .bl (ret .saveContext) :: saveContextAsm k (ret .saveContext)

/-- `svc_handler_asm`, up to its second write of `CPSR`. -/
def svcHead : List Instr :=
  [.push 0, .push 1] ++ toSystem ++ cacheSpAndLr k (k.svcReturn .saveSpAndLrUsr) ++
    [.cpsid modeSupervisor, .pop 1, .pop 0]

/-- `svc_handler_asm`, up to the branch to `scheduler_run`. -/
def svcHandlerAsm : List Instr :=
  svcHead k ++ .msrImm modeSystem :: saveOnOsStack k k.svcReturn

/-- `irq_handler_asm`, until the registers of the process are in place again. -/
def irqHead : List Instr :=
  [.sub lr lr 4, .strAt 0 k.r0Cache, .strAt 1 k.r1Cache] ++ toSystem ++
    cacheSpAndLr k (k.irqReturn .saveSpAndLrUsr) ++ [.ldrAt 0 k.r0Cache, .ldrAt 1 k.r1Cache]

/-- `irq_handler_asm`, up to the reads of the interrupt controller. -/
def irqHandlerAsm : List Instr := irqHead k ++ saveOnOsStack k k.irqReturn

/-- A process yields: `swi`, and the handler up to `scheduler_run`. -/
def yieldPath (c : Cpu) : Option Cpu := run (svcHandlerAsm k) c.swi

/-- A process is interrupted: the handler up to the interrupt controller. -/
def irqPath (c : Cpu) : Option Cpu := run (irqHandlerAsm k) c.irq

/-! ## Where they work -/

/-- The words the routines name. -/
def Symbols.words : List UInt32 :=
  [k.currentProcess, k.pcCache, k.osSpCache, k.usrSpCache, k.irqLrCache, k.r0Cache, k.r1Cache]

/-- The words of a process the routines read and write. -/
def pcbWords (pcb : UInt32) : List UInt32 :=
  (List.finRange 15).map (pcb + regOff ·) ++ [pcb + cpsrOff, pcb + pcOff]

/-- Words at their own addresses. -/
structure Apart (words : List UInt32) : Prop where
  aligned : ∀ a ∈ words, Aligned a
  nodup : words.Nodup

end BeagleKernel.Switch
