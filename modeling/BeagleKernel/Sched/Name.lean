import BeagleKernel.Fat32.Path
import BeagleKernel.Sched.Process

/-!
# Naming a process

The kernel's `snprintf`, as the stores it makes from its destination on, and a process whose name
it stores. The name lies in four words of the process, right before its `pid`.
-/

namespace BeagleKernel.Sched

open Fat32 (CString charAt)

/-- The loop of `snprintf` from an index on: its stores, and the index it ends at. -/
def copyFrom (src : List UInt8) (n i : ℕ) : List (ℕ × UInt8) × ℕ :=
  if i < n ∧ charAt src i ≠ 0 then
    let (stores, last) := copyFrom src n (i + 1)
    ((i, charAt src i) :: stores, last)
  else ([], i)
termination_by n - i

/-- `snprintf`. -/
def snprintf (src : List UInt8) (n : ℕ) : List (ℕ × UInt8) :=
  let (stores, i) := copyFrom src n 0
  stores ++ [(i, 0)]

/-- The destination after its stores. -/
def stored (dest : ℕ → UInt8) (stores : List (ℕ × UInt8)) : ℕ → UInt8 :=
  stores.foldl (fun dest st => Function.update dest st.1 st.2) dest

/-- `sizeof(proc->name)`. -/
abbrev nameSize : ℕ := 16
/-- The first of the words of `name`, and the offset of the array. -/
abbrev nameWord : ℕ := 16405
abbrev nameOff : ℕ := 65620

/-- A store of one byte of a process. -/
def Pcb.setByte (pcb : Pcb) (off : ℕ) (v : UInt8) : Pcb :=
  let shift := UInt32.ofNat (8 * (off % 4))
  pcb.setWord (off / 4)
    ((pcb.word (off / 4) &&& ~~~(0xFF <<< shift)) ||| (v.toUInt32 <<< shift))

/-- `snprintf(proc->name, s, sizeof(proc->name))`. -/
def Pcb.setName (pcb : Pcb) (s : CString) : Pcb :=
  (snprintf s.chars nameSize).foldl (fun pcb st => pcb.setByte (nameOff + st.1) st.2) pcb

/-- The names `scheduler_init` gives: `Idle Process`, `P1`, `P2` and `Motor Process`. -/
def processNames : List CString :=
  [⟨[0x49, 0x64, 0x6C, 0x65, 0x20, 0x50, 0x72, 0x6F, 0x63, 0x65, 0x73, 0x73], by decide⟩,
    ⟨[0x50, 0x31], by decide⟩, ⟨[0x50, 0x32], by decide⟩,
    ⟨[0x4D, 0x6F, 0x74, 0x6F, 0x72, 0x20, 0x50, 0x72, 0x6F, 0x63, 0x65, 0x73, 0x73], by decide⟩]

end BeagleKernel.Sched
