import BeagleKernel.Common.Mem
import BeagleKernel.Lib.Runs
import Mathlib.Logic.Function.Basic

/-!
# The frame allocator

The free list of `mmu.c`, threaded through its static array of frames: a pointer into `frames` is
an index, and `NULL` is `none`. `free_frame` follows the links of the list before it pushes, and
has nothing but the list itself to end that.
-/

namespace BeagleKernel.Mmu

/-- `frame_t`. -/
structure Frame where
  addr : UInt32
  next : Option ℕ

/-- The statics `frames` and `frame_list`. -/
structure FrameAllocator where
  frames : ℕ → Frame
  frameList : Option ℕ

namespace FrameAllocator

/-- The statics before the first call. -/
def zeroed : FrameAllocator := ⟨fun _ => ⟨0, none⟩, none⟩

/-- `frames[i]` takes the address and goes to the front of the list. -/
def pushFrame (s : FrameAllocator) (i : ℕ) (addr : UInt32) : FrameAllocator where
  frames := Function.update s.frames i ⟨addr, s.frameList⟩
  frameList := some i

/-- One round of `init_frame_allocator`: the frame of the boot page tables is preserved. -/
def initFrame (s : FrameAllocator) (i : ℕ) : FrameAllocator :=
  if sectionAddr i = memBootPageTableBase then s else s.pushFrame i (sectionAddr i)

/-- `init_frame_allocator`, with `header->mapped_sections`. -/
def initFrameAllocator (s : FrameAllocator) (mappedSections : UInt32) : FrameAllocator :=
  (List.range' mappedSections.toNat (numSections - mappedSections.toNat)).foldl initFrame s

/-- `alloc_frame`. -/
def allocFrame (s : FrameAllocator) : UInt32 × FrameAllocator :=
  match s.frameList with
  | some k => ((s.frames k).addr, { s with frameList := (s.frames k).next })
  | none => (0, s)

/-- The check for a double free, `fuel` rounds of its loop: whether `addr` is on the list from
`current` on, `none` where the loop is not done. -/
def isFree (s : FrameAllocator) (addr : UInt32) : (fuel : ℕ) → (current : Option ℕ) → Option Bool
  | 0, _ => none
  | _ + 1, none => some false
  | fuel + 1, some k =>
    if (s.frames k).addr = addr then some true else isFree s addr fuel (s.frames k).next

end FrameAllocator

/-- How a `free_frame` ends. -/
inductive FreeResult
  | unaligned
  | outsideRange
  | alreadyFree
  | freed
  deriving DecidableEq

/-- What it prints. -/
def FreeResult.message : FreeResult → String
  | unaligned => "Error: Attempt to free unaligned frame.\n"
  | outsideRange => "Error: Attempt to free address outside valid range.\n"
  | alreadyFree => "Error: Attempt to free an already freed frame.\n"
  | freed => "Frame successfully freed.\n"

namespace FrameAllocator

/-- `free_frame`; `none` where its check meets more nodes than there are frames, and so does not
end. -/
def freeFrame (s : FrameAllocator) (addr : UInt32) : Option (FreeResult × FrameAllocator) :=
  if addr % memSectionSize ≠ 0 then some (.unaligned, s)
  else if addr < memPhysBase ∨ addr ≥ memPhysBase + memPhysSize then some (.outsideRange, s)
  else (s.isFree addr (numSections + 1) s.frameList).map fun free =>
    if free then (.alreadyFree, s)
    else (.freed, s.pushFrame ((addr - memPhysBase) / memSectionSize).toNat addr)

/-- The allocator the kernel starts with. -/
def booted (mappedSections : UInt32) : FrameAllocator := zeroed.initFrameAllocator mappedSections

end FrameAllocator

/-- A call of the allocator, with what it returned. -/
inductive Call
  | alloc (addr : UInt32)
  | free (addr : UInt32) (result : FreeResult)

def Step : Call → FrameAllocator → FrameAllocator → Prop
  | .alloc addr, s, s' => s.allocFrame = (addr, s')
  | .free addr result, s, s' => s.freeFrame addr = some (result, s')

end BeagleKernel.Mmu
