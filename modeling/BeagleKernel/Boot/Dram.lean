import BeagleKernel.Boot.Ddr
import BeagleKernel.Boot.Bootloader
import BeagleKernel.Fat32.Mount
import BeagleKernel.Lib.Bytes

/-!
# The DRAM during a boot

The bytes from `MEM_PHYS_BASE` on. The boot loader runs in on-chip memory, but it tests the DRAM,
has its sector buffer and the boot page table there, and reads the kernel to its start.
-/

namespace BeagleKernel.Boot

open Fat32 Mmu

/-- The word at `p`. -/
def memWord (memory : ℕ → UInt8) (p : ℕ) : UInt32 :=
  (memory p).toUInt32 ||| (memory (p + 1)).toUInt32 <<< 8 ||| (memory (p + 2)).toUInt32 <<< 16 |||
    (memory (p + 3)).toUInt32 <<< 24

/-- A store of `v` to the word at the address `a`. -/
def storeMemWord (memory : ℕ → UInt8) (a v : UInt32) : ℕ → UInt8 :=
  writeBytes memory (a.toNat - memPhysBase.toNat) (le32Bytes v)

/-! ## The memory test -/

/-- The inner loop of `test_ddr3_memory`, for one pattern. -/
def fillWords (memory : ℕ → UInt8) (testPattern : UInt32) : ℕ → UInt8 :=
  (List.range ddrWords).foldl (fun memory n => storeMemWord memory (ddrAddr n) testPattern) memory

/-- What `test_ddr3_memory` leaves in a DRAM that works. -/
def testedMemory (memory : ℕ → UInt8) : ℕ → UInt8 := patterns.foldl fillWords memory

/-! ## The sector buffer -/

/-- `sector_buffer`. -/
abbrev sectorBuffer : UInt32 := 0x91000000

/-- `sector_buffer`, from `MEM_PHYS_BASE` on. -/
abbrev sectorBufferAt : ℕ := sectorBuffer.toNat - memPhysBase.toNat

def sectorMemory (memory : ℕ → UInt8) : SectorMemory := fun i => memory (sectorBufferAt + i)

def storeSectorMemory (memory : ℕ → UInt8) (mem : SectorMemory) : ℕ → UInt8 := fun p =>
  if sectorBufferAt ≤ p then mem (p - sectorBufferAt) else memory p

/-! ## The page table -/

/-- `MEM_BOOT_PAGE_TABLE_BASE`, from `MEM_PHYS_BASE` on. -/
abbrev pageTableAt : ℕ := memBootPageTableBase.toNat - memPhysBase.toNat

def l1Table (memory : ℕ → UInt8) : L1Table := fun i => memWord memory (pageTableAt + 4 * i)

def storeL1Table (memory : ℕ → UInt8) (l1 : L1Table) : ℕ → UInt8 :=
  writeBytes memory pageTableAt ((List.range l1Entries).flatMap fun i => le32Bytes (l1 i))

/-- The address a virtual one is translated to, in a section. -/
def translate (l1 : L1Table) (v : UInt32) : Option UInt32 :=
  let entry := l1 (getL1Index v)
  if entry &&& 3 = 2 then some ((entry &&& l1SectionMask) ||| (v &&& ~~~l1SectionMask)) else none

/-! ## Words of the DRAM -/

/-- A word of the DRAM. -/
def InDram (a : UInt32) : Prop :=
  memPhysBase.toNat ≤ a.toNat ∧ a.toNat + 4 ≤ memPhysBase.toNat + memPhysSize.toNat

/-- The word reaches into the boot page table. -/
def InPageTable (a : UInt32) : Prop :=
  memBootPageTableBase.toNat < a.toNat + 4 ∧ a.toNat < memBootPageTableBase.toNat + 4 * l1Entries

instance (a : UInt32) : Decidable (InDram a) := inferInstanceAs (Decidable (_ ∧ _))
instance (a : UInt32) : Decidable (InPageTable a) := inferInstanceAs (Decidable (_ ∧ _))

end BeagleKernel.Boot
