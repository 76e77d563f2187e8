import BeagleKernel.Lib.FaultyMemory
import BeagleKernel.Lib.Masks

/-!
# The memory test

`test_ddr3_memory` of the boot loader on a memory whose cells may have stuck bits and whose
addresses may select one cell. What the log is told stays out.
-/

namespace BeagleKernel.Boot

abbrev ddrStartAddr : UInt32 := 0x80000000
abbrev ddrSize : UInt32 := 0x100000

/-- A memory: which cell an address selects, which bits of a cell are stuck, and at what. -/
structure Ddr (κ : Type) where
  cell : UInt32 → κ
  stuck : κ → UInt32
  stuckAt : κ → UInt32

variable {κ : Type}

def Ddr.memory (d : Ddr κ) : FaultyMemory UInt32 κ UInt32 where
  cell := d.cell
  observe k v := (v &&& ~~~d.stuck k) ||| (d.stuckAt k &&& d.stuck k)

@[simp] theorem Ddr.memory_cell (d : Ddr κ) : d.memory.cell = d.cell := rfl

/-- `mem_addr` in the `n`-th round of the inner loop. -/
def ddrAddr (n : ℕ) : UInt32 := ddrStartAddr + 4 * UInt32.ofNat n

/-- How many rounds the inner loop makes. -/
abbrev ddrWords : ℕ := ddrSize.toNat / 4

theorem ddrAddr_toNat {n : ℕ} (h : n ≤ ddrWords) : (ddrAddr n).toNat = 0x80000000 + 4 * n := by
  have hn : n ≤ 262144 := h
  rw [ddrAddr, UInt32.toNat_add, UInt32.toNat_mul,
    UInt32.toNat_ofNat_of_lt' (show n < 2 ^ 32 by omega)]
  show (0x80000000 + 4 * n % 2 ^ 32) % 2 ^ 32 = _
  omega

theorem ddrAddr_lt_end {n : ℕ} (h : n ≤ ddrWords) :
    ddrAddr n < ddrStartAddr + ddrSize ↔ n < ddrWords := by
  rw [UInt32.lt_iff_toNat_lt, ddrAddr_toNat h]
  show 0x80000000 + 4 * n < 0x80100000 ↔ n < 262144
  omega

/-- `patterns`. -/
def patterns : List UInt32 := [0xAAAAAAAA, 0x55555555, 0x00000000, 0xFFFFFFFF]

variable [DecidableEq κ]

/-- A round of the inner loop, with the cells and `errors`. -/
def testWord (d : Ddr κ) (testPattern memAddr : UInt32) (s : (κ → UInt32) × ℕ) :
    (κ → UInt32) × ℕ :=
  let content := d.memory.write s.1 memAddr testPattern
  let readBack := d.memory.read content memAddr
  (content, if readBack ≠ testPattern then s.2 + 1 else s.2)

/-- The first `n` rounds. -/
def testWords (d : Ddr κ) (testPattern : UInt32) (s : (κ → UInt32) × ℕ) :
    (n : ℕ) → (κ → UInt32) × ℕ
  | 0 => s
  | n + 1 => testWord d testPattern (ddrAddr n) (testWords d testPattern s n)

/-- `test_ddr3_memory`, from any content of the cells. -/
def testDdr3Memory (d : Ddr κ) (content : κ → UInt32) : ℕ :=
  (patterns.foldl (fun s testPattern => testWords d testPattern s ddrWords) (content, 0)).2

end BeagleKernel.Boot
