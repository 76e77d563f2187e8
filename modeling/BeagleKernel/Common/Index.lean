import Mathlib.Algebra.Ring.Nat

/-!
# Literal indices

The sizes of the arrays whose entries are named by a literal: the two UARTs, the eleven bytes of
an 8.3 name, the slots of the processes and the bytes of a sector.
-/

namespace BeagleKernel

instance neZero_two : NeZero 2 := ⟨Nat.succ_ne_zero 1⟩
instance neZero_eleven : NeZero 11 := ⟨Nat.succ_ne_zero 10⟩
instance neZero_thirtyTwo : NeZero 32 := ⟨Nat.succ_ne_zero 31⟩
instance neZero_sector : NeZero 512 := ⟨Nat.succ_ne_zero 511⟩

end BeagleKernel
