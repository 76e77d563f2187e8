import BeagleKernel.Lib.Words

/-!
# Words set and cleared under a mask

What setting the bits `v` of a word, or clearing them, leaves under a mask `p`: nothing changes
where the two are disjoint, and the bits of `p` are all set or all clear where `v` covers `p`.
-/

namespace BeagleKernel

variable {d v p q : UInt32}

theorem and_eq_zero_comm : v &&& p = 0 ↔ p &&& v = 0 := by rw [UInt32.and_comm]

theorem not_and_of_disjoint (h : v &&& p = 0) : ~~~v &&& p = p := by
  have hp : (v ||| ~~~v) &&& p = p := by simp
  rwa [UInt32.or_and_distrib, h, UInt32.zero_or] at hp

theorem set_and_of_disjoint (h : v &&& p = 0) : (d ||| v) &&& p = d &&& p := by
  rw [UInt32.or_and_distrib, h, UInt32.or_zero]

theorem clear_and_of_disjoint (h : v &&& p = 0) : (d &&& ~~~v) &&& p = d &&& p := by
  rw [UInt32.and_assoc, not_and_of_disjoint h]

theorem set_and_self : (d ||| v) &&& v = v := by
  rw [UInt32.or_and_distrib, UInt32.and_self]
  exact UInt32.toBitVec_inj.1 (by ext i hi; simp)

theorem clear_and_self : (d &&& ~~~v) &&& v = 0 := by
  rw [UInt32.and_assoc, UInt32.not_and_self, UInt32.and_zero]

theorem all_and (v : UInt32) : 0xFFFFFFFF &&& v = v :=
  UInt32.toBitVec_inj.1 (BitVec.allOnes_and (x := v.toBitVec))

theorem and_or_eq_zero : v &&& (p ||| q) = 0 ↔ v &&& p = 0 ∧ v &&& q = 0 := by
  rw [and_eq_zero_comm, UInt32.or_and_distrib, UInt32.or_eq_zero_iff, and_eq_zero_comm,
    @and_eq_zero_comm q]

end BeagleKernel
