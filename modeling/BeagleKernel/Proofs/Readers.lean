import BeagleKernel.Proofs.Search
import BeagleKernel.Proofs.Unpartitioned

/-!
# The two readers of a FAT entry

`fat32_get_next_cluster` decodes all four bytes of an entry, `fat32_read_fat_entry` the first of
them, so they agree on a link or an end of chain exactly if it is below 256 (`readersAgree_iff`):
no end of chain is.
-/

namespace BeagleKernel.Fat32

/-- An entry that links to another cluster. -/
def IsLink (v : UInt32) : Prop := 2 ≤ v ∧ v < 0x0FFFFFF7

/-- An entry that ends its chain. -/
def IsEndOfChain (v : UInt32) : Prop := 0x0FFFFFF8 ≤ v

instance (v : UInt32) : Decidable (IsLink v) := inferInstanceAs (Decidable (_ ∧ _))
instance (v : UInt32) : Decidable (IsEndOfChain v) := inferInstanceAs (Decidable (_ ≤ _))

/-- The cluster an entry stands for: the marker, for every end of chain. -/
def entryCluster (v : UInt32) : UInt32 := if IsEndOfChain v then fat32EocMarker else v

/-- Both readers return the cluster that the entry of `c` stands for, where that is one. -/
def ReadersAgree (fs : Fat32Fs) (c : UInt32) : Prop :=
  ∀ v, fatEntry fs c = some v → IsLink v ∨ IsEndOfChain v → ∀ pos,
    (fat32GetNextCluster fs pos c).val = .ok (entryCluster v) ∧
      (fat32ReadFatEntry fs pos c).val = .ok (entryCluster v).toInt32

variable {fs : Fat32Fs} {c v : UInt32}

theorem entryCode_eq (h : IsLink v ∨ IsEndOfChain v) : entryCode (some v) = entryCluster v := by
  unfold entryCluster
  rcases h with h | h
  · have hend : ¬ IsEndOfChain v := by
      rw [IsEndOfChain, UInt32.le_iff_toNat_le]
      have := UInt32.lt_iff_toNat_lt.1 h.2
      simp only [UInt32.reduceToNat] at this ⊢
      omega
    rw [if_neg hend, entryCode_of_link h]
  · rw [if_pos h]
    exact if_pos h

theorem lowLink_of_fatEntry (h : fatEntry fs c = some v) :
    ∃ d, lowLink fs c = some d ∧ d.toNat = v.toNat % 256 := by
  exact ⟨v % 256, by rw [lowLink, h, Option.map_some], UInt32.toNat_mod _ _⟩

theorem entryCluster_of_lt (hlt : v.toNat < 256) : entryCluster v = v := by
  refine if_neg fun hend => ?_
  have := UInt32.le_iff_toNat_le.1 hend
  simp only [UInt32.reduceToNat] at this
  omega

/-- The readers agree on a link or an end of chain exactly if it is below 256. -/
theorem readersAgree_iff (fs : Fat32Fs) (c : UInt32) :
    ReadersAgree fs c ↔
      ∀ v, fatEntry fs c = some v → IsLink v ∨ IsEndOfChain v → v.toNat < 256 := by
  constructor
  · intro h v hv hlink
    obtain ⟨d, hd, -⟩ := lowLink_of_fatEntry hv
    have hread := (h v hv hlink 0).2
    rw [fat32ReadFatEntry_val, hd] at hread
    have heq := congrArg Int32.toUInt32 (Except.ok.inj hread)
    rw [UInt32.toUInt32_toInt32, UInt32.toUInt32_toInt32] at heq
    have hlt := lowLink_lt fs hd
    by_cases hend : IsEndOfChain v
    · rw [heq, entryCluster, if_pos hend] at hlt
      exact absurd hlt (by decide)
    · rwa [heq, entryCluster, if_neg hend] at hlt
  · intro h v hv hlink pos
    have hlt := h v hv hlink
    obtain ⟨d, hd, hmod⟩ := lowLink_of_fatEntry hv
    constructor
    · rw [fat32GetNextCluster_eq, nextCode, hv, entryCode_eq hlink]
    · rw [fat32ReadFatEntry_val, hd, entryCluster_of_lt hlt,
        UInt32.toNat_inj.1 (hmod.trans (Nat.mod_eq_of_lt hlt))]

/-! ## A small card -/

/-- The boot sector of a card: one reserved sector, one FAT of one sector, one sector a cluster,
the root directory in cluster 2. -/
def cardBootSector : Sector := fun i =>
  if i = 510 then 0x55 else if i = 511 then 0xAA
  else if i = 13 ∨ i = 14 ∨ i = 16 ∨ i = 36 then 1 else if i = 32 then 100
  else if i = 44 then 2 else 0

/-- The card with `other` in the sectors after the first. -/
def cardDisk (other : UInt32 → Option Sector) : Fat32Diskio :=
  ⟨fun n => if n = 0 then some cardBootSector else other n⟩

/-- The volume it mounts as. -/
def cardFs (other : UInt32 → Option Sector) : Fat32Fs where
  disk := cardDisk other
  bytesPerSector := 512
  sectorsPerCluster := 1
  reservedSectorCount := 1
  numFats := 1
  sectorsPerFat := 1
  rootCluster := 2
  clusterSize := 512
  totalClusters := 98
  totalSectors := 100
  firstDataSector := 2
  fatStartSector := 1
  magic := fat32Magic

theorem cardFs_mounted (other : UInt32 → Option Sector) :
    fat32Mount (cardDisk other) (fun _ => 0) = .mounted (cardFs other) := by
  have hb : bootSectorOf (cardDisk other) = some (cardBootSector, 0) := rfl
  rw [fat32Mount_of_boot hb, mountBootSector_valid]
  · rfl
  · decide

/-- The end of the chain of a directory of one cluster is read as a link to cluster 255. -/
theorem end_of_chain_read_as_link :
    ¬ ∀ disk mem fs, fat32Mount disk mem = .mounted fs → ∀ c : UInt32, c.toNat < 2 ^ 28 →
      ReadersAgree fs c := by
  intro h
  have hagree := h _ _ _ (cardFs_mounted fun _ => some fun _ => 0xFF) 2 (by decide) 0x0FFFFFFF rfl
    (.inr (by decide)) 0
  have hread := hagree.2
  rw [fat32ReadFatEntry_val, show lowLink (cardFs fun _ => some fun _ => 0xFF) 2 = some 0xFF
    from rfl] at hread
  exact absurd (Except.ok.inj hread) (by decide)

end BeagleKernel.Fat32
