import BeagleKernel.Proofs.Coded
import BeagleKernel.Proofs.Unpartitioned

/-!
# The divisor of a mounted volume

A mount divides by the sectors of a cluster, and so does every read of the volume. The byte is
never validated, so a signed boot sector in which it is zero is divided by (`mountsUsable_iff`);
one in which it is not makes every read return.
-/

namespace BeagleKernel.Fat32

/-- A mount divides by no zero, and neither does a read of the volume it leaves. -/
def MountsUsable (disk : Fat32Diskio) (mem : SectorMemory) : Prop :=
  fat32Mount disk mem ≠ .divByZero ∧ ∀ fs, fat32Mount disk mem = .mounted fs →
    1 ≤ fs.sectorsPerCluster.toNat ∧ ∀ file : Fat32File, file.fs = fs → ∀ buffer size,
      (fat32Read file buffer size).val ≠ .error .divByZero

variable {disk : Fat32Diskio} {mem : SectorMemory} {start : UInt32}

/-- A read returns, whatever is on the disk and in the handle. -/
theorem fat32Read_returns {file : Fat32File} (hbps : file.fs.bytesPerSector = 512)
    (hspc : 1 ≤ file.fs.sectorsPerCluster.toNat) (buffer : ℕ → UInt8) (size : Int32) :
    ∃ r, (fat32Read file buffer size).val = .ok r := by
  rcases Nat.eq_zero_or_pos (readSize file size) with h0 | hpos
  · exact ⟨_, by rw [fat32Read_zero h0]; rfl⟩
  · have hrem := readStart_remaining file buffer size
    obtain ⟨m, r, st, hval, -⟩ := readClusters_end file.fs hbps hspc (readSize file size + 1)
      (readStart file buffer size) (by omega) (readStart_bounded file buffer size hpos) rfl
    exact ⟨(r, st), by rw [fat32Read_pos hpos, hval]⟩

theorem initializeFat32Fs_eq_none_iff :
    initializeFat32Fs disk mem start = none ↔ mem sectorsPerClusterAt = 0 := by
  simp only [initializeFat32Fs]
  split_ifs with h
  · exact iff_of_true rfl h
  · exact iff_of_false not_false h

theorem initializeFat32Fs_sizes {fs : Fat32Fs} (h : initializeFat32Fs disk mem start = some fs) :
    fs.bytesPerSector = 512 ∧ 1 ≤ fs.sectorsPerCluster.toNat := by
  simp only [initializeFat32Fs] at h
  split_ifs at h with h0
  cases h
  refine ⟨rfl, Nat.one_le_iff_ne_zero.2 fun hz => h0 ?_⟩
  exact UInt8.toNat_inj.1 hz

theorem not_divByZero_of_no_boot (h : bootSectorOf disk = none) :
    fat32Mount disk mem ≠ .divByZero := by
  unfold fat32Mount
  rcases hs : disk.readSector 0 with _ | s
  · exact Mount.noConfusion
  rw [bootSectorOf, hs, Option.bind_some] at h
  simp only [findPartition_congr (load_byte_agree mem s),
    checkSector0ForFat32_congr (load_byte_agree mem s)]
  rcases hp : findPartition s.byte with _ | p
  · simp only [hp] at h
    split_ifs at h with hc
    simp [hc]
  · simp only [hp, Option.map_eq_none_iff] at h
    simp [h]

/-- Every volume mounted has sizes a read can divide by. -/
theorem sizes_of_mounted {fs : Fat32Fs} (h : fat32Mount disk mem = .mounted fs) :
    fs.bytesPerSector = 512 ∧ 1 ≤ fs.sectorsPerCluster.toNat := by
  obtain ⟨b, hb⟩ := bootSectorOf_of_mounted h
  rw [fat32Mount_of_boot hb] at h
  exact initializeFat32Fs_sizes (mountBootSector_starts h)

theorem isInitialized_of_mounted {fs : Fat32Fs} (h : fat32Mount disk mem = .mounted fs) :
    fs.isInitialized := by
  obtain ⟨b, hb⟩ := bootSectorOf_of_mounted h
  rw [fat32Mount_of_boot hb] at h
  obtain ⟨start, hinit⟩ : ∃ start, initializeFat32Fs disk (mem.load b) start = some fs :=
    ⟨_, mountBootSector_starts h⟩
  simp only [initializeFat32Fs] at hinit
  split_ifs at hinit
  cases hinit
  rfl

theorem mountBootSector_eq_divByZero_iff :
    mountBootSector disk mem start = .divByZero ↔
      readUnalignedUint16 mem signatureAt = 0xAA55 ∧ ZeroAfter mem ∧
        mem sectorsPerClusterAt = 0 := by
  rw [← and_assoc, ← validateFat32BootSector_eq_zero_iff,
    ← @initializeFat32Fs_eq_none_iff disk mem start]
  by_cases hv : validateFat32BootSector mem = 0
  · rw [mountBootSector_valid start hv]
    rcases initializeFat32Fs disk mem start with _ | fs
    · exact iff_of_true rfl ⟨hv, rfl⟩
    · exact iff_of_false Mount.noConfusion fun h => Option.some_ne_none _ h.2
  · rw [mountBootSector_invalid start hv]
    exact iff_of_false Mount.noConfusion fun h => hv h.1

theorem fat32Mount_eq_divByZero_iff :
    fat32Mount disk mem = .divByZero ↔ ∃ b start, bootSectorOf disk = some (b, start) ∧
      b.le16 signatureAt = 0xAA55 ∧ ZeroAfter mem ∧ b.byte sectorsPerClusterAt = 0 := by
  rcases hb : bootSectorOf disk with _ | ⟨b, start⟩
  · refine iff_of_false (not_divByZero_of_no_boot hb) ?_
    rintro ⟨_, _, ⟨⟩, -⟩
  have hag := load_byte_agree mem b
  rw [fat32Mount_of_boot hb, mountBootSector_eq_divByZero_iff, load_zeroAfter,
    readUnalignedUint16_congr hag (by decide), hag sectorsPerClusterAt (by decide)]
  constructor
  · exact fun h => ⟨b, start, rfl, h⟩
  · rintro ⟨_, _, ⟨⟩, h⟩
    exact h

/-- A mount leaves a divisor that can be used exactly if the boot sector it takes, signed and
passing for valid, gives a cluster at least one sector. -/
theorem mountsUsable_iff (disk : Fat32Diskio) (mem : SectorMemory) :
    MountsUsable disk mem ↔ ∀ b start, bootSectorOf disk = some (b, start) →
      b.le16 signatureAt = 0xAA55 → ZeroAfter mem → b.byte sectorsPerClusterAt ≠ 0 := by
  constructor
  · intro h b start hb hsig hz h0
    exact h.1 (fat32Mount_eq_divByZero_iff.2 ⟨b, start, hb, hsig, hz, h0⟩)
  · intro h
    refine ⟨fun hdiv => ?_, fun fs hfs => ?_⟩
    · obtain ⟨b, start, hb, hsig, hz, h0⟩ := fat32Mount_eq_divByZero_iff.1 hdiv
      exact h b start hb hsig hz h0
    · obtain ⟨hbps, hspc⟩ := sizes_of_mounted hfs
      refine ⟨hspc, fun file hfile buffer size herr => ?_⟩
      subst hfile
      obtain ⟨r, hr⟩ := fat32Read_returns hbps hspc buffer size
      rw [hr] at herr
      cases herr

/-- The boot sector of `plainBootSector` with no sectors in a cluster. -/
def emptyClusterBootSector : Sector := fun i => if i = 13 then 0 else plainBootSector i

/-- A signed boot sector with no sectors in a cluster is divided by. -/
theorem empty_cluster_divides : ¬ ∀ disk mem, MountsUsable disk mem := by
  intro h
  refine (h ⟨fun _ => some emptyClusterBootSector⟩ fun _ => 0).1 ?_
  exact fat32Mount_eq_divByZero_iff.2
    ⟨emptyClusterBootSector, 0, rfl, by decide, ⟨rfl, rfl⟩, by decide⟩

end BeagleKernel.Fat32
