import BeagleKernel.Proofs.Mount

/-!
# Mounting a card without a partition table

A boot sector in sector 0 has the signature of an MBR, so its boot code is searched for partition
entries first. One that looks like an entry of FAT32 type takes the place of sector 0, unless it
points back to it (`mountsAtZero_iff`).
-/

namespace BeagleKernel.Fat32

/-- The first sector of the volume. -/
def volumeStart (fs : Fat32Fs) : UInt32 := fs.fatStartSector - fs.reservedSectorCount.toUInt32

/-- The sector is a FAT32 boot sector. -/
structure IsBootSector (s : Sector) : Prop where
  signature : s.le16 signatureAt = 0xAA55
  fatSize : s.le32 sectorsPerFat32At ≠ 0
  sectorsPerCluster : 1 ≤ (s.byte sectorsPerClusterAt).toNat

/-- A mount takes the volume to start at sector 0, where the boot sector `s` is. -/
def MountsAtZero (disk : Fat32Diskio) (mem : SectorMemory) (s : Sector) : Prop :=
  ∃ fs, fat32Mount disk mem = .mounted fs ∧
    fs.fatStartSector = (s.le16 reservedSectorsAt).toUInt32 ∧ volumeStart fs = 0

variable {disk : Fat32Diskio} {mem : SectorMemory} {s b : Sector} {start : UInt32} {fs : Fat32Fs}

theorem initializeFat32Fs_starts (h : initializeFat32Fs disk mem start = some fs) :
    fs.fatStartSector = start + (readUnalignedUint16 mem reservedSectorsAt).toUInt32 ∧
      volumeStart fs = start := by
  simp only [initializeFat32Fs] at h
  split_ifs at h
  cases h
  refine ⟨rfl, ?_⟩
  unfold volumeStart
  grind

theorem mountBootSector_starts (h : mountBootSector disk mem start = .mounted fs) :
    initializeFat32Fs disk mem start = some fs := by
  unfold mountBootSector at h
  split_ifs at h
  rcases hi : initializeFat32Fs disk mem start with _ | fs'
  · rw [hi] at h
    cases h
  · rw [hi] at h
    cases h
    rfl

theorem not_mounted_of_no_boot (h : bootSectorOf disk = none) :
    fat32Mount disk mem ≠ .mounted fs := by
  unfold fat32Mount
  rcases hs : disk.readSector 0 with _ | s
  · simp
  rw [bootSectorOf, hs, Option.bind_some] at h
  simp only [findPartition_congr (load_byte_agree mem s),
    checkSector0ForFat32_congr (load_byte_agree mem s)]
  rcases hp : findPartition s.byte with _ | p
  · simp only [hp] at h
    split_ifs at h with hc
    simp [hc]
  · simp only [hp, Option.map_eq_none_iff] at h
    simp [h]

theorem bootSectorOf_of_mounted (h : fat32Mount disk mem = .mounted fs) :
    ∃ b, bootSectorOf disk = some (b, volumeStart fs) := by
  rcases hb : bootSectorOf disk with _ | ⟨b, start⟩
  · exact absurd h (not_mounted_of_no_boot hb)
  · rw [fat32Mount_of_boot hb] at h
    rw [(initializeFat32Fs_starts (mountBootSector_starts h)).2]
    exact ⟨b, rfl⟩

/-- A boot sector that the mount takes for sector 0's mounts there. -/
theorem IsBootSector.mountsAtZero (hs : IsBootSector s) (hz : ZeroAfter mem)
    (h : bootSectorOf disk = some (s, 0)) : MountsAtZero disk mem s := by
  have hag := load_byte_agree mem s
  have hsig : readUnalignedUint16 (mem.load s) signatureAt = 0xAA55 :=
    (readUnalignedUint16_congr hag (by decide)).trans hs.signature
  have hspc : ¬ (mem.load s) sectorsPerClusterAt = 0 := by
    rw [hag _ (by decide)]
    intro h0
    have := hs.sectorsPerCluster
    rw [h0] at this
    simp at this
  have hvalid := validateFat32BootSector_eq_zero_iff.2 ⟨hsig, (load_zeroAfter mem s).2 hz⟩
  obtain ⟨fs, hfs⟩ : ∃ fs, initializeFat32Fs disk (mem.load s) 0 = some fs := by
    simp only [initializeFat32Fs, if_neg hspc]
    exact ⟨_, rfl⟩
  obtain ⟨hfat, hstart⟩ := initializeFat32Fs_starts hfs
  refine ⟨fs, ?_, ?_, hstart⟩
  · rw [fat32Mount_of_boot h, mountBootSector_valid 0 hvalid, hfs]
  · rw [hfat, UInt32.zero_add, readUnalignedUint16_congr hag (by decide)]
    rfl

theorem IsBootSector.findPartition_eq (hs : IsBootSector s) :
    findPartition s.byte = ((List.range 4).find? (isFat32Partition s.byte)).map fun i =>
      s.le32 (startSectorAt i) :=
  if_pos hs.signature

theorem bootSectorOf_of_partition (hread : disk.readSector 0 = some s)
    (hp : findPartition s.byte = some start) :
    bootSectorOf disk = (disk.readSector start).map (·, start) := by
  simp only [bootSectorOf, hread, Option.bind_some, hp]

theorem bootSectorOf_of_no_partition (hread : disk.readSector 0 = some s)
    (hp : findPartition s.byte = none) :
    bootSectorOf disk = if checkSector0ForFat32 s.byte then some (s, 0) else none := by
  simp only [bootSectorOf, hread, Option.bind_some, hp]

/-- A card without a partition table mounts exactly if no four bytes of its boot code pass for the
type of a FAT32 partition, or the first that do are those of one that starts at sector 0. -/
theorem mountsAtZero_iff (hread : disk.readSector 0 = some s) (hs : IsBootSector s)
    (hz : ZeroAfter mem) :
    MountsAtZero disk mem s ↔ ∀ i < 4, isFat32Partition s.byte i = true →
      (∀ k < i, isFat32Partition s.byte k = false) → s.le32 (startSectorAt i) = 0 := by
  constructor
  · rintro ⟨fs, hfs, -, hstart⟩ i hi hp hfirst
    obtain ⟨b, hb⟩ := bootSectorOf_of_mounted hfs
    have hfind : (List.range 4).find? (isFat32Partition s.byte) = some i :=
      List.find?_range_eq_some.2 ⟨hp, List.mem_range.2 hi, fun k hk => by rw [hfirst k hk]; rfl⟩
    rw [bootSectorOf_of_partition hread ((hs.findPartition_eq).trans (congrArg _ hfind)),
      hstart] at hb
    obtain ⟨b', -, hb'⟩ := Option.map_eq_some_iff.1 hb
    exact (Prod.mk.inj hb').2
  · intro h
    refine hs.mountsAtZero hz ?_
    rcases hf : (List.range 4).find? (isFat32Partition s.byte) with _ | i
    · have hc : checkSector0ForFat32 s.byte = true := by
        have h1 : readUnalignedUint16 s.byte signatureAt = 0xAA55 := hs.signature
        have h2 : readUnalignedUint32 s.byte sectorsPerFat32At ≠ 0 := hs.fatSize
        simp [checkSector0ForFat32, h1, h2]
      rw [bootSectorOf_of_no_partition hread (hs.findPartition_eq.trans (congrArg _ hf)), if_pos hc]
    · obtain ⟨hp, hi, hfirst⟩ := List.find?_range_eq_some.1 hf
      have h0 := h i (List.mem_range.1 hi) hp fun k hk => by simpa using hfirst k hk
      rw [bootSectorOf_of_partition hread (hs.findPartition_eq.trans (congrArg _ hf))]
      simp only [h0, hread, Option.map_some]

/-- A boot sector with the type of a FAT32 partition in its boot code, at sector 5. -/
def lookalikeBootSector : Sector := fun i =>
  if i = 450 then 0x0B else if i = 454 then 5 else plainBootSector i

/-- The boot code takes the mount to a sector that is not there. -/
theorem lookalike_not_mounted :
    ¬ ∀ disk mem s, disk.readSector 0 = some s → IsBootSector s → ZeroAfter mem →
      MountsAtZero disk mem s := by
  intro h
  obtain ⟨fs, hfs, -⟩ := h ⟨fun n => if n = 0 then some lookalikeBootSector else none⟩ (fun _ => 0)
    lookalikeBootSector rfl ⟨by decide, by decide, by decide⟩ ⟨rfl, rfl⟩
  refine not_mounted_of_no_boot ?_ hfs
  rfl

theorem plainBootSector_mounts :
    MountsAtZero ⟨fun _ => some plainBootSector⟩ (fun _ => 0) plainBootSector :=
  (mountsAtZero_iff rfl ⟨by decide, by decide, by decide⟩ ⟨rfl, rfl⟩).2 (by decide)

end BeagleKernel.Fat32
