import BeagleKernel.Fat32.Mount
import BeagleKernel.Lib.Bytes
import Mathlib.Data.List.Find

/-!
# What a mount depends on

Every field of the boot sector is read from the 512 bytes of the sector but one: the signature,
whose four bytes end two bytes past it. So two memories give the same mount exactly where the two
bytes after the sector pass for zeros in both or in neither, or the signature is not looked at with
a sector that has it (`fat32Mount_eq_iff`).
-/

namespace BeagleKernel.Fat32

/-- The memories have the same sector at `sector_buffer`. -/
def SectorAgree (mem mem' : SectorMemory) : Prop := ∀ i < fat32SectorSize, mem i = mem' i

section Agree

variable {mem mem' : SectorMemory}

theorem readUnalignedUint16_congr (h : SectorAgree mem mem') {p : ℕ}
    (hp : p + 1 < fat32SectorSize) :
    readUnalignedUint16 mem p = readUnalignedUint16 mem' p := by
  simp only [readUnalignedUint16, h p (by omega), h (p + 1) hp]

theorem readUnalignedUint32_congr (h : SectorAgree mem mem') {p : ℕ}
    (hp : p + 3 < fat32SectorSize) :
    readUnalignedUint32 mem p = readUnalignedUint32 mem' p := by
  simp only [readUnalignedUint32, h p (by omega), h (p + 1) (by omega), h (p + 2) (by omega),
    h (p + 3) hp]

theorem partitionAt_lt {i : ℕ} (hi : i ∈ List.range 4) : partitionAt i + 11 < fat32SectorSize := by
  rw [List.mem_range] at hi
  simp only [partitionAt, fat32SectorSize]
  omega

theorem isFat32Partition_congr (h : SectorAgree mem mem') {i : ℕ} (hi : i ∈ List.range 4) :
    isFat32Partition mem i = isFat32Partition mem' i := by
  have := partitionAt_lt hi
  simp only [isFat32Partition, h (partitionTypeAt i) (by unfold partitionTypeAt; omega)]

theorem findPartition_congr (h : SectorAgree mem mem') :
    findPartition mem = findPartition mem' := by
  unfold findPartition
  rw [readUnalignedUint16_congr h (by decide),
    List.find?_congr fun i hi => isFat32Partition_congr h hi]
  split_ifs
  · rcases hf : (List.range 4).find? (isFat32Partition mem') with _ | i
    · rfl
    · have := partitionAt_lt (List.mem_of_find?_eq_some hf)
      rw [Option.map_some, Option.map_some, readUnalignedUint32_congr h
        (by unfold startSectorAt; omega)]
  · rfl

theorem checkSector0ForFat32_congr (h : SectorAgree mem mem') :
    checkSector0ForFat32 mem = checkSector0ForFat32 mem' := by
  unfold checkSector0ForFat32
  rw [readUnalignedUint16_congr h (by decide), readUnalignedUint32_congr h (by decide)]

theorem initializeFat32Fs_congr (h : SectorAgree mem mem') (disk : Fat32Diskio) (start : UInt32) :
    initializeFat32Fs disk mem start = initializeFat32Fs disk mem' start := by
  have h16 := readUnalignedUint16_congr h (p := totalSectors16At) (by decide)
  have h32 := readUnalignedUint32_congr h (p := totalSectors32At) (by decide)
  simp only [initializeFat32Fs, totalSectorsOf, h16, h32, h sectorsPerClusterAt (by decide),
    readUnalignedUint16_congr h (p := reservedSectorsAt) (by decide), h numFatsAt (by decide),
    readUnalignedUint32_congr h (p := sectorsPerFat32At) (by decide),
    readUnalignedUint32_congr h (p := rootClusterAt) (by decide)]

end Agree

theorem load_agree (mem mem' : SectorMemory) (s : Sector) :
    SectorAgree (mem.load s) (mem'.load s) := by
  intro i hi
  simp only [SectorMemory.load, if_pos hi]

theorem load_load (mem : SectorMemory) (s b : Sector) : (mem.load s).load b = mem.load b := by
  funext i
  unfold SectorMemory.load
  split_ifs <;> rfl

/-! ## The signature -/

/-- The two bytes after the sector are zeros. -/
def ZeroAfter (mem : SectorMemory) : Prop := mem 512 = 0 ∧ mem 513 = 0

instance (mem : SectorMemory) : Decidable (ZeroAfter mem) :=
  inferInstanceAs (Decidable (_ ∧ _))

theorem le32_eq_iff (b0 b1 b2 b3 : UInt8) :
    b0.toUInt32 ||| b1.toUInt32 <<< 8 ||| b2.toUInt32 <<< 16 ||| b3.toUInt32 <<< 24 = 0xAA55 ↔
      b0.toUInt16 ||| b1.toUInt16 <<< 8 = 0xAA55 ∧ b2 = 0 ∧ b3 = 0 := by
  have h0 := b0.toNat_lt
  have h1 := b1.toNat_lt
  have e := UInt16.toNat_or_shiftLeft (x := b0.toUInt16) (b := b1)
    (by rw [UInt8.toNat_toUInt16]; exact h0)
  rw [UInt8.toNat_toUInt16] at e
  rw [← UInt32.toNat_inj, UInt32.toNat_le32, ← UInt16.toNat_inj, e, ← UInt8.toNat_inj,
    ← UInt8.toNat_inj]
  simp only [UInt32.reduceToNat, UInt16.reduceToNat, UInt8.reduceToNat]
  omega

theorem validateFat32BootSector_eq_zero_iff {mem : SectorMemory} :
    validateFat32BootSector mem = 0 ↔
      readUnalignedUint16 mem signatureAt = 0xAA55 ∧ ZeroAfter mem := by
  have := le32_eq_iff (mem signatureAt) (mem (signatureAt + 1)) (mem (signatureAt + 2))
    (mem (signatureAt + 3))
  unfold validateFat32BootSector readUnalignedUint32 readUnalignedUint16 ZeroAfter
  rw [← this]
  split_ifs with h
  · exact iff_of_false (by decide) h
  · exact iff_of_true rfl (not_not.1 h)

/-! ## The mount -/

/-- The sector a mount takes for the boot sector, and its number. -/
def bootSectorOf (disk : Fat32Diskio) : Option (Sector × UInt32) :=
  (disk.readSector 0).bind fun s =>
    match findPartition s.byte with
    | some start => (disk.readSector start).map (·, start)
    | none => if checkSector0ForFat32 s.byte then some (s, 0) else none

theorem load_byte_agree (mem : SectorMemory) (s : Sector) : SectorAgree (mem.load s) s.byte := by
  intro i hi
  simp only [SectorMemory.load, if_pos hi]

theorem fat32Mount_of_boot {disk : Fat32Diskio} {b : Sector} {start : UInt32}
    (h : bootSectorOf disk = some (b, start)) (mem : SectorMemory) :
    fat32Mount disk mem = mountBootSector disk (mem.load b) start := by
  obtain ⟨s, hs, h⟩ := Option.bind_eq_some_iff.1 h
  have hag := load_byte_agree mem s
  unfold fat32Mount
  simp only [hs, findPartition_congr hag, checkSector0ForFat32_congr hag]
  rcases hp : findPartition s.byte with _ | p
  · simp only [hp] at h
    split_ifs at h with hc
    cases h
    rw [hc]
    rfl
  · simp only [hp] at h
    obtain ⟨b', hb, h⟩ := Option.map_eq_some_iff.1 h
    cases h
    simp only [hb, load_load]

theorem fat32Mount_of_no_boot {disk : Fat32Diskio} (h : bootSectorOf disk = none)
    (mem mem' : SectorMemory) : fat32Mount disk mem = fat32Mount disk mem' := by
  unfold fat32Mount
  rcases hs : disk.readSector 0 with _ | s
  · rfl
  · rw [bootSectorOf, hs, Option.bind_some] at h
    simp only [findPartition_congr (load_byte_agree mem s),
      findPartition_congr (load_byte_agree mem' s),
      checkSector0ForFat32_congr (load_byte_agree mem s),
      checkSector0ForFat32_congr (load_byte_agree mem' s)]
    rcases hp : findPartition s.byte with _ | p
    · simp only [hp] at h
      split_ifs at h with hc
      simp only [hc, Bool.false_eq_true, if_false]
    · simp only [hp, Option.map_eq_none_iff] at h
      simp only [h]

theorem mountBootSector_invalid {disk : Fat32Diskio} {mem : SectorMemory} (start : UInt32)
    (h : validateFat32BootSector mem ≠ 0) :
    mountBootSector disk mem start = .error fat32ErrorInvalidBootSector := by
  simp only [mountBootSector, if_pos h]

theorem mountBootSector_valid {disk : Fat32Diskio} {mem : SectorMemory} (start : UInt32)
    (h : validateFat32BootSector mem = 0) :
    mountBootSector disk mem start =
      match initializeFat32Fs disk mem start with
      | none => .divByZero
      | some fs => .mounted fs :=
  if_neg (not_not.2 h)

/-- With the signature in the sector, the bytes after it decide. -/
theorem mountBootSector_signed (disk : Fat32Diskio) {mem : SectorMemory} (start : UInt32)
    (h : readUnalignedUint16 mem signatureAt = 0xAA55) :
    mountBootSector disk mem start = .error fat32ErrorInvalidBootSector ↔ ¬ ZeroAfter mem := by
  by_cases hz : ZeroAfter mem
  · rw [mountBootSector_valid start (validateFat32BootSector_eq_zero_iff.2 ⟨h, hz⟩)]
    refine iff_of_false ?_ (not_not.2 hz)
    rcases initializeFat32Fs disk mem start with _ | fs <;> exact Mount.noConfusion
  · rw [mountBootSector_invalid start fun h' => hz (validateFat32BootSector_eq_zero_iff.1 h').2]
    exact iff_of_true rfl hz

theorem mountBootSector_congr {disk : Fat32Diskio} {mem mem' : SectorMemory} (start : UInt32)
    (h : SectorAgree mem mem')
    (hz : readUnalignedUint16 mem signatureAt = 0xAA55 → (ZeroAfter mem ↔ ZeroAfter mem')) :
    mountBootSector disk mem start = mountBootSector disk mem' start := by
  have hiff : validateFat32BootSector mem = 0 ↔ validateFat32BootSector mem' = 0 := by
    rw [validateFat32BootSector_eq_zero_iff, validateFat32BootSector_eq_zero_iff,
      ← readUnalignedUint16_congr h (by decide)]
    exact and_congr_right hz
  by_cases hv : validateFat32BootSector mem = 0
  · rw [mountBootSector_valid start hv, mountBootSector_valid start (hiff.1 hv),
      initializeFat32Fs_congr h]
  · rw [mountBootSector_invalid start hv, mountBootSector_invalid start (mt hiff.2 hv)]

theorem load_zeroAfter (mem : SectorMemory) (s : Sector) :
    ZeroAfter (mem.load s) ↔ ZeroAfter mem := Iff.rfl

/-- Two memories give the same mount exactly where the boot sector has no signature to validate,
or the two bytes after the sector are zeros in both or in neither. -/
theorem fat32Mount_eq_iff (disk : Fat32Diskio) (mem mem' : SectorMemory) :
    fat32Mount disk mem = fat32Mount disk mem' ↔
      ∀ b start, bootSectorOf disk = some (b, start) → b.le16 signatureAt = 0xAA55 →
        (ZeroAfter mem ↔ ZeroAfter mem') := by
  rcases hb : bootSectorOf disk with _ | ⟨b, start⟩
  · exact iff_of_true (fat32Mount_of_no_boot hb mem mem') (by rintro _ _ ⟨⟩)
  rw [fat32Mount_of_boot hb, fat32Mount_of_boot hb]
  have hsig : ∀ mem : SectorMemory,
      readUnalignedUint16 (mem.load b) signatureAt = b.le16 signatureAt := fun mem =>
    readUnalignedUint16_congr (load_byte_agree mem b) (by decide)
  constructor
  · rintro h _ _ ⟨⟩ hb
    have h1 := mountBootSector_signed disk start ((hsig mem).trans hb)
    have h2 := mountBootSector_signed disk start ((hsig mem').trans hb)
    rw [load_zeroAfter] at h1 h2
    rw [← not_iff_not, ← h1, ← h2, h]
  · intro h
    refine mountBootSector_congr start (load_agree mem mem' b) fun hs => ?_
    rw [load_zeroAfter, load_zeroAfter]
    exact h b start rfl ((hsig mem).symm.trans hs)

/-- A FAT32 boot sector: one sector a cluster, one FAT of one sector, 100 sectors. -/
def plainBootSector : Sector := fun i =>
  if i = 510 then 0x55 else if i = 511 then 0xAA
  else if i = 13 ∨ i = 16 ∨ i = 36 then 1 else if i = 32 then 100 else 0

/-- One leftover byte after the sector fails the mount of a valid card. -/
theorem leftover_byte_fails_mount :
    ¬ ∀ (disk : Fat32Diskio) (mem mem' : SectorMemory),
      (∀ i < fat32SectorSize, mem i = mem' i) → fat32Mount disk mem = fat32Mount disk mem' := by
  intro h
  have hag : ∀ i < fat32SectorSize, (0 : UInt8) = if i = 512 then 1 else 0 := by
    intro i hi
    have : i ≠ 512 := by
      rintro rfl
      exact absurd hi (by decide)
    rw [if_neg this]
  have heq := h ⟨fun _ => some plainBootSector⟩ (fun _ => 0) _ hag
  have hb : bootSectorOf ⟨fun _ => some plainBootSector⟩ = some (plainBootSector, 0) := rfl
  rw [fat32Mount_of_boot hb, fat32Mount_of_boot hb] at heq
  have h1 := @mountBootSector_signed ⟨fun _ => some plainBootSector⟩
    (SectorMemory.load (fun _ => 0) plainBootSector) 0 rfl
  have h2 := @mountBootSector_signed ⟨fun _ => some plainBootSector⟩
    (SectorMemory.load (fun i => if i = 512 then 1 else 0) plainBootSector) 0 rfl
  rw [heq, h2] at h1
  exact absurd (h1.1 (by decide)) (by decide)

end BeagleKernel.Fat32
