import BeagleKernel.Fat32.Format
import BeagleKernel.Proofs.Mount
import BeagleKernel.Proofs.Cursor

/-!
# Mounting what a formatter wrote

The fields of a packed structure are at the offsets its bytes put them (`bootSector_fields`,
`mbr_fields`), so a mount finds the volume through the MBR and takes its geometry over.
-/

namespace BeagleKernel.Fat32

variable {mem : SectorMemory}

theorem bytesAt_sectorOf {bs : List UInt8} (h : bs.length ≤ fat32SectorSize) :
    BytesAt (sectorOf bs).byte 0 bs := by
  intro i hi
  rw [Nat.zero_add, Sector.byte, dif_pos (Nat.lt_of_lt_of_le hi h)]
  simp [sectorOf, hi]

theorem bytesAt_load (mem : SectorMemory) {bs : List UInt8} (h : bs.length ≤ fat32SectorSize) :
    BytesAt (mem.load (sectorOf bs)) 0 bs := by
  intro i hi
  rw [load_byte_agree mem _ _ (by omega)]
  exact bytesAt_sectorOf h i hi

theorem bootSector_length (b : Fat32BootSector) : b.bytes.length = fat32SectorSize := by
  simp only [Fat32BootSector.bytes, List.length_append, List.length_ofFn, length_le16Bytes,
    length_le32Bytes, List.length_singleton, Nat.reduceAdd]

theorem ofFn_four {α : Type} (f : Fin 4 → α) : List.ofFn f = [f 0, f 1, f 2, f 3] := rfl

theorem partition_length (p : MBRPartitionEntry) : p.bytes.length = 16 := by
  simp only [MBRPartitionEntry.bytes, List.length_append, List.length_ofFn, length_le32Bytes,
    List.length_singleton, Nat.reduceAdd]

theorem mbr_length (m : MBR) : m.bytes.length = fat32SectorSize := by
  simp only [MBR.bytes, ofFn_four, List.flatMap_cons, List.flatMap_nil, List.length_append,
    List.length_ofFn, partition_length, length_le16Bytes, List.length_nil, Nat.reduceAdd]

theorem bootSector_fields {b : Fat32BootSector} (h : BytesAt mem 0 b.bytes) :
    mem sectorsPerClusterAt = b.sectorsPerCluster ∧
    readUnalignedUint16 mem reservedSectorsAt = b.reservedSectors ∧
    mem numFatsAt = b.numFATs ∧
    readUnalignedUint16 mem totalSectors16At = b.totalSectors16 ∧
    readUnalignedUint32 mem totalSectors32At = b.totalSectors32 ∧
    readUnalignedUint32 mem sectorsPerFat32At = b.sectorsPerFAT32 ∧
    readUnalignedUint32 mem rootClusterAt = b.rootCluster ∧
    readUnalignedUint16 mem signatureAt = b.bootSectorSig := by
  simp only [Fat32BootSector.bytes, bytesAt_append, bytesAt_singleton, List.length_ofFn,
    length_le16Bytes, length_le32Bytes, List.length_singleton, Nat.reduceAdd] at h
  obtain ⟨-, -, -, hspc, hres, hfats, -, h16, -, -, -, -, -, h32, hspf, -, -, hroot, -, -, -, -, -,
    -, -, -, -, -, hsig⟩ := h
  exact ⟨hspc, hres.le16, hfats, h16.le16, h32.le32, hspf.le32, hroot.le32, hsig.le16⟩

theorem partition_fields {e : MBRPartitionEntry} {p : ℕ} (h : BytesAt mem p e.bytes) :
    mem (p + 4) = e.partitionType ∧ readUnalignedUint32 mem (p + 8) = e.startSector := by
  simp only [MBRPartitionEntry.bytes, bytesAt_append, bytesAt_singleton, List.length_ofFn,
    List.length_singleton, Nat.add_assoc, Nat.reduceAdd] at h
  obtain ⟨-, -, htype, -, hstart, -⟩ := h
  exact ⟨htype, hstart.le32⟩

theorem mbr_fields {m : MBR} (h : BytesAt mem 0 m.bytes) :
    readUnalignedUint16 mem signatureAt = m.signature ∧
    ∀ j : Fin 4, mem (partitionTypeAt j) = (m.partitions j).partitionType ∧
      readUnalignedUint32 mem (startSectorAt j) = (m.partitions j).startSector := by
  simp only [MBR.bytes, ofFn_four, List.flatMap_cons, List.flatMap_nil, bytesAt_append,
    List.length_append, List.length_ofFn, partition_length, List.length_nil, Nat.reduceAdd] at h
  obtain ⟨-, ⟨h0, h1, h2, h3, -⟩, hsig⟩ := h
  refine ⟨hsig.le16, fun j => ?_⟩
  obtain rfl | rfl | rfl | rfl : j = 0 ∨ j = 1 ∨ j = 2 ∨ j = 3 := by omega
  · exact partition_fields h0
  · exact partition_fields h1
  · exact partition_fields h2
  · exact partition_fields h3

/-! ## Mounting through an MBR -/

/-- A disk whose MBR has a FAT32 partition, the first in its slot `j`, with the boot sector `b`
at its start. The numbers of the sectors up to the data have 32 bits, and the reserved sectors and
the FATs fit into the volume. -/
structure Formatted (disk : Fat32Diskio) (m : MBR) (j : Fin 4) (b : Fat32BootSector) : Prop where
  mbr : disk.readSector 0 = some (sectorOf m.bytes)
  signature : m.signature = 0xAA55
  isFat32 : (m.partitions j).IsFat32
  first : ∀ i < j, ¬ (m.partitions i).IsFat32
  boot : disk.readSector (m.partitions j).startSector = some (sectorOf b.bytes)
  bootSignature : b.bootSectorSig = 0xAA55
  sectorsPerCluster : 1 ≤ b.sectorsPerCluster.toNat
  noOverflow : (m.partitions j).startSector.toNat + b.metadata < 2 ^ 32
  metadata_le : b.metadata ≤ b.totalSectors

variable {disk : Fat32Diskio} {m : MBR} {j : Fin 4} {b : Fat32BootSector}

theorem isFat32Partition_iff (h : BytesAt mem 0 m.bytes) (i : Fin 4) :
    isFat32Partition mem i = true ↔ (m.partitions i).IsFat32 := by
  simp only [isFat32Partition, ((mbr_fields h).2 i).1, Bool.or_eq_true, beq_iff_eq,
    MBRPartitionEntry.IsFat32]

theorem Formatted.findPartition (h : Formatted disk m j b) :
    findPartition (sectorOf m.bytes).byte = some (m.partitions j).startSector := by
  have hm := bytesAt_sectorOf (Nat.le_of_eq (mbr_length m))
  have hfind : (List.range 4).find? (isFat32Partition (sectorOf m.bytes).byte) = some j.val := by
    rw [List.find?_range_eq_some]
    refine ⟨(isFat32Partition_iff hm j).2 h.isFat32, List.mem_range.2 j.isLt, fun i hi => ?_⟩
    rw [Bool.not_eq_true', Bool.eq_false_iff]
    exact fun hp => h.first ⟨i, by omega⟩ hi ((isFat32Partition_iff hm ⟨i, by omega⟩).1 hp)
  rw [Fat32.findPartition, if_pos ((mbr_fields hm).1.trans h.signature), hfind, Option.map_some,
    ((mbr_fields hm).2 j).2]

theorem Formatted.bootSectorOf (h : Formatted disk m j b) :
    bootSectorOf disk = some (sectorOf b.bytes, (m.partitions j).startSector) := by
  simp only [Fat32.bootSectorOf, h.mbr, Option.bind_some, h.findPartition, h.boot, Option.map_some]

theorem totalSectorsOf_toNat (h : BytesAt mem 0 b.bytes) :
    (totalSectorsOf mem).toNat = b.totalSectors := by
  obtain ⟨-, -, -, h16, h32, -⟩ := bootSector_fields h
  unfold totalSectorsOf Fat32BootSector.totalSectors
  rw [h16, h32]
  split_ifs
  · exact UInt16.toNat_toUInt32 _
  · rfl

theorem Formatted.mounted (h : Formatted disk m j b) (hz : ZeroAfter mem) :
    ∃ fs, fat32Mount disk mem = .mounted fs ∧
      fs.fatStartSector.toNat =
        (m.partitions j).startSector.toNat + b.reservedSectors.toNat ∧
      fs.firstDataSector.toNat = (m.partitions j).startSector.toNat + b.metadata ∧
      fs.rootCluster = b.rootCluster ∧ fs.sectorsPerCluster = b.sectorsPerCluster ∧
      fs.totalClusters.toNat = (b.totalSectors - b.metadata) / b.sectorsPerCluster.toNat := by
  obtain ⟨hspc, hres, hfats, -, -, hspf, hroot, hsig⟩ := bootSector_fields
    (bytesAt_load mem (Nat.le_of_eq (bootSector_length b)))
  have htotal := totalSectorsOf_toNat
    (bytesAt_load mem (Nat.le_of_eq (bootSector_length b)))
  have hvalid : validateFat32BootSector (mem.load (sectorOf b.bytes)) = 0 :=
    validateFat32BootSector_eq_zero_iff.2 ⟨hsig.trans h.bootSignature, (load_zeroAfter _ _).2 hz⟩
  have hne : ¬ b.sectorsPerCluster = 0 := by
    intro h0
    have := h.sectorsPerCluster
    rw [h0] at this
    simp at this
  have hover := h.noOverflow
  have hle := h.metadata_le
  unfold Fat32BootSector.metadata at hover hle ⊢
  rw [fat32Mount_of_boot h.bootSectorOf, mountBootSector_valid _ hvalid]
  simp only [initializeFat32Fs, hspc, hres, hfats, hspf, hroot, if_neg hne]
  refine ⟨_, rfl, ?_⟩
  have hfat : ((m.partitions j).startSector + b.reservedSectors.toUInt32).toNat =
      (m.partitions j).startSector.toNat + b.reservedSectors.toNat := by
    rw [UInt32.toNat_add_of_lt] <;> rw [UInt16.toNat_toUInt32]
    omega
  have hmul : (b.numFATs.toUInt32 * b.sectorsPerFAT32).toNat =
      b.numFATs.toNat * b.sectorsPerFAT32.toNat := by
    rw [UInt32.toNat_mul_of_lt] <;> rw [UInt8.toNat_toUInt32]
    omega
  have hdata : ((m.partitions j).startSector + b.reservedSectors.toUInt32 +
      b.numFATs.toUInt32 * b.sectorsPerFAT32).toNat = (m.partitions j).startSector.toNat +
        (b.reservedSectors.toNat + b.numFATs.toNat * b.sectorsPerFAT32.toNat) := by
    rw [UInt32.toNat_add_of_lt] <;> rw [hfat, hmul] <;> omega
  refine ⟨hfat, hdata, rfl, rfl, ?_⟩
  rw [UInt32.toNat_div, UInt32.toNat_sub_of_toNat_le] <;>
    rw [UInt32.toNat_sub_of_toNat_le (by rw [hdata]; omega), hdata, Nat.add_sub_cancel_left]
  · rw [htotal, UInt8.toNat_toUInt32]
  · rw [htotal]
    exact hle

/-- A mount decodes what the formatter wrote, and the clusters of the volume lie in it, each in
its own place. -/
theorem mount_decodes (h : Formatted disk m j b) (hz : ZeroAfter mem) :
    ∃ fs, fat32Mount disk mem = .mounted fs ∧
      fs.fatStartSector.toNat =
        (m.partitions j).startSector.toNat + b.reservedSectors.toNat ∧
      fs.firstDataSector.toNat = (m.partitions j).startSector.toNat + b.reservedSectors.toNat +
        b.numFATs.toNat * b.sectorsPerFAT32.toNat ∧
      fs.rootCluster = b.rootCluster ∧
      fs.totalClusters.toNat =
        (b.totalSectors - b.reservedSectors.toNat - b.numFATs.toNat * b.sectorsPerFAT32.toNat) /
          b.sectorsPerCluster.toNat ∧
      ((m.partitions j).startSector.toNat + b.totalSectors ≤ 2 ^ 31 →
        (∀ c, InVolume fs c →
          (clusterToSector fs c).toInt = (fs.firstDataSector.toNat +
            (c.toNat - 2) * b.sectorsPerCluster.toNat : ℕ) ∧
          fs.firstDataSector.toNat + (c.toNat - 2) * b.sectorsPerCluster.toNat +
            b.sectorsPerCluster.toNat ≤ (m.partitions j).startSector.toNat + b.totalSectors) ∧
        ∀ c c', InVolume fs c → InVolume fs c' →
          clusterToSector fs c = clusterToSector fs c' → c = c') := by
  obtain ⟨fs, hfs, hfat, hdata, hroot, hspc, htotal⟩ := h.mounted hz
  have hle := h.metadata_le
  have hpos := h.sectorsPerCluster
  have hclusters : fs.totalClusters.toNat * b.sectorsPerCluster.toNat ≤
      b.totalSectors - b.metadata := by
    rw [htotal]
    exact Nat.div_mul_le_self _ _
  refine ⟨fs, hfs, hfat, by rw [hdata, Fat32BootSector.metadata, Nat.add_assoc], hroot,
    by rw [htotal, Fat32BootSector.metadata, Nat.sub_sub], fun hbelow => ?_⟩
  have hsector {c : UInt32} (hc : InVolume fs c) := @clusterToSector_toInt fs
    (by rw [hspc]; exact hpos) (by rw [hspc, hdata]; omega) c hc
  rw [hspc] at hsector
  refine ⟨fun c hc => ⟨hsector hc, ?_⟩, fun c c' hc hc' heq => ?_⟩
  · obtain ⟨h2, hlt⟩ := hc
    have hmul : (c.toNat - 2) * b.sectorsPerCluster.toNat + b.sectorsPerCluster.toNat ≤
        fs.totalClusters.toNat * b.sectorsPerCluster.toNat := by
      rw [← Nat.succ_mul]
      exact Nat.mul_le_mul_right _ (by omega)
    omega
  · have hint := congrArg Int32.toInt heq
    rw [hsector hc, hsector hc', Int.ofNat_inj, Nat.add_left_cancel_iff] at hint
    have := Nat.eq_of_mul_eq_mul_right hpos hint
    obtain ⟨h2, -⟩ := hc
    obtain ⟨h2', -⟩ := hc'
    rw [← UInt32.toNat_inj]
    omega

/-! ## A small card -/

def smallMbr : MBR where
  bootstrap _ := 0
  partitions i := ⟨0, fun _ => 0, if i = 0 then 0x0C else 0, fun _ => 0, 1, 100⟩
  signature := 0xAA55

def smallBootSector : Fat32BootSector where
  jmpBoot _ := 0
  oemName _ := 0
  bytesPerSector := 512
  sectorsPerCluster := 1
  reservedSectors := 32
  numFATs := 2
  rootEntryCount := 0
  totalSectors16 := 100
  mediaType := 0xF8
  sectorsPerFAT16 := 0
  sectorsPerTrack := 0
  numHeads := 0
  hiddenSectors := 1
  totalSectors32 := 0
  sectorsPerFAT32 := 1
  extFlags := 0
  fsVersion := 0
  rootCluster := 2
  fsInfo := 1
  backupBootSector := 6
  reserved _ := 0
  driveNumber := 0x80
  reserved1 := 0
  bootSignature := 0x29
  volumeID := 0
  volumeLabel _ := 0x20
  fsType _ := 0x20
  bootCode _ := 0
  bootSectorSig := 0xAA55

def smallCard : Fat32Diskio where
  readSector n :=
    if n = 0 then some (sectorOf smallMbr.bytes) else some (sectorOf smallBootSector.bytes)

theorem smallCard_formatted : Formatted smallCard smallMbr 0 smallBootSector where
  mbr := rfl
  signature := rfl
  isFat32 := .inr rfl
  first i hi := absurd hi (Fin.not_lt_zero i)
  boot := rfl
  bootSignature := rfl
  sectorsPerCluster := by decide
  noOverflow := by decide
  metadata_le := by decide

theorem mount_decodes_smallCard :
    ∃ fs, fat32Mount smallCard (fun _ => 0) = .mounted fs ∧ fs.firstDataSector.toNat = 35 ∧
      fs.totalClusters.toNat = 66 := by
  obtain ⟨fs, hfs, -, hdata, -, htotal, -⟩ :=
    mount_decodes smallCard_formatted (show ZeroAfter fun _ => 0 from ⟨rfl, rfl⟩)
  exact ⟨fs, hfs, hdata, htotal⟩

end BeagleKernel.Fat32
