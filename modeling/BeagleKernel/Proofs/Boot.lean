import BeagleKernel.Proofs.Decode
import BeagleKernel.Proofs.Load
import BeagleKernel.Proofs.Plain

/-!
# The kernel is where it was linked to be

The image of a kernel on the card is behind its link addresses when the boot loader jumps, and its
`.bss` is zero there (`boot_loads_kernel`). It has to be mapped to its end, and the words cleared
have to reach the end of `.bss`. On any card, what is entered is the file that the searches lead to,
laid over what the test and the mount leave in the DRAM (`boot_enters_file`).
-/

namespace BeagleKernel.Boot

open Fat32 Mmu

variable {disk : Fat32Diskio} {memory : ℕ → UInt8} {l1 : L1Table} {fs : Fat32Fs}
  {e : Fat32DirectoryEntry} {fuel : ℕ} {file : Fat32File} {prior : ℕ → UInt8} {loaded : Loaded}

/-! ## Translation -/

/-- An address of the kernel is translated to the one in DRAM it was loaded at. -/
theorem translate_kernel {kernelSections : UInt32} (hn : kernelSections.toNat ≤ 0x600)
    {v : UInt32} (hv : KernelMapped kernelSections.toNat v) :
    ∃ p, translate (mapKernel (mmuInit l1) kernelSections) v = some p ∧
      p.toNat = physical v.toNat := by
  have hentry := entry_kernel l1 hn ((kernelMapped_iff _ _).1 hv)
  have hbase : memKernelBase.toNat = 0xA0000000 := rfl
  have hphys : memPhysBase.toNat = 0x80000000 := rfl
  have hlow := hv.1
  have hlt := v.toNat_lt
  have hsub : (v - memKernelBase).toNat = v.toNat - 0xA0000000 :=
    UInt32.toNat_sub_of_toNat_le (by omega)
  have hmasked : ((v - memKernelBase) &&& l1SectionMask).toNat =
      (v.toNat - 0xA0000000) / 0x100000 * 0x100000 := by
    rw [sectionMask_toNat, hsub]
  have hadd : (memPhysBase + ((v - memKernelBase) &&& l1SectionMask)).toNat =
      0x80000000 + (v.toNat - 0xA0000000) / 0x100000 * 0x100000 := by
    rw [UInt32.toNat_add_of_lt] <;> rw [hmasked, hphys]
    omega
  refine ⟨_, by rw [translate, if_pos hentry.type, hentry.base_eq], ?_⟩
  rw [base_or_offset (by rw [hadd]; omega), hadd, KernelLayout.physical_eq]
  omega

/-! ## The header -/

theorem kernelHeader_eq {k : KernelLayout} (h : BytesAt memory 0 k.headerBytes) :
    kernelHeader memory = k.header := by
  simp only [KernelLayout.headerBytes, bytesAt_append, length_le32Bytes, Nat.zero_add,
    Nat.reduceAdd] at h
  obtain ⟨h0, h4, h8, h12, h16, h20, h24⟩ := h
  simp only [kernelHeader, memWord, Nat.reduceAdd]
  rw [h0.le32, h4.le32, h8.le32, h12.le32, h16.le32, h20.le32, h24.le32]

/-! ## What is entered -/

/-- The page table in use is the one with the kernel's sections. -/
theorem l1Table_loadedFrom (h : Enterable memory) {i : ℕ} (hi : i < l1Entries) :
    l1Table (loadedFrom memory).memory i =
      mapKernel (mmuInit (l1Table memory)) (kernelSections (kernelHeader memory)) i := by
  have hat : memPhysBase.toNat + pageTableAt = memBootPageTableBase.toNat := rfl
  rw [← l1Table_store memory
    (mapKernel (mmuInit (l1Table memory)) (kernelSections (kernelHeader memory))) hi]
  refine memWord_congr fun q hlow hhigh => if_neg ?_
  rintro ⟨a, ha, hle, hlt⟩
  exact (h.words a ha).2 ⟨by omega, by omega⟩

theorem translate_loadedFrom (h : Enterable memory) (v : UInt32) :
    translate (l1Table (loadedFrom memory).memory) v = translate
      (mapKernel (mmuInit (l1Table memory)) (kernelSections (kernelHeader memory))) v := by
  refine @translate_congr (l1Table (loadedFrom memory).memory) (mapKernel (mmuInit (l1Table memory))
    (kernelSections (kernelHeader memory))) ?_ v
  intro i hi
  exact l1Table_loadedFrom h hi

theorem loadedFrom_memory {p : ℕ} (h : p < pageTableAt) :
    (loadedFrom memory).memory p = cleared (clearedWords (kernelHeader memory)) memory p := by
  show cleared _ (storeL1Table memory _) p = _
  rw [cleared, storeL1Table_outside (.inl h)]
  rfl

namespace KernelLayout

variable {k : KernelLayout} {image : List UInt8}

/-- The bytes from `.bss` on are all that may be cleared. -/
theorem clears_iff (h : k.WordAligned) {p : ℕ} : Clears (clearedWords k.header) p ↔
    k.bssStart ≤ memKernelBase.toNat + p ∧
      memKernelBase.toNat + p + k.bssGap <
        k.bssStart + (k.textSize + k.rodataSize + k.bssSize) := by
  obtain ⟨-, ht, -, hr, -, -, hbg, hb⟩ := h.dvd
  have hstart : physical k.bssStart = 0x80000000 + (k.bssStart - 0xA0000000) := rfl
  have hlow : 0xA0000000 ≤ k.bssStart := k.base_le_bssStart
  have hbase : memKernelBase.toNat = 0xA0000000 := rfl
  have hphys : memPhysBase.toNat = 0x80000000 := rfl
  have hend := k.kernelEnd_lt
  have hsum := k.physical_bssStart
  have hheader : headerSize = 64 := rfl
  have hfits := k.fits
  constructor
  · rintro ⟨a, ha, hle, hlt⟩
    obtain ⟨j, hj, ha⟩ := k.mem_clearedWords.1 ha
    omega
  · rintro ⟨hle, hlt⟩
    -- the word the byte is in
    have hword : (UInt32.ofNat (physical k.bssStart +
        4 * ((memKernelBase.toNat + p - k.bssStart) / 4))).toNat =
          physical k.bssStart + 4 * ((memKernelBase.toNat + p - k.bssStart) / 4) :=
      UInt32.toNat_ofNat_lt (by omega)
    refine ⟨_, k.mem_clearedWords.2 ⟨_, ?_, hword⟩, ?_, ?_⟩
    · omega
    · rw [hword]
      omega
    · rw [hword]
      omega

/-- The kernel is behind its addresses, with its `.bss` zero, and is entered at its `.text`. -/
structure Entered (k : KernelLayout) (image : List UInt8) (m : Loaded) : Prop where
  entry : m.entry.toNat = k.textStart
  bootHeader : m.bootHeader = ⟨bootloaderMagic, memBootPageTableBase, kernelSections k.header⟩
  image : ∀ i (h : i < image.length),
    m.byte (memKernelBase + UInt32.ofNat i) = some (image.get ⟨i, h⟩)
  bss : ∀ v : UInt32, k.bssStart ≤ v.toNat → v.toNat < k.kernelEnd → m.byte v = some 0

/-- The image ends before the first word that is cleared. -/
theorem bytesAt_cleared (haligned : k.WordAligned) (himage : k.Image image)
    (hbytes : BytesAt memory 0 image) :
    BytesAt (cleared (clearedWords k.header) memory) 0 image := by
  have hlen := himage.length
  intro i hi
  rw [cleared, if_neg fun hc => ?_]
  · exact hbytes i hi
  · have hlow := ((k.clears_iff haligned).1 hc).1
    omega

/-- A kernel whose header is in memory can be entered, if nothing that is cleared reaches the page
table. -/
theorem enterable (haligned : k.WordAligned) (hheader : kernelHeader memory = k.header)
    (hbelow : physical k.kernelEnd + k.textSize + k.rodataSize ≤ memBootPageTableBase.toNat) :
    Enterable memory := by
  obtain ⟨-, ht, -, hr, -, -, hbg, hb⟩ := haligned.dvd
  have hphys : memPhysBase.toNat = 0x80000000 := rfl
  have hphysSize : memPhysSize.toNat = 0x20000000 := rfl
  have htable : memBootPageTableBase.toNat = 0x90000000 := rfl
  have hphysEnd := k.physical_kernelEnd
  have hlow : 0x80000000 ≤ physical k.bssStart := Nat.le_add_right _ _
  refine ⟨by rw [hheader]; rfl, ?_, fun a ha => ?_⟩
  · have hsections := k.kernelSections_le
    have hbase : memKernelBase.toNat = 0xA0000000 := rfl
    have hsize : memSectionSize.toNat = 0x100000 := rfl
    unfold numSections at hsections
    rw [hheader, MapsPast, hbase, hsize]
    omega
  · rw [hheader] at ha
    obtain ⟨j, hj, ha⟩ := k.mem_clearedWords.1 ha
    refine ⟨⟨by omega, by omega⟩, fun hin => ?_⟩
    have hlow := hin.1
    omega

section

variable (haligned : k.WordAligned) (hheader : kernelHeader memory = k.header)
  (hbelow : physical k.kernelEnd + k.textSize + k.rodataSize ≤ memBootPageTableBase.toNat)
include haligned hheader hbelow

theorem translate_covered (hcovered : headerSize + k.gaps ≤ k.slack) {v : UInt32}
    (hlow : memKernelBase.toNat ≤ v.toNat) (hend : v.toNat < k.kernelEnd) :
    ∃ p, translate (l1Table (loadedFrom memory).memory) v = some p ∧
      p.toNat = physical v.toNat := by
  have hreaches := k.reaches_iff.2 hcovered
  have hkernelEnd := k.kernelEnd_eq
  have hmapped : KernelMapped (kernelSections k.header).toNat v := ⟨hlow, by omega⟩
  obtain ⟨p, hp, heq⟩ := @translate_kernel (l1Table memory) _
    (k.kernelSections_le.trans (by decide)) v hmapped
  refine ⟨p, ?_, heq⟩
  rw [translate_loadedFrom (enterable haligned hheader hbelow), hheader, hp]

theorem byte_of_covered (hcovered : headerSize + k.gaps ≤ k.slack) {v : UInt32}
    (hlow : memKernelBase.toNat ≤ v.toNat) (hend : v.toNat < k.kernelEnd) :
    (loadedFrom memory).byte v =
      some (cleared (clearedWords k.header) memory (v.toNat - memKernelBase.toNat)) := by
  have hphys : memPhysBase.toNat = 0x80000000 := rfl
  have hphysSize : memPhysSize.toNat = 0x20000000 := rfl
  have htable : memBootPageTableBase.toNat = 0x90000000 := rfl
  have hbase : memKernelBase.toNat = 0xA0000000 := rfl
  have hat : pageTableAt = 0x10000000 := rfl
  have hkernelEnd := k.kernelEnd_eq
  have hphysEnd : physical k.kernelEnd = 0x80000000 + (k.kernelEnd - 0xA0000000) := rfl
  obtain ⟨p, hp, heq⟩ := translate_covered haligned hheader hbelow hcovered hlow hend
  rw [physical_eq] at heq
  have hin : memPhysBase.toNat ≤ p.toNat ∧
      p.toNat < memPhysBase.toNat + memPhysSize.toNat := by omega
  have hoffset : p.toNat - memPhysBase.toNat = v.toNat - memKernelBase.toNat := by omega
  rw [Loaded.byte, hp, Option.bind_some, if_pos hin, hoffset,
    loadedFrom_memory (by omega), hheader]

/-- Once it is loaded, the kernel is as it was linked to be. -/
theorem entered_of_loaded (hcovered : headerSize + k.gaps ≤ k.slack)
    (hbss : k.bssSize = 0 ∨ k.bssGap ≤ k.textSize + k.rodataSize) (himage : k.Image image)
    (hbytes : BytesAt memory 0 image) : k.Entered image (loadedFrom memory) := by
  have hlen := himage.length
  have hend : k.kernelEnd = k.bssStart + k.bssSize := rfl
  have hbase : memKernelBase.toNat = 0xA0000000 := rfl
  have hat : pageTableAt = 0x10000000 := rfl
  have htable : memBootPageTableBase.toNat = 0x90000000 := rfl
  have hphysEnd : physical k.kernelEnd = 0x80000000 + (k.kernelEnd - 0xA0000000) := rfl
  have hkept := bytesAt_cleared haligned himage hbytes
  refine ⟨?_, by rw [← hheader]; rfl, fun i hi => ?_, fun v hlow hhigh => ?_⟩
  · obtain ⟨rest, rfl⟩ := himage.header
    have hmemory : BytesAt (loadedFrom memory).memory 0 k.headerBytes := by
      intro i hi
      rw [List.length_append] at hlen
      rw [loadedFrom_memory (by omega), hheader]
      exact (bytesAt_append.1 hkept).1 i hi
    show (kernelHeader (loadedFrom memory).memory).kernelEntry.toNat = k.textStart
    rw [kernelHeader_eq hmemory]
    have hlt := k.kernelEnd_lt
    refine UInt32.toNat_ofNat_lt ?_
    have hle : k.textStart ≤ k.bssStart := by
      simp only [bssStart, dataStart, rodataStart]
      omega
    omega
  · have hv : (memKernelBase + UInt32.ofNat i).toNat = memKernelBase.toNat + i := by
      have hlt := k.kernelEnd_lt
      rw [UInt32.toNat_add_of_lt] <;> rw [UInt32.toNat_ofNat_lt (by omega)]
      omega
    have hbyte := hkept i hi
    rw [Nat.zero_add] at hbyte
    rw [byte_of_covered haligned hheader hbelow hcovered (by omega) (by omega), hv,
      Nat.add_sub_cancel_left, hbyte]
    rfl
  · have hlow' := k.base_le_bssStart
    rw [byte_of_covered haligned hheader hbelow hcovered (by omega) hhigh, cleared, if_pos]
    refine (k.clears_iff haligned).2 ⟨by omega, ?_⟩
    omega

end

end KernelLayout

/-! ## The card -/

section

variable (hcard : KernelCard disk memory fs e)

include hcard

theorem KernelCard.leads : LeadsTo fs kernelPath e := by
  have hkept : keptComponents kernelPath = components kernelPath := by decide
  refine ⟨(hcard.names.listed .root).1, ?_⟩
  rw [hkept]
  exact trail_of_resolves hcard.names hcard.directories .root

theorem KernelCard.opens : ∃ n dir name, ∀ fuel ≥ n, ∀ file prior,
    (fat32Open fuel fs kernelPath file prior).val =
      .ok (0, openedFile fs file dir name e) := by
  obtain ⟨hfile, es, htrail⟩ := hcard.leads
  rw [kept_kernelPath] at htrail
  obtain ⟨n, hn⟩ := fat32Open_of_trail fs kept_kernelPath
    (isInitialized_of_mounted hcard.mounted) htrail hfile
  exact ⟨n, _, _, hn⟩

theorem KernelCard.codedByte_eq {j : ℕ} (hj : j < e.fileSize.toNat) :
    codedByte fs e.startCluster j = chainByte fs e.startCluster j :=
  (hcard.file.coded hcard.below (sizes_of_mounted hcard.mounted).2 hj).1

theorem KernelCard.bytesAt (memory : ℕ → UInt8) :
    BytesAt (overlay fs e.startCluster e.fileSize.toNat memory) 0
      (contents fs e.startCluster e.fileSize.toNat) := by
  intro i hi
  rw [length_contents] at hi
  simp only [Nat.zero_add, overlay, if_pos hi, contents, List.getElem_map, List.getElem_range,
    hcard.codedByte_eq hi]

/-- The searches lead to the file, so what is in memory with it is entered, or is not. -/
theorem KernelCard.boots (hsize : e.fileSize.toNat ≤ memPhysSize.toNat) :
    ∃ n, ∀ fuel ≥ n, ∀ file prior, (bootloaderEntry fuel disk file prior memory).val =
      .ok (enterKernel (bootMemory disk memory fs e e.fileSize.toNat)) := by
  refine bootloaderEntry_of_leads hcard.mounted hcard.leads hsize fun j hj => ?_
  rw [hcard.codedByte_eq hj]
  exact hcard.reads j hj

theorem KernelCard.header_eq {k : KernelLayout}
    (himage : k.Image (contents fs e.startCluster e.fileSize.toNat)) (memory : ℕ → UInt8) :
    kernelHeader (overlay fs e.startCluster e.fileSize.toNat memory) = k.header := by
  have hbytes := hcard.bytesAt memory
  obtain ⟨rest, hrest⟩ := himage.header
  rw [← hrest] at hbytes
  exact kernelHeader_eq (bytesAt_append.1 hbytes).1

end

/-! ## A small card -/

/-- A kernel of one instruction and one word of `.bss`. -/
def tinyKernel : KernelLayout where
  textGap := 0
  textSize := 4
  rodataGap := 0
  rodataSize := 0
  dataGap := 0
  dataSize := 0
  bssGap := 0
  bssSize := 4
  fits := by decide

def tinyImage : List UInt8 := tinyKernel.headerBytes ++ (List.replicate 36 0 ++ [1, 2, 3, 4])

/-- A directory of one entry. -/
def oneEntry (name : List UInt8) (attr start size : UInt8) : Sector := fun i =>
  (name ++ [attr, 0, 0, 0, 0, 0, 0, 0, 0, 0, 0, 0, 0, 0, 0, start, 0, size, 0, 0, 0]).getD i 0

/-- The boot sector of `smallFs`. -/
def kernelBootSector : Sector :=
  sectorOf { smallBootSector with
    numFATs := 1
    totalSectors16 := 133 : Fat32BootSector }.bytes

/-- The root directory, with `/boot`. -/
def rootSector : Sector :=
  oneEntry [0x42, 0x4F, 0x4F, 0x54, 0x20, 0x20, 0x20, 0x20, 0x20, 0x20, 0x20] fat32AttrDirectory 3 0

/-- `/boot`, with the kernel, `size` bytes long. -/
def bootSector (size : UInt8) : Sector :=
  oneEntry [0x4B, 0x45, 0x52, 0x4E, 0x45, 0x4C, 0x20, 0x20, 0x42, 0x49, 0x4E] 0x20 4 size

/-- A card without partitions: its root directory in cluster 2, `/boot` in cluster 3 and the
kernel, `size` bytes long, in cluster 4. -/
def kernelDisk (size : UInt8) : Fat32Diskio where
  readSector s := some (
    if s = 0 then kernelBootSector
    else if s = 32 then fun i =>
      if 8 ≤ i ∧ i < 20 then if i.val % 4 = 3 then 0x0F else 0xFF else 0
    else if s = 33 then rootSector
    else if s = 34 then bootSector size
    else sectorOf tinyImage)

theorem kernelDisk_mounted (size : UInt8) :
    fat32Mount (kernelDisk size) (fun _ => 0) = .mounted (smallFs (kernelDisk size)) := by
  set mem := SectorMemory.load (fun _ => 0) kernelBootSector with hmem
  have hpartition : findPartition mem = none := by rw [hmem]; decide +kernel
  have hcheck : checkSector0ForFat32 mem = true := by rw [hmem]; decide +kernel
  have hvalid : validateFat32BootSector mem = 0 := by rw [hmem]; decide +kernel
  have hfields : mem sectorsPerClusterAt = 1 ∧ readUnalignedUint16 mem reservedSectorsAt = 32 ∧
      mem numFatsAt = 1 ∧ readUnalignedUint32 mem sectorsPerFat32At = 1 ∧
      readUnalignedUint32 mem rootClusterAt = 2 ∧ totalSectorsOf mem = 133 := by
    rw [hmem]
    decide +kernel
  have hread : (kernelDisk size).readSector 0 = some kernelBootSector := rfl
  obtain ⟨h1, h2, h3, h4, h5, h6⟩ := hfields
  unfold fat32Mount
  simp only [hread, ← hmem, hpartition, hcheck, if_true]
  unfold mountBootSector
  rw [if_neg (by rw [hvalid]; decide)]
  simp only [initializeFat32Fs, h1, h2, h3, h4, h5, h6]
  rfl

def bootEntry : Fat32DirectoryEntry := rootSector.dirEntry 0

def kernelEntry (size : UInt8) : Fat32DirectoryEntry := (bootSector size).dirEntry 0

theorem bootEntry_spec : bootEntry.Live ∧ ¬ bootEntry.IsLabel ∧ bootEntry.IsDirectory ∧
    formatNameToFat32 [0x62, 0x6F, 0x6F, 0x74] = bootEntry.filename ∧
    bootEntry.startCluster = 3 := by
  decide

section

variable {size : UInt8}

theorem kernelDisk_root : ∃ z rest, z.EndMark ∧
    clusterSlots (smallFs (kernelDisk size)) 2 = some bootEntry :: some z :: rest :=
  ⟨rootSector.dirEntry 1, _, by decide, rfl⟩

theorem kernelDisk_boot : ∃ z rest, z.EndMark ∧
    clusterSlots (smallFs (kernelDisk size)) 3 = some (kernelEntry size) :: some z :: rest := by
  have hz : ((bootSector size).dirEntry 1).EndMark := show (bootSector size).byte 32 = 0 from rfl
  exact ⟨_, _, hz, rfl⟩

theorem plain_of_slots {dir : UInt32} {a : Fat32DirectoryEntry} (hdir : dir ≠ fat32EocMarker)
    (hlink : link fs dir = none)
    (hslots : ∃ z rest, z.EndMark ∧ clusterSlots fs dir = some a :: some z :: rest)
    (ha : a.Live) : PlainDirectory fs dir ∧ EndMarked fs dir := by
  obtain ⟨z, rest, hz, hslots⟩ := hslots
  refine ⟨⟨hdir, fun k c d hc hl => ?_, fun e e' he he' _ _ => ?_⟩,
    1, z, hz, [some a], rest ++ [none], ?_, ?_⟩
  · rcases k with _ | k
    · cases hc
      rw [hlink] at hl
      cases hl
    · rw [chain, walk_succ', hlink] at hc
      cases hc
  · rw [eq_of_listed hslots hz he, eq_of_listed hslots hz he']
  · rw [dirSlots, hslots, hlink]
    rfl
  · rintro x hx
    exact ⟨a, List.mem_singleton.1 hx, ha.1⟩

theorem listed_of_slots {dir : UInt32} {a : Fat32DirectoryEntry}
    (hslots : ∃ z rest, z.EndMark ∧ clusterSlots fs dir = some a :: some z :: rest)
    (ha : a.Live) : Listed fs dir a := by
  obtain ⟨z, rest, -, hslots⟩ := hslots
  exact ⟨ha, 1, [], _, by rw [dirSlots, hslots]; rfl, List.forall_mem_nil _⟩

theorem components_kernelPath : components kernelPath = [[0x62, 0x6F, 0x6F, 0x74],
    [0x6B, 0x65, 0x72, 0x6E, 0x65, 0x6C, 0x2E, 0x62, 0x69, 0x6E]] := by
  decide

theorem fits_kernelPath : ∀ name ∈ components kernelPath, Fits83 name := by
  rw [components_kernelPath, List.forall_mem_cons, List.forall_mem_singleton]
  exact ⟨⟨by decide, by decide, by decide⟩, ⟨by decide, by decide, by decide⟩⟩

variable (hsize : size = 0 ∨ size = 68)
include hsize

theorem kernelEntry_spec : (kernelEntry size).Live ∧ ¬ (kernelEntry size).IsLabel ∧
    ¬ (kernelEntry size).IsDirectory ∧
    formatNameToFat32 [0x6B, 0x65, 0x72, 0x6E, 0x65, 0x6C, 0x2E, 0x62, 0x69, 0x6E] =
      (kernelEntry size).filename ∧
    (kernelEntry size).startCluster = 4 ∧ (kernelEntry size).fileSize.toNat ≤ 68 := by
  rcases hsize with rfl | rfl
  · decide
  · decide

theorem kernelDisk_directory {dir : UInt32} (h : Directory (smallFs (kernelDisk size)) dir) :
    dir = 2 ∨ dir = 3 := by
  induction h with
  | root => exact .inl rfl
  | sub _ hlisted hsub ih =>
    rcases ih with rfl | rfl
    · obtain ⟨z, rest, hz, hslots⟩ := @kernelDisk_root size
      obtain rfl := eq_of_listed hslots hz hlisted
      exact .inr bootEntry_spec.2.2.2.2
    · obtain ⟨z, rest, hz, hslots⟩ := @kernelDisk_boot size
      obtain rfl := eq_of_listed hslots hz hlisted
      exact absurd hsub.1 (kernelEntry_spec hsize).2.2.1

theorem kernelDisk_plain {dir : UInt32} (h : Directory (smallFs (kernelDisk size)) dir) :
    PlainDirectory (smallFs (kernelDisk size)) dir ∧ EndMarked (smallFs (kernelDisk size)) dir := by
  have hlink : link (smallFs (kernelDisk size)) 2 = none ∧
      link (smallFs (kernelDisk size)) 3 = none := by
    rcases hsize with rfl | rfl
    · decide
    · decide
  rcases kernelDisk_directory hsize h with rfl | rfl
  · exact plain_of_slots (by decide) hlink.1 kernelDisk_root bootEntry_spec.1
  · exact plain_of_slots (by decide) hlink.2 kernelDisk_boot (kernelEntry_spec hsize).1

theorem kernelDisk_file : PlainFile (smallFs (kernelDisk size)) (kernelEntry size).startCluster
    (kernelEntry size).fileSize := by
  obtain ⟨-, -, -, -, hstart, hle⟩ := kernelEntry_spec hsize
  refine ⟨fun _ => by rw [hstart]; decide, by omega, fun k hk => ?_⟩
  have hone : clustersFor (smallFs (kernelDisk size)) (kernelEntry size).fileSize.toNat ≤ 1 := by
    rcases hsize with rfl | rfl
    · decide
    · decide
  obtain rfl : k = 0 := by omega
  rw [hstart]
  exact ⟨4, rfl, by decide, show 4 < 2 + 100 by decide⟩

theorem kernelDisk_volume : PlainVolume (smallFs (kernelDisk size)) where
  below := show 33 + 100 * 1 ≤ 2 ^ 31 by decide
  directories dir h := kernelDisk_plain hsize h
  files dir h e he hlabel hfile := by
    rcases kernelDisk_directory hsize h with rfl | rfl
    · obtain ⟨z, rest, hz, hslots⟩ := @kernelDisk_root size
      obtain rfl := eq_of_listed hslots hz he
      exact absurd bootEntry_spec.2.2.1 hfile
    · obtain ⟨z, rest, hz, hslots⟩ := @kernelDisk_boot size
      obtain rfl := eq_of_listed hslots hz he
      exact kernelDisk_file hsize

theorem kernelDisk_names : Resolves (smallFs (kernelDisk size)) 2 (components kernelPath)
    (kernelEntry size) := by
  obtain ⟨hlive, hlabel, hdir, hname, hstart⟩ := bootEntry_spec
  obtain ⟨hlive', hlabel', hfile, hname', -⟩ := kernelEntry_spec hsize
  have hfits := fits_kernelPath
  rw [components_kernelPath] at hfits ⊢
  refine .dir (hfits _ (.head _)) (listed_of_slots kernelDisk_root hlive) hname hlabel hdir ?_
  rw [hstart]
  exact .file (hfits _ (.tail _ (.head _))) (listed_of_slots kernelDisk_boot hlive') hname' hlabel'
    hfile

theorem kernelDisk_path : PlainPath (smallFs (kernelDisk size)) kernelPath where
  count := by decide
  fits := fits_kernelPath
  labels dir h d hd hlabel := by
    rcases kernelDisk_directory hsize h with rfl | rfl
    · obtain ⟨z, rest, hz, hslots⟩ := @kernelDisk_root size
      obtain rfl := eq_of_listed hslots hz hd
      exact absurd hlabel bootEntry_spec.2.1
    · obtain ⟨z, rest, hz, hslots⟩ := @kernelDisk_boot size
      obtain rfl := eq_of_listed hslots hz hd
      exact absurd hlabel (kernelEntry_spec hsize).2.1
  dirs names rest hsplit hrest e h := by
    obtain ⟨z, others, hz, hslots⟩ := @kernelDisk_root size
    rw [components_kernelPath] at hsplit
    rcases names with _ | ⟨boot, _ | ⟨kernel, names⟩⟩
    · cases h
    · cases h with
      | file _ hlisted _ _ hfile =>
        obtain rfl := eq_of_listed hslots hz hlisted
        exact hfile bootEntry_spec.2.2.1
      | dir _ _ _ _ _ h => cases h
    · rcases List.cons.inj hsplit with ⟨-, hsplit⟩
      exact hrest (List.append_eq_nil_iff.1 (List.cons.inj hsplit).2).2

theorem kernelDisk_card : KernelCard (kernelDisk size) (fun _ => 0) (smallFs (kernelDisk size))
    (kernelEntry size) where
  mounted := kernelDisk_mounted size
  below := (kernelDisk_volume hsize).below
  directories dir h := (kernelDisk_plain hsize h).1
  names := kernelDisk_names hsize
  file := kernelDisk_file hsize
  reads j hj := by
    obtain ⟨-, -, -, -, hstart, hle⟩ := kernelEntry_spec hsize
    have hzero : j / clusterBytes (smallFs (kernelDisk size)) = 0 :=
      Nat.div_eq_of_lt (show j < 512 by omega)
    rw [hstart, chainByte, hzero]
    rfl

end

theorem tinyKernel_image : tinyKernel.Image
    (contents (smallFs (kernelDisk 68)) (kernelEntry 68).startCluster
      (kernelEntry 68).fileSize.toNat) := by
  have hcontents : contents (smallFs (kernelDisk 68)) (kernelEntry 68).startCluster
      (kernelEntry 68).fileSize.toNat = tinyImage := by decide +kernel
  rw [hcontents]
  exact ⟨List.prefix_append _ _, rfl⟩

/-! ## The load -/

/-- A kernel on a card is loaded to where it was linked to be. Its header and gaps have to fit into
what the rounding to whole sections adds, and the gap before `.bss` must not be longer than `.text`
and `.rodata`; nothing that is read or cleared reaches the boot page table. -/
theorem boot_loads_kernel (hcard : KernelCard disk memory fs e) {k : KernelLayout}
    (himage : k.Image (contents fs e.startCluster e.fileSize.toNat)) (haligned : k.WordAligned)
    (hcovered : KernelLayout.headerSize + k.gaps ≤ k.slack)
    (hbss : k.bssSize = 0 ∨ k.bssGap ≤ k.textSize + k.rodataSize)
    (hbelow : physical k.kernelEnd + k.textSize + k.rodataSize ≤ memBootPageTableBase.toNat) :
    ∃ loaded, k.Entered (contents fs e.startCluster e.fileSize.toNat) loaded ∧
      ∃ n, ∀ fuel ≥ n, ∀ file prior,
        (bootloaderEntry fuel disk file prior memory).val = .ok (.ok loaded) := by
  have hsize : e.fileSize.toNat ≤ memPhysSize.toNat := by
    have hlen := himage.length
    have hend : k.kernelEnd = k.bssStart + k.bssSize := rfl
    have hphysEnd : physical k.kernelEnd = 0x80000000 + (k.kernelEnd - 0xA0000000) := rfl
    have htable : memBootPageTableBase.toNat = 0x90000000 := rfl
    have hbase : memKernelBase.toNat = 0xA0000000 := rfl
    have hphysSize : memPhysSize.toNat = 0x20000000 := rfl
    rw [length_contents] at hlen
    omega
  have hheader := hcard.header_eq himage (mountedMemory disk (testedMemory memory))
  obtain ⟨n, hn⟩ := hcard.boots hsize
  refine ⟨_, KernelLayout.entered_of_loaded haligned hheader hbelow hcovered hbss himage
    (hcard.bytesAt _), n, fun fuel hfuel file prior => ?_⟩
  rw [hn fuel hfuel file prior]
  exact congrArg Except.ok (enterKernel_of (KernelLayout.enterable haligned hheader hbelow))

theorem boot_loads_kernel_tiny : ∃ loaded,
    tinyKernel.Entered (contents (smallFs (kernelDisk 68)) (kernelEntry 68).startCluster
      (kernelEntry 68).fileSize.toNat) loaded ∧
    ∃ n, ∀ fuel ≥ n, ∀ file prior, (bootloaderEntry fuel (kernelDisk 68) file prior
      fun _ => 0).val = .ok (.ok loaded) :=
  boot_loads_kernel (kernelDisk_card (.inr rfl)) tinyKernel_image (by decide) (by decide)
    (.inr (by decide)) (by decide)

end BeagleKernel.Boot
