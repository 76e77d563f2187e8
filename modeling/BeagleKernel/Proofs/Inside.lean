import BeagleKernel.Fat32.Cursor
import BeagleKernel.Proofs.Named
import BeagleKernel.Proofs.ReadLog
import BeagleKernel.Proofs.Searches
import BeagleKernel.Proofs.Unpartitioned

/-!
# Accesses inside the volume

The driver follows the cluster numbers it finds on the disk, and checks only the target of a read
against the size of the volume. So it stays inside the volume exactly if every number it meets
leads to a sector the volume has (`staysInside_iff`): the clusters of a directory that a search
gets to, and the clusters of a file's walk.
-/

namespace BeagleKernel.Fat32

section

variable (fs : Fat32Fs)

/-- The sector is one of the volume, and for a lookup one of the first FAT. -/
def Inside (a : Access) : Prop :=
  (volumeStart fs).toNat ≤ a.sector.toNat ∧
    a.sector.toNat < (volumeStart fs).toNat + fs.totalSectors.toNat ∧
    match a with
    | .fat _ _ sector => fs.fatStartSector.toNat ≤ sector.toNat ∧
        sector.toNat < fs.fatStartSector.toNat + fs.sectorsPerFat.toNat
    | .data .. => True

/-- `fat32_open` of any path, `fat32_readlabel`, and `fat32_read` at any offset of an opened file
stay inside the volume. -/
structure StaysInside : Prop where
  opens : ∀ fuel path file prior, ∀ a ∈ (fat32Open fuel fs path file prior).log, Inside fs a
  labels : ∀ fuel labelOut, ∀ a ∈ (fat32Readlabel fuel fs labelOut).log, Inside fs a
  reads : ∀ fuel path file prior file',
    (fat32Open fuel fs path file prior).val = .ok (fat32Success, file') →
    ∀ offset buffer size, ∀ a ∈ (fat32Read { file' with fileOffset := offset } buffer size).log,
      Inside fs a

/-! ## The numbers on the disk -/

/-- The volume has an `n`-th sector. -/
def HasSector (n : ℕ) : Prop :=
  n < fs.totalSectors.toNat ∧ (volumeStart fs).toNat + n < 2 ^ 32

/-- The first FAT has an entry for the number. -/
def HasEntry (c : UInt32) : Prop :=
  (c * 4 / 512).toNat < fs.sectorsPerFat.toNat ∧
    HasSector fs (fs.reservedSectorCount.toNat + (c * 4 / 512).toNat)

/-- How far into the volume the `i`-th sector of a cluster is, in the driver's arithmetic. -/
def clusterOffset (c : UInt32) (i : ℕ) : UInt32 :=
  fs.reservedSectorCount.toUInt32 + fs.numFats.toUInt32 * fs.sectorsPerFat +
    (c - 2) * fs.sectorsPerCluster.toUInt32 + UInt32.ofNat i

/-- The numbers of a directory: a cluster the loop gets to has the sectors that are read, and an
entry if it passes. -/
structure DirInside (Pass : Fat32DirectoryEntry → Prop) (start : UInt32) : Prop where
  sectors : ∀ c, Visits fs Pass start c → ∀ i < fs.sectorsPerCluster.toNat,
    (∀ j < i, PassesSector fs Pass (clusterStart fs c + UInt32.ofNat j)) →
    HasSector fs (clusterOffset fs c i).toNat
  entries : ∀ c, Visits fs Pass start c → PassesCluster fs Pass c → HasEntry fs c

/-- The numbers of a file: a cluster of its walk has an entry if the file goes on after it, and
the sectors the file takes if it is accepted. -/
structure FileInside (start : UInt32) (size : ℕ) : Prop where
  entries : ∀ k, (codedCluster fs start (k + 1)).isSome → (k + 1) * clusterBytes fs < size →
    HasEntry fs ((nextCode fs)^[k] start)
  sectors : ∀ k c, codedCluster fs start k = some c → 0 ≤ clusterToSector fs c →
    ∀ i < fs.sectorsPerCluster.toNat, k * clusterBytes fs + fat32SectorSize * i < size →
    HasSector fs (clusterOffset fs c i).toNat

/-- The numbers of the root directory, of the directories a path leads through, and of the file it
leads to. -/
structure NumbersInside : Prop where
  search : ∀ path prior names name es,
    SearchedFor (parseFat32Path path prior) (names ++ [name]) → Trail fs fs.rootCluster names es →
    DirInside fs (Passed (formatNameToFat32 name)) (trailEnd fs.rootCluster es)
  label : DirInside fs NoLabel fs.rootCluster
  file : ∀ path es e, Trail fs fs.rootCluster (keptComponents path) (es ++ [e]) →
    ¬ e.IsDirectory → FileInside fs e.startCluster e.fileSize.toNat

end

variable {fs : Fat32Fs} {disk : Fat32Diskio} {mem : SectorMemory} {a : Access} {c : UInt32}

/-! ## Where an access is -/

/-- What `initialize_fat32_fs` leaves. -/
structure Initialized (fs : Fat32Fs) : Prop where
  bytesPerSector : fs.bytesPerSector = 512
  sectorsPerCluster : 1 ≤ fs.sectorsPerCluster.toNat
  magic : fs.isInitialized
  firstData : fs.firstDataSector =
    fs.fatStartSector + fs.numFats.toUInt32 * fs.sectorsPerFat

theorem initialized_of_mounted (h : fat32Mount disk mem = .mounted fs) : Initialized fs := by
  obtain ⟨b, hb⟩ := bootSectorOf_of_mounted h
  rw [fat32Mount_of_boot hb] at h
  obtain ⟨start, hinit⟩ : ∃ start, initializeFat32Fs disk (mem.load b) start = some fs :=
    ⟨_, mountBootSector_starts h⟩
  simp only [initializeFat32Fs] at hinit
  split_ifs at hinit with hspc
  cases hinit
  refine ⟨rfl, ?_, rfl, rfl⟩
  rw [Nat.one_le_iff_ne_zero]
  intro h0
  exact hspc (UInt8.toNat_inj.1 h0)

theorem fatStart_eq : fs.fatStartSector = volumeStart fs + fs.reservedSectorCount.toUInt32 :=
  (UInt32.sub_add_cancel _ _).symm

theorem toNat_fatSector (c : UInt32) : (fatSector fs c).toNat =
    ((volumeStart fs).toNat + (fs.reservedSectorCount.toNat + (c * 4 / 512).toNat)) % 2 ^ 32 := by
  rw [fatSector, UInt32.toNat_add, fatStart_eq, UInt32.toNat_add, UInt16.toNat_toUInt32]
  omega

theorem inside_fat (pos : ℕ) (c : UInt32) :
    Inside fs (.fat pos c (fatSector fs c)) ↔ HasEntry fs c := by
  have hs := @toNat_fatSector fs c
  have hfat := congrArg UInt32.toNat (@fatStart_eq fs)
  rw [UInt32.toNat_add, UInt16.toNat_toUInt32] at hfat
  have hstart := (volumeStart fs).toNat_lt
  have hres := fs.reservedSectorCount.toNat_lt
  have hq : (c * 4 / 512).toNat < 2 ^ 23 := by
    have hlt := (c * 4).toNat_lt
    have h512 : (512 : UInt32).toNat = 512 := rfl
    rw [UInt32.toNat_div, h512]
    omega
  simp only [Inside, Access.sector, HasEntry, HasSector, hs, hfat]
  omega

theorem inside_data (hfs : Initialized fs) (pos : ℕ) (c : UInt32) (i : ℕ) :
    Inside fs (.data pos c (clusterStart fs c + UInt32.ofNat i)) ↔
      HasSector fs (clusterOffset fs c i).toNat := by
  have hs : clusterStart fs c + UInt32.ofNat i = volumeStart fs + clusterOffset fs c i := by
    rw [clusterStart, hfs.firstData, fatStart_eq, clusterOffset]
    grind
  have hstart := (volumeStart fs).toNat_lt
  have hoff := (clusterOffset fs c i).toNat_lt
  simp only [Inside, Access.sector, HasSector, hs, UInt32.toNat_add, and_true]
  omega

/-! ## The operations -/

theorem fat32Readlabel_log (fuel : ℕ) (labelOut : ℕ → UInt8) :
    (fat32Readlabel fuel fs labelOut).log =
      (visitClusters labelEntries fat32ErrorNoLabel fs fuel 0 fs.rootCluster).log := by
  unfold fat32Readlabel
  rcases hv : (visitClusters labelEntries fat32ErrorNoLabel fs fuel 0 fs.rootCluster).val
    with e | code | e
  · rw [Traced.bind_of_error hv]
  · rw [Traced.log_bind_of_ok hv]
    exact List.append_nil _
  · rw [Traced.log_bind_of_ok hv]
    exact List.append_nil _

section

variable {Pass : Fat32DirectoryEntry → Prop} {visit : EntryLoop}
  (hvisit : ∀ es, visit es = none ↔ ∀ d ∈ es, Pass d) {start : UInt32} (hfs : Initialized fs)

include hvisit hfs

theorem DirInside.inside {notFound : Int32} (h : DirInside fs Pass start) {fuel : ℕ}
    (ha : a ∈ (visitClusters visit notFound fs fuel 0 start).log) : Inside fs a := by
  obtain ⟨d, hd, ⟨pos, i, hi, hpass, rfl⟩ | ⟨hpass, pos, rfl⟩⟩ := visitClusters_reads hvisit ha
  · exact (inside_data hfs pos d i).2 (h.sectors d hd i hi hpass)
  · exact (inside_fat pos d).2 (h.entries d hd hpass)

theorem dirInside_of_inside (notFound : Int32) (k : ℕ)
    (h : ∀ fuel ≥ k, ∀ a ∈ (visitClusters visit notFound fs fuel 0 start).log, Inside fs a) :
    DirInside fs Pass start := by
  have hreads {d : UInt32} (hd : Visits fs Pass start d) :
      ∃ fuel ≥ k, ∃ p, (∀ i < fs.sectorsPerCluster.toNat,
        (∀ j < i, PassesSector fs Pass (clusterStart fs d + UInt32.ofNat j)) →
        .data p d (clusterStart fs d + UInt32.ofNat i) ∈
          (visitClusters visit notFound fs fuel 0 start).log) ∧
      (PassesCluster fs Pass d → .fat p d (fatSector fs d) ∈
        (visitClusters visit notFound fs fuel 0 start).log) := by
    obtain ⟨n, hn⟩ := hd.reads hvisit notFound
    exact ⟨max k (n + 1), le_max_left _ _, hn _ (Nat.lt_of_succ_le (le_max_right _ _)) 0⟩
  constructor
  · intro d hd i hi hpass
    obtain ⟨fuel, hk, p, hsectors, -⟩ := hreads hd
    exact (inside_data hfs p d i).1 (h fuel hk _ (hsectors i hi hpass))
  · intro d hd hpass
    obtain ⟨fuel, hk, p, -, hentry⟩ := hreads hd
    exact (inside_fat p d).1 (h fuel hk _ (hentry hpass))

end

section

variable (hfs : Initialized fs)

include hfs

theorem opens_inside_iff :
    (∀ fuel path file prior, ∀ a ∈ (fat32Open fuel fs path file prior).log, Inside fs a) ↔
      ∀ path prior names name es,
        SearchedFor (parseFat32Path path prior) (names ++ [name]) →
        Trail fs fs.rootCluster names es →
        DirInside fs (Passed (formatNameToFat32 name)) (trailEnd fs.rootCluster es) := by
  constructor
  · intro h path prior names name es hnames htrail
    obtain ⟨k, hk⟩ := fat32Open_reads (smallFile fs.disk 0 0 0) hfs.magic hnames htrail
    refine dirInside_of_inside nameEntries_eq_none_iff hfs fat32ErrorNoFile k
      fun fuel hf a ha => ?_
    refine h fuel path (smallFile fs.disk 0 0 0) prior a (hk fuel hf ?_)
    rw [readDirEntry_log, searchStart_dirAfter]
    exact ha
  · intro h fuel path file prior a ha
    obtain ⟨names, name, es, hnames, htrail, ha⟩ := mem_fat32Open ha
    rw [readDirEntry_log, searchStart_dirAfter] at ha
    exact (h path prior names name es hnames htrail).inside nameEntries_eq_none_iff hfs ha

theorem labels_inside_iff :
    (∀ fuel labelOut, ∀ a ∈ (fat32Readlabel fuel fs labelOut).log, Inside fs a) ↔
      DirInside fs NoLabel fs.rootCluster := by
  constructor
  · intro h
    refine dirInside_of_inside labelEntries_eq_none_iff hfs fat32ErrorNoLabel 0
      fun fuel _ a ha => ?_
    exact h fuel (fun _ => 0) a (by rwa [fat32Readlabel_log])
  · intro h fuel labelOut a ha
    rw [fat32Readlabel_log] at ha
    exact h.inside labelEntries_eq_none_iff hfs ha

theorem reads_inside_iff {file : Fat32File} (hfile : file.fs = fs) :
    (∀ offset buffer size, ∀ a ∈ (fat32Read { file with fileOffset := offset } buffer size).log,
      Inside fs a) ↔ FileInside fs file.startCluster file.fileSize.toNat := by
  subst hfile
  constructor
  · intro h
    have hread {a : Access} (ha : ReadsFile file.fs file.startCluster file.fileSize.toNat a) :
        Inside file.fs a := by
      obtain ⟨offset, hmem⟩ := ha.read hfs.bytesPerSector hfs.sectorsPerCluster
      exact h offset (fun _ => 0) 1 a (hmem _)
    constructor
    · exact fun k hsome hk => (inside_fat k _).1 (hread (.entry hsome hk))
    · exact fun k c hc hacc i hi hk => (inside_data hfs k c i).1 (hread (.sector hc hacc hi hk))
  · intro h offset buffer size a ha
    have hreads := @mem_fat32Read a { file with fileOffset := offset } hfs.bytesPerSector
      hfs.sectorsPerCluster buffer size ha
    cases hreads with
    | entry hsome hk => exact (inside_fat _ _).2 (h.entries _ hsome hk)
    | sector hc hacc hi hk => exact (inside_data hfs _ _ _).2 (h.sectors _ _ hc hacc _ hi hk)

theorem opened_inside_iff :
    (∀ fuel path file prior file',
      (fat32Open fuel fs path file prior).val = .ok (fat32Success, file') →
      ∀ offset buffer size, ∀ a ∈ (fat32Read { file' with fileOffset := offset } buffer size).log,
        Inside fs a) ↔
      ∀ path es e, Trail fs fs.rootCluster (keptComponents path) (es ++ [e]) →
        ¬ e.IsDirectory → FileInside fs e.startCluster e.fileSize.toNat := by
  constructor
  · intro h path es e htrail hdir
    obtain ⟨init, name, hkept⟩ := snoc_of_trail fs htrail
    rw [hkept] at htrail
    obtain ⟨k, hopen⟩ := fat32Open_of_trail fs hkept hfs.magic htrail hdir
    have hval := hopen k le_rfl (smallFile fs.disk 0 0 0) fun _ => 0
    exact (reads_inside_iff hfs rfl).1 (h k path _ _ _ hval)
  · intro h fuel path file prior file' hopen
    rcases hk : keptComponents path with _ | ⟨n, ns⟩
    · exact absurd hopen (fat32Open_no_components fs hk)
    have hne : keptComponents path ≠ [] := by
      rw [hk]
      exact List.cons_ne_nil _ _
    have hkept := (List.dropLast_append_getLast hne).symm
    obtain ⟨-, es, e, htrail, hdir, rfl⟩ := trail_of_fat32Open fs hkept hopen
    rw [← hkept] at htrail
    exact (reads_inside_iff hfs rfl).2 (h path es e htrail hdir)

end

/-! ## Numbers of clusters of the volume -/

/-- The counts of the boot sector agree: the FATs and the clusters lie in the volume one behind the
other, and a FAT has an entry for every cluster. -/
structure Fits (fs : Fat32Fs) : Prop where
  sectors : fs.reservedSectorCount.toNat + fs.numFats.toNat * fs.sectorsPerFat.toNat +
    fs.totalClusters.toNat * fs.sectorsPerCluster.toNat ≤ fs.totalSectors.toNat
  below : (volumeStart fs).toNat + fs.totalSectors.toNat ≤ 2 ^ 32
  numFats : 1 ≤ fs.numFats.toNat
  fatSize : 4 * (fs.totalClusters.toNat + 2) ≤ fat32SectorSize * fs.sectorsPerFat.toNat

section

variable (hfit : Fits fs)

include hfit

theorem Fits.hasEntry (hc : InVolume fs c) : HasEntry fs c := by
  obtain ⟨-, hlt⟩ := hc
  have hsize := hfit.fatSize
  have hsectors := hfit.sectors
  have hbelow := hfit.below
  have hq : (c * 4 / 512).toNat < fs.sectorsPerFat.toNat := by
    have h4 : (c * 4).toNat = c.toNat * 4 % 2 ^ 32 := UInt32.toNat_mul c 4
    have h512 : (512 : UInt32).toNat = 512 := rfl
    rw [UInt32.toNat_div, h512, h4]
    simp only [fat32SectorSize] at hsize
    omega
  have hfats := Nat.le_mul_of_pos_left fs.sectorsPerFat.toNat hfit.numFats
  exact ⟨hq, by omega, by omega⟩

theorem Fits.hasSector (hc : InVolume fs c) {i : ℕ} (hi : i < fs.sectorsPerCluster.toNat) :
    HasSector fs (clusterOffset fs c i).toNat := by
  obtain ⟨h2, hlt⟩ := hc
  have hsectors := hfit.sectors
  have hbelow := hfit.below
  have htotal := fs.totalSectors.toNat_lt
  have hmul : (c.toNat - 2) * fs.sectorsPerCluster.toNat + fs.sectorsPerCluster.toNat ≤
      fs.totalClusters.toNat * fs.sectorsPerCluster.toNat := by
    rw [← Nat.succ_mul]
    exact Nat.mul_le_mul_right _ (by omega)
  have hsub : (c - 2).toNat = c.toNat - 2 := UInt32.toNat_sub_of_toNat_le h2
  have h1 : (fs.numFats.toUInt32 * fs.sectorsPerFat).toNat =
      fs.numFats.toNat * fs.sectorsPerFat.toNat := by
    rw [UInt32.toNat_mul_of_lt] <;> rw [UInt8.toNat_toUInt32]
    omega
  have h3 : ((c - 2) * fs.sectorsPerCluster.toUInt32).toNat =
      (c.toNat - 2) * fs.sectorsPerCluster.toNat := by
    rw [UInt32.toNat_mul_of_lt] <;> rw [UInt8.toNat_toUInt32, hsub]
    omega
  have hi' : (UInt32.ofNat i).toNat = i := UInt32.toNat_ofNat_lt (by omega)
  have hoff : (clusterOffset fs c i).toNat = fs.reservedSectorCount.toNat +
      fs.numFats.toNat * fs.sectorsPerFat.toNat +
        (c.toNat - 2) * fs.sectorsPerCluster.toNat + i := by
    simp only [clusterOffset, UInt32.toNat_add, UInt16.toNat_toUInt32, h1, h3, hi']
    omega
  rw [hoff]
  exact ⟨by omega, by omega⟩

theorem Fits.dirInside {Pass : Fat32DirectoryEntry → Prop} {start : UInt32}
    (h : ∀ c, Visits fs Pass start c → InVolume fs c) : DirInside fs Pass start where
  sectors c hc _ hi _ := hfit.hasSector (h c hc) hi
  entries c hc _ := hfit.hasEntry (h c hc)

/-- A file stays inside that has the clusters its size needs. -/
theorem Fits.fileInside (hspc : 1 ≤ fs.sectorsPerCluster.toNat) {start : UInt32} {size : ℕ}
    (h : HasClusters fs start (clustersFor fs size)) : FileInside fs start size := by
  have hpos := clusterBytes_pos fs hspc
  have hchain : ∀ k, k * clusterBytes fs < size → InVolume fs ((nextCode fs)^[k] start) := by
    intro k hk
    have hlt : k < clustersFor fs size := by
      rw [clustersFor, ← Nat.succ_le_iff, Nat.le_div_iff_mul_le hpos, Nat.succ_mul]
      omega
    obtain ⟨c, hc, hin⟩ := h k hlt
    rwa [iterate_nextCode fs hc]
  constructor
  · intro k _ hk
    refine hfit.hasEntry (hchain k (Nat.lt_of_le_of_lt (Nat.mul_le_mul_right _ ?_) hk))
    exact Nat.le_succ k
  · intro k c hc _ i hi hk
    unfold codedCluster at hc
    split_ifs at hc
    cases hc
    exact hfit.hasSector (hchain k (by omega)) hi

end

/-- Where the counts agree, the volume is not left if every cluster that is met is one of its
clusters. -/
theorem staysInside_of_inVolume (h : fat32Mount disk mem = .mounted fs) (hfit : Fits fs)
    (hsearch : ∀ path prior names name es,
      SearchedFor (parseFat32Path path prior) (names ++ [name]) →
      Trail fs fs.rootCluster names es → ∀ c,
        Visits fs (Passed (formatNameToFat32 name)) (trailEnd fs.rootCluster es) c → InVolume fs c)
    (hlabel : ∀ c, Visits fs NoLabel fs.rootCluster c → InVolume fs c)
    (hfile : ∀ path es e, Trail fs fs.rootCluster (keptComponents path) (es ++ [e]) →
      ¬ e.IsDirectory → HasClusters fs e.startCluster (clustersFor fs e.fileSize.toNat)) :
    StaysInside fs := by
  have hfs := initialized_of_mounted h
  refine ⟨(opens_inside_iff hfs).2 fun path prior names name es hnames htrail => ?_,
    (labels_inside_iff hfs).2 (hfit.dirInside hlabel),
    (opened_inside_iff hfs).2 fun path es e htrail hdir => ?_⟩
  · exact hfit.dirInside (hsearch path prior names name es hnames htrail)
  · exact hfit.fileInside hfs.sectorsPerCluster (hfile path es e htrail hdir)

/-! ## The condition -/

/-- A mounted volume is left exactly if a number on the disk leads out of it. -/
theorem staysInside_iff (h : fat32Mount disk mem = .mounted fs) :
    StaysInside fs ↔ NumbersInside fs := by
  have hfs := initialized_of_mounted h
  constructor
  · intro h
    exact ⟨(opens_inside_iff hfs).1 h.opens, (labels_inside_iff hfs).1 h.labels,
      (opened_inside_iff hfs).1 h.reads⟩
  · intro h
    exact ⟨(opens_inside_iff hfs).2 h.search, (labels_inside_iff hfs).2 h.label,
      (opened_inside_iff hfs).2 h.file⟩

/-- The plain boot sector with the root directory in cluster 1000 of its 99. -/
def strayRootSector : Sector := fun i =>
  if i = 44 then 0xE8 else if i = 45 then 3 else plainBootSector i

/-- The volume of a card with that boot sector. -/
def strayRootFs : Fat32Fs where
  disk := ⟨fun _ => some strayRootSector⟩
  bytesPerSector := 512
  sectorsPerCluster := 1
  reservedSectorCount := 0
  numFats := 1
  sectorsPerFat := 1
  rootCluster := 1000
  clusterSize := 512
  totalClusters := 99
  totalSectors := 100
  firstDataSector := 1
  fatStartSector := 0
  magic := fat32Magic

theorem strayRoot_mounted :
    fat32Mount ⟨fun _ => some strayRootSector⟩ (fun _ => 0) = .mounted strayRootFs := by
  have hb : bootSectorOf ⟨fun _ => some strayRootSector⟩ = some (strayRootSector, 0) := rfl
  rw [fat32Mount_of_boot hb]
  rfl

/-- Its label is looked for in sector 999 of 100. -/
theorem strayRoot_leaves_volume :
    ¬ ∀ disk mem fs, fat32Mount disk mem = .mounted fs → StaysInside fs := by
  intro h
  have hmem : Access.data 0 1000 999 ∈ (fat32Readlabel 1 strayRootFs fun _ => 0).log := by
    rw [fat32Readlabel_log]
    exact List.mem_cons_self
  exact absurd ((h _ _ _ strayRoot_mounted).labels 1 _ _ hmem).2.1 (by decide)

theorem staysInside_iff_strayRoot : StaysInside strayRootFs ↔ NumbersInside strayRootFs :=
  staysInside_iff strayRoot_mounted

end BeagleKernel.Fat32
