import BeagleKernel.Fat32.Cursor
import BeagleKernel.Proofs.ReadRun

/-!
# A file handle is a cursor

On a sound handle every byte up to the file's size is there to be had, so a read delivers all it
is asked for (`fat32Read_sound`); the other calls only look at or set the offset.
-/

namespace BeagleKernel.Fat32

section Chain

variable {fs : Fat32Fs} {start : UInt32}

/-- The first sector of a cluster of the volume, whose data lies below `2 ^ 31`. -/
theorem clusterToSector_toInt (hspc : 1 ≤ fs.sectorsPerCluster.toNat)
    (hbelow : fs.firstDataSector.toNat + fs.totalClusters.toNat * fs.sectorsPerCluster.toNat ≤
      2 ^ 31) {c : UInt32} (hc : InVolume fs c) :
    (clusterToSector fs c).toInt =
      (fs.firstDataSector.toNat + (c.toNat - 2) * fs.sectorsPerCluster.toNat : ℕ) := by
  obtain ⟨h2, hlt⟩ := hc
  have htot : fs.totalClusters.toNat ≤
      fs.totalClusters.toNat * fs.sectorsPerCluster.toNat := Nat.le_mul_of_pos_right _ hspc
  have hsum : (2 + fs.totalClusters).toNat = 2 + fs.totalClusters.toNat := by
    rw [UInt32.toNat_add_of_lt] <;> simp only [UInt32.reduceToNat]
    omega
  have hsub : (c - 2).toNat = c.toNat - 2 := UInt32.toNat_sub_of_toNat_le h2
  have hmul : (c.toNat - 2) * fs.sectorsPerCluster.toNat + fs.sectorsPerCluster.toNat ≤
      fs.totalClusters.toNat * fs.sectorsPerCluster.toNat := by
    rw [← Nat.succ_mul]
    exact Nat.mul_le_mul_right _ (by omega)
  have hmulNat : ((c - 2) * fs.sectorsPerCluster.toUInt32).toNat =
      (c.toNat - 2) * fs.sectorsPerCluster.toNat := by
    rw [UInt32.toNat_mul_of_lt] <;> rw [hsub, UInt8.toNat_toUInt32]
    omega
  have hin : ¬ (c < 2 ∨ c ≥ 2 + fs.totalClusters) := by
    rw [UInt32.lt_iff_toNat_lt, ge_iff_le, UInt32.le_iff_toNat_le, hsum]
    simp only [UInt32.reduceToNat]
    omega
  have hadd : ((c - 2) * fs.sectorsPerCluster.toUInt32 + fs.firstDataSector).toNat =
      fs.firstDataSector.toNat + (c.toNat - 2) * fs.sectorsPerCluster.toNat := by
    rw [UInt32.toNat_add_of_lt] <;> rw [hmulNat] <;> omega
  unfold clusterToSector
  rw [if_neg hin, UInt32.toInt_toInt32 (by rw [hadd]; omega), hadd]

theorem clusterToSector_inVolume (hspc : 1 ≤ fs.sectorsPerCluster.toNat)
    (hbelow : fs.firstDataSector.toNat + fs.totalClusters.toNat * fs.sectorsPerCluster.toNat ≤
      2 ^ 31) {c : UInt32} (hc : InVolume fs c) : 0 ≤ clusterToSector fs c := by
  rw [Int32.le_iff_toInt_le, clusterToSector_toInt hspc hbelow hc]
  exact Int.natCast_nonneg _

theorem div_lt_clustersFor (hspc : 1 ≤ fs.sectorsPerCluster.toNat) {j size : ℕ} (h : j < size) :
    j / clusterBytes fs < clustersFor fs size := by
  have hpos := clusterBytes_pos fs hspc
  unfold clustersFor
  rw [Nat.div_lt_iff_lt_mul hpos]
  have := Nat.div_add_mod (size + clusterBytes fs - 1) (clusterBytes fs)
  have hmod := Nat.mod_lt (size + clusterBytes fs - 1) hpos
  rw [Nat.mul_comm] at this
  omega

variable (hr : Readable fs)

include hr

theorem clusterByte_isSome (c : UInt32) (j : ℕ) : (clusterByte fs c j).isSome := by
  unfold clusterByte sectorByte
  rw [Option.isSome_map]
  exact hr.reads _

theorem served_of_clusters {j size : ℕ} (hcl : HasClusters fs start (clustersFor fs size))
    (h : j < size) : Served fs start j := by
  obtain ⟨c, hc, hv⟩ := hcl _ (div_lt_clustersFor hr.sectorsPerCluster h)
  exact ⟨c, hc, clusterToSector_inVolume hr.sectorsPerCluster hr.below hv,
    clusterByte_isSome hr c _⟩

theorem walkStops_of_clusters {o n size : ℕ}
    (hcl : HasClusters fs start (clustersFor fs size)) (h : o + n ≤ size) (hn : 0 < n) :
    WalkStops fs start o n := by
  have hpos := clusterBytes_pos fs hr.sectorsPerCluster
  have hbreak : ∀ p d, chain fs start p = some d → link fs d = none →
      size ≤ (p + 1) * clusterBytes fs := by
    intro p d hp hd
    by_contra hlt
    obtain ⟨c, hc, -⟩ := hcl _ (div_lt_clustersFor hr.sectorsPerCluster (Nat.not_le.1 hlt))
    rw [Nat.mul_div_cancel _ hpos] at hc
    have hnone : chain fs start (p + 1) = none := (walk_succ_of (link fs) hp).trans hd
    rw [hnone] at hc
    cases hc
  constructor
  · intro p d hp hd hfar
    have := hbreak p d hp hd
    have h2 : (p + 1 + 1) * clusterBytes fs ≤ o := (Nat.le_div_iff_mul_le hpos).1 hfar
    rw [Nat.add_mul] at h2
    omega
  · rintro p d hp hd - hlt -
    have := hbreak p d hp hd
    omega

end Chain

/-! ## A read -/

theorem readSize_eq_available {file : Fat32File} {size : Int32} (hsize : 0 ≤ size)
    (h : file.fileOffset.toNat ≤ file.fileSize.toNat) :
    readSize file size = (file.cursor h).available size.toInt.toNat := by
  have hn := Int32.toNat_toUInt32 hsize
  unfold readSize Cursor.available Fat32File.cursor
  rw [length_contents, ← hn, Int.toNat_natCast]

/-- A read on a sound handle delivers all it is asked for, up to the end of the file. -/
theorem fat32Read_sound {file : Fat32File} (h : Sound file) (size : Int32) (buffer : ℕ → UInt8) :
    ∃ st, (fat32Read file buffer size).val =
        .ok ((UInt32.ofNat (readSize file size)).toInt32, st) ∧
      st.file = { file with
        fileOffset := st.file.fileOffset, currentCluster := st.file.currentCluster } ∧
      st.file.fileOffset.toNat = file.fileOffset.toNat + readSize file size ∧
      ∀ j < readSize file size,
        chainByte file.fs file.startCluster (file.fileOffset.toNat + j) = some (st.buffer j) := by
  have hr := h.readable
  have hle : readSize file size ≤ file.fileSize.toNat - file.fileOffset.toNat := min_le_right _ _
  have hoff := h.offset
  rcases Nat.eq_zero_or_pos (readSize file size) with h0 | hpos
  · refine ⟨⟨file, buffer, 0, size.toUInt32⟩, ?_, rfl, by rw [h0]; rfl, fun j hj => by omega⟩
    rw [fat32Read_zero h0, h0]
    rfl
  have hrem := readStart_remaining file buffer size
  obtain ⟨m, r, st, hval, hm, hadv, hdel, -, hall, hshort, -⟩ := readClusters_run file.fs
    hr.bytesPerSector hr.sectorsPerCluster h.start (readSize file size + 1)
    (readStart file buffer size) (by omega) (readStart_bounded file buffer size hpos) rfl
    (by
      rw [hrem]
      exact walkStops_of_clusters (o := file.fileOffset.toNat) hr h.clusters (by omega) hpos)
  rw [hrem] at hm hall hshort
  have hmeq : m = readSize file size := by
    by_contra hne
    exact hshort (by omega) (served_of_clusters hr h.clusters
      (show file.fileOffset.toNat + m < _ by omega))
  subst hmeq
  have hbytes : st.bytesRead = UInt32.ofNat (readSize file size) := by
    rw [← UInt32.toNat_inj, hadv.bytesRead, ← hrem]
    exact (Nat.zero_add _).trans (UInt32.toNat_ofNat_of_lt (UInt32.toNat_lt _)).symm
  refine ⟨st, ?_, hadv.file, hadv.fileOffset, fun j hj => ?_⟩
  · rw [fat32Read_pos hpos, hval, hall rfl, hbytes]
  · have := hdel j hj
    rwa [show (readStart file buffer size).bytesRead.toNat + j = j from Nat.zero_add j] at this

/-! ## Every call -/

theorem bufferBytes_eq {file : Fat32File} {buffer : ℕ → UInt8} {n : ℕ}
    (h : file.fileOffset.toNat ≤ file.fileSize.toNat)
    (hn : file.fileOffset.toNat + n ≤ file.fileSize.toNat)
    (hb : ∀ j < n, chainByte file.fs file.startCluster (file.fileOffset.toNat + j) =
      some (buffer j)) :
    bufferBytes buffer n = ((file.cursor h).contents.drop (file.cursor h).pos).take n := by
  refine List.ext_getElem ?_ fun j h1 h2 => ?_
  · simp only [bufferBytes, Fat32File.cursor, List.length_map, List.length_range,
      List.length_take, List.length_drop, length_contents]
    omega
  · have hj : j < n := by simpa [bufferBytes] using h1
    simp only [bufferBytes, Fat32File.cursor, contents, List.getElem_map, List.getElem_range,
      List.getElem_take, List.getElem_drop, hb j hj, Option.getD_some]

theorem Sound.moveTo {file file' : Fat32File} (h : Sound file)
    (hfile : file' = { file with
      fileOffset := file'.fileOffset, currentCluster := file'.currentCluster })
    (hoff : file'.fileOffset.toNat ≤ file.fileSize.toNat) : Sound file' := by
  rw [hfile]
  exact ⟨h.readable, h.start, h.size, hoff, h.clusters⟩

theorem cursor_moveTo {file file' : Fat32File} {h : file.fileOffset.toNat ≤ file.fileSize.toNat}
    {h' : file'.fileOffset.toNat ≤ file'.fileSize.toNat}
    (hfile : file' = { file with
      fileOffset := file'.fileOffset, currentCluster := file'.currentCluster })
    {pos : ℕ} (hpos : file'.fileOffset.toNat = pos) (hle : pos ≤ (file.cursor h).contents.length) :
    file'.cursor h' = ⟨(file.cursor h).contents, pos, hle⟩ := by
  subst hpos
  have hfs : file'.fs = file.fs := by rw [hfile]
  have hstart : file'.startCluster = file.startCluster := by rw [hfile]
  have hsize : file'.fileSize = file.fileSize := by rw [hfile]
  simp only [Fat32File.cursor, hfs, hstart, hsize]

theorem fat32Seek_sound {file : Fat32File} (h : Sound file) (offset : Int32) :
    (0 ≤ offset.toInt ∧ offset.toInt ≤ file.fileSize.toNat ∧
      fat32Seek file offset = (fat32Success, { file with fileOffset := offset.toUInt32 }) ∧
      (offset.toUInt32.toNat : ℤ) = offset.toInt) ∨
    (¬ (0 ≤ offset.toInt ∧ offset.toInt ≤ file.fileSize.toNat) ∧
      fat32Seek file offset = (fat32ErrorBadParameter, file)) := by
  have hsz := h.size
  unfold fat32Seek
  by_cases hneg : offset < 0
  · right
    rw [if_pos (.inl hneg)]
    rw [Int32.lt_iff_toInt_lt, Int32.toInt_zero] at hneg
    exact ⟨by omega, rfl⟩
  · have hnn := Int32.not_lt.1 hneg
    have hnat := Int32.toNat_toUInt32 hnn
    by_cases hgt : offset.toUInt32 > file.fileSize
    · right
      rw [if_pos (.inr hgt)]
      rw [gt_iff_lt, UInt32.lt_iff_toNat_lt] at hgt
      exact ⟨by omega, rfl⟩
    · left
      rw [if_neg (not_or.2 ⟨hneg, hgt⟩)]
      rw [gt_iff_lt, UInt32.lt_iff_toNat_lt] at hgt
      exact ⟨by omega, by omega, rfl, hnat⟩

theorem toInt32_ofNat (n : ℕ) : (UInt32.ofNat n).toInt32 = Int32.ofNat n := rfl

theorem fat32Eof_sound {file : Fat32File} (h : Sound file) :
    fat32Eof file = if file.fileOffset.toNat = file.fileSize.toNat then 1 else 0 := by
  have := h.offset
  unfold fat32Eof
  simp only [ge_iff_le, UInt32.le_iff_toNat_le]
  split_ifs <;> first | rfl | omega

/-- A call on a sound handle returns what the cursor does, and leaves a sound handle. -/
theorem fileStep_sound {file : Fat32File} (h : Sound file) {op : FileOp} (hop : op.Ok) :
    ∃ file', ∃ h' : Sound file',
      fileStep file op = .ok (((file.cursor h.offset).step op).1, file') ∧
      file'.cursor h'.offset = ((file.cursor h.offset).step op).2 := by
  have hlen : (file.cursor h.offset).contents.length = file.fileSize.toNat :=
    length_contents _ _ _
  have hsz := h.size
  have hoff := h.offset
  cases op with
  | seek offset =>
    rcases fat32Seek_sound h offset with ⟨h0, hle, hseek, hnat⟩ | ⟨hout, hseek⟩
    · have hto : offset.toUInt32.toNat ≤ file.fileSize.toNat := by omega
      refine ⟨{ file with fileOffset := offset.toUInt32 }, h.moveTo rfl hto, ?_, ?_⟩
      · simp only [fileStep, hseek, Cursor.step, hlen, dif_pos (And.intro h0 hle)]
        rfl
      · simp only [Cursor.step, hlen, dif_pos (And.intro h0 hle)]
        exact cursor_moveTo rfl (show offset.toUInt32.toNat = _ by omega) _
    · refine ⟨file, h, ?_, ?_⟩
      · simp only [fileStep, hseek, Cursor.step, hlen, dif_neg hout]
        rfl
      · simp only [Cursor.step, hlen, dif_neg hout]
  | read size buffer =>
    obtain ⟨st, hval, hfile, hpos, hbytes⟩ := fat32Read_sound h size buffer
    have havail := readSize_eq_available hop h.offset
    have hle : readSize file size ≤ file.fileSize.toNat - file.fileOffset.toNat :=
      min_le_right _ _
    have hr : ((UInt32.ofNat (readSize file size)).toInt32.toInt).toNat = readSize file size := by
      rw [UInt32.toInt_toInt32, UInt32.toNat_ofNat_lt] <;>
        first | omega | (rw [UInt32.toNat_ofNat_lt] <;> omega)
    refine ⟨st.file, h.moveTo hfile (by omega), ?_, ?_⟩
    · simp only [fileStep, hval, Cursor.step, ← havail]
      rw [← bufferBytes_eq h.offset (by omega) hbytes]
      show Except.ok (Reply.data _ (bufferBytes st.buffer _), st.file) = _
      rw [hr]
      rfl
    · simp only [Cursor.step, ← havail]
      exact cursor_moveTo hfile hpos _
  | tell =>
    refine ⟨file, h, ?_, rfl⟩
    show Except.ok (Reply.code file.fileOffset.toInt32, file) =
      .ok (Reply.code (Int32.ofNat file.fileOffset.toNat), file)
    rw [← toInt32_ofNat, UInt32.ofNat_toNat]
  | eof =>
    refine ⟨file, h, ?_, rfl⟩
    simp only [fileStep, Cursor.step, hlen, fat32Eof_sound h]
    rfl

/-- A sound handle answers every sequence of calls as its cursor does. -/
theorem fileRun_eq_cursor_run :
    ∀ (ops : List FileOp) (file : Fat32File) (h : Sound file), (∀ op ∈ ops, op.Ok) →
      fileRun file ops = .ok ((file.cursor h.offset).run ops)
  | [], _, _, _ => rfl
  | op :: ops, file, h, hops => by
    obtain ⟨file', h', hstep, hcursor⟩ := fileStep_sound h (hops op List.mem_cons_self)
    have ih := fileRun_eq_cursor_run ops file' h' fun op' h' =>
      hops op' (List.mem_cons_of_mem _ h')
    rw [hcursor] at ih
    simp only [fileRun, hstep, Cursor.run]
    show (do
      let replies ← fileRun file' ops
      Except.ok (_ :: replies)) = _
    rw [ih]
    rfl

/-- A card with a link from cluster 3 to cluster 5, where the chain ends. -/
def linkedDisk : Fat32Diskio where
  readSector s :=
    if s = 32 then some fun i =>
      if i = 12 then 5 else if i = 23 then 0x0F else if 20 ≤ i ∧ i < 23 then 0xFF else 0
    else some fun i => UInt8.ofNat i

theorem linked_sound : Sound (smallFile linkedDisk 3 600 0) where
  readable := {
    bytesPerSector := rfl
    sectorsPerCluster := by decide
    reads := fun s => by
      show (if s = 32 then _ else _ : Option Sector).isSome
      split_ifs <;> rfl
    below := by decide }
  start := by decide
  size := by decide
  offset := by decide
  clusters k hk := by
    have htwo : clustersFor (smallFs linkedDisk) 600 = 2 := rfl
    change k < clustersFor (smallFs linkedDisk) 600 at hk
    obtain rfl | rfl : k = 0 ∨ k = 1 := by omega
    · exact ⟨3, rfl, by decide, by decide⟩
    · exact ⟨5, by decide, by decide, by decide⟩

/-- A read goes on from one cluster to the next. -/
theorem fileRun_eq_cursor_run_linked :
    fileRun (smallFile linkedDisk 3 600 0)
        [.seek 510, .read 4 fun _ => 0, .tell, .seek 598, .read 10 fun _ => 0, .eof, .seek 601] =
      .ok [.code 0, .data 4 [254, 255, 0, 1], .code 514, .code 0, .data 2 [86, 87], .code 1,
        .code (-4)] := by
  rw [fileRun_eq_cursor_run _ _ linked_sound (by simp [FileOp.Ok])]
  exact congrArg Except.ok (by decide +kernel)

end BeagleKernel.Fat32
