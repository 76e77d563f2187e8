import BeagleKernel.Fat32.Session
import BeagleKernel.Lib.Runs
import BeagleKernel.Proofs.Boot
import BeagleKernel.Proofs.Plain

/-!
# A volume is a store of files

On a plain volume, whatever sectors of its files cannot be read: an open leads to the file its path
spells, each handle is from then on a reader of its own, and no call on one is felt by another
(`session_refines`). However a read is divided, its parts deliver what it delivers
(`reads_divided`).
-/

namespace BeagleKernel.Fat32

variable {disk : Fat32Diskio} {sectorMem : SectorMemory} {fs : Fat32Fs} {file file' : Fat32File}
  {path : CString} {e e' : Fat32DirectoryEntry}

/-- The reader a handle stands for. -/
def Fat32File.reader (file : Fat32File) : Reader UInt8 :=
  fileReader file.fs file.startCluster file.fileSize file.fileOffset

/-- The handle is one of a plain file of the volume, and stands for `r`. -/
structure Stands (fs : Fat32Fs) (file : Fat32File) (r : Reader UInt8) : Prop where
  volume : file.fs = fs
  plain : PlainFile file.fs file.startCluster file.fileSize
  offset : file.fileOffset.toNat ≤ file.fileSize.toNat
  reader : file.reader = r

theorem Stands.moveTo {r : Reader UInt8} (h : Stands fs file r)
    (hframe : file' = { file with
      fileOffset := file'.fileOffset, currentCluster := file'.currentCluster })
    (hle : file'.fileOffset.toNat ≤ file.fileSize.toNat) :
    Stands fs file' { r with pos := file'.fileOffset.toNat } := by
  obtain ⟨hfs, hplain, -, rfl⟩ := h
  rw [hframe]
  exact ⟨hfs, hplain, hle, rfl⟩

/-! ## Reads -/

theorem toNat_count {m : ℕ} (h : m < 2 ^ 31) : (Int32.ofNat m).toInt.toNat = m := by
  rw [Int32.toInt_ofNat_of_lt h, Int.toNat_natCast]

theorem toNat_error {code : Int32} (h : code < 0) : code.toInt.toNat = 0 := by
  rw [Int32.lt_iff_toInt_lt, Int32.toInt_zero] at h
  omega

section
variable (hspc : 1 ≤ file.fs.sectorsPerCluster.toNat) (hbelow : DataBelow file.fs)
  {r : Reader UInt8} (h : Stands fs file r)
include hspc hbelow h

/-- The bytes of a handle that a read comes to are those of its file. -/
theorem Stands.coded {size : Int32} {j : ℕ} (hj : j < readSize file size) :
    codedByte file.fs file.startCluster (file.fileOffset.toNat + j) =
      chainByte file.fs file.startCluster (file.fileOffset.toNat + j) ∧
    ¬ Rejected file.fs file.startCluster (file.fileOffset.toNat + j) := by
  have hroom : readSize file size ≤ file.fileSize.toNat - file.fileOffset.toNat := min_le_right _ _
  exact h.plain.coded hbelow hspc
    (show file.fileOffset.toNat + j < file.fileSize.toNat by omega)

variable {buffer : ℕ → UInt8} {size : Int32} {m : ℕ} {code : Int32} {st : ReadState}
  (hres : ReadResult file buffer size m code st)
include hres

theorem Stands.get_eq : file.reader.get size.toUInt32.toNat = bufferBytes st.buffer m := by
  have hle := hres.le
  refine itemsFrom_eq hres.le (fun j hj => ?_) fun hlt => ?_
  · exact (h.coded hspc hbelow (hj.trans_le hle)).1.symm.trans (hres.bytes j hj)
  · exact (h.coded hspc hbelow hlt).1.symm.trans (hres.unread hlt)

/-- A read returns an error if the first byte is missing, and its count otherwise. -/
theorem Stands.code_eq : if 0 < readSize file size ∧
      chainByte file.fs file.startCluster file.fileOffset.toNat = none then code < 0 ∧ m = 0
    else code = Int32.ofNat m := by
  split_ifs with hhole
  · have hm : m = 0 := by
      by_contra hne
      have hbyte := hres.bytes 0 (Nat.pos_of_ne_zero hne)
      rw [(h.coded hspc hbelow hhole.1).1, Nat.add_zero, hhole.2] at hbyte
      cases hbyte
    exact ⟨hres.nothing (by omega) hm, hm⟩
  · rcases hres.le.eq_or_lt with hfull | hlt
    · exact hres.full hfull
    · refine hres.counted hlt (h.coded hspc hbelow hlt).2 (Nat.pos_of_ne_zero fun hm => hhole ?_)
      have hnone := hres.unread hlt
      rw [(h.coded hspc hbelow hlt).1, hm, Nat.add_zero] at hnone
      exact ⟨by omega, hnone⟩

end

section
variable (hbps : file.fs.bytesPerSector = 512) (hspc : 1 ≤ file.fs.sectorsPerCluster.toNat)
include hbps hspc

/-- A read moves its handle, and leaves the rest of it as it was. -/
theorem fat32Read_frame (buffer : ℕ → UInt8) (size : Int32) {r : Int32} {st : ReadState}
    (hval : (fat32Read file buffer size).val = .ok (r, st)) : st.file = { file with
      fileOffset := st.file.fileOffset, currentCluster := st.file.currentCluster } := by
  rcases Nat.eq_zero_or_pos (readSize file size) with h0 | hpos
  · rw [fat32Read_zero h0] at hval
    cases hval
    rfl
  · have hrem := readStart_remaining file buffer size
    obtain ⟨m, r', st', hval', -, hadv, -⟩ := readClusters_end file.fs hbps hspc
      (readSize file size + 1) (readStart file buffer size) (by omega)
      (readStart_bounded file buffer size hpos) rfl
    rw [fat32Read_pos hpos, hval'] at hval
    cases hval
    exact hadv.file

variable (hbelow : DataBelow file.fs) {r : Reader UInt8} (h : Stands fs file r)
include hbelow h

/-- A read of a handle is one of its reader: it returns what the reader gets, with its count, or an
error where the first byte is missing. -/
theorem fat32Read_reader (buffer : ℕ → UInt8) (size : Int32) :
    ∃ code st, (fat32Read file buffer size).val = .ok (code, st) ∧
      bufferBytes st.buffer code.toInt.toNat = r.get size.toUInt32.toNat ∧
      Stands fs st.file (r.read size.toUInt32.toNat).2 ∧
      if 0 < r.room size.toUInt32.toNat ∧ r.item r.pos = none then code < 0
      else code = Int32.ofNat (r.get size.toUInt32.toNat).length := by
  obtain ⟨m, code, st, hval, hres⟩ := fat32Read_result hbps hspc buffer size
  have hle := hres.le
  have hroom : readSize file size ≤ file.fileSize.toNat - file.fileOffset.toNat := min_le_right _ _
  have hoff := h.offset
  have hsize := h.plain.below
  have hget := h.get_eq hspc hbelow hres
  have hcode := h.code_eq hspc hbelow hres
  have hlen : (file.reader.get size.toUInt32.toNat).length = m := by
    rw [hget, bufferBytes, List.length_map, List.length_range]
  obtain rfl := h.reader
  refine ⟨code, st, hval, ?_, ?_, ?_⟩
  · rw [hget]
    split_ifs at hcode with hhole
    · rw [toNat_error hcode.1, hcode.2]
    · rw [hcode, toNat_count (by omega)]
  · have hpos : st.file.fileOffset.toNat =
        file.fileOffset.toNat + (file.reader.get size.toUInt32.toNat).length := by
      rw [hlen, hres.fileOffset]
    have hmoved := h.moveTo (fat32Read_frame hbps hspc buffer size hval) (by omega)
    rwa [hpos] at hmoved
  · rw [hlen]
    show if 0 < readSize file size ∧
      chainByte file.fs file.startCluster file.fileOffset.toNat = none then code < 0
      else code = Int32.ofNat m
    split_ifs at hcode ⊢ with hhole
    · exact hcode.1
    · exact hcode

end

/-! ## Calls on a file -/

theorem seek_answers {r : Reader UInt8} (h : Stands fs file r) (offset : Int32) :
    ∃ reply file', fileStep file (.seek offset) = .ok (reply, file') ∧
      ∃ r', Stands fs file' r' ∧ Answers r (.seek offset) reply r' := by
  obtain rfl := h.reader
  have hnat : 0 ≤ offset.toInt → (offset.toUInt32.toNat : ℤ) = offset.toInt := fun h =>
    Int32.toNat_toUInt32 (Int32.le_iff_toInt_le.2 h)
  have hrejected : (offset < 0 ∨ offset.toUInt32 > file.fileSize) ↔
      ¬ (0 ≤ offset.toInt ∧ offset.toInt ≤ file.fileSize.toNat) := by
    rw [Int32.lt_iff_toInt_lt, gt_iff_lt, UInt32.lt_iff_toNat_lt, Int32.toInt_zero]
    by_cases h : 0 ≤ offset.toInt
    · have := hnat h
      omega
    · omega
  by_cases hin : 0 ≤ offset.toInt ∧ offset.toInt ≤ file.fileSize.toNat
  · have hpos : offset.toUInt32.toNat = offset.toInt.toNat := by
      have := hnat hin.1
      omega
    have hle : offset.toUInt32.toNat ≤ file.fileSize.toNat := by omega
    have hmoved : Stands fs { file with fileOffset := offset.toUInt32 }
        { file.reader with pos := offset.toUInt32.toNat } := h.moveTo rfl hle
    refine ⟨.code fat32Success, _, ?_, _, hmoved, ?_⟩
    · rw [fileStep, fat32Seek, if_neg (by rw [hrejected]; exact not_not.2 hin)]
      rfl
    · rw [Answers, if_pos (show _ ∧ offset.toInt ≤ file.reader.size from hin), ← hpos]
      exact ⟨rfl, rfl⟩
  · refine ⟨.code fat32ErrorBadParameter, file, ?_, _, h, ?_⟩
    · rw [fileStep, fat32Seek, if_pos (hrejected.2 hin)]
      rfl
    · rw [Answers, if_neg (show ¬ (_ ∧ offset.toInt ≤ file.reader.size) from hin)]
      exact ⟨rfl, rfl⟩

theorem tell_answers {r : Reader UInt8} (h : Stands fs file r) :
    ∃ reply file', fileStep file .tell = .ok (reply, file') ∧
      ∃ r', Stands fs file' r' ∧ Answers r .tell reply r' := by
  obtain rfl := h.reader
  have htell : fat32Tell file = Int32.ofNat file.reader.pos := by
    show file.fileOffset.toInt32 = (UInt32.ofNat file.fileOffset.toNat).toInt32
    rw [UInt32.ofNat_toNat]
  refine ⟨.code (fat32Tell file), file, rfl, _, h, ?_⟩
  rw [Answers, htell]
  exact ⟨rfl, rfl⟩

theorem eof_answers {r : Reader UInt8} (h : Stands fs file r) :
    ∃ reply file', fileStep file .eof = .ok (reply, file') ∧
      ∃ r', Stands fs file' r' ∧ Answers r .eof reply r' := by
  obtain rfl := h.reader
  have heof : fat32Eof file = if file.reader.pos = file.reader.size then 1 else 0 := by
    have hiff : file.fileOffset ≥ file.fileSize ↔ file.reader.pos = file.reader.size := by
      rw [ge_iff_le, UInt32.le_iff_toNat_le]
      exact ⟨fun hle => Nat.le_antisymm h.offset hle, fun heq => Nat.le_of_eq heq.symm⟩
    rw [fat32Eof, if_congr hiff rfl rfl]
  refine ⟨.code (fat32Eof file), file, rfl, _, h, ?_⟩
  rw [Answers, heof]
  exact ⟨rfl, rfl⟩

theorem read_answers (hbps : file.fs.bytesPerSector = 512)
    (hspc : 1 ≤ file.fs.sectorsPerCluster.toNat) (hbelow : DataBelow file.fs) {r : Reader UInt8}
    (h : Stands fs file r) (size : Int32) (buffer : ℕ → UInt8) :
    ∃ reply file', fileStep file (.read size buffer) = .ok (reply, file') ∧
      ∃ r', Stands fs file' r' ∧ Answers r (.read size buffer) reply r' := by
  obtain ⟨code, st, hval, hget, hstands, hcode⟩ :=
    fat32Read_reader hbps hspc hbelow h buffer size
  refine ⟨.data code (bufferBytes st.buffer code.toInt.toNat), st.file, ?_, _, hstands, rfl, ?_⟩
  · rw [fileStep, hval]
    rfl
  · split_ifs at hcode ⊢ with hhole
    · exact ⟨code, hcode, by rw [toNat_error hcode]; rfl⟩
    · rw [hget, hcode]

/-- A call on a handle returns, and as its reader does. -/
theorem fileStep_answers (hbps : file.fs.bytesPerSector = 512)
    (hspc : 1 ≤ file.fs.sectorsPerCluster.toNat) (hbelow : DataBelow file.fs) {r : Reader UInt8}
    (h : Stands fs file r) (op : FileOp) :
    ∃ reply file', fileStep file op = .ok (reply, file') ∧
      ∃ r', Stands fs file' r' ∧ Answers r op reply r' := by
  cases op with
  | seek offset => exact seek_answers h offset
  | read size buffer => exact read_answers hbps hspc hbelow h size buffer
  | tell => exact tell_answers h
  | eof => exact eof_answers h

/-! ## Opens -/

theorem fat32Open_fails {fuel : ℕ} {prior : ℕ → UInt8} {r : Int32}
    (h : (fat32Open fuel fs path file prior).val = .ok (r, file')) (hr : r ≠ fat32Success) :
    file' = file := by
  unfold fat32Open at h
  split_ifs at h with hinit
  · cases h
    rfl
  simp only [] at h
  obtain ⟨a, -, h⟩ := Traced.val_bind_eq_ok.1 h
  rcases a with code | ⟨dir, parent⟩
  · cases h
    rfl
  simp only [] at h
  split_ifs at h
  · cases h
  obtain ⟨name, -, h⟩ := Traced.val_bind_eq_ok.1 h
  obtain ⟨⟨code, target⟩, -, h⟩ := Traced.val_bind_eq_ok.1 h
  simp only [] at h
  split_ifs at h
  · cases h
    rfl
  · cases h
    rfl
  · cases h
    exact absurd rfl hr

/-- An open that returns leads to a file, or there is none. -/
theorem fat32Open_leads (hinit : fs.isInitialized) {prior : ℕ → UInt8} {r : Int32}
    (h : ∃ n, ∀ fuel ≥ n, (fat32Open fuel fs path file prior).val = .ok (r, file')) :
    (∃ e parent name, LeadsTo fs path e ∧ r = fat32Success ∧
      file' = openedFile fs file parent name e) ∨
    (r ≠ fat32Success ∧ (∀ e, ¬ LeadsTo fs path e) ∧ file' = file) := by
  obtain ⟨n, hn⟩ := h
  by_cases hr : r = fat32Success
  · subst hr
    rcases (keptComponents path).eq_nil_or_concat' with hnil | ⟨names, name, hkept⟩
    · exact absurd (hn n le_rfl) (fat32Open_no_components fs hnil)
    · obtain ⟨-, es, e, htrail, hdir, hfile⟩ := trail_of_fat32Open fs hkept (hn n le_rfl)
      exact .inl ⟨e, _, _, ⟨hdir, es, hkept ▸ htrail⟩, rfl, hfile⟩
  · refine .inr ⟨hr, ?_, fat32Open_fails (hn n le_rfl) hr⟩
    rintro e ⟨hdir, es, htrail⟩
    rcases (keptComponents path).eq_nil_or_concat' with hnil | ⟨names, name, hkept⟩
    · rw [hnil] at htrail
      rcases es with _ | ⟨d, es⟩ <;> exact htrail
    · rw [hkept] at htrail
      obtain ⟨k, hk⟩ := fat32Open_of_trail fs hkept hinit htrail hdir
      have hval := hn (max n k) (le_max_left _ _)
      rw [hk (max n k) (le_max_right _ _) file prior] at hval
      cases hval
      exact hr rfl

theorem Stands.opened (hvol : PlainVolume fs)
    (h : Resolves fs fs.rootCluster (components path) e) (file : Fat32File) (parent : UInt32)
    (name : List UInt8) : Stands fs (openedFile fs file parent name e)
      (fileReader fs e.startCluster e.fileSize 0) := by
  obtain ⟨hfile, dir, hdir, hlisted, hlabel⟩ := h.listed .root
  exact ⟨rfl, hvol.files dir hdir e hlisted hlabel hfile, Nat.zero_le _, rfl⟩

/-! ## Sessions -/

/-- Each handle that is open stands for its reader. -/
def Open (fs : Fat32Fs) (files : ℕ → Fat32File) (readers : ℕ → Option (Reader UInt8)) : Prop :=
  ∀ handle r, readers handle = some r → Stands fs (files handle) r

theorem Open.update {files : ℕ → Fat32File} {readers : ℕ → Option (Reader UInt8)}
    (h : Open fs files readers) {handle : ℕ} {r : Reader UInt8} (hr : Stands fs file r) :
    Open fs (Function.update files handle file) (Function.update readers handle (some r)) := by
  intro k r' hk
  by_cases hkey : k = handle
  · subst hkey
    rw [Function.update_self] at hk ⊢
    exact Option.some.inj hk ▸ hr
  · rw [Function.update_of_ne hkey] at hk ⊢
    exact h k r' hk

theorem Open.update_none {files : ℕ → Fat32File} {readers : ℕ → Option (Reader UInt8)}
    (h : Open fs files readers) {handle : ℕ} (hnone : readers handle = none) :
    Open fs (Function.update files handle file) readers := by
  intro k r hk
  have hkey : k ≠ handle := by
    rintro rfl
    exact nomatch hnone.symm.trans hk
  rw [Function.update_of_ne hkey]
  exact h k r hk

theorem storeStep_of_sessionStep (hvol : PlainVolume fs) (hbps : fs.bytesPerSector = 512)
    (hspc : 1 ≤ fs.sectorsPerCluster.toNat) (hinit : fs.isInitialized) (a : Call × Reply)
    (files files' : ℕ → Fat32File) (readers : ℕ → Option (Reader UInt8)) (hplain : PlainCall fs a)
    (h : Open fs files readers) (hstep : SessionStep fs a files files') :
    ∃ readers', StoreStep fs a readers readers' ∧ Open fs files' readers' := by
  obtain ⟨call, reply⟩ := a
  cases call with
  | opens handle path prior =>
    obtain ⟨r, file, hopen, rfl, rfl⟩ := hstep
    have hlead (e : Fat32DirectoryEntry) := @leadsTo_iff_resolves fs e path hvol hplain
    rcases fat32Open_leads hinit hopen with ⟨e, parent, name, hleads, rfl, rfl⟩ | ⟨hr, hnone, rfl⟩
    · have hres := (hlead e).1 hleads
      exact ⟨_, .inl ⟨e, hres, rfl, rfl⟩, h.update (.opened hvol hres _ parent name)⟩
    · refine ⟨readers, .inr ⟨r, hr, fun e hres => hnone e ((hlead e).2 hres), rfl, rfl⟩, ?_⟩
      rwa [Function.update_eq_self]
  | on handle op =>
    obtain ⟨file, hval, rfl⟩ := hstep
    rcases hr : readers handle with _ | r
    · refine ⟨readers, ?_, h.update_none hr⟩
      simp only [StoreStep, hr]
    · have hstands := h handle r hr
      have hfs := hstands.volume
      obtain ⟨reply', file', hval', r', hstands', hanswers⟩ :=
        fileStep_answers (by rwa [hfs]) (by rwa [hfs]) (by rw [hfs]; exact hvol.below) hstands op
      rw [hval] at hval'
      cases hval'
      refine ⟨Function.update readers handle (some r'), ?_, h.update hstands'⟩
      simp only [StoreStep, hr]
      exact ⟨r', hanswers, rfl⟩

/-- In a session with a plain volume, by plain paths, on a disk of which any sectors of files may be
unreadable: an open leads to the file its path spells, if there is one, and each handle is from then
on a reader of that file, whatever is called on the others. -/
theorem session_refines (hmount : fat32Mount disk sectorMem = .mounted fs)
    (hvol : PlainVolume fs) {files files' : ℕ → Fat32File}
    {calls : List ((ℕ → Fat32File) × Call × Reply)}
    (hrun : Run (SessionStep fs) files calls files') (hplain : ∀ c ∈ calls, PlainCall fs c.2) :
    ∃ store readers, Run (StoreStep fs) (fun _ => none) store readers ∧
      store.map Prod.snd = calls.map Prod.snd ∧ Open fs files' readers := by
  obtain ⟨hbps, hspc⟩ := sizes_of_mounted hmount
  exact hrun.simulate (storeStep_of_sessionStep hvol hbps hspc (isInitialized_of_mounted hmount))
    hplain fun _ _ h => nomatch h

theorem tinySession {files : ℕ → Fat32File} : ∃ files' calls, calls.length = 2 ∧
    Run (SessionStep (smallFs (Boot.kernelDisk 68))) files calls files' ∧
    ∀ c ∈ calls, PlainCall (smallFs (Boot.kernelDisk 68)) c.2 := by
  have hcard := Boot.kernelDisk_card (.inr rfl)
  obtain ⟨hbps, hspc⟩ := sizes_of_mounted hcard.mounted
  obtain ⟨n, dir, name, hn⟩ := hcard.opens
  set file := openedFile (smallFs (Boot.kernelDisk 68)) (files 0) dir name (Boot.kernelEntry 68)
  have hopen : SessionStep (smallFs (Boot.kernelDisk 68))
      (.opens 0 Boot.kernelPath fun _ => 0, .code fat32Success) files
      (Function.update files 0 file) := ⟨_, _, ⟨n, fun fuel hfuel => hn fuel hfuel _ _⟩, rfl, rfl⟩
  have hstands : Stands (smallFs (Boot.kernelDisk 68)) file file.reader :=
    ⟨rfl, hcard.file, Nat.zero_le _, rfl⟩
  obtain ⟨reply, file', hread, -⟩ :=
    fileStep_answers hbps hspc hcard.below hstands (.read 100 fun _ => 0)
  have hcall : SessionStep (smallFs (Boot.kernelDisk 68)) (.on 0 (.read 100 fun _ => 0), reply)
      (Function.update files 0 file) (Function.update (Function.update files 0 file) 0 file') :=
    ⟨file', by rwa [Function.update_self], rfl⟩
  refine ⟨_, _, rfl, .snoc (.single hopen) hcall, ?_⟩
  rw [List.singleton_append, List.forall_mem_cons, List.forall_mem_singleton]
  exact ⟨Boot.kernelDisk_path (.inr rfl), trivial⟩

theorem session_refines_tiny : ∃ (files' : ℕ → Fat32File)
    (calls : List ((ℕ → Fat32File) × Call × Reply)), calls.length = 2 ∧ ∃ store readers,
      Run (StoreStep (smallFs (Boot.kernelDisk 68))) (fun _ => none) store readers ∧
        store.map Prod.snd = calls.map Prod.snd ∧
        Open (smallFs (Boot.kernelDisk 68)) files' readers := by
  obtain ⟨files', calls, hlen, hrun, hplain⟩ :=
    @tinySession fun _ => smallFile (Boot.kernelDisk 68) 0 0 0
  exact ⟨files', calls, hlen, session_refines (Boot.kernelDisk_mounted 68)
    (Boot.kernelDisk_volume (.inr rfl)) hrun hplain⟩

/-! ## A read in parts -/

theorem readParts_reads (hbps : fs.bytesPerSector = 512) (hspc : 1 ≤ fs.sectorsPerCluster.toNat)
    (hbelow : DataBelow fs) : ∀ (parts : List (Int32 × (ℕ → UInt8))) {file : Fat32File}
    {r : Reader UInt8}, Stands fs file r → ∃ file', readParts file parts =
      .ok ((r.reads (parts.map fun part => part.1.toUInt32.toNat)).1, file') ∧
      Stands fs file' (r.reads (parts.map fun part => part.1.toUInt32.toNat)).2
  | [], file, r, h => ⟨file, rfl, h⟩
  | (size, buffer) :: parts, file, r, h => by
    have hfs := h.volume
    obtain ⟨code, st, hval, hget, hstands, -⟩ :=
      fat32Read_reader (by rwa [hfs]) (by rwa [hfs]) (by rwa [hfs]) h buffer size
    obtain ⟨file', hrest, hstands'⟩ := readParts_reads hbps hspc hbelow parts hstands
    refine ⟨file', ?_, hstands'⟩
    rw [readParts, hval]
    show (readParts st.file parts).bind _ = _
    rw [hrest]
    show Except.ok (bufferBytes st.buffer _ ++ _, file') = _
    rw [hget]
    rfl

/-- However a read of a file is divided, its parts deliver the same bytes and leave the handle at
the same place, up to the end of the file or to the first byte that cannot be read. -/
theorem reads_divided (hmount : fat32Mount disk sectorMem = .mounted fs) (hbelow : DataBelow fs)
    (hfs : file.fs = fs) (hplain : PlainFile fs file.startCluster file.fileSize)
    (hoff : file.fileOffset.toNat ≤ file.fileSize.toNat) {parts parts' : List (Int32 × (ℕ → UInt8))}
    (hsum : (parts.map fun part => part.1.toUInt32.toNat).sum =
      (parts'.map fun part => part.1.toUInt32.toNat).sum) :
    ∃ bytes file' file'', readParts file parts = .ok (bytes, file') ∧
      readParts file parts' = .ok (bytes, file'') ∧ file'.fileOffset = file''.fileOffset := by
  obtain ⟨hbps, hspc⟩ := sizes_of_mounted hmount
  rw [← hfs] at hplain
  have h : Stands fs file file.reader := ⟨hfs, hplain, hoff, rfl⟩
  obtain ⟨file', hread, hstands⟩ := readParts_reads hbps hspc hbelow parts h
  obtain ⟨file'', hread', hstands'⟩ := readParts_reads hbps hspc hbelow parts' h
  rw [Reader.reads_eq] at hread hread' hstands hstands'
  rw [← hsum] at hread' hstands'
  refine ⟨_, file', file'', hread, hread', UInt32.toNat_inj.1 ?_⟩
  have hpos := congrArg Reader.pos (hstands.reader.trans hstands'.reader.symm)
  exact hpos

/-- Twenty bytes at once, or three and seventeen. -/
theorem reads_divided_tiny : ∃ bytes file' file'',
    readParts (smallFile (Boot.kernelDisk 68) 4 68 0) [(20, fun _ => 0)] = .ok (bytes, file') ∧
      readParts (smallFile (Boot.kernelDisk 68) 4 68 0) [(3, fun _ => 0), (17, fun _ => 0)] =
        .ok (bytes, file'') ∧ file'.fileOffset = file''.fileOffset :=
  reads_divided (Boot.kernelDisk_mounted 68) (Boot.kernelDisk_volume (.inr rfl)).below rfl
    (Boot.kernelDisk_file (.inr rfl)) (by decide) (by decide)

end BeagleKernel.Fat32
