import BeagleKernel.Boot.Panic
import BeagleKernel.Proofs.Boot
import BeagleKernel.Proofs.Causes
import BeagleKernel.Proofs.Printf

/-!
# A boot that fails says why

Where the boot ends in a panic, its text is on the console, and the card has a cause for it
(`boot_says_why`), if not always the one that the text names: a search that comes to a sector it
cannot read has found no file, and of a file whose read falls short after some bytes the text has
no name for the error, but their count. But for a search that never ends, a boot comes to a kernel,
to such a panic, or to what the DRAM or the page table do not stand (`boot_ends`).
-/

namespace BeagleKernel

/-! ## The text -/

namespace Uart

theorem not_lonePercent : ∀ {s : List UInt8}, percent ∉ s → ¬ LonePercent s
  | [], _ => id
  | [c], h => fun hc => h (by rw [show c = percent from hc]; exact List.mem_singleton_self _)
  | c :: c' :: s, h => by
    rw [LonePercent, if_neg fun hc : c = percent => h (by rw [hc]; exact List.mem_cons_self)]
    exact not_lonePercent fun hs => h (List.mem_cons_of_mem c hs)

theorem argKinds_plain : ∀ {s : List UInt8}, percent ∉ s → argKinds s = []
  | [], _ => rfl
  | c :: s, h => by
    rw [argKinds_cons fun hc => h (by rw [hc]; exact List.mem_cons_self)]
    exact argKinds_plain fun hs => h (List.mem_cons_of_mem c hs)

theorem formatted_plain (ap : List VaArg) : ∀ {s : List UInt8}, percent ∉ s → formatted s ap = s
  | [], _ => rfl
  | c :: s, h => by
    rw [formatted_cons fun hc => h (by rw [hc]; exact List.mem_cons_self),
      formatted_plain ap fun hs => h (List.mem_cons_of_mem c hs)]

/-- Up to its first `%` a format is its own text. -/
theorem formatted_text {s : List UInt8} (h : percent ∉ s) (t : List UInt8) (ap : List VaArg) :
    formatted (s ++ t) ap = s ++ formatted t ap := by
  have happend := @formatted_append t ap s [] (not_lonePercent h) (argKinds_plain h)
  rwa [List.nil_append, formatted_plain [] h] at happend

/-- A format with the arguments it takes, and its text. -/
structure Formats (fmt : List UInt8) (ap : List VaArg) (text : List UInt8) : Prop where
  matching : Matching fmt ap
  notLone : ¬ LonePercent fmt
  text : formatted fmt ap = text

theorem Formats.plain {s : List UInt8} (h : percent ∉ s) : Formats s [] s where
  matching := by
    rw [Matching, argKinds_plain h]
    exact List.nil_prefix
  notLone := not_lonePercent h
  text := formatted_plain [] h

theorem Formats.conversion {s t text : List UInt8} {c : UInt8} {arg : VaArg} {ap : List VaArg}
    (hs : percent ∉ s) (hkind : argKind c = some arg.kind) (h : Formats t ap text) :
    Formats (s ++ percent :: c :: t) (arg :: ap) (s ++ ((converted c (arg :: ap)).1 ++ text)) where
  matching := by
    rw [Matching, argKinds_append (not_lonePercent hs), argKinds_plain hs, List.nil_append,
      argKinds, if_pos rfl, hkind]
    exact List.cons_prefix_cons.2 ⟨rfl, h.matching⟩
  notLone := by
    rw [lonePercent_append (not_lonePercent hs), LonePercent, if_pos rfl]
    exact h.notLone
  text := by
    have hrest : (converted c (arg :: ap)).2 = ap := by
      cases arg <;> simp only [converted, hkind, VaArg.kind]
    rw [formatted_text hs, formatted, if_pos rfl, hrest, h.text]

theorem panic_shown {fmt : Fat32.CString} {ap : List VaArg} {text : List UInt8}
    (h : Formats fmt.chars ap text) (after : ℕ → UInt8) (prior : ℕ → ℕ → UInt8) {fuel : ℕ}
    (hfirst : 7 < fuel) (hfuel : fmt.chars.length < fuel) :
    shown (sentBytes (panic fmt ap after prior fuel).log) = ascii "PANIC: " ++ text := by
  have hplain : percent ∉ panicPrefix.chars := by decide
  have hp := Formats.plain hplain
  obtain ⟨hval, hlog⟩ := uartVprintf_text panicPrefix after [] prior hp.matching hp.notLone hfirst
  obtain ⟨hval', hlog'⟩ := uartVprintf_text fmt after ap prior h.matching h.notLone hfuel
  rw [panic, Traced.bind_of_ok hval, Traced.bind_of_ok hval']
  show shown (sentBytes (_ ++ (_ ++ []))) = _
  rw [List.append_nil, sentBytes, List.filterMap_append]
  show shown (sentBytes _ ++ sentBytes _) = _
  rw [hlog, hlog', onWire, onWire, ← LineEnds.sent_append, hp.text, h.text]
  exact LineEnds.undo_sent (by decide) _

end Uart

namespace Fat32

variable {fs : Fat32Fs} {disk : Fat32Diskio} {mem : SectorMemory} {file file' : Fat32File}
  {path : CString} {names rest : List (List UInt8)} {name : List UInt8}
  {es : List Fat32DirectoryEntry} {fuel : ℕ} {prior : ℕ → UInt8}

/-- Why a mount fails, with the code it returns. -/
inductive MountFails (disk : Fat32Diskio) (mem : SectorMemory) : Int32 → Prop
  | unread (h : disk.readSector 0 = none) : MountFails disk mem fat32ErrorIo
  | unreadStart {s : Sector} {start : UInt32} (h : disk.readSector 0 = some s)
      (hpartition : findPartition s.byte = some start) (hstart : disk.readSector start = none) :
      MountFails disk mem fat32ErrorIo
  | noVolume {s : Sector} (h : disk.readSector 0 = some s)
      (hpartition : findPartition s.byte = none) (hcheck : checkSector0ForFat32 s.byte = false) :
      MountFails disk mem fat32ErrorInvalidBootSector
  | invalid {b : Sector} {start : UInt32} (hboot : bootSectorOf disk = some (b, start))
      (h : ¬ (b.le16 signatureAt = 0xAA55 ∧ ZeroAfter mem)) :
      MountFails disk mem fat32ErrorInvalidBootSector

theorem mountFails_of_error {code : Int32} (h : fat32Mount disk mem = .error code) :
    MountFails disk mem code := by
  rcases hboot : bootSectorOf disk with _ | ⟨b, start⟩
  · unfold fat32Mount at h
    rcases hread : disk.readSector 0 with _ | s
    · rw [hread] at h
      cases h
      exact .unread hread
    have hagree := load_byte_agree mem s
    simp only [hread, findPartition_congr hagree, checkSector0ForFat32_congr hagree] at h
    rcases hpartition : findPartition s.byte with _ | start
    · rw [bootSectorOf_of_no_partition hread hpartition] at hboot
      split_ifs at hboot with hcheck
      simp only [hpartition, hcheck] at h
      cases h
      exact .noVolume hread hpartition (Bool.eq_false_of_not_eq_true hcheck)
    · rw [bootSectorOf_of_partition hread hpartition, Option.map_eq_none_iff] at hboot
      simp only [hpartition, hboot] at h
      cases h
      exact .unreadStart hread hpartition hboot
  · rw [fat32Mount_of_boot hboot] at h
    have hsig : readUnalignedUint16 (mem.load b) signatureAt = b.le16 signatureAt :=
      readUnalignedUint16_congr (load_byte_agree mem b) (by decide)
    by_cases hvalid : validateFat32BootSector (mem.load b) = 0
    · rw [mountBootSector_valid start hvalid] at h
      split at h
      · cases h
      · cases h
    · rw [mountBootSector_invalid start hvalid] at h
      cases h
      refine .invalid hboot fun hboth => hvalid (validateFat32BootSector_eq_zero_iff.2 ?_)
      rw [hsig, load_zeroAfter]
      exact hboth

/-- Why the search for a name comes to nothing: before an entry with the name there is a sector
that cannot be read or an end mark, or there is no directory to search. -/
def SearchFails (fs : Fat32Fs) (start : UInt32) (name : List UInt8) : Prop :=
  start = fat32EocMarker ∨ MeetsUnreadable fs (formatNameToFat32 name) start ∨
    MeetsEndMark fs (formatNameToFat32 name) start

/-- Why an open fails, with the code it returns: the search for a component fails, or they lead to
a directory. -/
inductive OpenFails (fs : Fat32Fs) (path : CString) : Int32 → Prop
  | search {names : List (List UInt8)} {name : List UInt8} {rest : List (List UInt8)}
      {es : List Fat32DirectoryEntry} (hkept : keptComponents path = names ++ name :: rest)
      (htrail : Trail fs fs.rootCluster names es)
      (h : SearchFails fs (trailEnd fs.rootCluster es) name) :
      OpenFails fs path (if rest = [] then fat32ErrorNoFile else fat32ErrorNoPath)
  | isDir {es : List Fat32DirectoryEntry} {e : Fat32DirectoryEntry}
      (htrail : Trail fs fs.rootCluster (keptComponents path) (es ++ [e])) (h : e.IsDirectory) :
      OpenFails fs path fat32ErrorIsDir

/-- Where names lead nowhere, one of them is the first that is not found. -/
theorem exists_vain : ∀ {names : List (List UInt8)} {dir : UInt32},
    (∀ es, ¬ Trail fs dir names es) → ∃ init name rest es, names = init ++ name :: rest ∧
      Trail fs dir init es ∧ ¬ ∃ e, Found fs (trailEnd dir es) (formatNameToFat32 name) e
  | [], _, h => absurd trivial (h [])
  | name :: names, dir, h => by
    by_cases hfound : ∃ e, Found fs dir (formatNameToFat32 name) e
    · obtain ⟨e, he⟩ := hfound
      obtain ⟨init, next, rest, es, hnames, htrail, hvain⟩ :=
        @exists_vain names e.startCluster fun es htrail => h (e :: es) ⟨he, htrail⟩
      exact ⟨name :: init, next, rest, e :: es, by rw [hnames]; rfl, ⟨he, htrail⟩, hvain⟩
    · exact ⟨[], name, names, [], rfl, trivial, hfound⟩

theorem searchFails_of_returns (hinit : fs.isInitialized) {r : Int32 × Fat32File}
    (h : (fat32Open fuel fs path file prior).val = .ok r)
    (hkept : keptComponents path = names ++ name :: rest)
    (htrail : Trail fs fs.rootCluster names es)
    (hvain : ¬ ∃ e, Found fs (trailEnd fs.rootCluster es) (formatNameToFat32 name) e) :
    SearchFails fs (trailEnd fs.rootCluster es) name := by
  obtain ⟨r, hread⟩ := fat32Open_returned hinit h (searchedFor_kept hkept prior) htrail
  obtain ⟨a, hscan, -⟩ := Traced.val_bind_eq_ok.1 hread
  rw [searchStart_trail] at hscan
  exact meets_of_vain hscan hvain

theorem openFails_of_returns (hkept : keptComponents path = names ++ [name])
    (hinit : fs.isInitialized) {r : Int32} (hr : r ≠ fat32Success)
    (h : (fat32Open fuel fs path file prior).val = .ok (r, file')) : OpenFails fs path r := by
  by_cases hend : ∃ es e, Trail fs fs.rootCluster (names ++ [name]) (es ++ [e])
  · obtain ⟨es, e, htrail⟩ := hend
    obtain ⟨k, hk⟩ := fat32Open_at_end fs hkept hinit htrail
    have hval := fat32Open_mono fs h (le_max_left fuel k)
    rw [hk _ (le_max_right fuel k)] at hval
    split_ifs at hval with hdir
    · cases hval
      rw [← hkept] at htrail
      exact .isDir htrail hdir
    · cases hval
      exact absurd rfl hr
  by_cases hdirs : ∃ es, Trail fs fs.rootCluster names es
  · obtain ⟨es, htrail⟩ := hdirs
    -- with enough fuel the open comes to the last component
    obtain ⟨k, hk⟩ := @openDirs_of_trail fs names es 0 noDir fs.rootCluster htrail
    have hopen := hk _ (le_max_right fuel k) (parseFat32Path path prior)
      (component_init hkept prior)
    have hvain : ¬ ∃ e, Found fs (trailEnd fs.rootCluster es) (formatNameToFat32 name) e :=
      fun ⟨e, he⟩ => hend ⟨es, e, (trail_snoc fs).2 ⟨htrail, he⟩⟩
    obtain ⟨-, code, herror⟩ | ⟨es', -, rfl | ⟨e, htrail'⟩⟩ :=
      fat32Open_cases fs hkept hinit (fat32Open_mono fs h (le_max_left fuel k))
    · cases hopen.symm.trans herror
    · exact .search hkept htrail (searchFails_of_returns hinit h hkept htrail hvain)
    · exact absurd ⟨_, _, htrail'⟩ hend
  · obtain ⟨init, next, rest, es, hnames, htrail, hvain⟩ :=
      exists_vain fun es htrail => hdirs ⟨es, htrail⟩
    obtain ⟨rfl, -⟩ | ⟨es', htrail', -⟩ := fat32Open_cases fs hkept hinit h
    · have hkept' : keptComponents path = init ++ next :: (rest ++ [name]) := by
        rw [hkept, hnames, List.append_assoc]
        rfl
      have hfails := OpenFails.search hkept' htrail
        (searchFails_of_returns hinit h hkept' htrail hvain)
      rwa [if_neg (List.append_ne_nil_of_right_ne_nil _ (List.cons_ne_nil _ _))] at hfails
    · exact absurd ⟨es', htrail'⟩ hdirs

/-- Why the `j`-th byte of a file cannot be had: the file starts below cluster 3, or the chain has
no cluster of the volume for the byte, or its sector cannot be read. -/
def ByteFails (fs : Fat32Fs) (start : UInt32) (j : ℕ) : Prop :=
  start.toNat < 3 ∨ chain fs start (j / clusterBytes fs) = none ∨
    ∃ c, chain fs start (j / clusterBytes fs) = some c ∧
      (clusterToSector fs c < 0 ∨ clusterByte fs c (j % clusterBytes fs) = none)

theorem byteFails_of_coded {start : UInt32} {j : ℕ} (h : codedByte fs start j = none) :
    ByteFails fs start j := by
  rcases Nat.lt_or_ge start.toNat 3 with hlt | hge
  · exact .inl hlt
  rcases hc : chain fs start (j / clusterBytes fs) with _ | c
  · exact .inr (.inl hc)
  refine .inr (.inr ⟨c, hc, ?_⟩)
  rw [codedByte, codedCluster_of_chain fs hge hc, Option.bind_some] at h
  split_ifs at h with hacc
  · exact .inr h
  · exact .inl (Int32.not_le.1 hacc)

end Fat32

namespace Boot

open Fat32 Uart

/-- The text of a panic. -/
def BootPanic.text : BootPanic → List UInt8
  | .mount code => ascii "Failed to mount FAT32 filesystem: " ++
      (ascii (errorText code) ++ ascii "\n")
  | .open code => ascii "Failed to open kernel.bin: " ++ (ascii (errorText code) ++ ascii "\n")
  | .read res => ascii "Failed to read kernel.bin: " ++ (ascii (errorText res) ++
      (ascii " (" ++ (intNumeral 10 res.toInt ++ ascii " bytes)\n")))
  | .magic value => ascii "Invalid kernel magic value: " ++
      (intNumeral 16 value.toNat ++ ascii "\n")

namespace BootPanic

theorem formats (p : BootPanic) : Formats p.format.chars p.args p.text := by
  have hend : Formats (ascii "\n") [] (ascii "\n") := .plain (by decide)
  cases p with
  | mount code =>
    have hfmt : ascii "Failed to mount FAT32 filesystem: %s\n" =
        ascii "Failed to mount FAT32 filesystem: " ++ percent :: 0x73 :: ascii "\n" := by decide
    rw [format_chars, formatText, hfmt]
    exact hend.conversion (by decide) rfl
  | «open» code =>
    have hfmt : ascii "Failed to open kernel.bin: %s\n" =
        ascii "Failed to open kernel.bin: " ++ percent :: 0x73 :: ascii "\n" := by decide
    rw [format_chars, formatText, hfmt]
    exact hend.conversion (by decide) rfl
  | read res =>
    have hfmt : ascii "Failed to read kernel.bin: %s (%d bytes)\n" =
        ascii "Failed to read kernel.bin: " ++ percent :: 0x73 ::
          (ascii " (" ++ percent :: 0x64 :: ascii " bytes)\n") := by decide
    have hbytes : Formats (ascii " bytes)\n") [] (ascii " bytes)\n") := .plain (by decide)
    rw [format_chars, formatText, hfmt]
    exact (hbytes.conversion (by decide) rfl).conversion (by decide) rfl
  | magic value =>
    have hfmt : ascii "Invalid kernel magic value: %x\n" =
        ascii "Invalid kernel magic value: " ++ percent :: 0x78 :: ascii "\n" := by decide
    rw [format_chars, formatText, hfmt]
    exact hend.conversion (by decide) rfl

end BootPanic

/-! ## The cause -/

variable {disk : Fat32Diskio} {fs : Fat32Fs} {file : Fat32File} {prior memory : ℕ → UInt8}
  {fuel : ℕ} {stop : BootStop} {p : BootPanic}

/-- What it is about the card, and the memory that was there, that stops a boot. -/
inductive BootStop.Cause (disk : Fat32Diskio) (memory : ℕ → UInt8) : BootStop → Prop
  | mount {code : Int32} (h : MountFails disk (sectorMemory memory) code) :
      Cause disk memory (.panic (.mount code))
  | open {fs : Fat32Fs} {code : Int32}
      (hmount : fat32Mount disk (sectorMemory memory) = .mounted fs)
      (h : OpenFails fs kernelPath code) : Cause disk memory (.panic (.open code))
  | read {fs : Fat32Fs} {e : Fat32DirectoryEntry} {m : ℕ} {res : Int32}
      (hmount : fat32Mount disk (sectorMemory memory) = .mounted fs)
      (hleads : LeadsTo fs kernelPath e) (hlt : m < e.fileSize.toNat)
      (hreads : ∀ j < m, (codedByte fs e.startCluster j).isSome)
      (hfails : ByteFails fs e.startCluster m) (hres : res < 0 ∨ 0 < m ∧ res.toInt = m) :
      Cause disk memory (.panic (.read res))
  | readsPast {fs : Fat32Fs} {e : Fat32DirectoryEntry}
      (hmount : fat32Mount disk (sectorMemory memory) = .mounted fs)
      (hleads : LeadsTo fs kernelPath e) (h : memPhysSize.toNat < e.fileSize.toNat)
      (hreads : ∀ j ≤ memPhysSize.toNat, (codedByte fs e.startCluster j).isSome) :
      Cause disk memory .readsPast
  | enter {fs : Fat32Fs} {e : Fat32DirectoryEntry} {m : ℕ} {stop : BootStop}
      (htaken : TakenFile disk memory fs e m)
      (h : EnterFails (bootMemory disk memory fs e m) stop) : Cause disk memory stop

/-- A boot that stops has a cause to. -/
theorem BootStop.cause
    (h : (bootloaderEntry fuel disk file prior memory).val = .ok (.error stop)) :
    stop.Cause disk memory := by
  rcases bootloaderEntry_cases h with ⟨stop', hread, hout⟩ | ⟨fs, e, m, htaken, hout⟩
  · cases hout
    have hcases := readKernel_cases hread
    rw [sectorMemory_tested] at hcases
    rcases hcases with ⟨code, hmount, hstop⟩ | ⟨fs, hmount, hrest⟩
    · cases hstop
      exact .mount (mountFails_of_error hmount)
    rcases hrest with ⟨code, file', hcode, hopen, hstop⟩ | ⟨e, m, res, hleads, hwhole, hstop⟩
    · cases hstop
      exact .open hmount (openFails_of_returns kept_kernelPath (isInitialized_of_mounted hmount)
        hcode hopen)
    unfold afterRead at hstop
    split_ifs at hstop with hpast hres
    · cases hstop
      exact .readsPast hmount hleads (hpast.trans_le hwhole.le) fun j hj =>
        hwhole.reads j (hj.trans_lt hpast)
    · cases hstop
      have hlt : m < e.fileSize.toNat :=
        Nat.lt_of_le_of_ne hwhole.le fun hm => hres (hwhole.full hm)
      have hphysSize : memPhysSize.toNat = 0x20000000 := rfl
      refine .read hmount hleads hlt hwhole.reads (byteFails_of_coded (hwhole.unread hlt))
        ((hwhole.short hlt).imp_right fun hcount => ⟨hcount.1, ?_⟩)
      rw [hcount.2, UInt32.toInt_toInt32] <;> rw [UInt32.toNat_ofNat_lt] <;> omega
  · exact .enter htaken (enterKernel_error hout.symm)

theorem errorText_count {res : Int32} (h : 0 < res.toInt) : errorText res = "Unknown error" := by
  have hne : ∀ code : Int32, code.toInt ≤ 0 → res ≠ code := by
    rintro code hcode rfl
    omega
  rw [errorText, if_neg (hne _ (by decide)), if_neg (hne _ (by decide)),
    if_neg (hne _ (by decide)), if_neg (hne _ (by decide)), if_neg (hne _ (by decide)),
    if_neg (hne _ (by decide)), if_neg (hne _ (by decide)), if_neg (hne _ (by decide)),
    if_neg (hne _ (by decide))]

/-- The codes of a mount and of an open have texts, and the count of a read has none. -/
def BootPanic.Named : BootPanic → Prop
  | .mount code => errorText code ≠ "Unknown error"
  | .open code => errorText code ≠ "Unknown error"
  | .read res => 0 < res.toInt → errorText res = "Unknown error"
  | .magic _ => True

theorem BootPanic.named (h : BootStop.Cause disk memory (.panic p)) : p.Named := by
  have htexts : ∀ code ∈ [fat32ErrorIo, fat32ErrorInvalidBootSector, fat32ErrorNoPath,
      fat32ErrorNoFile, fat32ErrorIsDir], errorText code ≠ "Unknown error" := by
    intro code hcode
    simp only [List.mem_cons, List.not_mem_nil, or_false] at hcode
    rcases hcode with rfl | rfl | rfl | rfl | rfl <;> decide
  cases h with
  | mount h =>
    refine htexts _ ?_
    cases h <;> decide
  | «open» _ h =>
    refine htexts _ ?_
    cases h with
    | search => split_ifs <;> decide
    | isDir => decide
  | read => exact errorText_count
  | enter _ h =>
    cases h
    exact trivial

/-- Where the boot ends in a panic, the console shows its text, whatever was on the card; and the
card has a cause for it. -/
theorem boot_says_why
    (h : (bootloaderEntry fuel disk file prior memory).val = .ok (.error (.panic p)))
    (after : ℕ → UInt8) (numbers : ℕ → ℕ → UInt8) {fuel' : ℕ} (hfuel : 64 < fuel') :
    BootStop.Cause disk memory (.panic p) ∧ p.Named ∧
      shown (sentBytes (p.print after numbers fuel').log) = ascii "PANIC: " ++ p.text := by
  have hcause := BootStop.cause h
  refine ⟨hcause, BootPanic.named hcause, panic_shown p.formats after numbers (by omega) ?_⟩
  have hlen : p.format.chars.length ≤ 64 := by
    rw [BootPanic.format_chars]
    cases p <;> rw [BootPanic.formatText] <;> decide
  omega

/-- A card that cannot be read. -/
def deadDisk : Fat32Diskio := ⟨fun _ => none⟩

theorem boot_says_why_dead : BootStop.Cause deadDisk (fun _ => 0) (.panic (.mount fat32ErrorIo)) ∧
    (BootPanic.mount fat32ErrorIo).Named ∧
    shown (sentBytes ((BootPanic.mount fat32ErrorIo).print (fun _ => 0) (fun _ _ => 0) 100).log) =
      ascii "PANIC: Failed to mount FAT32 filesystem: I/O error\n" := by
  have hends : (bootloaderEntry 0 deadDisk (smallFile deadDisk 0 0 0) (fun _ => 0)
      fun _ => 0).val = .ok (.error (.panic (.mount fat32ErrorIo))) := rfl
  obtain ⟨hcause, hnamed, hshown⟩ :=
    boot_says_why hends (fun _ => 0) (fun _ _ => 0) (by decide : 64 < 100)
  refine ⟨hcause, hnamed, ?_⟩
  rw [hshown]
  decide

/-! ## A kernel that is cut off -/

variable {e : Fat32DirectoryEntry}

/-- Behind what is read of the kernel there are the ones that the test has left. -/
theorem bootMemory_short (hcard : KernelCard disk memory fs e) {i : ℕ} (hi : i < 4) :
    bootMemory disk memory fs e e.fileSize.toNat i =
      if i < e.fileSize.toNat then (chainByte fs e.startCluster i).getD 0 else 0xFF := by
  have hbuffer : sectorBufferAt = 0x11000000 := rfl
  have hsize : ddrSize.toNat = 0x100000 := rfl
  have hbelow : ¬ sectorBufferAt ≤ i := by omega
  have htested : i < ddrSize.toNat := by omega
  rw [bootMemory, overlay, mountedMemory, storeSectorMemory, if_neg hbelow, testedMemory_apply,
    if_pos htested]
  split_ifs with h
  · rw [hcard.codedByte_eq h]
  · rfl

theorem magic_short (hcard : KernelCard disk memory fs e) :
    le32Bytes (kernelHeader (bootMemory disk memory fs e e.fileSize.toNat)).magic =
      (contents fs e.startCluster e.fileSize.toNat ++ List.replicate 4 0xFF).take 4 := by
  rw [kernelHeader, le32Bytes_memWord]
  refine List.ext_getElem (by simp) fun i hi _ => ?_
  have hi : i < 4 := by simpa using hi
  simp only [List.getElem_map, List.getElem_range, Nat.zero_add, bootMemory_short hcard hi,
    List.getElem_take, List.getElem_append, contents, List.length_map, List.length_range,
    List.getElem_replicate]
  split_ifs
  · rfl
  · rfl

theorem magic_short_ne (hcard : KernelCard disk memory fs e) (hshort : e.fileSize.toNat < 4) :
    (kernelHeader (bootMemory disk memory fs e e.fileSize.toNat)).magic ≠ kernelMagic := by
  intro heq
  have hlast : bootMemory disk memory fs e e.fileSize.toNat 3 = 0xFF := by
    rw [bootMemory_short hcard (by decide), if_neg (by omega)]
  have hmagic : memWord (bootMemory disk memory fs e e.fileSize.toNat) 0 = kernelMagic := heq
  have hbytes := le32Bytes_memWord (bootMemory disk memory fs e e.fileSize.toNat) 0
  rw [hmagic] at hbytes
  have hbyte := congrArg (fun bs => bs.getD 3 0) hbytes
  exact absurd (hbyte.trans hlast) (by decide)

/-- A kernel of fewer than four bytes is not entered, whatever was in memory. -/
theorem short_kernel_panics (hcard : KernelCard disk memory fs e) (hshort : e.fileSize.toNat < 4) :
    ∃ value, le32Bytes value =
        (contents fs e.startCluster e.fileSize.toNat ++ List.replicate 4 0xFF).take 4 ∧
      (∃ n, ∀ fuel ≥ n, ∀ file prior, (bootloaderEntry fuel disk file prior memory).val =
        .ok (.error (.panic (.magic value)))) ∧
      ∀ after numbers fuel, 64 < fuel →
        shown (sentBytes ((BootPanic.magic value).print after numbers fuel).log) =
          ascii "PANIC: Invalid kernel magic value: " ++
            (intNumeral 16 value.toNat ++ ascii "\n") := by
  have hsize : e.fileSize.toNat ≤ memPhysSize.toNat := by
    have hphysSize : memPhysSize.toNat = 0x20000000 := rfl
    omega
  obtain ⟨n, hn⟩ := hcard.boots hsize
  have hpanics : ∀ fuel ≥ n, ∀ file prior, (bootloaderEntry fuel disk file prior memory).val =
      .ok (.error (.panic (.magic
        (kernelHeader (bootMemory disk memory fs e e.fileSize.toNat)).magic))) :=
    fun fuel hfuel file prior => by
      rw [hn fuel hfuel file prior, enterKernel, if_pos (magic_short_ne hcard hshort)]
  refine ⟨_, magic_short hcard, ⟨n, hpanics⟩, fun after numbers fuel hfuel => ?_⟩
  exact (boot_says_why (hpanics n le_rfl (smallFile disk 0 0 0) fun _ => 0) after numbers hfuel).2.2

theorem short_kernel_panics_empty : ∃ value, le32Bytes value = [0xFF, 0xFF, 0xFF, 0xFF] ∧
    (∃ n, ∀ fuel ≥ n, ∀ file prior, (bootloaderEntry fuel (kernelDisk 0) file prior
      fun _ => 0).val = .ok (.error (.panic (.magic value)))) ∧
    ∀ after numbers fuel, 64 < fuel →
      shown (sentBytes ((BootPanic.magic value).print after numbers fuel).log) =
        ascii "PANIC: Invalid kernel magic value: " ++ (intNumeral 16 value.toNat ++ ascii "\n") :=
  short_kernel_panics (kernelDisk_card (.inl rfl)) (by decide)

/-! ## The end of a boot -/

/-- With enough fuel a boot comes to `out`. -/
def Ends (disk : Fat32Diskio) (file : Fat32File) (prior memory : ℕ → UInt8)
    (out : Except BootStop Loaded) : Prop :=
  ∃ n, ∀ fuel ≥ n, (bootloaderEntry fuel disk file prior memory).val = .ok out

theorem Ends.cause (h : Ends disk file prior memory (.error stop)) : stop.Cause disk memory := by
  obtain ⟨n, hn⟩ := h
  exact BootStop.cause (hn n le_rfl)

end Boot

end BeagleKernel
