import BeagleKernel.Fat32.WellFormed
import BeagleKernel.Proofs.Coded
import BeagleKernel.Proofs.Cursor
import BeagleKernel.Proofs.Named
import Mathlib.Data.List.TakeWhile

/-!
# From a path to a file's contents

On a well-formed volume the path of a file opens it and a read delivers its contents exactly where
the searches for the components meet the file's own entry and it does not start in cluster 2, or
where they meet another one that happens to read the same (`opensAndReads_iff`).
-/

namespace BeagleKernel.Fat32

variable {fs : Fat32Fs}

/-! ## The components of a valid path are kept -/

theorem Fits83.length_lt {name : List UInt8} (h : Fits83 name) :
    name.length < fat32MaxComponentLength := by
  have hsplit : (baseOf name).length + (name.dropWhile (· ≠ dot)).length = name.length := by
    rw [baseOf, ← List.length_append, List.takeWhile_append_dropWhile]
  have hext : (name.dropWhile (· ≠ dot)).length ≤ (extOf name).length + 1 := by
    rw [extOf, List.length_tail]
    omega
  have := h.base.2
  have := h.ext
  simp only [fat32MaxComponentLength]
  omega

theorem Resolves.fits {dir : UInt32} {names : List (List UInt8)} {e : Fat32DirectoryEntry}
    (h : Resolves fs dir names e) : ∀ name ∈ names, Fits83 name := by
  induction h with
  | file hfits => simpa using hfits
  | dir hfits _ _ _ _ _ ih => simpa using ⟨hfits, ih⟩

theorem keptComponents_eq {path : CString} (hcount : (components path).length ≤ fat32MaxComponents)
    (hfits : ∀ name ∈ components path, Fits83 name) : keptComponents path = components path :=
  keptComponents_of_short hcount fun name hname => (hfits name hname).length_lt

/-! ## The file has its clusters -/

theorem toupper_ne_dot {c : UInt8} (h : c ≠ dot) : toupper c ≠ dot := fun heq =>
  h ((toupper_eq_iff (by decide)).1 heq)

theorem Fits83.formatted_ne_dot {name : List UInt8} (h : Fits83 name) :
    formatNameToFat32 name 0 ≠ dot := by
  have hpos := h.base.1
  obtain ⟨c, base, hbase⟩ := List.exists_cons_of_length_pos hpos
  have hc : c ≠ dot := by
    have hmem : c ∈ baseOf name := by
      rw [hbase]
      exact List.mem_cons_self
    simpa using List.mem_takeWhile_imp hmem
  have : formatNameToFat32 name 0 = toupper c := by
    simp [formatNameToFat32, hbase, charAt]
  rw [this]
  exact toupper_ne_dot hc

theorem Resolves.listed {dir : UInt32} {names : List (List UInt8)} {e : Fat32DirectoryEntry}
    (h : Resolves fs dir names e) (hdir : Directory fs dir) :
    ¬ e.IsDirectory ∧ ∃ dir', Directory fs dir' ∧ Listed fs dir' e ∧ ¬ e.IsLabel := by
  induction h with
  | file _ hlisted _ hlabel hfile => exact ⟨hfile, _, hdir, hlisted, hlabel⟩
  | dir hfits hlisted hname hlabel hisdir _ ih =>
    refine ih (.sub hdir hlisted ⟨hisdir, hlabel, ?_⟩)
    rw [← hname]
    exact hfits.formatted_ne_dot

section Named

variable {path : CString} {e : Fat32DirectoryEntry} (h : NamesFile fs path e)

include h

theorem NamesFile.isFile : ¬ e.IsDirectory := (h.resolves.listed .root).1

theorem NamesFile.clusters :
    HasClusters fs e.startCluster (clustersFor fs e.fileSize.toNat) := by
  obtain ⟨hfile, dir, hdir, hlisted, hlabel⟩ := h.resolves.listed .root
  obtain ⟨n, hn, hchain⟩ := h.volume.files dir hdir e hlisted hlabel hfile h.nonempty
  exact fun k hk => hchain.clusters k (by omega)

theorem NamesFile.kept : keptComponents path = components path :=
  keptComponents_eq h.count h.resolves.fits

theorem NamesFile.served {j : ℕ} (hj : j < e.fileSize.toNat) : Served fs e.startCluster j :=
  served_of_clusters h.volume.readable h.clusters hj

theorem NamesFile.chainByte_eq {j : ℕ} (hj : j < e.fileSize.toNat) :
    chainByte fs e.startCluster j = some ((chainByte fs e.startCluster j).getD 0) := by
  obtain ⟨c, hc, -, hbyte⟩ := h.served hj
  obtain ⟨b, hb⟩ := Option.isSome_iff_exists.1 hbyte
  rw [chainByte, hc, Option.bind_some, hb]
  rfl

omit h in
theorem bufferBytes_eq_contents {buffer : ℕ → UInt8} {start : UInt32} {n : ℕ} :
    bufferBytes buffer n = contents fs start n ↔
      ∀ j < n, buffer j = (chainByte fs start j).getD 0 := by
  unfold bufferBytes contents
  rw [List.map_inj_left]
  simp only [List.mem_range]

/-- A path opens a file and reads it where the trail leads to an entry that reads the same. -/
theorem opensAndReads_trail_iff : OpensAndReads fs path e ↔
    ∃ es e', Trail fs fs.rootCluster (components path) (es ++ [e']) ∧ ¬ e'.IsDirectory ∧
      e.fileSize.toNat ≤ e'.fileSize.toNat ∧
      ∀ j < e.fileSize.toNat, codedByte fs e'.startCluster j = chainByte fs e.startCluster j := by
  have hr := h.volume.readable
  have hread : ∀ (file : Fat32File) parent name (e' : Fat32DirectoryEntry) buffer,
      (∃ st, (fat32Read (openedFile fs file parent name e') buffer e.fileSize.toInt32).val =
          .ok (e.fileSize.toInt32, st) ∧
        bufferBytes st.buffer e.fileSize.toNat = contents fs e.startCluster e.fileSize.toNat) ↔
      e.fileSize.toNat ≤ e'.fileSize.toNat ∧
        ∀ j < e.fileSize.toNat, codedByte fs e'.startCluster j = chainByte fs e.startCluster j := by
    intro file parent name e' buffer
    simp only [bufferBytes_eq_contents]
    rw [fat32Read_all_iff hr.bytesPerSector hr.sectorsPerCluster rfl h.nonempty h.size]
    refine and_congr_right fun _ => forall₂_congr fun j hj => ?_
    rw [h.chainByte_eq hj]
    rfl
  constructor
  · intro hopen
    obtain ⟨fuel, file', st, hopen, hval, hbuf⟩ := hopen (smallFile fs.disk 0 0 0) (fun _ => 0)
      fun _ => 0
    have hne : keptComponents path ≠ [] := fun hk => fat32Open_no_components fs hk hopen
    have hkept := (List.dropLast_append_getLast hne).symm
    obtain ⟨-, es, e', htrail, hdir, rfl⟩ := trail_of_fat32Open fs hkept hopen
    rw [← hkept, h.kept] at htrail
    exact ⟨es, e', htrail, hdir, (hread _ _ _ _ _).1 ⟨st, hval, hbuf⟩⟩
  · rintro ⟨es, e', htrail, hdir, hsame⟩ file prior buffer
    obtain ⟨init, name, hcomp⟩ := snoc_of_trail fs htrail
    rw [hcomp] at htrail
    obtain ⟨k, hk⟩ := fat32Open_of_trail fs (h.kept.trans hcomp) h.volume.mounted htrail hdir
    obtain ⟨st, hval, hbuf⟩ := (hread file (trailEnd fs.rootCluster es) name e' buffer).2 hsame
    exact ⟨k, _, st, hk k le_rfl file prior, hval, hbuf⟩

omit h in
theorem codedByte_of_low {start : UInt32} (hstart : start.toNat < 3) (j : ℕ) :
    codedByte fs start j = none := by
  unfold codedByte codedCluster
  rw [if_neg (fun hc => by omega)]
  rfl

/-- The path of a file opens it and a read delivers its contents exactly where its components lead
the searches to the file's own entry and that does not start in cluster 2, or to another entry,
of a file no shorter, whose bytes are the same. -/
theorem opensAndReads_iff : OpensAndReads fs path e ↔
    (∃ es, Trail fs fs.rootCluster (components path) (es ++ [e])) ∧ e.startCluster ≠ 2 ∨
    ∃ es e', Trail fs fs.rootCluster (components path) (es ++ [e']) ∧ e' ≠ e ∧
      ¬ e'.IsDirectory ∧ e.fileSize.toNat ≤ e'.fileSize.toNat ∧
      ∀ j < e.fileSize.toNat, codedByte fs e'.startCluster j = chainByte fs e.startCluster j := by
  have hlow : 2 ≤ e.startCluster.toNat := by
    obtain ⟨c, hc, hv⟩ := h.clusters 0 (by
      have := div_lt_clustersFor h.volume.readable.sectorsPerCluster h.nonempty
      rwa [Nat.zero_div] at this)
    cases hc
    exact hv.1
  rw [opensAndReads_trail_iff h]
  constructor
  · rintro ⟨es, e', htrail, hdir, hsize, hbytes⟩
    by_cases heq : e' = e
    · subst heq
      refine .inl ⟨⟨es, htrail⟩, fun h2 => ?_⟩
      have := hbytes 0 h.nonempty
      rw [codedByte_of_low (by rw [h2]; decide), h.chainByte_eq h.nonempty] at this
      cases this
    · exact .inr ⟨es, e', htrail, heq, hdir, hsize, hbytes⟩
  · rintro (⟨⟨es, htrail⟩, hne⟩ | ⟨es, e', htrail, -, hsame⟩)
    · have h3 : 3 ≤ e.startCluster.toNat := by
        have : e.startCluster.toNat ≠ 2 := fun h2 => hne (UInt32.toNat_inj.1 h2)
        omega
      exact ⟨es, e, htrail, h.isFile, le_rfl, fun j hj => codedByte_of_served fs h3 (h.served hj)⟩
    · exact ⟨es, e', htrail, hsame⟩

end Named

/-! ## A volume of one file -/

/-- A directory of one file `A` of one byte, in cluster `start`. -/
def dirSectorA (start : UInt32) : Sector := fun i =>
  ([0x41, 0x20, 0x20, 0x20, 0x20, 0x20, 0x20, 0x20, 0x20, 0x20, 0x20, 0, 0, 0, 0, 0,
    0, 0, 0, 0, 0, 0, 0, 0, 0, 0, start.toUInt8, 0, 1, 0, 0, 0] : List UInt8).getD i 0

/-- The root directory is in cluster `root`; clusters 2 and 3 both end their chains. -/
def oneFileDisk (root start : UInt32) : Fat32Diskio where
  readSector s := some
    (if s = 32 then fun i => if 8 ≤ i ∧ i < 16 then if i.val % 4 = 3 then 0x0F else 0xFF else 0
    else if s = 31 + root then dirSectorA start else fun _ => 0x78)

def oneFileFs (root start : UInt32) : Fat32Fs :=
  { smallFs (oneFileDisk root start) with rootCluster := root }

/-- The path `/a`. -/
def pathA : CString where
  chars := [slash, 0x61]
  noNul := by decide

/-- The entry of the file. -/
def entryA (start : UInt32) : Fat32DirectoryEntry := (dirSectorA start).dirEntry 0

/-- A directory whose second slot is the end mark lists the entry in the first. -/
theorem eq_of_listed {start : UInt32} {a z : Fat32DirectoryEntry}
    {rest : List (Option Fat32DirectoryEntry)}
    (hslots : clusterSlots fs start = some a :: some z :: rest) (hz : z.EndMark)
    {e : Fat32DirectoryEntry} (h : Listed fs start e) : e = a := by
  obtain ⟨hlive, k, pre, post, heq, hpre⟩ := h
  cases k with
  | zero =>
    rw [dirSlots] at heq
    cases pre <;> cases heq
  | succ k =>
    rw [dirSlots, hslots] at heq
    rcases pre with _ | ⟨x, _ | ⟨y, pre⟩⟩
    · cases heq
      rfl
    · simp only [List.cons_append, List.nil_append, List.cons.injEq, Option.some.injEq] at heq
      obtain ⟨-, rfl, -⟩ := heq
      exact absurd hz hlive.1
    · simp only [List.cons_append, List.cons.injEq] at heq
      obtain ⟨-, rfl, -⟩ := heq
      obtain ⟨d, hd, hnot⟩ := hpre _ (List.mem_cons_of_mem _ List.mem_cons_self)
      cases hd
      exact absurd hz hnot

section OneFile

variable {root start : UInt32} (hpos : root = 3 ∧ start = 2 ∨ root = 2 ∧ start = 3)

include hpos

theorem oneFile_slots : ∃ rest, clusterSlots (oneFileFs root start) root =
    some (entryA start) :: some ((dirSectorA start).dirEntry 1) :: rest := by
  rcases hpos with ⟨rfl, rfl⟩ | ⟨rfl, rfl⟩
  · exact ⟨_, rfl⟩
  · exact ⟨_, rfl⟩

theorem oneFile_listed {e : Fat32DirectoryEntry}
    (h : Listed (oneFileFs root start) root e) : e = entryA start := by
  obtain ⟨rest, hslots⟩ := oneFile_slots hpos
  exact eq_of_listed hslots rfl h

theorem entryA_spec : (entryA start).Live ∧ ¬ (entryA start).IsLabel ∧
    ¬ (entryA start).IsDirectory ∧ formatNameToFat32 [0x61] = (entryA start).filename ∧
    (entryA start).fileSize = 1 ∧ (entryA start).startCluster = start := by
  rcases hpos with ⟨-, rfl⟩ | ⟨-, rfl⟩ <;> decide

theorem oneFile_listed_entryA : Listed (oneFileFs root start) root (entryA start) := by
  obtain ⟨rest, hslots⟩ := oneFile_slots hpos
  exact ⟨(entryA_spec hpos).1, 1, [], _, by rw [dirSlots, hslots]; rfl, by simp⟩

theorem oneFile_directory {dir : UInt32} (h : Directory (oneFileFs root start) dir) :
    dir = root := by
  induction h with
  | root => rfl
  | sub _ hlisted hsub ih =>
    subst ih
    obtain rfl := oneFile_listed hpos hlisted
    exact absurd hsub.1 (entryA_spec hpos).2.2.1

theorem oneFile_chained {c : UInt32} (hc : c = 2 ∨ c = 3) :
    Chained (oneFileFs root start) c 1 where
  pos := Nat.one_pos
  clusters k hk := by
    obtain rfl : k = 0 := by omega
    refine ⟨c, rfl, ?_⟩
    show 2 ≤ c.toNat ∧ c.toNat < 102
    rcases hc with rfl | rfl <;> decide
  ends c' h := by
    cases h
    have : fatEntry (oneFileFs root start) c = some 0x0FFFFFFF := by
      rcases hc with rfl | rfl <;> rcases hpos with ⟨rfl, rfl⟩ | ⟨rfl, rfl⟩ <;> decide
    exact ⟨_, this, by decide⟩

theorem oneFile_wellFormed : WellFormed (oneFileFs root start) where
  readable := ⟨rfl, Nat.le_refl 1, fun _ => rfl, show 33 + 100 * 1 ≤ 2 ^ 31 by decide⟩
  mounted := rfl
  clusterSize := rfl
  numFats := Nat.le_refl 1
  fatSize := show 4 * (100 + 2) ≤ 512 * 1 by decide
  firstData := rfl
  directories dir hdir := by
    obtain rfl := oneFile_directory hpos hdir
    exact ⟨1, oneFile_chained hpos (by rcases hpos with ⟨rfl, -⟩ | ⟨rfl, -⟩ <;> decide)⟩
  names dir hdir e e' h h' _ _ _ := by
    obtain rfl := oneFile_directory hpos hdir
    rw [oneFile_listed hpos h, oneFile_listed hpos h']
  files dir hdir e h _ _ _ := by
    obtain rfl := oneFile_directory hpos hdir
    obtain rfl := oneFile_listed hpos h
    obtain ⟨-, -, -, -, hsize, hstart⟩ := entryA_spec hpos
    rw [hsize, hstart]
    exact ⟨1, show (1 + 512 * 1 - 1) / (512 * 1) ≤ 1 by decide,
      oneFile_chained hpos (by rcases hpos with ⟨-, rfl⟩ | ⟨-, rfl⟩ <;> decide)⟩

theorem oneFile_names : NamesFile (oneFileFs root start) pathA (entryA start) := by
  obtain ⟨-, hlabel, hfile, hname, hsize, -⟩ := entryA_spec hpos
  refine ⟨oneFile_wellFormed hpos, by decide, ?_, by rw [hsize]; decide, by rw [hsize]; decide⟩
  have hcomp : components pathA = [[0x61]] := by decide
  rw [hcomp]
  exact .file ⟨by decide, by decide, by decide⟩ (oneFile_listed_entryA hpos) hname hlabel hfile

theorem oneFile_found {e : Fat32DirectoryEntry} :
    Found (oneFileFs root start) root (formatNameToFat32 [0x61]) e ↔ e = entryA start := by
  obtain ⟨rest, hslots⟩ := oneFile_slots hpos
  obtain ⟨hlive, -, -, hname, -, -⟩ := entryA_spec hpos
  have hfound : Found (oneFileFs root start) root (formatNameToFat32 [0x61]) (entryA start) := by
    refine ⟨?_, hlive, hname.symm, 1, [], _, by rw [dirSlots, hslots]; rfl, by simp⟩
    rcases hpos with ⟨rfl, -⟩ | ⟨rfl, -⟩ <;> decide
  exact ⟨fun h => h.unique _ hfound, fun h => h ▸ hfound⟩

end OneFile

/-- A file in cluster 2 is not read: its start cluster is rejected. -/
theorem cluster_two_not_read :
    ¬ ∀ fs path e, NamesFile fs path e → OpensAndReads fs path e := by
  intro h
  have hpos : (3 : UInt32) = 3 ∧ (2 : UInt32) = 2 ∨ (3 : UInt32) = 2 ∧ (2 : UInt32) = 3 :=
    .inl ⟨rfl, rfl⟩
  have hnames := oneFile_names hpos
  obtain ⟨es, e', htrail, -, -, hbytes⟩ :=
    (opensAndReads_trail_iff hnames).1 (h _ _ _ hnames)
  have hcomp : components pathA = [[0x61]] := by decide
  rw [hcomp] at htrail
  rcases es with _ | ⟨d, es⟩
  · obtain rfl := (oneFile_found hpos).1 htrail.1
    have := hbytes 0 (by decide)
    rw [codedByte_of_low (by decide), hnames.chainByte_eq (by decide)] at this
    cases this
  · rcases es with _ | ⟨d', es⟩ <;> exact htrail.2.elim

/-- The same file in cluster 3, the root directory in cluster 2. -/
theorem opensAndReads_cluster_three : OpensAndReads (oneFileFs 2 3) pathA (entryA 3) := by
  have hpos : (2 : UInt32) = 3 ∧ (3 : UInt32) = 2 ∨ (2 : UInt32) = 2 ∧ (3 : UInt32) = 3 :=
    .inr ⟨rfl, rfl⟩
  have hcomp : components pathA = [[0x61]] := by decide
  refine (opensAndReads_iff (oneFile_names hpos)).2 (.inl ⟨⟨[], ?_⟩, by decide⟩)
  rw [hcomp]
  exact ⟨(oneFile_found hpos).2 rfl, trivial⟩

end BeagleKernel.Fat32
