import BeagleKernel.Boot.Load
import BeagleKernel.Proofs.Bss
import BeagleKernel.Proofs.Dram
import BeagleKernel.Proofs.Plain
import BeagleKernel.Proofs.ReadContract
import BeagleKernel.Proofs.Usable

/-!
# What the boot loader enters

A read of a whole file lays what it gets over what was in memory (`fat32Read_whole`), and it is
passed if this is the whole file. So a load is settled by the file and, for what the file does not
cover, by the memory. What is in memory then is entered, or not for one of three reasons
(`enterKernel_error`).
-/

namespace BeagleKernel.Boot

open Fat32 Mmu

variable {disk : Fat32Diskio} {fuel : ℕ} {file file' : Fat32File} {prior memory memory' : ℕ → UInt8}
  {fs : Fat32Fs} {loaded : Loaded} {stop : BootStop} {ws : List UInt32} {a : UInt32}

/-! ## Clearing words -/

/-- The byte at `p` is one of a word of `ws`. -/
def Clears (ws : List UInt32) (p : ℕ) : Prop :=
  ∃ a ∈ ws, a.toNat ≤ memPhysBase.toNat + p ∧ memPhysBase.toNat + p < a.toNat + 4

instance (ws : List UInt32) (p : ℕ) : Decidable (Clears ws p) :=
  inferInstanceAs (Decidable (∃ a ∈ ws, _))

/-- The memory with the words cleared. -/
def cleared (ws : List UInt32) (memory : ℕ → UInt8) (p : ℕ) : UInt8 :=
  if Clears ws p then 0 else memory p

theorem storeMemWord_zero (ha : InDram a) : storeMemWord memory a 0 = cleared [a] memory := by
  have hzeros : ∀ i, (le32Bytes 0).getD i 0 = 0 := fun i => by
    rcases i with _ | _ | _ | _ | i <;> rfl
  funext p
  have hlow := ha.1
  simp only [storeMemWord, writeBytes, hzeros, length_le32Bytes, cleared, Clears,
    List.mem_singleton, exists_eq_left]
  exact if_congr (by omega) rfl rfl

theorem clearWord_of (ha : InDram a) (htable : ¬ InPageTable a) :
    clearWord memory a = .ok (cleared [a] memory) := by
  rw [clearWord, if_pos ⟨ha, htable⟩, storeMemWord_zero ha]

theorem clearWord_error (h : ¬ InDram a ∨ InPageTable a) :
    clearWord memory a = .error (.clears a) := by
  rw [clearWord, if_neg fun hboth => h.elim (fun hout => hout hboth.1) hboth.2]

theorem cleared_cons : cleared ws (cleared [a] memory) = cleared (a :: ws) memory := by
  funext p
  by_cases hws : Clears ws p
  · have hcons : Clears (a :: ws) p := by
      obtain ⟨b, hb, h⟩ := hws
      exact ⟨b, .tail _ hb, h⟩
    rw [cleared, if_pos hws, cleared, if_pos hcons]
  · rw [cleared, if_neg hws, cleared, cleared]
    refine if_congr ⟨?_, ?_⟩ rfl rfl
    · rintro ⟨b, hb, h⟩
      obtain rfl := List.mem_singleton.1 hb
      exact ⟨b, .head _, h⟩
    · rintro ⟨b, hb, h⟩
      rcases List.mem_cons.1 hb with rfl | hb
      · exact ⟨b, .head _, h⟩
      · exact absurd ⟨b, hb, h⟩ hws

/-- The words are cleared, up to the first that is outside the DRAM or in the page table. -/
theorem clearWords_eq : ∀ (ws : List UInt32) (memory : ℕ → UInt8),
    ((∀ a ∈ ws, InDram a ∧ ¬ InPageTable a) ∧
      ws.foldlM clearWord memory = .ok (cleared ws memory)) ∨
    ∃ a ∈ ws, (¬ InDram a ∨ InPageTable a) ∧ ws.foldlM clearWord memory = .error (.clears a)
  | [], memory => by
    refine .inl ⟨List.forall_mem_nil _, congrArg Except.ok ?_⟩
    funext p
    exact (if_neg fun ⟨_, hb, _⟩ => nomatch hb).symm
  | a :: ws, memory => by
    by_cases ha : InDram a ∧ ¬ InPageTable a
    · rcases clearWords_eq ws (cleared [a] memory) with ⟨hws, hok⟩ | ⟨b, hb, hout, herror⟩
      · refine .inl ⟨List.forall_mem_cons.2 ⟨ha, hws⟩, ?_⟩
        rw [List.foldlM_cons, clearWord_of ha.1 ha.2]
        exact hok.trans (congrArg Except.ok cleared_cons)
      · refine .inr ⟨b, .tail _ hb, hout, ?_⟩
        rw [List.foldlM_cons, clearWord_of ha.1 ha.2]
        exact herror
    · have hout : ¬ InDram a ∨ InPageTable a := by
        rwa [not_and_or, not_not] at ha
      refine .inr ⟨a, .head _, hout, ?_⟩
      rw [List.foldlM_cons, clearWord_error hout]
      rfl

/-! ## The check and the jump -/

/-- The machine at the jump to the kernel that is in memory. -/
def loadedFrom (memory : ℕ → UInt8) : Loaded :=
  let header := kernelHeader memory
  let sections := kernelSections header
  let memory := cleared (clearedWords header)
    (storeL1Table memory (mapKernel (mmuInit (l1Table memory)) sections))
  ⟨memory, (kernelHeader memory).kernelEntry, ⟨bootloaderMagic, memBootPageTableBase, sections⟩⟩

/-- There is a kernel in memory that can be entered. -/
structure Enterable (memory : ℕ → UInt8) : Prop where
  magic : (kernelHeader memory).magic = kernelMagic
  maps : ¬ MapsPast (kernelSections (kernelHeader memory))
  words : ∀ a ∈ clearedWords (kernelHeader memory), InDram a ∧ ¬ InPageTable a

/-- Why what is in memory is not entered. -/
inductive EnterFails (memory : ℕ → UInt8) : BootStop → Prop
  | magic (h : (kernelHeader memory).magic ≠ kernelMagic) :
      EnterFails memory (.panic (.magic (kernelHeader memory).magic))
  | mapsPast (hmagic : (kernelHeader memory).magic = kernelMagic)
      (h : MapsPast (kernelSections (kernelHeader memory))) : EnterFails memory .mapsPast
  | clears {a : UInt32} (hmagic : (kernelHeader memory).magic = kernelMagic)
      (ha : a ∈ clearedWords (kernelHeader memory)) (h : ¬ InDram a ∨ InPageTable a) :
      EnterFails memory (.clears a)

theorem enterKernel_cases (memory : ℕ → UInt8) :
    (Enterable memory ∧ enterKernel memory = .ok (loadedFrom memory)) ∨
    ∃ stop, EnterFails memory stop ∧ enterKernel memory = .error stop := by
  unfold enterKernel
  simp only []
  by_cases hmagic : (kernelHeader memory).magic = kernelMagic
  · rw [if_neg (not_not.2 hmagic)]
    by_cases hmaps : MapsPast (kernelSections (kernelHeader memory))
    · rw [if_pos hmaps]
      exact .inr ⟨_, .mapsPast hmagic hmaps, rfl⟩
    · rw [if_neg hmaps]
      rcases clearWords_eq (clearedWords (kernelHeader memory)) (storeL1Table memory
        (mapKernel (mmuInit (l1Table memory)) (kernelSections (kernelHeader memory)))) with
        ⟨hws, hok⟩ | ⟨a, ha, hout, herror⟩
      · rw [hok]
        exact .inl ⟨⟨hmagic, hmaps, hws⟩, rfl⟩
      · rw [herror]
        exact .inr ⟨_, .clears hmagic ha hout, rfl⟩
  · rw [if_pos hmagic]
    exact .inr ⟨_, .magic hmagic, rfl⟩

theorem EnterFails.not_enterable (h : EnterFails memory stop) : ¬ Enterable memory := by
  intro henter
  cases h with
  | magic h => exact h henter.magic
  | mapsPast _ h => exact henter.maps h
  | clears _ ha h => exact h.elim (fun hout => hout (henter.words _ ha).1) (henter.words _ ha).2

theorem enterKernel_of (h : Enterable memory) : enterKernel memory = .ok (loadedFrom memory) := by
  rcases enterKernel_cases memory with ⟨-, hok⟩ | ⟨stop, hfails, -⟩
  · exact hok
  · exact absurd h hfails.not_enterable

theorem enterKernel_error (h : enterKernel memory = .error stop) : EnterFails memory stop := by
  rcases enterKernel_cases memory with ⟨-, hok⟩ | ⟨stop', hfails, herror⟩
  · cases h.symm.trans hok
  · cases h.symm.trans herror
    exact hfails

/-! ## The read -/

/-- The first `n` bytes of a chain, as they are read, over what is in memory. -/
def overlay (fs : Fat32Fs) (start : UInt32) (n : ℕ) (memory : ℕ → UInt8) (p : ℕ) : UInt8 :=
  if p < n then (codedByte fs start p).getD 0 else memory p

/-- A read of all of a file that got `m` bytes and returned `r`. -/
structure WholeRead (fs : Fat32Fs) (start size : UInt32) (m : ℕ) (r : Int32) : Prop where
  le : m ≤ size.toNat
  reads : ∀ j < m, (codedByte fs start j).isSome
  full : m = size.toNat → r = size.toInt32
  unread : m < size.toNat → codedByte fs start m = none
  short : m < size.toNat → r < 0 ∨ 0 < m ∧ r = (UInt32.ofNat m).toInt32

theorem fat32Read_whole (hbps : file.fs.bytesPerSector = 512)
    (hspc : 1 ≤ file.fs.sectorsPerCluster.toNat) (hoff : file.fileOffset = 0)
    (memory : ℕ → UInt8) : ∃ m r st, (fat32Read file memory (fat32Size file)).val = .ok (r, st) ∧
      WholeRead file.fs file.startCluster file.fileSize m r ∧ st.file.fileOffset.toNat = m ∧
      st.buffer = overlay file.fs file.startCluster m memory := by
  obtain ⟨m, r, st, hval, hres⟩ := fat32Read_result hbps hspc memory (fat32Size file)
  have hzero : file.fileOffset.toNat = 0 := by rw [hoff]; rfl
  have hall : readSize file (fat32Size file) = file.fileSize.toNat := by
    rw [readSize, hoff]
    exact Nat.min_self _
  have hbytes := hres.bytes
  have hunread := hres.unread
  have hfull := hres.full
  have hshort := @ReadResult.short _ _ _ _ _ _ hres
  simp only [hzero, Nat.zero_add, hall] at hbytes hunread hfull hshort
  refine ⟨m, r, st, hval, ⟨hall ▸ hres.le, fun j hj => by rw [hbytes j hj]; rfl, fun hm => ?_,
    hunread, hshort⟩, by rw [hres.fileOffset, hzero, Nat.zero_add], ?_⟩
  · rw [hfull hm, hm, UInt32.ofNat_toNat]
  · funext p
    unfold overlay
    split_ifs with hp
    · rw [hbytes p hp, Option.getD_some]
    · exact hres.outside p (Nat.not_lt.1 hp)

/-- The read returns the size: it has got all of the file, or the size is the code of the error. -/
theorem WholeRead.passed {start size : UInt32} {m : ℕ}
    (h : WholeRead fs start size m size.toInt32) :
    m = size.toNat ∨ size.toInt32 < 0 ∧ m < size.toNat := by
  rcases h.le.eq_or_lt with hm | hlt
  · exact .inl hm
  rcases h.short hlt with hneg | ⟨-, hcount⟩
  · exact .inr ⟨hneg, hlt⟩
  · have hsize : size = UInt32.ofNat m := congrArg Int32.toUInt32 hcount
    have hnat := UInt32.toNat_ofNat_lt (hlt.trans size.toNat_lt)
    rw [← hsize] at hnat
    exact absurd hnat.symm hlt.ne

theorem WholeRead.all {start size : UInt32} {m : ℕ} {r : Int32} (h : WholeRead fs start size m r)
    (hreads : ∀ j < size.toNat, (codedByte fs start j).isSome) : m = size.toNat := by
  refine h.le.eq_of_not_lt fun hlt => ?_
  have hsome := hreads m hlt
  rw [h.unread hlt] at hsome
  cases hsome

/-! ## A load -/

theorem kept_kernelPath : keptComponents kernelPath =
    [[0x62, 0x6F, 0x6F, 0x74]] ++
      [[0x6B, 0x65, 0x72, 0x6E, 0x65, 0x6C, 0x2E, 0x62, 0x69, 0x6E]] := by
  decide

/-- The memory with what the mount has left in its buffer. -/
def mountedMemory (disk : Fat32Diskio) (memory : ℕ → UInt8) : ℕ → UInt8 :=
  storeSectorMemory memory (fat32MountMemory disk (sectorMemory memory))

/-- What a load comes to when its read has got `m` bytes of a file and returned `res`. -/
def afterRead (disk : Fat32Diskio) (memory : ℕ → UInt8) (fs : Fat32Fs) (e : Fat32DirectoryEntry)
    (m : ℕ) (res : Int32) : Except BootStop (ℕ → UInt8) :=
  if memPhysSize.toNat < m then .error .readsPast
  else if res ≠ e.fileSize.toInt32 then .error (.panic (.read res))
  else .ok (overlay fs e.startCluster m (mountedMemory disk memory))

theorem readKernel_of_error {code : Int32}
    (hmount : fat32Mount disk (sectorMemory memory) = .error code) :
    (readKernel fuel disk file prior memory).val = .ok (.error (.panic (.mount code))) := by
  unfold readKernel
  rw [hmount]
  rfl

section

variable (hmount : fat32Mount disk (sectorMemory memory) = .mounted fs)
include hmount

theorem readKernel_of_failed {code : Int32} (hcode : code ≠ fat32Success)
    (hopen : (fat32Open fuel fs kernelPath file prior).val = .ok (code, file')) :
    (readKernel fuel disk file prior memory).val = .ok (.error (.panic (.open code))) := by
  unfold readKernel
  simp only [hmount]
  rw [Traced.val_bind_of_ok hopen]
  simp only []
  rw [if_pos hcode]
  rfl

theorem readKernel_of_opened {dir : UInt32} {name : List UInt8} {e : Fat32DirectoryEntry}
    (hopen : (fat32Open fuel fs kernelPath file prior).val =
      .ok (fat32Success, openedFile fs file dir name e)) :
    ∃ m res, WholeRead fs e.startCluster e.fileSize m res ∧
      (readKernel fuel disk file prior memory).val = .ok (afterRead disk memory fs e m res) := by
  obtain ⟨hbps, hspc⟩ := sizes_of_mounted hmount
  obtain ⟨m, res, st, hval, hwhole, hoff, hbuffer⟩ :=
    @fat32Read_whole (openedFile fs file dir name e) hbps hspc rfl (mountedMemory disk memory)
  refine ⟨m, res, hwhole, ?_⟩
  unfold readKernel
  simp only [hmount]
  rw [Traced.val_bind_of_ok hopen]
  simp only []
  rw [if_neg (not_not.2 rfl)]
  change ((fat32Read _ (mountedMemory disk memory) _) >>= _).val = _
  rw [Traced.val_bind_of_ok hval]
  have hsize : fat32Size (openedFile fs file dir name e) = e.fileSize.toInt32 := rfl
  simp only [hoff, hbuffer, hsize, afterRead]
  split_ifs
  · rfl
  · rfl
  · rfl

end

theorem readKernel_cases {out : Except BootStop (ℕ → UInt8)}
    (h : (readKernel fuel disk file prior memory).val = .ok out) :
    (∃ code, fat32Mount disk (sectorMemory memory) = .error code ∧
      out = .error (.panic (.mount code))) ∨
    ∃ fs, fat32Mount disk (sectorMemory memory) = .mounted fs ∧
      ((∃ code file', code ≠ fat32Success ∧
          (fat32Open fuel fs kernelPath file prior).val = .ok (code, file') ∧
          out = .error (.panic (.open code))) ∨
        ∃ e m res, LeadsTo fs kernelPath e ∧ WholeRead fs e.startCluster e.fileSize m res ∧
          out = afterRead disk memory fs e m res) := by
  rcases hmount : fat32Mount disk (sectorMemory memory) with code | _ | fs
  · exact .inl ⟨code, rfl, (Except.ok.inj ((readKernel_of_error hmount).symm.trans h)).symm⟩
  · unfold readKernel at h
    rw [hmount] at h
    cases h
  refine .inr ⟨fs, rfl, ?_⟩
  obtain ⟨⟨r, file'⟩, hopen, -⟩ : ∃ r,
      (fat32Open fuel fs kernelPath file prior).val = .ok r ∧ True := by
    unfold readKernel at h
    simp only [hmount] at h
    obtain ⟨r, hr, -⟩ := Traced.val_bind_eq_ok.1 h
    exact ⟨r, hr, trivial⟩
  by_cases hr : r = fat32Success
  · subst hr
    obtain ⟨-, es, e, htrail, hdir, rfl⟩ := trail_of_fat32Open fs kept_kernelPath hopen
    rw [← kept_kernelPath] at htrail
    obtain ⟨m, res, hwhole, hval⟩ := readKernel_of_opened hmount hopen
    exact .inr ⟨e, m, res, ⟨hdir, es, htrail⟩, hwhole, Except.ok.inj (h.symm.trans hval)⟩
  · exact .inl ⟨r, file', hr, hopen,
      Except.ok.inj (h.symm.trans (readKernel_of_failed hmount hr hopen))⟩

/-- The file the searches lead to, of which `m` bytes are read and taken for all of it. They are, or
its size is the code of the error at the first byte that cannot be had. -/
structure TakenFile (disk : Fat32Diskio) (memory : ℕ → UInt8) (fs : Fat32Fs)
    (e : Fat32DirectoryEntry) (m : ℕ) : Prop where
  mounted : fat32Mount disk (sectorMemory memory) = .mounted fs
  leads : LeadsTo fs kernelPath e
  inDram : m ≤ memPhysSize.toNat
  reads : ∀ j < m, (codedByte fs e.startCluster j).isSome
  whole : m = e.fileSize.toNat ∨
    e.fileSize.toInt32 < 0 ∧ m < e.fileSize.toNat ∧ codedByte fs e.startCluster m = none

theorem readKernel_ok (h : (readKernel fuel disk file prior memory).val = .ok (.ok memory')) :
    ∃ fs e m, TakenFile disk memory fs e m ∧
      memory' = overlay fs e.startCluster m (mountedMemory disk memory) := by
  rcases readKernel_cases h with ⟨code, -, hout⟩ | ⟨fs, hmount, hrest⟩
  · cases hout
  rcases hrest with ⟨code, file', -, -, hout⟩ | ⟨e, m, res, hleads, hwhole, hout⟩
  · cases hout
  unfold afterRead at hout
  split_ifs at hout with hpast hres
  cases hout
  rw [not_not] at hres
  subst hres
  refine ⟨fs, e, m, ⟨hmount, hleads, Nat.not_lt.1 hpast, hwhole.reads, ?_⟩, rfl⟩
  exact hwhole.passed.imp_right fun h => ⟨h.1, h.2, hwhole.unread h.2⟩

/-- What a boot has in memory when it has read `m` bytes of the kernel: what the test leaves, the
mount's buffer, and the file over both. -/
def bootMemory (disk : Fat32Diskio) (memory : ℕ → UInt8) (fs : Fat32Fs)
    (e : Fat32DirectoryEntry) (m : ℕ) : ℕ → UInt8 :=
  overlay fs e.startCluster m (mountedMemory disk (testedMemory memory))

/-- With enough fuel a boot gets to the check, if all of the file can be read and fits into the
DRAM. -/
theorem bootloaderEntry_of_leads {e : Fat32DirectoryEntry}
    (hmount : fat32Mount disk (sectorMemory memory) = .mounted fs)
    (hleads : LeadsTo fs kernelPath e)
    (hsize : e.fileSize.toNat ≤ memPhysSize.toNat)
    (hread : ∀ j < e.fileSize.toNat, (codedByte fs e.startCluster j).isSome) :
    ∃ k, ∀ fuel ≥ k, ∀ file prior, (bootloaderEntry fuel disk file prior memory).val =
      .ok (enterKernel (bootMemory disk memory fs e e.fileSize.toNat)) := by
  obtain ⟨hdir, es, htrail⟩ := hleads
  rw [kept_kernelPath] at htrail
  rw [← sectorMemory_tested] at hmount
  obtain ⟨k, hk⟩ :=
    fat32Open_of_trail fs kept_kernelPath (isInitialized_of_mounted hmount) htrail hdir
  refine ⟨k, fun fuel hfuel file prior => ?_⟩
  obtain ⟨m, res, hwhole, hval⟩ := readKernel_of_opened hmount (hk fuel hfuel file prior)
  have hm := hwhole.all hread
  rw [afterRead, if_neg (by omega), if_neg (not_not.2 (hwhole.full hm)), hm] at hval
  rw [bootloaderEntry, Traced.val_bind_of_ok hval]
  rfl

theorem bootloaderEntry_cases {out : Except BootStop Loaded}
    (h : (bootloaderEntry fuel disk file prior memory).val = .ok out) :
    (∃ stop, (readKernel fuel disk file prior (testedMemory memory)).val = .ok (.error stop) ∧
      out = .error stop) ∨
    ∃ fs e m, TakenFile disk memory fs e m ∧
      out = enterKernel (bootMemory disk memory fs e m) := by
  obtain ⟨r, hread, h⟩ := Traced.val_bind_eq_ok.1 h
  rcases r with stop | memory'
  · exact .inl ⟨stop, hread, (Except.ok.inj h).symm⟩
  · obtain ⟨fs, e, m, htaken, rfl⟩ := readKernel_ok hread
    refine .inr ⟨fs, e, m, { htaken with mounted := ?_ }, (Except.ok.inj h).symm⟩
    rw [← sectorMemory_tested]
    exact htaken.mounted

end BeagleKernel.Boot
