import BeagleKernel.Boot.Card
import BeagleKernel.Lib.Masks
import BeagleKernel.Proofs.Mmc

/-!
# What is read from a card

A command is written while no other is under way and with a clear status word, so every bit the
driver then sees was set for this command. The word is never empty while the data is waited for,
since the bit of the response stays, and a ready buffer is that of the sector asked for.
-/

namespace BeagleKernel.Boot

open Device Fat32

variable {card : Card} {c c' : Controller} {sector v w : UInt32} {n : ℕ}

/-! ## The accesses -/

theorem access_readStat : card.device.Access (.read sdStat v) c c' ↔ v = c.stat ∧ c' = c.polled ∧
    ∀ sector polls, c.phase = .response sector polls → card.late polls := Iff.rfl

theorem access_readPstate : card.device.Access (.read sdPstate v) c c' ↔ c' = c ∧
    ∀ sector, c.phase = .command sector → v &&& sdPstateCc ≠ sdPstateCAllowed := Iff.rfl

theorem access_readRsp10 : card.device.Access (.read sdRsp10 v) c c' ↔ c' = c := Iff.rfl

theorem access_readCon : card.device.Access (.read sdCon v) c c' ↔ c' = c := Iff.rfl

theorem access_writeStat :
    card.device.Access (.write sdStat v) c c' ↔ c' = { c with stat := c.stat &&& ~~~v } := Iff.rfl

theorem access_writeArg :
    card.device.Access (.write sdArg v) c c' ↔ c' = { c with arg := v } := Iff.rfl

theorem access_writeCon : card.device.Access (.write sdCon v) c c' ↔ c' = c := Iff.rfl

theorem access_writeCmd (hidle : c.phase = .idle) :
    card.device.Access (.write sdCmd readCommand) c c' ↔ c' = c.goTo (.command c.arg) :=
  ⟨fun h => h hidle rfl, fun h _ _ => h⟩

theorem access_readData (h : c.phase = .transfer sector n) :
    card.device.Access (.read sdData v) c c' ↔
      v = card.word sector n ∧ c' = c.goTo (Card.next sector n) := by
  obtain ⟨phase, stat, arg⟩ := c
  obtain rfl : phase = .transfer sector n := h
  exact Iff.rfl

/-! ## What the driver knows -/

def Idle (c : Controller) : Prop := c.phase = .idle

/-- Nothing has happened that the driver looks for. -/
def Clear (c : Controller) : Prop := Idle c ∧ c.stat &&& watchedBits = 0

/-- The command for the sector is under way, or has failed. -/
def Asked (card : Card) (sector : UInt32) (c : Controller) : Prop :=
  match c.phase with
  | .command s => s = sector ∧ c.stat &&& watchedBits = 0
  | .response s _ => s = sector ∧ c.stat &&& sdStatCc = sdStatCc ∧ c.stat &&& sdStatBrr = 0 ∧
      c.stat &&& sdStatErrors = 0
  | .transfer s n => s = sector ∧ n = 0 ∧ c.stat &&& sdStatCc = sdStatCc ∧
      c.stat &&& sdStatBrr = sdStatBrr ∧ c.stat &&& sdStatErrors = 0
  | .idle => card.fails ∧ c.stat &&& sdStatBrr = 0 ∧ c.stat &&& sdStatErrors ≠ 0

/-- The response is there, or the command has failed. -/
def Answered (card : Card) (sector : UInt32) (c : Controller) : Prop :=
  Asked card sector c ∧ ∀ s, c.phase ≠ .command s

/-- The controller has been looked at `k` times since. -/
def Awaited (card : Card) (sector : UInt32) (k : ℕ) (c : Controller) : Prop :=
  Answered card sector c ∧ (∀ s polls, c.phase = .response s polls → k ≤ polls) ∧
    (0 < k → ∃ m, k ≤ m + 1 ∧ card.late m)

/-- The data is there. -/
def Ready (sector : UInt32) (c : Controller) : Prop := c.phase = .transfer sector 0

theorem watchedBits_eq_zero : v &&& watchedBits = 0 ↔
    v &&& sdStatCc = 0 ∧ v &&& sdStatBrr = 0 ∧ v &&& sdStatErrors = 0 := by
  rw [watchedBits, and_or_eq_zero, and_or_eq_zero, and_assoc]

theorem keeps_idle : card.device.Keeps Idle := by
  rintro c c' h (⟨hc⟩ | ⟨hc⟩ | ⟨-, hbusy, -, -⟩ | -)
  · exact nomatch h.symm.trans hc
  · exact nomatch h.symm.trans hc
  · rfl
  · exact h

theorem keeps_clear : card.device.Keeps Clear := by
  rintro c c' ⟨h, hstat⟩ (⟨hc⟩ | ⟨hc⟩ | ⟨-, ⟨_, hc | ⟨_, hc⟩⟩, -, -⟩ | ⟨hbits⟩)
  · exact nomatch h.symm.trans hc
  · exact nomatch h.symm.trans hc
  · exact nomatch h.symm.trans hc
  · exact nomatch h.symm.trans hc
  · exact ⟨h, (set_and_of_disjoint hbits).trans hstat⟩

section

variable {s : UInt32} {polls : ℕ}

theorem asked_command (h : c.phase = .command s) :
    Asked card sector c ↔ s = sector ∧ c.stat &&& watchedBits = 0 := by
  simp only [Asked, h]

theorem asked_response (h : c.phase = .response s polls) :
    Asked card sector c ↔ s = sector ∧ c.stat &&& sdStatCc = sdStatCc ∧
      c.stat &&& sdStatBrr = 0 ∧ c.stat &&& sdStatErrors = 0 := by
  simp only [Asked, h]

theorem asked_transfer (h : c.phase = .transfer s n) :
    Asked card sector c ↔ s = sector ∧ n = 0 ∧ c.stat &&& sdStatCc = sdStatCc ∧
      c.stat &&& sdStatBrr = sdStatBrr ∧ c.stat &&& sdStatErrors = 0 := by
  simp only [Asked, h]

theorem asked_idle (h : c.phase = .idle) : Asked card sector c ↔
    card.fails ∧ c.stat &&& sdStatBrr = 0 ∧ c.stat &&& sdStatErrors ≠ 0 := by
  simp only [Asked, h]

end

/-- Bits the driver does not look at change nothing. -/
theorem Asked.other {bits : UInt32} (h : Asked card sector c) (hbits : bits &&& watchedBits = 0) :
    Asked card sector (c.raise bits) := by
  obtain ⟨hcc, hbrr, herr⟩ := watchedBits_eq_zero.1 hbits
  have hphase : (c.raise bits).phase = c.phase := rfl
  have hstat : ∀ {m : UInt32}, bits &&& m = 0 → (c.raise bits).stat &&& m = c.stat &&& m :=
    fun hm => set_and_of_disjoint hm
  rcases hc : c.phase with _ | s | ⟨s, polls⟩ | ⟨s, n⟩
  · rw [asked_idle hc] at h
    rwa [asked_idle (hphase.trans hc), hstat hbrr, hstat herr]
  · rw [asked_command hc] at h
    rwa [asked_command (hphase.trans hc), hstat hbits]
  · rw [asked_response hc] at h
    rwa [asked_response (hphase.trans hc), hstat hcc, hstat hbrr, hstat herr]
  · rw [asked_transfer hc] at h
    rwa [asked_transfer (hphase.trans hc), hstat hcc, hstat hbrr, hstat herr]

theorem keeps_asked : card.device.Keeps (Asked card sector) := by
  rintro c c' h (⟨hc⟩ | ⟨hc⟩ | ⟨hfails, hbusy, herror, hbits⟩ | ⟨hbits⟩)
  · obtain ⟨rfl, hstat⟩ := (asked_command hc).1 h
    obtain ⟨-, hbrr, herr⟩ := watchedBits_eq_zero.1 hstat
    refine (asked_response rfl).2 ⟨rfl, set_and_self, ?_, ?_⟩
    · exact (set_and_of_disjoint (by decide)).trans hbrr
    · exact (set_and_of_disjoint (by decide)).trans herr
  · obtain ⟨rfl, hcc, -, herr⟩ := (asked_response hc).1 h
    refine (asked_transfer rfl).2 ⟨rfl, rfl, ?_, set_and_self, ?_⟩
    · exact (set_and_of_disjoint (by decide)).trans hcc
    · exact (set_and_of_disjoint (by decide)).trans herr
  · -- neither phase has an error or data yet
    have hstat : c.stat &&& sdStatBrr = 0 ∧ c.stat &&& sdStatErrors = 0 := by
      obtain ⟨s, hc | ⟨polls, hc⟩⟩ := hbusy
      · exact (watchedBits_eq_zero.1 ((asked_command hc).1 h).2).2
      · exact ((asked_response hc).1 h).2.2
    refine (asked_idle rfl).2 ⟨hfails, ?_, ?_⟩
    · exact (set_and_of_disjoint (and_or_eq_zero.1 hbits).2).trans hstat.1
    · show (c.stat ||| _) &&& sdStatErrors ≠ 0
      rwa [UInt32.or_and_distrib, hstat.2, UInt32.zero_or]
  · exact h.other hbits

theorem keeps_answered : card.device.Keeps (Answered card sector) := by
  rintro c c' ⟨h, hnot⟩ hmove
  refine ⟨keeps_asked _ _ h hmove, ?_⟩
  rcases hmove with ⟨hc⟩ | ⟨hc⟩ | ⟨-, -, -, -⟩ | -
  · exact absurd hc (hnot _)
  · exact fun _ => nofun
  · exact fun _ => nofun
  · exact hnot

theorem keeps_awaited {k : ℕ} : card.device.Keeps (Awaited card sector k) := by
  rintro c c' ⟨h, hpolls, hlate⟩ hmove
  refine ⟨keeps_answered _ _ h hmove, ?_, hlate⟩
  rcases hmove with ⟨hc⟩ | ⟨hc⟩ | ⟨-, -, -, -⟩ | -
  · exact absurd hc (h.2 _)
  · exact fun _ _ => nofun
  · exact fun _ _ => nofun
  · exact hpolls

theorem keeps_transfer : card.device.Keeps fun c => c.phase = .transfer sector n := by
  rintro c c' h (⟨hc⟩ | ⟨hc⟩ | ⟨-, ⟨_, hc | ⟨_, hc⟩⟩, -, -⟩ | -)
  · exact nomatch h.symm.trans hc
  · exact nomatch h.symm.trans hc
  · exact nomatch h.symm.trans hc
  · exact nomatch h.symm.trans hc
  · exact h

/-! ## The command -/

section

variable {P : Controller → Prop} {offset mask : UInt32} {Q : UInt32 → Controller → Prop}

theorem triple_readMasked (hP : card.device.Keeps P)
    (h : ∀ v c c', P c → card.device.Access (.read offset v) c c' → Q (v &&& mask) c') :
    card.device.Triple P (reg32ReadMasked offset mask) Q :=
  (Triple.read hP h : card.device.Triple P (reg32Read offset) fun v c => Q (v &&& mask) c).bind
    fun _ => .pure fun _ hQ => hQ

end

theorem waitAllowed_idle : card.device.Triple Idle waitAllowed fun _ => Idle := by
  have hread : card.device.Triple Idle (reg32ReadMasked sdPstate sdPstateCc) fun _ => Idle :=
    triple_readMasked keeps_idle fun v c c' h hacc => by
      rwa [(access_readPstate.1 hacc).1]
  refine .loop (hread.bind fun v => ?_)
  split_ifs
  · exact .pure fun _ h => h
  · exact .pure fun _ h => h

theorem keeps_clear_arg : card.device.Keeps fun c => Clear c ∧ c.arg = sector := by
  rintro c c' ⟨h, harg⟩ hmove
  refine ⟨keeps_clear _ _ h hmove, ?_⟩
  rcases hmove with - | - | - | -
  · exact harg
  · exact harg
  · exact harg
  · exact harg

/-- The command is written while no other is under way, with a clear status word. -/
theorem writeCommand_asked : card.device.Triple Idle (writeCommand cmd17 sector sdCmd48bitrsp)
    fun _ => Asked card sector := by
  refine waitAllowed_idle.bind fun _ => ?_
  have hstat : card.device.Triple Idle (reg32Write sdStat sdStatClear) fun _ => Clear :=
    .emit keeps_idle fun c c' h hacc => by
      rw [access_writeStat.1 hacc]
      have hnone : ~~~sdStatClear = 0 := by decide
      refine ⟨h, ?_⟩
      show c.stat &&& ~~~sdStatClear &&& watchedBits = 0
      rw [hnone, UInt32.and_zero, UInt32.zero_and]
  have harg : card.device.Triple Clear (reg32Write sdArg sector)
      fun _ c => Clear c ∧ c.arg = sector :=
    .emit keeps_clear fun c c' h hacc => by
      rw [access_writeArg.1 hacc]
      exact ⟨h, rfl⟩
  refine hstat.bind fun _ => harg.bind fun _ => .emit keeps_clear_arg fun c c' h hacc => ?_
  obtain ⟨⟨hidle, hclear⟩, rfl⟩ := h
  rw [(access_writeCmd hidle).1 hacc]
  exact (asked_command rfl).2 ⟨rfl, hclear⟩

theorem polled_of_not_response (h : ∀ s polls, c.phase ≠ .response s polls) : c.polled = c := by
  unfold Controller.polled
  split
  · exact absurd ‹_› (h _ _)
  · rfl

theorem Asked.polled (h : Asked card sector c) : Asked card sector c.polled := by
  rcases hc : c.phase with _ | s | ⟨s, polls⟩ | ⟨s, n⟩
  case response =>
    have hphase : c.polled = c.goTo (.response s (polls + 1)) := by
      simp only [Controller.polled, hc]
    rw [hphase, asked_response rfl]
    exact (asked_response hc).1 h
  all_goals
    rwa [polled_of_not_response fun _ _ => by rw [hc]; nofun]

theorem Answered.polled (h : Answered card sector c) : Answered card sector c.polled := by
  refine ⟨h.1.polled, fun s => ?_⟩
  rcases hc : c.phase with _ | s' | ⟨s', polls⟩ | ⟨s', n⟩
  case command => exact absurd hc (h.2 s')
  case response =>
    simp only [Controller.polled, hc]
    exact nofun
  all_goals
    rw [polled_of_not_response fun _ _ => by rw [hc]; nofun, hc]
    exact nofun

/-- A response bit in the status word is that of the command. -/
theorem Asked.answered (h : Asked card sector c) (hcc : c.stat &&& sdStatCc = sdStatCc) :
    Answered card sector c := by
  refine ⟨h, fun s hc => ?_⟩
  have hzero := (watchedBits_eq_zero.1 ((asked_command hc).1 h).2).1
  exact absurd (hcc.symm.trans hzero) (by decide)

/-- An error bit in the status word is that of a card that failed. -/
theorem Asked.fails (h : Asked card sector c) (herr : c.stat &&& sdStatErrors ≠ 0) :
    card.fails := by
  rcases hc : c.phase with _ | s | ⟨s, polls⟩ | ⟨s, n⟩
  · exact ((asked_idle hc).1 h).1
  · exact absurd (watchedBits_eq_zero.1 ((asked_command hc).1 h).2).2.2 herr
  · exact absurd ((asked_response hc).1 h).2.2.2 herr
  · exact absurd ((asked_transfer hc).1 h).2.2.2.2 herr

theorem errors_of_cto (h : v &&& sdStatCto = sdStatCto) : v &&& sdStatErrors ≠ 0 := by
  intro hzero
  have hcto : sdStatErrors &&& sdStatCto = sdStatCto := by decide
  have hv : v &&& sdStatCto = 0 := by
    rw [← hcto, ← UInt32.and_assoc, hzero, UInt32.zero_and]
  exact absurd (h.symm.trans hv) (by decide)

theorem waitComplete_answered : card.device.Triple (Asked card sector) waitComplete
    fun r c => (r = cc ∧ Answered card sector c) ∨ (r ≠ cc ∧ card.fails) := by
  refine .loop ?_
  have hresponse : card.device.Triple (Asked card sector) (reg32ReadMasked sdStat sdStatCc)
      fun v c => Asked card sector c ∧ (v = sdStatCc → Answered card sector c) :=
    triple_readMasked keeps_asked fun v c c' h hacc => by
      obtain ⟨rfl, rfl, -⟩ := access_readStat.1 hacc
      exact ⟨h.polled, fun hcc => (h.answered hcc).polled⟩
  have htimeout : card.device.Triple (Asked card sector) (reg32ReadMasked sdStat sdStatCto)
      fun v c => Asked card sector c ∧ (v = sdStatCto → card.fails) :=
    triple_readMasked keeps_asked fun v c c' h hacc => by
      obtain ⟨rfl, rfl, -⟩ := access_readStat.1 hacc
      exact ⟨h.polled, fun hcto => h.fails (errors_of_cto hcto)⟩
  refine hresponse.bind fun v => ?_
  split_ifs with hcc
  · exact .pure fun c h => .inl ⟨rfl, h.2 hcc⟩
  refine (htimeout.pre fun c h => h.1).bind fun v => ?_
  split_ifs with hcto
  · -- the driver gives up, whatever the status word is then
    have hgive : card.device.Triple (fun _ => card.fails) (reg32Write sdStat sdStatClear)
        fun _ _ => card.fails := .emit (fun _ _ h _ => h) fun _ _ h _ => h
    exact (hgive.pre fun c h => h.2 hcto).bind fun _ =>
      .pure fun c h => .inr ⟨(by decide : ctoError ≠ cc), h⟩
  · exact .pure fun c h => h.1

/-- A command that completes has its response from the card, and one that does not, a card that
fails. -/
theorem sendCommand_answered : card.device.Triple Idle (sendCommand cmd17 sector sdCmd48bitrsp)
    fun r c => (r.1 = cc ∧ Answered card sector c) ∨ (r.1 ≠ cc ∧ card.fails) := by
  refine writeCommand_asked.bind fun _ => waitComplete_answered.bind fun r => ?_
  split_ifs with hr hcmd
  · exact .pure fun c h => .inr ⟨(by decide : ctoError ≠ cc), (h.resolve_left fun h => hr h.1).2⟩
  · exact absurd hcmd (by decide)
  · have hread : card.device.Triple (Answered card sector) (reg32Read sdRsp10)
        fun _ => Answered card sector :=
      .read keeps_answered fun v c c' h hacc => by rwa [access_readRsp10.1 hacc]
    refine Triple.pre ?_ fun c h => (h.resolve_right fun h => hr h.1).2
    have hone : cmd17 ∈ oneWordCommands := by decide
    rw [readResponse, if_pos hone]
    exact hread.bind fun _ => .pure fun c h => .inl ⟨rfl, h⟩

/-! ## The data -/

theorem checkStat_of_ready (h : v &&& sdStatBrr = sdStatBrr) :
    checkStat v = some .bufferReady := if_pos (by rw [h]; decide)

theorem checkStat_of_error (hbrr : v &&& sdStatBrr = 0) (herr : v &&& sdStatErrors ≠ 0) :
    ∃ e, checkStat v = some e ∧ e.breaks = false := by
  have hv : v ≠ 0 := by
    rintro rfl
    exact herr (UInt32.zero_and)
  rw [checkStat, if_neg (not_not.2 hbrr), if_neg hv]
  split_ifs with h20 h78
  · exact ⟨_, rfl, rfl⟩
  · exact ⟨_, rfl, rfl⟩
  · exact absurd (and_or_eq_zero.2 ⟨not_not.1 h20, not_not.1 h78⟩) herr

/-- The bit of the response keeps the word from being empty. -/
theorem checkStat_of_response (hcc : v &&& sdStatCc = sdStatCc) (hbrr : v &&& sdStatBrr = 0)
    (herr : v &&& sdStatErrors = 0) : checkStat v = none := by
  have hv : v ≠ 0 := by
    rintro rfl
    exact absurd (UInt32.zero_and.symm.trans hcc) (by decide)
  obtain ⟨h20, h78⟩ := and_or_eq_zero.1 herr
  rw [checkStat, if_neg (not_not.2 hbrr), if_neg hv, if_neg (not_not.2 h20), if_neg (not_not.2 h78)]

/-- How the wait ends: with the data of the sector, or for a card that fails or is late. -/
theorem waitData_awaited : ∀ (n k : ℕ), card.device.Triple (Awaited card sector k) (waitData n)
    fun e c => (e = .bufferReady ∧ Ready sector c) ∨
      (e.breaks = false ∧ (card.fails ∨ k + n = 0 ∨ ∃ m, k + n ≤ m + 1 ∧ card.late m))
  | 0, k => .pure fun c h => .inr ⟨rfl, .inr (by
      rcases Nat.eq_zero_or_pos k with rfl | hk
      · exact .inl rfl
      · exact .inr (h.2.2 hk))⟩
  | n + 1, k => by
    have hread : card.device.Triple (Awaited card sector k) (reg32Read sdStat) fun v c =>
        match checkStat v with
        | none => Awaited card sector (k + 1) c
        | some e => (e = .bufferReady ∧ Ready sector c) ∨ (e.breaks = false ∧ card.fails) := by
      refine .read keeps_awaited fun v c c' h hacc => ?_
      obtain ⟨rfl, rfl, hlate⟩ := access_readStat.1 hacc
      obtain ⟨hasked, hpolls, -⟩ := h
      rcases hc : c.phase with _ | s | ⟨s, polls⟩ | ⟨s, n⟩
      · obtain ⟨hfails, hbrr, herr⟩ := (asked_idle hc).1 hasked.1
        obtain ⟨e, he, hbreaks⟩ := checkStat_of_error hbrr herr
        rw [he]
        exact .inr ⟨hbreaks, hfails⟩
      · exact absurd hc (hasked.2 s)
      · obtain ⟨rfl, hcc, hbrr, herr⟩ := (asked_response hc).1 hasked.1
        rw [checkStat_of_response hcc hbrr herr]
        have hk : k ≤ polls := hpolls _ _ hc
        refine ⟨hasked.polled, fun s' polls' h => ?_, fun _ => ⟨polls, by omega, hlate _ _ hc⟩⟩
        simp only [Controller.polled, hc] at h
        cases h
        exact Nat.succ_le_succ hk
      · obtain ⟨rfl, rfl, -, hbrr, -⟩ := (asked_transfer hc).1 hasked.1
        rw [polled_of_not_response fun _ _ => by rw [hc]; nofun, checkStat_of_ready hbrr]
        exact .inl ⟨rfl, hc⟩
    refine hread.bind fun v => ?_
    rcases checkStat v with _ | e
    · refine (waitData_awaited n (k + 1)).post fun e c h => h.imp_right fun h => ⟨h.1, ?_⟩
      rw [Nat.add_right_comm, Nat.add_assoc] at h
      exact h.2
    · exact .pure fun c h => h.imp_right fun h => ⟨h.1, .inl h.2⟩

theorem storeWord_above {i j : ℕ} (buffer : ℕ → UInt8) (word : UInt32) (h : (i + 1) * 4 ≤ j) :
    storeWord buffer i word j = buffer j := by
  simp only [storeWord]
  rw [Function.update_of_ne (by omega), Function.update_of_ne (by omega),
    Function.update_of_ne (by omega), Function.update_of_ne (by omega)]

/-- The first `n` words of the sector are in the buffer, and it is otherwise as it was. -/
def Filled (s : Sector) (buffer : ℕ → UInt8) (n : ℕ) (buffer' : ℕ → UInt8) : Prop :=
  ∀ i, buffer' i = if i < n * 4 then s.byte i else buffer i

theorem Filled.word {s : Sector} {buffer buffer' : ℕ → UInt8} (h : Filled s buffer n buffer') :
    Filled s buffer (n + 1) (storeWord buffer' n (s.le32 (4 * n))) := by
  intro i
  rcases Nat.lt_or_ge i (n * 4) with hlt | hge
  · rw [storeWord_below _ _ hlt, h i, if_pos hlt, if_pos (by omega)]
  rcases Nat.lt_or_ge i ((n + 1) * 4) with hlt | hge'
  · rw [if_pos hlt]
    have hbytes := storeWord_bytes buffer' n (s.le32 (4 * n))
    rw [Sector.le32, le32Bytes_encode] at hbytes
    have hi := hbytes (i - n * 4) (by simp only [List.length_cons, List.length_nil]; omega)
    rw [Nat.add_sub_cancel' hge] at hi
    rw [Sector.le32, hi]
    obtain rfl | rfl | rfl | rfl : i = 4 * n ∨ i = 4 * n + 1 ∨ i = 4 * n + 2 ∨ i = 4 * n + 3 := by
      omega
    all_goals simp [show 4 * n - n * 4 = 0 by omega, show 4 * n + 1 - n * 4 = 1 by omega,
      show 4 * n + 2 - n * 4 = 2 by omega, show 4 * n + 3 - n * 4 = 3 by omega]
  · rw [storeWord_above _ _ hge', h i, if_neg (by omega), if_neg (by omega)]

/-- After `n` words of a transfer. -/
def Transferred (sector : UInt32) (n : ℕ) (c : Controller) : Prop :=
  c.phase = if n = sectorWords then .idle else .transfer sector n

theorem readData_filled (buffer : ℕ → UInt8) : ∀ {n : ℕ}, n ≤ sectorWords →
    card.device.Triple (Ready sector) (readData buffer n) fun buffer' c =>
      Transferred sector n c ∧ Filled (card.sector sector) buffer n buffer'
  | 0, _ => .pure fun c h => ⟨h, fun i => by rw [if_neg (by omega)]⟩
  | n + 1, hn => by
    refine (readData_filled buffer (show n ≤ sectorWords by omega)).bind fun buffer' => ?_
    have hread : card.device.Triple
        (fun c => Transferred sector n c ∧ Filled (card.sector sector) buffer n buffer')
        (reg32Read sdData) fun v c => Transferred sector (n + 1) c ∧
          Filled (card.sector sector) buffer (n + 1) (storeWord buffer' n v) := by
      have htransfer : ∀ {c : Controller}, Transferred sector n c → c.phase = .transfer sector n :=
        fun h => h.trans (if_neg (by omega))
      refine .read (fun c c' h hmove => ⟨?_, h.2⟩) fun v c c' h hacc => ?_
      · exact (keeps_transfer _ _ (htransfer h.1) hmove).trans (if_neg (by omega)).symm
      · obtain ⟨rfl, rfl⟩ := (access_readData (htransfer h.1)).1 hacc
        exact ⟨rfl, h.2.word⟩
    exact hread.bind fun v => .pure fun c h => h

theorem finishRead_filled (buffer : ℕ → UInt8) :
    card.device.Triple (Ready sector) (finishRead buffer) fun r c =>
      Idle c ∧ r.1 = 0 ∧ Filled (card.sector sector) buffer sectorWords r.2 := by
  refine (readData_filled buffer le_rfl).bind fun buffer' => ?_
  have hstat : card.device.Triple Idle (reg32Write sdStat sdStatCcClear) fun _ => Idle :=
    .emit keeps_idle fun c c' h hacc => by
      rw [access_writeStat.1 hacc]
      exact h
  have hread : card.device.Triple Idle (reg32Read sdCon) fun _ => Idle :=
    .read keeps_idle fun v c c' h hacc => by rwa [access_readCon.1 hacc]
  have hwrite : ∀ v, card.device.Triple Idle (reg32Write sdCon v) fun _ => Idle := fun v =>
    .emit keeps_idle fun c c' h hacc => by rwa [access_writeCon.1 hacc]
  exact (hstat.frame.pre fun c h => h).bind fun _ => hread.frame.bind fun v =>
    (hwrite _).frame.bind fun _ => .pure fun c h => ⟨h.1, rfl, h.2⟩

/-! ## A call -/

/-- What a call returns: the sector, or the buffer as it was, from a card that fails or is late. -/
structure ReadsCard (card : Card) (sector : UInt32) (buffer : ℕ → UInt8)
    (r : Int32 × (ℕ → UInt8)) (c : Controller) : Prop where
  success : r.1 = 0 → Idle c ∧ Filled (card.sector sector) buffer sectorWords r.2
  failure : r.1 ≠ 0 → r.2 = buffer ∧ (card.fails ∨ ∃ m, waitRounds ≤ m + 1 ∧ card.late m)

theorem mmcReadSector_readsCard (buffer : ℕ → UInt8) :
    card.device.Triple Idle (mmcReadSector sector buffer) (ReadsCard card sector buffer) := by
  have hfails : ∀ {r : Int32 × (ℕ → UInt8)} {c : Controller}, r = (-1, buffer) →
      (card.fails ∨ ∃ m, waitRounds ≤ m + 1 ∧ card.late m) → ReadsCard card sector buffer r c := by
    rintro r c rfl h
    have hne : (-1 : Int32) ≠ 0 := by decide
    exact ⟨fun h0 => absurd h0 hne, fun _ => ⟨rfl, h⟩⟩
  refine sendCommand_answered.bind fun r => ?_
  split_ifs with hr
  · exact .pure fun c h => hfails rfl (.inl (h.resolve_left fun h => hr h.1).2)
  have hstart : ∀ c, (r.1 = cc ∧ Answered card sector c) ∨ (r.1 ≠ cc ∧ card.fails) →
      Awaited card sector 0 c := fun c h =>
    ⟨(h.resolve_right fun h => hr h.1).2, fun _ _ _ => Nat.zero_le _, nofun⟩
  refine ((waitData_awaited waitRounds 0).pre hstart).bind fun e => ?_
  by_cases he : e.breaks = true
  · rw [if_pos he]
    refine (@finishRead_filled card sector buffer).weaken (fun c h => ?_) fun r c h => ?_
    · exact (h.resolve_right fun h => absurd (he.symm.trans h.1) (by decide)).2
    · exact ⟨fun _ => ⟨h.1, h.2.2⟩, fun h0 => absurd h.2.1 h0⟩
  · rw [if_neg he]
    refine .pure fun c h => hfails rfl ?_
    obtain ⟨-, h⟩ := h.resolve_left fun h => he (by rw [h.1]; rfl)
    rw [Nat.zero_add] at h
    exact h.imp_right fun h => h.resolve_left (by decide)

theorem Filled.toSector {s : Sector} {buffer buffer' : ℕ → UInt8}
    (h : Filled s buffer sectorWords buffer') : (fun i => buffer' i : Sector) = s := by
  funext i
  have hi : (i : ℕ) < sectorWords * 4 := i.isLt
  rw [h i, if_pos hi, Sector.byte, dif_pos i.isLt]

/-- What a sequence of calls returns: the sectors of the disk, all of them or those before a call
that failed. -/
structure ReadsDisk (card : Card) (sectors : List UInt32) (r : Int32 × List Sector) : Prop where
  read : r.2.map some = (sectors.take r.2.length).map card.disk.readSector
  success : r.1 = 0 → r.2.length = sectors.length
  failure : r.1 ≠ 0 → card.fails ∨ ∃ m, waitRounds ≤ m + 1 ∧ card.late m

theorem readSectorsInto_readsDisk : ∀ (sectors : List UInt32) (buffer : ℕ → UInt8),
    card.device.Triple Idle (readSectorsInto buffer sectors) fun r _ => ReadsDisk card sectors r
  | [], _ => .pure fun _ _ => ⟨rfl, fun _ => rfl, fun h => absurd rfl h⟩
  | sector :: sectors, buffer => by
    refine (mmcReadSector_readsCard buffer).bind fun ⟨r, buffer'⟩ => ?_
    show card.device.Triple _ (if r ≠ 0 then _ else _) _
    split_ifs with hr
    · refine .pure fun c h => ⟨rfl, fun h0 => absurd h0 hr, fun _ => (h.failure hr).2⟩
    have hread : card.device.Triple
        (fun c => Idle c ∧ (fun i => buffer' i : Sector) = card.sector sector)
        (readSectorsInto buffer' sectors) fun r _ =>
          ReadsDisk card sectors r ∧ (fun i => buffer' i : Sector) = card.sector sector :=
      (readSectorsInto_readsDisk sectors buffer').frame
    refine (hread.pre fun c h => ?_).bind fun ⟨r', rest⟩ => .pure fun c h => ?_
    · have := h.success (not_not.1 hr)
      exact ⟨this.1, this.2.toSector⟩
    · obtain ⟨hread, hsuccess, hfailure⟩ := h.1
      refine ⟨?_, fun h0 => congrArg (· + 1) (hsuccess h0), hfailure⟩
      rw [List.map_cons, h.2, List.length_cons, List.take_succ_cons, List.map_cons, hread]
      rfl

/-- Whenever the response and the data come, and whatever else is set in the status word, a call
that succeeds has the sector of the card in its buffer, and one that does not has left it alone. -/
theorem call_reads_sector (card : Card) (sector : UInt32) (buffer : ℕ → UInt8) {c c' : Controller}
    (hidle : Idle c) {vs rest : List UInt32} {log : List RegAccess} {r : Int32 × (ℕ → UInt8)}
    (hcall : mmcReadSector sector buffer vs = some ⟨r, log, rest⟩)
    (hserves : card.device.Serves c log c') : ReadsCard card sector buffer r c' :=
  mmcReadSector_readsCard buffer c vs r log rest c' hidle hcall hserves

/-- Calls one after the other read the disk that `fat32` is given. -/
theorem calls_read_disk (card : Card) (sectors : List UInt32) (buffer : ℕ → UInt8)
    {c c' : Controller} (hidle : Idle c) {vs rest : List UInt32} {log : List RegAccess}
    {r : Int32 × List Sector} (hcalls : readSectorsInto buffer sectors vs = some ⟨r, log, rest⟩)
    (hserves : card.device.Serves c log c') : ReadsDisk card sectors r :=
  readSectorsInto_readsDisk sectors buffer c vs r log rest c' hidle hcalls hserves

/-! ## A card that answers -/

/-- The words of a sector from the `n`-th on, as they are read. -/
def dataReads (card : Card) (sector : UInt32) (n m : ℕ) : List RegAccess :=
  (List.range' n m).map fun i => .read sdData (card.word sector i)

theorem serves_data : ∀ {m n : ℕ} {c : Controller}, Transferred sector n c →
    n + m = sectorWords → ∃ c', card.device.Serves c (dataReads card sector n m) c' ∧ Idle c'
  | 0, n, c, h, hn => ⟨c, .done c, by rwa [Transferred, if_pos (by omega)] at h⟩
  | m + 1, n, c, h, hn => by
    have hphase : c.phase = .transfer sector n := h.trans (if_neg (by omega))
    have hnext : Transferred sector (n + 1) (c.goTo (Card.next sector n)) := rfl
    obtain ⟨c', hserves, hidle⟩ := @serves_data m (n + 1) _ hnext (by omega)
    exact ⟨c', .access .refl ((access_readData hphase).2 ⟨rfl, rfl⟩) hserves, hidle⟩

theorem readData_run (buffer : ℕ → UInt8) (word : ℕ → UInt32) (rest : List UInt32) : ∀ n,
    ∃ buffer', readData buffer n ((List.range n).map word ++ rest) =
      some ⟨buffer', (List.range n).map fun i => .read sdData (word i), rest⟩ := by
  intro n
  induction n generalizing rest with
  | zero => exact ⟨buffer, rfl⟩
  | succ n ih =>
    obtain ⟨buffer', hfirst⟩ := ih (word n :: rest)
    rw [List.range_succ, List.map_append, List.map_append, List.append_assoc]
    exact ⟨_, Polled.bind_eq_some.2 ⟨buffer', _, _, [.read sdData (word n)], hfirst, rfl, rfl⟩⟩

theorem finishRead_run (buffer : ℕ → UInt8) (word : ℕ → UInt32) (con : UInt32) : ∃ r,
    finishRead buffer ((List.range sectorWords).map word ++ [con]) =
      some ⟨r, (List.range sectorWords).map (fun i => .read sdData (word i)) ++ transferEnd con,
        []⟩ := by
  obtain ⟨buffer', hdata⟩ := readData_run buffer word [con] sectorWords
  exact ⟨_, Polled.bind_eq_some.2 ⟨buffer', _, [con], transferEnd con, hdata, rfl, rfl⟩⟩

/-- An idle controller can serve a call: the response is there at the second look, the data at the
third. -/
theorem mmcReadSector_served (hlate : card.late 0) (hidle : Idle c) (buffer : ℕ → UInt8) :
    ∃ vs r log c', mmcReadSector sector buffer vs = some ⟨r, log, []⟩ ∧ r.1 = 0 ∧
      card.device.Serves c log c' := by
  let c₁ : Controller := ⟨.command sector, c.stat &&& ~~~sdStatClear, sector⟩
  let c₂ := (c₁.goTo (.response sector 0)).raise sdStatCc
  let c₃ := ((c₂.goTo (.response sector 1)).goTo (.transfer sector 0)).raise sdStatBrr
  have hresponse : c₂.stat &&& sdStatCc = sdStatCc := set_and_self
  have hready : c₃.stat &&& sdStatBrr = sdStatBrr := set_and_self
  have hcommand : CommandCompletes sector ([.read sdPstate 0] ++ commandWrites sector ++
      [.read sdStat c₂.stat] ++ [.read sdRsp10 0]) :=
    ⟨_, _, 0, .now (by decide), .now hresponse, rfl⟩
  obtain ⟨r, hfinish⟩ := finishRead_run buffer (card.word sector) 0
  have hwait : waitData waitRounds
      ([] ++ c₃.stat :: ((List.range sectorWords).map (card.word sector) ++ [0])) = _ :=
    waitData_stat (by simp) (by decide) (checkStat_of_ready hready)
  have hcall := mmcReadSector_eq_some hcommand hwait hfinish
  -- the controller at each access
  have hasked : card.device.Serves c ([.read sdPstate 0] ++ commandWrites sector) c₁ := by
    refine .access .refl (access_readPstate.2 ⟨rfl, fun s hs => nomatch hidle.symm.trans hs⟩) ?_
    refine .access .refl (access_writeStat.2 rfl) (.access .refl (access_writeArg.2 rfl) ?_)
    exact .access .refl (fun _ _ => rfl) (.done _)
  have hanswered : card.device.Serves c₁ ([.read sdStat c₂.stat] ++ [.read sdRsp10 0])
      (c₂.goTo (.response sector 1)) := by
    refine .access (.single (.responds rfl)) (access_readStat.2 ⟨rfl, rfl, ?_⟩) ?_
    · rintro s polls hs
      cases hs
      exact hlate
    · exact .access .refl (access_readRsp10.2 rfl) (.done _)
  have hlooked : card.device.Serves (c₂.goTo (.response sector 1)) [.read sdStat c₃.stat] c₃ := by
    refine .access (.single (.ready rfl)) (access_readStat.2 ⟨rfl, rfl, nofun⟩) ?_
    exact serves_nil.2 rfl
  obtain ⟨c₄, hdata, -⟩ := serves_data (show Transferred sector 0 c₃ from rfl) (Nat.zero_add _)
  have hend : card.device.Serves c₄ (transferEnd 0)
      { c₄ with stat := c₄.stat &&& ~~~sdStatCcClear } :=
    .access .refl (access_writeStat.2 rfl) (.access .refl (access_readCon.2 rfl)
      (.access .refl (access_writeCon.2 rfl) (.done _)))
  have hserves := serves_append.2 ⟨_, serves_append.2 ⟨_, hasked, hanswered⟩, serves_append.2
    ⟨_, hlooked, serves_append.2 ⟨_, hdata, hend⟩⟩⟩
  refine ⟨_, r, _, { c₄ with stat := c₄.stat &&& ~~~sdStatCcClear }, hcall,
    (finishRead_cases hfinish).1, ?_⟩
  rw [dataReads, ← List.range_eq_range', ← List.append_assoc, ← List.append_assoc] at hserves
  simpa only [List.map_nil, List.nil_append, List.append_assoc] using hserves

/-- A card of zeros, always in time. -/
def zeroCard : Card := ⟨fun _ _ => 0, False, fun m => m = 0⟩

theorem call_reads_sector_zero : ∃ (vs : List UInt32) (log : List RegAccess)
    (r : Int32 × (ℕ → UInt8)) (c' : Controller),
    mmcReadSector 7 (fun _ => 1) vs = some ⟨r, log, []⟩ ∧ r.1 = 0 ∧
      ReadsCard zeroCard 7 (fun _ => 1) r c' := by
  have hidle : Idle ⟨.idle, 0x8021, 5⟩ := rfl
  obtain ⟨vs, r, log, c', hcall, hzero, hserves⟩ :=
    @mmcReadSector_served zeroCard _ 7 rfl hidle fun _ => 1
  exact ⟨vs, log, r, c', hcall, hzero, call_reads_sector _ _ _ hidle hcall hserves⟩

theorem calls_read_disk_zero :
    ∃ (vs : List UInt32) (log : List RegAccess) (r : Int32 × List Sector),
    readSectorsInto (fun _ => 1) [7] vs = some ⟨r, log, []⟩ ∧ r.1 = 0 ∧
      ReadsDisk zeroCard [7] r := by
  have hidle : Idle ⟨.idle, 0x8021, 5⟩ := rfl
  obtain ⟨vs, ⟨r, buffer⟩, log, c', hcall, rfl, hserves⟩ :=
    @mmcReadSector_served zeroCard _ 7 rfl hidle fun _ => 1
  have hcalls : readSectorsInto (fun _ => 1) [7] vs =
      some ⟨(0, [fun i => buffer i]), log ++ [], []⟩ :=
    Polled.bind_eq_some.2 ⟨_, _, _, [], hcall, rfl, rfl⟩
  rw [List.append_nil] at hcalls
  exact ⟨vs, log, _, hcalls, rfl, calls_read_disk _ _ _ hidle hcalls hserves⟩

end BeagleKernel.Boot
