import BeagleKernel.Boot.Mmc
import BeagleKernel.Lib.Bytes

/-!
# When a sector is read

The wait of `mmc_read_sector` ends in one of five ways. Three of them return an error. An empty
status word leaves the loop as a ready buffer does, so what the data register then has is taken for
the sector, and the call succeeds.
-/

namespace BeagleKernel.Boot

open Polled

/-- What a read returned. -/
def RegAccess.returned : RegAccess → Option UInt32
  | read _ value => some value
  | write _ _ => none

/-- What the reads of a log returned. -/
def returned (log : List RegAccess) : List UInt32 := log.filterMap RegAccess.returned

/-- The wait until a command is allowed. -/
inductive Allowed : List RegAccess → Prop
  | now {v : UInt32} (h : v &&& sdPstateCc = sdPstateCAllowed) : Allowed [.read sdPstate v]
  | later {v : UInt32} {log : List RegAccess} (h : v &&& sdPstateCc ≠ sdPstateCAllowed)
      (hlog : Allowed log) : Allowed (.read sdPstate v :: log)

/-- The wait for a command that completes. -/
inductive Completes : List RegAccess → Prop
  | now {v : UInt32} (h : v &&& sdStatCc = sdStatCc) : Completes [.read sdStat v]
  | later {v w : UInt32} {log : List RegAccess} (hv : v &&& sdStatCc ≠ sdStatCc)
      (hw : w &&& sdStatCto ≠ sdStatCto) (hlog : Completes log) :
      Completes (.read sdStat v :: .read sdStat w :: log)

/-- What is written for a `CMD17`. -/
def commandWrites (sector : UInt32) : List RegAccess :=
  [.write sdStat sdStatClear, .write sdArg sector, .write sdCmd (commandReg cmd17 sdCmd48bitrsp)]

/-- The accesses of a `CMD17` for the sector that completes. -/
def CommandCompletes (sector : UInt32) (log : List RegAccess) : Prop :=
  ∃ before after response, Allowed before ∧ Completes after ∧
    log = before ++ commandWrites sector ++ after ++ [.read sdRsp10 response]

/-- A status word with none of the bits the wait ends on, and not empty. -/
def Waiting (stat : UInt32) : Prop :=
  stat &&& ((1 : UInt32) <<< 5) = 0 ∧ stat ≠ 0 ∧ stat &&& ((1 : UInt32) <<< 20) = 0 ∧
    stat &&& 0x78000 = 0

variable {vs rest polls : List UInt32} {log : List RegAccess} {sector stat v w : UInt32} {n : ℕ}
  {buffer : ℕ → UInt8}

@[simp] theorem returned_append (as bs : List RegAccess) :
    returned (as ++ bs) = returned as ++ returned bs :=
  List.filterMap_append

@[simp] theorem returned_read (offset value : UInt32) :
    returned [.read offset value] = [value] := rfl

@[simp] theorem returned_commandWrites (sector : UInt32) :
    returned (commandWrites sector) = [] := rfl

/-! ## The command -/

theorem readMasked_eq {offset mask : UInt32} :
    reg32ReadMasked offset mask (v :: vs) = some ⟨v &&& mask, [.read offset v], vs⟩ := rfl

theorem readMasked_bind {α : Type} {offset mask : UInt32} {g : UInt32 → Driver α} {a : α}
    (h : g (v &&& mask) vs = some ⟨a, log, rest⟩) :
    (reg32ReadMasked offset mask >>= g) (v :: vs) = some ⟨a, .read offset v :: log, rest⟩ :=
  bind_eq_some.2 ⟨_, _, _, _, rfl, h, rfl⟩

theorem pollAllowed_now (h : v &&& sdPstateCc = sdPstateCAllowed) :
    pollAllowed (v :: vs) = some ⟨some (), [.read sdPstate v], vs⟩ :=
  readMasked_bind (by rw [if_neg (not_not.2 h)]; rfl)

theorem pollAllowed_later (h : v &&& sdPstateCc ≠ sdPstateCAllowed) :
    pollAllowed (v :: vs) = some ⟨none, [.read sdPstate v], vs⟩ :=
  readMasked_bind (by rw [if_pos h]; rfl)

theorem pollAllowed_cases {o : Option Unit} (h : pollAllowed vs = some ⟨o, log, rest⟩) :
    ∃ v, vs = v :: rest ∧ log = [.read sdPstate v] ∧
      (o.isSome ↔ v &&& sdPstateCc = sdPstateCAllowed) := by
  rcases vs with _ | ⟨v, vs⟩
  · cases h
  refine ⟨v, ?_⟩
  by_cases hv : v &&& sdPstateCc = sdPstateCAllowed
  · cases (pollAllowed_now hv).symm.trans h
    exact ⟨rfl, rfl, by simpa using hv⟩
  · cases (pollAllowed_later hv).symm.trans h
    exact ⟨rfl, rfl, by simpa using hv⟩

theorem waitAllowed_eq_some : waitAllowed vs = some ⟨(), log, rest⟩ ↔
    Allowed log ∧ vs = returned log ++ rest := by
  have hreads : Reads pollAllowed := fun vs r h => by
    obtain ⟨v, rfl, -, -⟩ := pollAllowed_cases h
    simp
  rw [waitAllowed, loop_eq_some hreads]
  constructor
  · intro h
    induction h with
    | last h =>
      obtain ⟨v, rfl, rfl, hv⟩ := pollAllowed_cases h
      exact ⟨.now (hv.1 rfl), rfl⟩
    | again h _ ih =>
      obtain ⟨v, rfl, rfl, hv⟩ := pollAllowed_cases h
      obtain ⟨hlog, rfl⟩ := ih
      exact ⟨.later (fun hv' => by simpa using hv.2 hv') hlog, rfl⟩
  · rintro ⟨hlog, rfl⟩
    induction hlog with
    | now h => exact .last (pollAllowed_now h)
    | later h _ ih => exact .again (pollAllowed_later h) ih

theorem pollComplete_now (h : v &&& sdStatCc = sdStatCc) :
    pollComplete (v :: vs) = some ⟨some cc, [.read sdStat v], vs⟩ :=
  readMasked_bind (by rw [if_pos h]; rfl)

theorem pollComplete_timeout (hv : v &&& sdStatCc ≠ sdStatCc)
    (hw : w &&& sdStatCto = sdStatCto) : pollComplete (v :: w :: vs) =
      some ⟨some ctoError, [.read sdStat v, .read sdStat w, .write sdStat sdStatClear], vs⟩ :=
  readMasked_bind (by rw [if_neg hv]; exact readMasked_bind (by rw [if_pos hw]; rfl))

theorem pollComplete_later (hv : v &&& sdStatCc ≠ sdStatCc) (hw : w &&& sdStatCto ≠ sdStatCto) :
    pollComplete (v :: w :: vs) = some ⟨none, [.read sdStat v, .read sdStat w], vs⟩ :=
  readMasked_bind (by rw [if_neg hv]; exact readMasked_bind (by rw [if_neg hw]; rfl))

theorem pollComplete_cases {o : Option Int32} (h : pollComplete vs = some ⟨o, log, rest⟩) :
    (∃ v, v &&& sdStatCc = sdStatCc ∧ o = some cc ∧ vs = v :: rest ∧ log = [.read sdStat v]) ∨
      (∃ v w, o = some ctoError ∧ vs = v :: w :: rest) ∨
      (∃ v w, v &&& sdStatCc ≠ sdStatCc ∧ w &&& sdStatCto ≠ sdStatCto ∧ o = none ∧
        vs = v :: w :: rest ∧ log = [.read sdStat v, .read sdStat w]) := by
  rcases vs with _ | ⟨v, vs⟩
  · cases h
  by_cases hv : v &&& sdStatCc = sdStatCc
  · cases (pollComplete_now hv).symm.trans h
    exact .inl ⟨v, hv, rfl, rfl, rfl⟩
  rcases vs with _ | ⟨w, vs⟩
  · obtain ⟨_, _, _, _, hread, hrest, -⟩ := bind_eq_some.1 h
    cases readMasked_eq.symm.trans hread
    rw [if_neg hv] at hrest
    cases hrest
  by_cases hw : w &&& sdStatCto = sdStatCto
  · cases (pollComplete_timeout hv hw).symm.trans h
    exact .inr (.inl ⟨v, w, rfl, rfl⟩)
  · cases (pollComplete_later hv hw).symm.trans h
    exact .inr (.inr ⟨v, w, hv, hw, rfl, rfl, rfl⟩)

theorem reads_pollComplete : Reads pollComplete := by
  intro vs r h
  obtain ⟨v, -, -, rfl, -⟩ | ⟨v, w, -, rfl⟩ | ⟨v, w, -, -, -, rfl, -⟩ := pollComplete_cases h
  all_goals simp only [List.length_cons]
  all_goals omega

theorem waitComplete_eq_some : waitComplete vs = some ⟨cc, log, rest⟩ ↔
    Completes log ∧ vs = returned log ++ rest := by
  have hcto : cc ≠ ctoError := by decide
  rw [waitComplete, loop_eq_some reads_pollComplete]
  constructor
  · intro h
    induction h with
    | last h =>
      obtain ⟨v, hv, -, rfl, rfl⟩ | ⟨v, w, ho, -⟩ | ⟨v, w, -, -, ho, -⟩ := pollComplete_cases h
      · exact ⟨.now hv, rfl⟩
      · exact absurd (Option.some.inj ho) hcto
      · cases ho
    | again h _ ih =>
      obtain ⟨v, -, ho, -⟩ | ⟨v, w, ho, -⟩ | ⟨v, w, hv, hw, -, rfl, rfl⟩ := pollComplete_cases h
      · cases ho
      · cases ho
      · obtain ⟨hlog, rfl⟩ := ih
        exact ⟨.later hv hw hlog, rfl⟩
  · rintro ⟨hlog, rfl⟩
    induction hlog with
    | now h => exact .last (pollComplete_now h)
    | later hv hw _ ih => exact .again (pollComplete_later hv hw) ih

theorem writeCommand_eq_some : writeCommand cmd17 sector sdCmd48bitrsp vs = some ⟨(), log, rest⟩ ↔
    ∃ before, Allowed before ∧ log = before ++ commandWrites sector ∧
      vs = returned before ++ rest := by
  have hwrites (vs' : List UInt32) : (do
      reg32Write sdStat sdStatClear
      reg32Write sdArg sector
      reg32Write sdCmd (commandReg cmd17 sdCmd48bitrsp) : Driver Unit) vs' =
        some ⟨(), commandWrites sector, vs'⟩ := rfl
  rw [writeCommand, bind_eq_some]
  constructor
  · rintro ⟨_, before, vs₁, log₂, h, hrest, rfl⟩
    obtain ⟨hbefore, rfl⟩ := waitAllowed_eq_some.1 h
    cases (hwrites vs₁).symm.trans hrest
    exact ⟨before, hbefore, rfl, rfl⟩
  · rintro ⟨before, hbefore, rfl, rfl⟩
    exact ⟨_, _, _, _, waitAllowed_eq_some.2 ⟨hbefore, rfl⟩, hwrites rest, rfl⟩

theorem readResponse_eq_some {r : Int32 × List UInt32} : readResponse cmd17 vs =
    some ⟨r, log, rest⟩ ↔ ∃ response, r = (cc, [response]) ∧ log = [.read sdRsp10 response] ∧
      vs = response :: rest := by
  have h17 : cmd17 ∈ oneWordCommands := by decide
  rw [readResponse, if_pos h17, reg32Read, read_bind_eq_some]
  constructor
  · rintro ⟨response, _, _, rfl, h, rfl⟩
    obtain ⟨rfl, rfl, rfl⟩ := pure_eq_some.1 h
    exact ⟨response, rfl, rfl, rfl⟩
  · rintro ⟨response, rfl, rfl, rfl⟩
    exact ⟨response, rest, [], rfl, rfl, rfl⟩

/-- A `CMD17` returns `CC` exactly when the controller completes it. -/
theorem sendCommand_completes :
    (∃ response, sendCommand cmd17 sector sdCmd48bitrsp vs = some ⟨(cc, response), log, rest⟩) ↔
      CommandCompletes sector log ∧ vs = returned log ++ rest := by
  have hcto : ctoError ≠ cc := by decide
  simp only [sendCommand]
  constructor
  · rintro ⟨_, hsend⟩
    obtain ⟨_, _, vs₁, _, hwrite, hwait, rfl⟩ := bind_eq_some.1 hsend
    obtain ⟨before, hbefore, rfl, rfl⟩ := writeCommand_eq_some.1 hwrite
    obtain ⟨code, after, vs₂, _, hcomplete, h, rfl⟩ := bind_eq_some.1 hwait
    by_cases hcode : code = cc
    · subst hcode
      obtain ⟨hafter, rfl⟩ := waitComplete_eq_some.1 hcomplete
      rw [if_neg (not_not.2 rfl), if_neg (not_not.2 rfl)] at h
      obtain ⟨response, -, rfl, rfl⟩ := readResponse_eq_some.1 h
      exact ⟨⟨before, after, response, hbefore, hafter, by simp⟩, by simp⟩
    · rw [if_pos hcode] at h
      obtain ⟨h, -, -⟩ := pure_eq_some.1 h
      cases (Prod.mk.injEq _ _ _ _ ▸ h).1
  · rintro ⟨⟨before, after, response, hbefore, hafter, rfl⟩, rfl⟩
    refine ⟨[response], bind_eq_some.2 ⟨(), before ++ commandWrites sector,
      returned after ++ response :: rest, after ++ [.read sdRsp10 response], ?_, ?_, by simp⟩⟩
    · exact writeCommand_eq_some.2 ⟨before, hbefore, rfl, by simp⟩
    refine bind_eq_some.2 ⟨cc, after, response :: rest, _, ?_, ?_, rfl⟩
    · exact waitComplete_eq_some.2 ⟨hafter, rfl⟩
    · rw [if_neg (not_not.2 rfl), if_neg (not_not.2 rfl)]
      exact readResponse_eq_some.2 ⟨response, rfl, rfl, rfl⟩

/-! ## The wait for the data -/

theorem checkStat_eq_none : checkStat stat = none ↔ Waiting stat := by
  unfold checkStat Waiting
  split_ifs with h1 h2 h3 h4 <;> simp_all

/-- While the status words say nothing, the wait goes on, as often as its bound says. -/
theorem waitData_polls : ∀ {polls : List UInt32}, (∀ p ∈ polls, Waiting p) → ∀ {e : WaitEnd},
    waitData n vs = some ⟨e, log, rest⟩ →
      waitData (polls.length + n) (polls ++ vs) =
        some ⟨e, polls.map (.read sdStat) ++ log, rest⟩
  | [], _, e, h => by simpa using h
  | p :: polls, hpolls, e, h => by
    obtain ⟨hp, hpolls⟩ := List.forall_mem_cons.1 hpolls
    rw [List.length_cons, Nat.add_right_comm, waitData]
    refine read_bind_eq_some.2 ⟨p, _, _, rfl, ?_, rfl⟩
    rw [checkStat_eq_none.2 hp]
    exact waitData_polls hpolls h

theorem waitData_stat {e : WaitEnd} (hpolls : ∀ p ∈ polls, Waiting p) (hn : polls.length < n)
    (he : checkStat stat = some e) : waitData n (polls ++ stat :: rest) =
      some ⟨e, polls.map (.read sdStat) ++ [.read sdStat stat], rest⟩ := by
  obtain ⟨k, rfl⟩ := Nat.exists_eq_add_of_lt hn
  refine waitData_polls hpolls (n := k + 1) ?_
  refine read_bind_eq_some.2 ⟨stat, rest, [], rfl, ?_, rfl⟩
  rw [he]
  rfl

theorem waitData_timeout (rest : List UInt32) (hpolls : ∀ p ∈ polls, Waiting p) :
    waitData polls.length (polls ++ rest) =
      some ⟨.timeout, polls.map (.read sdStat), rest⟩ := by
  have hnone : waitData 0 rest = some ⟨.timeout, [], rest⟩ := rfl
  have := waitData_polls hpolls hnone
  rwa [List.append_nil] at this

theorem waitData_cases : ∀ {n : ℕ} {vs : List UInt32} {log : List RegAccess} {e : WaitEnd},
    waitData n vs = some ⟨e, log, rest⟩ → e = .timeout ∨ ∃ polls stat, (∀ p ∈ polls, Waiting p) ∧
      polls.length < n ∧ checkStat stat = some e ∧ vs = polls ++ stat :: rest ∧
        log = polls.map (.read sdStat) ++ [.read sdStat stat]
  | 0, vs, log, e, h => .inl (pure_eq_some.1 h).1.symm
  | n + 1, vs, log, e, hwait => by
    obtain ⟨v, vs, log, rfl, h, rfl⟩ := read_bind_eq_some.1 hwait
    rcases hv : checkStat v with _ | e'
    · rw [hv] at h
      refine (waitData_cases h).imp_right ?_
      rintro ⟨polls, stat, hpolls, hn, he, rfl, rfl⟩
      refine ⟨v :: polls, stat, ?_, Nat.succ_lt_succ hn, he, rfl, rfl⟩
      exact List.forall_mem_cons.2 ⟨checkStat_eq_none.1 hv, hpolls⟩
    · rw [hv] at h
      obtain ⟨rfl, rfl, rfl⟩ := pure_eq_some.1 h
      exact .inr ⟨[], v, by simp, Nat.succ_pos n, hv, rfl, rfl⟩

/-! ## The data -/

variable {words : List UInt32}

theorem storeWord_bytes (buffer : ℕ → UInt8) (i : ℕ) (word : UInt32) :
    BytesAt (storeWord buffer i word) (i * 4) (le32Bytes word) := by
  intro j hj
  rw [length_le32Bytes] at hj
  obtain rfl | rfl | rfl | rfl : j = 0 ∨ j = 1 ∨ j = 2 ∨ j = 3 := by omega
  all_goals simp [storeWord, le32Bytes]
  all_goals exact UInt8.and_neg_one

theorem storeWord_below {i j : ℕ} (buffer : ℕ → UInt8) (word : UInt32) (h : j < i * 4) :
    storeWord buffer i word j = buffer j := by
  simp only [storeWord]
  rw [Function.update_of_ne (by omega), Function.update_of_ne (by omega),
    Function.update_of_ne (by omega), Function.update_of_ne (by omega)]

theorem readData_cases : ∀ {n : ℕ} {vs rest : List UInt32} {log : List RegAccess}
    {buffer' : ℕ → UInt8}, readData buffer n vs = some ⟨buffer', log, rest⟩ →
      ∃ words, words.length = n ∧ vs = words ++ rest ∧ log = words.map (.read sdData) ∧
        BytesAt buffer' 0 (words.flatMap le32Bytes)
  | 0, vs, rest, log, buffer', h => by
    obtain ⟨rfl, rfl, rfl⟩ := pure_eq_some.1 h
    exact ⟨[], rfl, rfl, rfl, fun i hi => absurd hi (Nat.not_lt_zero i)⟩
  | n + 1, vs, rest, log, buffer', h => by
    obtain ⟨buffer₁, _, vs₁, _, hfirst, hlast, rfl⟩ := bind_eq_some.1 h
    obtain ⟨words, hlength, rfl, rfl, hbytes⟩ := readData_cases hfirst
    obtain ⟨word, _, _, rfl, hpure, rfl⟩ := read_bind_eq_some.1 hlast
    obtain ⟨rfl, rfl, rfl⟩ := pure_eq_some.1 hpure
    have hflat : (words.flatMap le32Bytes).length = n * 4 := by
      rw [← hlength]
      simp [List.length_flatMap, Function.const_def]
    refine ⟨words ++ [word], by simp [hlength], by simp, by simp, ?_⟩
    rw [List.flatMap_append, bytesAt_append, hflat]
    refine ⟨fun i hi => ?_, ?_⟩
    · rw [storeWord_below _ _ (by omega)]
      exact hbytes i hi
    · simpa using storeWord_bytes buffer₁ n word

/-- What a call does when it has its data. -/
def transferEnd (con : UInt32) : List RegAccess :=
  [.write sdStat sdStatCcClear, .read sdCon con, .write sdCon (con &&& ~~~((1 : UInt32) <<< 1))]

theorem finishRead_cases {r : Int32 × (ℕ → UInt8)}
    (h : finishRead buffer vs = some ⟨r, log, rest⟩) :
    r.1 = 0 ∧ ∃ (words : List UInt32) (con : UInt32), words.length = sectorWords ∧
      log = words.map (.read sdData) ++ transferEnd con ∧
        BytesAt r.2 0 (words.flatMap le32Bytes) := by
  obtain ⟨buffer', _, vs₁, _, hdata, hend, rfl⟩ := bind_eq_some.1 h
  obtain ⟨words, hlength, rfl, rfl, hbytes⟩ := readData_cases hdata
  obtain ⟨_, hcon, rfl⟩ := emit_bind_eq_some.1 hend
  obtain ⟨con, _, _, rfl, hwrite, rfl⟩ := read_bind_eq_some.1 hcon
  obtain ⟨_, hpure, rfl⟩ := emit_bind_eq_some.1 hwrite
  obtain ⟨rfl, rfl, rfl⟩ := pure_eq_some.1 hpure
  exact ⟨rfl, words, con, hlength, rfl, hbytes⟩

/-! ## The whole call -/

/-- The values of a call whose command completes and whose wait comes to `stat` after `polls`. -/
structure WaitComesTo (sector : UInt32) (values polls : List UInt32) (stat : UInt32)
    (rest : List UInt32) : Prop where
  command : ∃ log, CommandCompletes sector log ∧ values = returned log ++ (polls ++ stat :: rest)
  waiting : ∀ p ∈ polls, Waiting p
  inTime : polls.length < waitRounds

/-- A status word that ends the wait without a ready buffer, after `n` others. -/
def EndsUnready (n : ℕ) (stat : UInt32) : Prop :=
  stat &&& ((1 : UInt32) <<< 5) = 0 ∧ (stat = 0 ∨ stat &&& ((1 : UInt32) <<< 20) ≠ 0 ∨
    stat &&& 0x78000 ≠ 0 ∨ n + 1 = waitRounds)

/-- The accesses of a call that goes on to read the words. -/
def transferLog (command : List RegAccess) (polls : List UInt32) (stat : UInt32)
    (words : List UInt32) (con : UInt32) : List RegAccess :=
  command ++ (polls.map (.read sdStat) ++ [.read sdStat stat] ++
    (words.map (.read sdData) ++ transferEnd con))

/-- A call for the sector that is given the values succeeds only with data: one that returns 0 has
read the 128 words after a ready buffer, and one whose wait ends otherwise returns an error and
leaves the buffer alone. -/
structure SucceedsOnlyWithData (sector : UInt32) (buffer : ℕ → UInt8) (values : List UInt32) :
    Prop where
  success : ∀ r, mmcReadSector sector buffer values = some r → r.val.1 = 0 →
    ∃ command polls stat words con, r.log = transferLog command polls stat words con ∧
      CommandCompletes sector command ∧ (∀ p ∈ polls, Waiting p) ∧ polls.length < waitRounds ∧
      stat &&& ((1 : UInt32) <<< 5) ≠ 0 ∧ words.length = sectorWords ∧
      BytesAt r.val.2 0 (words.flatMap le32Bytes)
  failure : ∀ polls stat rest, WaitComesTo sector values polls stat rest →
    EndsUnready polls.length stat →
      ∃ r, mmcReadSector sector buffer values = some r ∧ r.val.1 ≠ 0 ∧ r.val.2 = buffer

/-- After a completed command, the wait, and what its end asks for. -/
theorem mmcReadSector_eq_some {r : Int32 × (ℕ → UInt8)} {command log₁ log₂ : List RegAccess}
    {e : WaitEnd} (hcommand : CommandCompletes sector command)
    (hwait : waitData waitRounds vs = some ⟨e, log₁, rest⟩) {rest' : List UInt32}
    (hend : (if e.breaks then finishRead buffer else return (-1, buffer)) rest =
      some ⟨r, log₂, rest'⟩) :
    mmcReadSector sector buffer (returned command ++ vs) =
      some ⟨r, command ++ (log₁ ++ log₂), rest'⟩ := by
  obtain ⟨response, hsend⟩ := sendCommand_completes.2
    ⟨hcommand, (rfl : returned command ++ vs = returned command ++ vs)⟩
  refine bind_eq_some.2 ⟨_, _, _, _, hsend, ?_, rfl⟩
  rw [if_neg (not_not.2 rfl)]
  exact bind_eq_some.2 ⟨_, _, _, _, hwait, hend, rfl⟩

/-- A call that returns 0 has seen its command complete and its wait end in a `break`. -/
theorem mmcReadSector_zero {r : Outcome UInt32 RegAccess (Int32 × (ℕ → UInt8))}
    (h : mmcReadSector sector buffer vs = some r) (hzero : r.val.1 = 0) :
    ∃ command polls stat words con e rest, r.log = transferLog command polls stat words con ∧
      vs = returned command ++ (polls ++ stat :: rest) ∧ CommandCompletes sector command ∧
      (∀ p ∈ polls, Waiting p) ∧ polls.length < waitRounds ∧ checkStat stat = some e ∧
      e.breaks = true ∧ words.length = sectorWords ∧
      BytesAt r.val.2 0 (words.flatMap le32Bytes) := by
  have hne : (-1 : Int32) ≠ 0 := by decide
  obtain ⟨r, log, rest⟩ := r
  obtain ⟨⟨code, response⟩, command, vs₁, _, hsend, hrest, rfl⟩ := bind_eq_some.1 h
  by_cases hcode : code = cc
  · subst hcode
    obtain ⟨hcommand, rfl⟩ := sendCommand_completes.1 ⟨response, hsend⟩
    rw [if_neg (not_not.2 rfl)] at hrest
    obtain ⟨e, _, vs₂, _, hwait, hend, rfl⟩ := bind_eq_some.1 hrest
    by_cases he : e.breaks = true
    · rw [if_pos he] at hend
      obtain ⟨-, words, con, hlength, rfl, hbytes⟩ := finishRead_cases hend
      obtain rfl | ⟨polls, stat, hpolls, hn, hstat, rfl, rfl⟩ := waitData_cases hwait
      · cases he
      · exact ⟨command, polls, stat, words, con, e, vs₂, rfl, rfl, hcommand, hpolls, hn, hstat,
          he, hlength, hbytes⟩
    · rw [if_neg he] at hend
      obtain ⟨rfl, -, -⟩ := pure_eq_some.1 hend
      exact absurd hzero hne
  · rw [if_pos hcode] at hrest
    obtain ⟨rfl, -, -⟩ := pure_eq_some.1 hrest
    exact absurd hzero hne

theorem checkStat_breaks {e : WaitEnd} (h : checkStat stat = some e) :
    e.breaks = true ↔ stat &&& ((1 : UInt32) <<< 5) ≠ 0 ∨ stat = 0 := by
  unfold checkStat at h
  split_ifs at h with h1 h2 <;> cases h
  · exact iff_of_true rfl (.inl h1)
  · exact iff_of_true rfl (.inr h2)
  · exact iff_of_false (by decide) (not_or.2 ⟨h1, h2⟩)
  · exact iff_of_false (by decide) (not_or.2 ⟨h1, h2⟩)

/-- An error, or the bound used up: the call returns -1. -/
theorem mmcReadSector_error (buffer : ℕ → UInt8) {values : List UInt32}
    (hwait : WaitComesTo sector values polls stat rest) (hend : EndsUnready polls.length stat)
    (hstat : stat ≠ 0) : ∃ log, mmcReadSector sector buffer values =
      some ⟨(-1, buffer), log, rest⟩ := by
  obtain ⟨⟨command, hcommand, rfl⟩, hpolls, hn⟩ := hwait
  obtain ⟨hready, hend⟩ := hend
  rcases he : checkStat stat with _ | e
  · have hwaiting := checkStat_eq_none.1 he
    have ⟨_, _, h20, h78⟩ := hwaiting
    obtain h | h | h | hlast := hend
    · exact absurd h hstat
    · exact absurd h20 h
    · exact absurd h78 h
    -- the last round: `stat` is one more of the words that say nothing
    have hall : ∀ p ∈ polls ++ [stat], Waiting p := by
      simpa [or_imp, forall_and] using ⟨hpolls, hwaiting⟩
    have htimeout := waitData_timeout rest hall
    rw [List.length_append, List.length_singleton, hlast, List.append_assoc] at htimeout
    exact ⟨_, mmcReadSector_eq_some hcommand htimeout rfl⟩
  · have hreturn : ¬ e.breaks = true := fun hbreaks =>
      ((checkStat_breaks he).1 hbreaks).elim (absurd hready) hstat
    have hpure : (if e.breaks then finishRead buffer else return (-1, buffer) : Driver _) rest =
        some ⟨(-1, buffer), [], rest⟩ := by
      rw [if_neg hreturn]
      rfl
    exact ⟨_, mmcReadSector_eq_some hcommand (waitData_stat hpolls hn he) hpure⟩

/-- An empty status word: the call reads what there is, and succeeds. -/
theorem mmcReadSector_empty {values : List UInt32}
    (hwait : WaitComesTo sector values polls 0 rest)
    {r : Outcome UInt32 RegAccess (Int32 × (ℕ → UInt8))}
    (h : mmcReadSector sector buffer values = some r) : r.val.1 = 0 := by
  obtain ⟨⟨command, hcommand, rfl⟩, hpolls, hn⟩ := hwait
  obtain ⟨r, log, rest'⟩ := r
  obtain ⟨response, hsend⟩ := sendCommand_completes.2
    ⟨hcommand, (rfl : returned command ++ (polls ++ 0 :: rest) = _)⟩
  have hstat : checkStat 0 = some .noResponse := rfl
  have hempty : waitData waitRounds (polls ++ 0 :: rest) = _ := waitData_stat hpolls hn hstat
  obtain ⟨_, _, _, _, hsend', hrest, -⟩ := bind_eq_some.1 h
  cases hsend.symm.trans hsend'
  obtain ⟨_, _, _, _, hwait, hend, -⟩ := bind_eq_some.1 hrest
  cases hempty.symm.trans hwait
  exact (finishRead_cases hend).1

/-- A call succeeds only with data exactly if an empty status word does not end its wait. -/
theorem succeedsOnlyWithData_iff (sector : UInt32) (buffer : ℕ → UInt8) (values : List UInt32) :
    SucceedsOnlyWithData sector buffer values ↔
      ¬ ∃ polls rest, WaitComesTo sector values polls 0 rest := by
  constructor
  · rintro h ⟨polls, rest, hwait⟩
    obtain ⟨r, hr, hne, -⟩ := h.failure polls 0 rest hwait ⟨by decide, .inl rfl⟩
    exact hne (mmcReadSector_empty hwait hr)
  · intro hempty
    refine ⟨fun r hr hzero => ?_, fun polls stat rest hwait hend => ?_⟩
    · obtain ⟨command, polls, stat, words, con, e, rest, hlog, hvalues, hcommand, hpolls, hn, he,
        hbreaks, hlength, hbytes⟩ := mmcReadSector_zero hr hzero
      refine ⟨command, polls, stat, words, con, hlog, hcommand, hpolls, hn, ?_, hlength, hbytes⟩
      refine ((checkStat_breaks he).1 hbreaks).resolve_right ?_
      rintro rfl
      exact hempty ⟨polls, rest, ⟨command, hcommand, hvalues⟩, hpolls, hn⟩
    · have hstat : stat ≠ 0 := by
        rintro rfl
        exact hempty ⟨polls, rest, hwait⟩
      obtain ⟨log, hr⟩ := mmcReadSector_error buffer hwait hend hstat
      exact ⟨_, hr, show (-1 : Int32) ≠ 0 by decide, rfl⟩

/-- The command completes at once, the status word after it is empty, and what the data register
has is taken for the sector. -/
theorem emptyStatus_succeeds : ¬ ∀ (sector : UInt32) (buffer : ℕ → UInt8) (values : List UInt32),
    SucceedsOnlyWithData sector buffer values := by
  intro h
  have hcommand : CommandCompletes 7 ([.read sdPstate 0] ++ commandWrites 7 ++ [.read sdStat 1] ++
      [.read sdRsp10 0]) :=
    ⟨[.read sdPstate 0], [.read sdStat 1], 0, .now (by decide), .now (by decide), rfl⟩
  have hwait : WaitComesTo 7 ([0, 1, 0, 0] ++ List.replicate 129 0xE5) [] 0
      (List.replicate 129 0xE5) := ⟨⟨_, hcommand, rfl⟩, by simp, by decide⟩
  obtain ⟨r, hr, hne, -⟩ := (h 7 (fun _ => 0) _).failure [] 0 _ hwait ⟨by decide, .inl rfl⟩
  exact hne (mmcReadSector_empty hwait hr)

end BeagleKernel.Boot
