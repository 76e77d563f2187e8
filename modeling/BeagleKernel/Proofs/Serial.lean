import BeagleKernel.Drivers.Serial
import BeagleKernel.Lib.LineEnds
import BeagleKernel.Lib.Masks

/-!
# A port, set up and printed on

`At` is a port whose registers are known and which has nothing to send, and each access of
`uart_port_init` takes it from one configuration to the next. A port that is `Open` has sent, or
still holds, all it was given.
-/

namespace BeagleKernel.Serial

open Device Bus Intc Uart

variable {base offset mask v r : UInt32} {initial g g' : Config} {W : List UInt8 → Prop}
  {p p' : Port} {α : Type} {f : LineFormat}

/-! ## Configurations -/

namespace Config

theorem mode_of_lcr_bf (h : g.lcr = 0xBF) : g.mode = .b := if_pos h

theorem mode_of_lcr_80 (h : g.lcr = 0x80) : g.mode = .a := by
  rw [mode, h]
  decide

theorem mode_of_operational (h : g.lcr &&& 0x80 = 0) : g.mode = .operational := by
  rw [mode, if_neg fun hb => ?_, if_neg (not_not.2 h)]
  rw [hb] at h
  exact absurd h (by decide)

theorem write_lcr : g.write uartLcrOff v = { g with lcr := v } := rfl

theorem write_mdr1 : g.write uartMdr1Off v = { g with mdr1 := v } := rfl

theorem write_scr : g.write uartScrOff v = { g with scr := v } := rfl

theorem write_sysc : g.write uartSyscOff v = { g with sysc := v } := rfl

theorem write_efr (h : g.lcr = 0xBF) : g.write uartEfrOff v = { g with efr := v } := by
  simp only [write, mode_of_lcr_bf h]
  rfl

theorem write_mcr (h : g.lcr = 0x80) :
    g.write uartMcrOff v = { g with mcr := g.enhanced 0xE0 g.mcr v } := by
  simp only [write, mode_of_lcr_80 h]
  rfl

theorem write_mcr_enhanced (h : g.lcr = 0x80) (hefr : g.efr &&& 0x10 ≠ 0) :
    g.write uartMcrOff v = { g with mcr := v } := by
  rw [write_mcr h, enhanced, if_pos hefr]

theorem write_fcr (h : g.lcr = 0x80) (hefr : g.efr &&& 0x10 ≠ 0) :
    g.write uartFcrOff v = { g with fcr := v } := by
  simp only [write, mode_of_lcr_80 h, enhanced, if_pos hefr]
  rfl

theorem write_tlr (h : g.lcr = 0xBF) (hefr : g.efr &&& 0x10 ≠ 0) (hmcr : g.mcr &&& 0x40 ≠ 0) :
    g.write uartTlrOff v = { g with tlr := v } := by
  have htlr : g.writeTlr uartTlrOff v = { g with tlr := v } := if_pos ⟨rfl, hefr, hmcr⟩
  simp only [write, mode_of_lcr_bf h, htlr]
  rfl

theorem write_dll (h : g.lcr = 0xBF) (hmdr1 : g.disabled) :
    g.write uartDllOff v = { g with dll := v } := by
  simp only [write, mode_of_lcr_bf h, writeDivisor, if_pos hmdr1]
  rfl

theorem write_dlh (h : g.lcr = 0xBF) (hmdr1 : g.disabled) :
    g.write uartDlhOff v = { g with dlh := v } := by
  simp only [write, mode_of_lcr_bf h, writeDivisor, if_pos hmdr1]
  rfl

theorem write_ier (h : g.lcr = 0) (hefr : g.efr &&& 0x10 ≠ 0) :
    g.write uartIerUartOff v = { g with ier := v } := by
  have hmode : g.mode = .operational := mode_of_operational (by rw [h]; decide)
  simp only [write, hmode, enhanced, if_pos hefr]
  rfl

theorem read_efr (h : g.lcr = 0xBF) : g.read uartEfrOff = some g.efr := by
  simp only [read, mode_of_lcr_bf h]
  rfl

theorem read_mcr (h : g.lcr = 0x80) : g.read uartMcrOff = some g.mcr := by
  simp only [read, mode_of_lcr_80 h]
  rfl

end Config

/-! ## One access -/

/-- The registers of a port, which has nothing to send, and what it has sent. -/
structure At (g : Config) (W : List UInt8 → Prop) (p : Port) : Prop where
  config : p.config = g
  running : p.resetting = false
  empty : p.holding = none
  wire : W p.wire

theorem keeps_at : (Port.device base initial).Keeps (At g W) := by
  rintro p p' h (⟨-, hheld⟩ | ⟨-, b⟩ | ⟨hreset⟩)
  · exact nomatch hheld.symm.trans h.empty
  · exact ⟨h.config, h.running, h.empty, h.wire⟩
  · exact nomatch hreset.symm.trans h.running

theorem access_write :
    (Port.device base initial).Access (.write base offset v) p p' ↔ p' = p.write offset v := by
  show p' = (if base = base then _ else _) ↔ _
  rw [if_pos rfl]

theorem access_read :
    (Port.device base initial).Access (.read base offset v) p p' ↔ p.Read offset v p' := by
  show (if base = base then _ else _) ↔ _
  rw [if_pos rfl]

/-- Neither `THR` nor a reset. -/
def Plain (g : Config) (offset v : UInt32) : Prop :=
  ¬ (offset = uartThrOff ∧ g.mode = .operational) ∧ ¬ (offset = uartSyscOff ∧ v &&& 0x2 ≠ 0)

theorem At.write (h : At g W p) (hplain : Plain g offset v) :
    At (g.write offset v) W (p.write offset v) := by
  obtain ⟨rfl, hrunning, hempty, hwire⟩ := h
  rw [Port.write, if_neg hplain.1, if_neg hplain.2]
  by_cases hfcr : offset = uartFcrOff ∧ p.config.mode ≠ .b
  · rw [if_pos hfcr, hempty]
    exact ⟨rfl, hrunning, ite_self _, hwire⟩
  · rw [if_neg hfcr]
    exact ⟨rfl, hrunning, hempty, hwire⟩

theorem config_read_thr : g.read uartRhrOff = none := rfl

theorem At.read (h : At g W p) (hr : g.read offset = some r) (hread : p.Read offset v p') :
    v = r ∧ At g W p' := by
  have hoff : ¬ (offset = uartRhrOff ∧ p.config.mode = .operational) := fun hoff => by
    rw [hoff.1, config_read_thr] at hr
    exact nomatch hr
  rw [Port.Read, if_neg hoff] at hread
  obtain ⟨rfl, -, -, hv⟩ := hread
  exact ⟨hv r (by rw [h.config, hr]), h⟩

section
variable {Q : α → Port → Prop}

theorem write_at (hplain : Plain g offset v) (hg : g.write offset v = g') :
    (Port.device base initial).Triple (At g W) (reg32Write base offset v) fun _ => At g' W :=
  triple_write keeps_at fun p p' h hacc => by
    rw [access_write.1 hacc, ← hg]
    exact h.write hplain

theorem at_write {k : Unit → Bus α} (hplain : Plain g offset v)
    (hg : g.write offset v = g') (hk : (Port.device base initial).Triple (At g' W) (k ()) Q) :
    (Port.device base initial).Triple (At g W) (reg32Write base offset v >>= k) Q :=
  (write_at hplain hg).bind fun _ => hk

theorem at_read {k : UInt32 → Bus α} (hr : g.read offset = some r)
    (hk : (Port.device base initial).Triple (At g W) (k r) Q) :
    (Port.device base initial).Triple (At g W) (reg32Read base offset >>= k) Q := by
  refine (triple_read keeps_at fun v p p' h hacc => h.read hr (access_read.1 hacc)).bind
    fun v s vs a log rest s' hs => ?_
  obtain ⟨rfl, hs⟩ := hs
  exact hk s vs a log rest s' hs

theorem at_readMasked {k : UInt32 → Bus α} (hr : g.read offset = some r)
    (hk : (Port.device base initial).Triple (At g W) (k (r &&& mask)) Q) :
    (Port.device base initial).Triple (At g W) (reg32ReadMasked base offset mask >>= k) Q := by
  refine (triple_readMasked (Q := fun v p => v = r &&& mask ∧ At g W p) keeps_at
    fun v p p' h hacc => ?_).bind fun v s vs a log rest s' hs => ?_
  · obtain ⟨rfl, h⟩ := h.read hr (access_read.1 hacc)
    exact ⟨rfl, h⟩
  · obtain ⟨rfl, hs⟩ := hs
    exact hk s vs a log rest s' hs

theorem at_writeMasked {k : Unit → Bus α} (hr : g.read offset = some r)
    (hplain : Plain g offset ((r &&& ~~~mask) ||| (v &&& mask)))
    (hg : g.write offset ((r &&& ~~~mask) ||| (v &&& mask)) = g')
    (hk : (Port.device base initial).Triple (At g' W) (k ()) Q) :
    (Port.device base initial).Triple (At g W) (reg32WriteMasked base offset mask v >>= k) Q :=
  (triple_writeMasked r keeps_at (fun v p p' h hacc => h.read hr (access_read.1 hacc))
    fun p p' h hacc => by
      rw [access_write.1 hacc, ← hg]
      exact h.write hplain).bind fun _ => hk

theorem at_lcr {k : Unit → Bus α}
    (hk : (Port.device base initial).Triple (At { g with lcr := v } W) (k ()) Q) :
    (Port.device base initial).Triple (At g W) (reg32Write base uartLcrOff v >>= k) Q :=
  at_write ⟨fun h => absurd h.1 (by decide), fun h => absurd h.1 (by decide)⟩ Config.write_lcr hk

/-- A configuration in which `offset` is neither `THR` nor the reset. -/
theorem plain_of_ne (hthr : offset ≠ uartThrOff) (hsysc : offset ≠ uartSyscOff) :
    Plain g offset v := ⟨fun h => hthr h.1, fun h => hsysc h.1⟩

theorem plain_of_lcr_bf (h : g.lcr = 0xBF) (hsysc : offset ≠ uartSyscOff) : Plain g offset v :=
  ⟨fun hthr => Mode.noConfusion ((Config.mode_of_lcr_bf h).symm.trans hthr.2), fun h => hsysc h.1⟩

/-! ## The parts of the setup -/

/-- What a port is set up to, from the registers a reset leaves. -/
structure Ready (initial : Config) (f : LineFormat) (g : Config) : Prop where
  lcr : g.lcr = f.lcr
  divisor : g.dll = 0x1A ∧ g.dlh = 0
  ier : g.ier = 0x01
  mdr1 : g.mdr1 = 0
  fifo : g.fcr = 0x07 ∧ g.tlr = 0 ∧ g.scr = 0
  sysc : g.sysc = 0x8
  efr : g.efr = initial.efr
  mcr : g.mcr &&& ~~~0x40 = initial.mcr &&& ~~~0x40

/-- `w`, or all but its last byte. -/
def Cut (w l : List UInt8) : Prop := ∃ b : Option UInt8, w = l ++ b.toList

/-- A reset that is under way, or done. -/
def Resetting (initial : Config) (W : List UInt8 → Prop) (p : Port) : Prop :=
  p.resetting = true ∧ W p.wire ∨ At initial W p

theorem keeps_resetting : (Port.device base initial).Keeps (Resetting initial W) := by
  rintro p p' (⟨hreset, hwire⟩ | h) hmove
  · rcases hmove with ⟨⟨-, hp⟩, -⟩ | ⟨⟨-, hp⟩, b⟩ | -
    · exact nomatch hp.symm.trans hreset
    · exact nomatch hp.symm.trans hreset
    · exact .inr ⟨rfl, rfl, rfl, hwire⟩
  · have hkeep : (Port.device base initial).Keeps (At initial W) := keeps_at
    exact .inr (hkeep p p' h hmove)

theorem keeps_sent {w : List UInt8} : (Port.device base initial).Keeps fun p =>
    p.resetting = false ∧ p.wire ++ p.holding.toList = w := by
  rintro p p' ⟨hrunning, hw⟩ (⟨-, hheld⟩ | ⟨-, b⟩ | ⟨hreset⟩)
  · refine ⟨hrunning, ?_⟩
    rw [← hw, hheld]
    exact List.append_nil _
  · exact ⟨hrunning, hw⟩
  · exact nomatch hreset.symm.trans hrunning

/-- A read of anything but `RHR` leaves the port alone. -/
theorem Port.Read.same (h : p.Read offset v p') (hoff : offset ≠ uartRhrOff) : p' = p := by
  rw [Port.Read, if_neg fun hr => hoff hr.1] at h
  exact h.1

theorem softwareReset_at {w : List UInt8} : (Port.device base initial).Triple
    (fun p => p.resetting = false ∧ p.wire ++ p.holding.toList = w) (softwareReset base)
    fun _ => At { initial with sysc := 0x8 } (Cut w) := by
  have hread : (Port.device base initial).Triple
      (fun p => p.resetting = false ∧ p.wire ++ p.holding.toList = w)
      (reg32Read base uartSyscOff)
      fun _ p => p.resetting = false ∧ p.wire ++ p.holding.toList = w :=
    triple_read keeps_sent fun v p p' h hacc => by
      rwa [(access_read.1 hacc).same (by decide)]
  have hstart : (Port.device base initial).Triple
      (fun p => p.resetting = false ∧ p.wire ++ p.holding.toList = w)
      (reg32WriteMasked base uartSyscOff 0x2 0x2) fun _ => Resetting initial (Cut w) := by
    refine hread.bind fun v => triple_write keeps_sent fun p p' h hacc => .inl ?_
    have hbit : (v &&& ~~~0x2 ||| 0x2 &&& 0x2) &&& 0x2 ≠ 0 := by
      rw [UInt32.and_self, set_and_self]
      decide
    rw [access_write.1 hacc, Port.write, if_neg fun hoff => absurd hoff.1 (by decide),
      if_pos ⟨rfl, hbit⟩]
    exact ⟨rfl, p.holding, h.2.symm⟩
  refine hstart.bind fun _ => (triple_waitSet (Q := fun _ => At initial (Cut w)) keeps_resetting
    fun v p p' h hacc => ?_).bind fun _ => write_at ?_ Config.write_sysc
  · have hr := access_read.1 hacc
    obtain rfl := hr.same (by decide)
    refine ⟨h, fun hv => h.resolve_left fun hreset => ?_⟩
    rw [Port.Read, if_neg fun hoff => absurd hoff.1 (by decide)] at hr
    exact nomatch ((hr.2.2.1 rfl).1 hv).symm.trans hreset.1
  · exact ⟨fun h => absurd h.1 (by decide), fun h => absurd h.2 (by decide)⟩

theorem set_bit_ne (x : UInt32) (h : mask ≠ 0) :
    (x &&& ~~~mask ||| mask &&& mask) &&& mask ≠ 0 := by
  rwa [UInt32.and_self, set_and_self]

theorem restore_bits (x mask : UInt32) :
    ((x &&& ~~~mask ||| mask &&& mask) &&& ~~~mask) ||| (x &&& mask &&& mask) = x := by
  apply UInt32.toBitVec_inj.1
  ext i hi
  simp
  grind

theorem set_and_not (x mask bits : UInt32) :
    ((x &&& ~~~mask ||| mask &&& mask) &&& bits ||| x &&& ~~~bits) &&& ~~~mask = x &&& ~~~mask := by
  apply UInt32.toBitVec_inj.1
  ext i hi
  simp
  grind

/-- `TCR_TLR` may stay set: without `ENHANCED_EN` it is not written back. -/
theorem restored_mcr (g : Config) (x : UInt32) :
    (g.enhanced 0xE0 (x &&& ~~~0x40 ||| 0x40 &&& 0x40)
      (((x &&& ~~~0x40 ||| 0x40 &&& 0x40) &&& ~~~0x40) ||| (x &&& 0x40 &&& 0x40))) &&& ~~~0x40 =
      x &&& ~~~0x40 := by
  rw [restore_bits, Config.enhanced]
  split_ifs
  · rfl
  · exact set_and_not x 0x40 0xE0

/-- The configuration after the FIFO settings. -/
def Config.withFifo (g : Config) (mcr : UInt32) : Config :=
  { g with mcr := mcr, fcr := 0x07, tlr := 0, scr := 0 }

theorem fifoSettings_at : (Port.device base initial).Triple (At g W) (fifoSettings base)
    fun _ p => ∃ m, m &&& ~~~0x40 = g.mcr &&& ~~~0x40 ∧ At (g.withFifo m) W p := by
  have hefr : ∀ x : UInt32, (x &&& ~~~0x10 ||| 0x10 &&& 0x10) &&& 0x10 ≠ 0 := fun x =>
    set_bit_ne x (by decide)
  refine at_read rfl (at_lcr ?_)
  refine at_readMasked (Config.read_efr rfl) ?_
  refine at_writeMasked (Config.read_efr rfl) (plain_of_ne (by decide) (by decide))
    (Config.write_efr rfl) (at_lcr ?_)
  refine at_readMasked (Config.read_mcr rfl) ?_
  refine at_writeMasked (Config.read_mcr rfl) (plain_of_ne (by decide) (by decide))
    (Config.write_mcr_enhanced rfl (hefr _)) ?_
  refine at_write (plain_of_ne (by decide) (by decide)) (Config.write_fcr rfl (hefr _))
    (at_lcr ?_)
  refine at_write (plain_of_ne (by decide) (by decide))
    (Config.write_tlr rfl (hefr _) (set_bit_ne _ (by decide))) ?_
  refine at_write (plain_of_ne (by decide) (by decide)) Config.write_scr ?_
  refine at_writeMasked (Config.read_efr rfl) (plain_of_ne (by decide) (by decide))
    (Config.write_efr rfl) (at_lcr ?_)
  refine at_writeMasked (Config.read_mcr rfl) (plain_of_ne (by decide) (by decide))
    (Config.write_mcr rfl) ?_
  refine (write_at (plain_of_ne (by decide) (by decide)) Config.write_lcr).post fun _ p hp => ?_
  dsimp only at hp
  rw [restore_bits g.efr] at hp
  exact ⟨_, restored_mcr _ g.mcr, hp⟩

/-- The configuration after the protocol settings. -/
def Config.withProtocol (g : Config) (f : LineFormat) : Config :=
  { g with lcr := f.lcr, dll := 0x1A, dlh := 0x00, ier := 0x01, mdr1 := 0x0 }

theorem protocolSettings_at : (Port.device base initial).Triple (At g W) (protocolSettings base f)
    fun _ => At (g.withProtocol f) W := by
  have hefr : ∀ x : UInt32, (x &&& ~~~0x10 ||| 0x10 &&& 0x10) &&& 0x10 ≠ 0 := fun x =>
    set_bit_ne x (by decide)
  have hmdr1 : ∀ x : UInt32, ((x &&& ~~~0x7 ||| 0x7 &&& 0x7) &&& 0x7 == 0x7) = true := fun x => by
    rw [UInt32.and_self, set_and_self]
    rfl
  refine at_writeMasked rfl (plain_of_ne (by decide) (by decide)) Config.write_mdr1 (at_lcr ?_)
  refine at_readMasked (Config.read_efr rfl) ?_
  refine at_writeMasked (Config.read_efr rfl) (plain_of_ne (by decide) (by decide))
    (Config.write_efr rfl) (at_lcr ?_)
  refine at_write (plain_of_ne (by decide) (by decide))
    (Config.write_ier rfl (hefr _)) (at_lcr ?_)
  refine at_write (plain_of_lcr_bf rfl (by decide)) (Config.write_dll rfl (hmdr1 _)) ?_
  refine at_write (plain_of_ne (by decide) (by decide)) (Config.write_dlh rfl (hmdr1 _))
    (at_lcr ?_)
  refine at_write (plain_of_ne (by decide) (by decide))
    (Config.write_ier rfl (hefr _)) (at_lcr ?_)
  refine at_writeMasked (Config.read_efr rfl) (plain_of_ne (by decide) (by decide))
    (Config.write_efr rfl) (at_lcr ?_)
  refine (write_at (plain_of_ne (by decide) (by decide)) Config.write_mdr1).post fun _ p hp => ?_
  dsimp only at hp
  rw [restore_bits g.efr] at hp
  exact hp

end

/-- Whatever the port was set to, and whatever baud rate is asked for. -/
theorem uartPortInit_ready {w : List UInt8} {baudRate : UInt32} {stopBitEn : UInt16} :
    (Port.device base initial).Triple
      (fun p => p.resetting = false ∧ p.wire ++ p.holding.toList = w)
      (uartPortInit base baudRate stopBitEn f)
      fun _ p => ∃ g, Ready initial f g ∧ At g (Cut w) p := by
  refine softwareReset_at.bind fun _ => fifoSettings_at.bind fun _ => ?_
  intro p vs u log rest p' ⟨m, hm, hp⟩ hx hserves
  have h := protocolSettings_at p vs u log rest p' hp hx hserves
  refine ⟨_, ?_, h⟩
  exact ⟨rfl, ⟨rfl, rfl⟩, rfl, rfl, ⟨rfl, rfl, rfl⟩, rfl, rfl, hm⟩

/-! ## Printing -/

theorem lcr_and (f : LineFormat) : f.lcr &&& 0x80 = 0 := by
  have hbit : ∀ x : UInt32, x &&& 0x1 = 0 ∨ x &&& 0x1 = 1 := fun x => by
    have h : (x &&& 0x1).toNat = x.toNat % 2 := by
      rw [UInt32.toNat_and]
      exact Nat.and_one_is_mod _
    rcases Nat.mod_two_eq_zero_or_one x.toNat with h0 | h1
    · exact .inl (UInt32.toNat_inj.1 (h.trans h0))
    · exact .inr (UInt32.toNat_inj.1 (h.trans h1))
  have hlen : ((f.charLength.toUInt32 - 5) &&& 0x3) &&& 0x80 = 0 := by
    rw [UInt32.and_assoc]
    exact UInt32.and_zero
  rw [LineFormat.lcr, UInt32.or_and_distrib, hlen]
  rcases hbit f.parityType.toUInt32 with h1 | h1 <;>
    rcases hbit f.parityEn.toUInt32 with h2 | h2 <;>
    rcases hbit f.numStopBits.toUInt32 with h3 | h3 <;> rw [h1, h2, h3] <;> decide

theorem Ready.operational (h : Ready initial f g) : g.mode = .operational :=
  Config.mode_of_operational (by rw [h.lcr, lcr_and])

/-- A port that has sent, or still holds, the bytes `w`. -/
structure Open (g : Config) (w : List UInt8) (p : Port) : Prop where
  config : p.config = g
  running : p.resetting = false
  given : p.wire ++ p.holding.toList = w

theorem keeps_open {w : List UInt8} : (Port.device base initial).Keeps (Open g w) := by
  intro p p' h hmove
  have hsent : (Port.device base initial).Keeps fun p =>
    p.resetting = false ∧ p.wire ++ p.holding.toList = w := keeps_sent
  obtain ⟨hrunning, hgiven⟩ := hsent p p' ⟨h.running, h.given⟩ hmove
  refine ⟨?_, hrunning, hgiven⟩
  rcases hmove with - | - | ⟨hreset⟩
  · exact h.config
  · exact h.config
  · exact nomatch hreset.symm.trans h.running

theorem At.open {w : List UInt8} (h : At g (· = w) p) : Open g w p :=
  ⟨h.config, h.running, by rw [h.empty, h.wire]; exact List.append_nil _⟩

theorem waitThr_at {w : List UInt8} (hmode : g.mode = .operational) :
    (Port.device base initial).Triple (Open g w) (waitSet base uartLsrUartOff 0x20)
      fun _ => At g (· = w) :=
  triple_waitSet keeps_open fun v p p' h hacc => by
    have hr := access_read.1 hacc
    obtain rfl := hr.same (by decide)
    rw [Port.Read, if_neg fun hoff => absurd hoff.1 (by decide)] at hr
    refine ⟨h, fun hv => ?_⟩
    have hempty := (hr.2.1 rfl (by rw [h.config, hmode]; decide)).2.1 hv
    have hgiven := h.given
    rw [hempty] at hgiven
    exact ⟨h.config, h.running, hempty, (List.append_nil _).symm.trans hgiven⟩

theorem writeThr_open {w : List UInt8} (hmode : g.mode = .operational) (b : UInt8) :
    (Port.device base initial).Triple (At g (· = w)) (reg32Write base uartThrOff b.toUInt32)
      fun _ => Open g (w ++ [b]) :=
  triple_write keeps_at fun p p' h hacc => by
    rw [access_write.1 hacc, Port.write, if_pos ⟨rfl, by rw [h.config, hmode]⟩]
    refine ⟨h.config, h.running, ?_⟩
    rw [h.wire]
    exact congrArg (w ++ [·]) (UInt8.toUInt8_toUInt32 b)

/-- A text as `uart_putc` sends it. -/
abbrev sentText (text : List UInt8) : List UInt8 := LineEnds.sent carriageReturn newline text

theorem uartPutc_open {w : List UInt8} (hmode : g.mode = .operational) (c : UInt8) :
    (Port.device uart0Base initial).Triple (Open g w) (uartPutc c)
      fun _ => Open g (w ++ sentText [c]) := by
  rw [uartPutc, sentText, LineEnds.sent_cons]
  split_ifs with hc
  · -- a newline is two bytes
    have hlf : (Port.device uart0Base initial).Triple (Open g (w ++ [carriageReturn]))
        (waitSet uart0Base uartLsrUartOff 0x20 >>= fun _ =>
          reg32Write uart0Base uartThrOff c.toUInt32)
        fun _ => Open g (w ++ [carriageReturn] ++ [c]) :=
      (waitThr_at hmode).bind fun _ => writeThr_open hmode c
    rw [List.append_assoc] at hlf
    exact (waitThr_at hmode).bind fun _ => (writeThr_open hmode carriageReturn).bind fun _ => hlf
  · exact (waitThr_at hmode).bind fun _ => writeThr_open hmode c

theorem uartPuts_open (hmode : g.mode = .operational) : ∀ {w text : List UInt8},
    (Port.device uart0Base initial).Triple (Open g w) (uartPuts text)
      fun _ => Open g (w ++ sentText text)
  | w, [] => .pure fun p h => by
    rwa [sentText, LineEnds.sent, List.flatMap_nil, List.append_nil]
  | w, c :: cs => by
    rw [sentText, ← List.singleton_append, LineEnds.sent_append, ← List.append_assoc]
    exact (uartPutc_open hmode c).bind fun _ => uartPuts_open hmode

/-! ## What is done elsewhere -/

section
variable {base' : UInt32} {P : Port → Prop}

theorem read_same (hb : base' ≠ base)
    (hacc : (Port.device base initial).Access (.read base' offset v) p p') : p' = p := by
  change if base' = base then p.Read offset v p' else p' = p at hacc
  rwa [if_neg hb] at hacc

theorem write_elsewhere (hb : base' ≠ base) (hP : (Port.device base initial).Keeps P) :
    (Port.device base initial).Triple P (reg32Write base' offset v) fun _ => P :=
  triple_write hP fun p p' h hacc => by
    have hp : p' = p := hacc.trans (if_neg hb)
    rwa [hp]

theorem read_elsewhere (hb : base' ≠ base) (hP : (Port.device base initial).Keeps P) :
    (Port.device base initial).Triple P (reg32Read base' offset) fun _ => P :=
  triple_read hP fun v p p' h hacc => by
    rwa [read_same hb hacc]

theorem writeMasked_elsewhere (hb : base' ≠ base) (hP : (Port.device base initial).Keeps P) :
    (Port.device base initial).Triple P (reg32WriteMasked base' offset mask v) fun _ => P :=
  (read_elsewhere hb hP).bind fun _ => write_elsewhere hb hP

theorem waitClear_elsewhere (hb : base' ≠ base) (hP : (Port.device base initial).Keeps P) :
    (Port.device base initial).Triple P (waitClear base' offset mask) fun _ => P :=
  triple_waitClear hP fun v p p' h hacc => by
    rw [read_same hb hacc]
    exact ⟨h, fun _ => h⟩

end

theorem uart0Clocks_keep {P : Port → Prop} (hP : (Port.device uart0Base initial).Keeps P) :
    (Port.device uart0Base initial).Triple P uart0Clocks fun _ => P :=
  (writeMasked_elsewhere (by decide) hP).bind fun _ =>
  (waitClear_elsewhere (by decide) hP).bind fun _ =>
  (writeMasked_elsewhere (by decide) hP).bind fun _ =>
  (waitClear_elsewhere (by decide) hP).bind fun _ =>
  (write_elsewhere (by decide) hP).bind fun _ => write_elsewhere (by decide) hP

theorem uartInterruptInit_keep {η : Type} {table : ℕ → η} {handler : η} {P : Port → Prop}
    (hP : (Port.device uart0Base initial).Keeps P) :
    (Port.device uart0Base initial).Triple P (uartInterruptInit table handler uart0IntNum)
      fun _ => P :=
  have henable : (Port.device uart0Base initial).Triple P (intcEnableIrq uart0IntNum) fun _ => P :=
    (writeMasked_elsewhere (by decide) hP).bind fun _ => .pure fun _ h => h
  (write_elsewhere (by decide) hP).bind fun _ => henable.bind fun _ => .pure fun _ h => h

/-! ## A quick port -/

theorem settle_moves : (Port.device base initial).Moves p (p.settle initial) := by
  unfold Port.settle
  split_ifs with hreset henabled
  · exact .single (.reset hreset)
  · rcases hheld : p.holding with _ | b
    · rw [Option.toList_none, List.append_nil, ← hheld]
      exact .refl
    · exact .single (.send ⟨henabled, eq_false_of_ne_true hreset⟩ hheld)
  · exact .refl

theorem serve_access {w : BusAccess} (h : p.serve base initial w = some p') :
    ∃ p₁, (Port.device base initial).Moves p p₁ ∧ (Port.device base initial).Access w p₁ p' := by
  refine ⟨p.settle initial, settle_moves, ?_⟩
  rcases w with ⟨base', offset, v⟩ | ⟨base', offset, v⟩
  · show if base' = base then _ else _
    rw [Port.serve] at h
    split_ifs at h ⊢ with hb hread
    · exact Option.some.inj h ▸ hread
    · exact (Option.some.inj h).symm
  · exact (Option.some.inj h).symm

/-! ## A text on the wire -/

section
variable {η : Type}

/-- A program that sets UART0 up and prints a text. -/
def printOn (table : ℕ → η) (handler : η) (u : UartBuffers) (baudRate : UInt32)
    (stopBitEn : UInt16) (format : LineFormat) (text : List UInt8) : Bus Unit := do
  let _ ← uartInit table handler u 0 baudRate stopBitEn format
  uartPuts text

theorem printOn_open (table : ℕ → η) (handler : η) (u : UartBuffers) {baudRate : UInt32}
    {stopBitEn : UInt16} {text w : List UInt8} : (Port.device uart0Base initial).Triple
      (fun p => p.resetting = false ∧ p.wire ++ p.holding.toList = w)
      (printOn table handler u baudRate stopBitEn f text)
      fun _ p => ∃ g before, Ready initial f g ∧ Cut w before ∧
        Open g (before ++ sentText text) p := by
  have hinit : (Port.device uart0Base initial).Triple
      (fun p => p.resetting = false ∧ p.wire ++ p.holding.toList = w)
      (uartInit table handler u 0 baudRate stopBitEn f)
      fun _ p => ∃ g before, Ready initial f g ∧ Cut w before ∧ Open g before p := by
    refine (uart0Clocks_keep keeps_sent).bind fun _ => uartPortInit_ready.bind fun _ => ?_
    intro p vs r log rest p' ⟨g, hg, hp⟩ hx hserves
    have hopen : Open g p.wire p := At.open ⟨hp.config, hp.running, hp.empty, rfl⟩
    have hkeep : (Port.device uart0Base initial).Triple (Open g p.wire) (do
        let table ← uartInterruptInit table handler uart0IntNum
        return (table, Function.update u 0 (u 0).init)) fun _ => Open g p.wire :=
      (uartInterruptInit_keep keeps_open).bind fun _ => .pure fun _ h => h
    exact ⟨g, p.wire, hg, hp.wire, hkeep p vs r log rest p' hopen hx hserves⟩
  refine hinit.bind fun _ p vs r log rest p' ⟨g, before, hg, hcut, hopen⟩ hx hserves => ?_
  exact ⟨g, before, hg, hcut, uartPuts_open hg.operational p vs r log rest p' hopen hx hserves⟩

/-- A port that is set up, whatever it was before, sends what is printed on it, in order and as
often as it is printed, however slowly it sends. -/
theorem port_prints (table : ℕ → η) (handler : η) (u : UartBuffers) {baudRate : UInt32}
    {stopBitEn : UInt16} {text : List UInt8} {vs rest : List UInt32} {log : List BusAccess}
    (hp : p.resetting = false)
    (hrun : printOn table handler u baudRate stopBitEn f text vs = some ⟨(), log, rest⟩)
    (hserves : (Port.device uart0Base initial).Serves p log p') :
    Ready initial f p'.config ∧ ∃ before, Cut (p.wire ++ p.holding.toList) before ∧
      p'.wire ++ p'.holding.toList = before ++ sentText text := by
  obtain ⟨g, before, hg, hcut, hopen⟩ :=
    printOn_open table handler u p vs () log rest p' ⟨hp, rfl⟩ hrun hserves
  exact ⟨hopen.config ▸ hg, before, hcut, hopen.given⟩

end

/-- What a port has in its registers before it is set up. -/
def resetConfig : Config := ⟨0, 0, 0, 0, 0, 0, 0, 0, 0, 0x7, 0⟩

def fresh : Port := ⟨resetConfig, false, none, [], [], []⟩

/-- Eight bits, no parity and one stop bit. -/
def line8n1 : LineFormat := ⟨0, 0, 0, 8⟩

/-- `"ok\n"`, printed with `values` read. -/
def printOk (values : List UInt32) : Option (Outcome UInt32 BusAccess Unit) :=
  printOn (fun _ => 0) 1 zeroed 115200 0 line8n1 [0x6F, 0x6B, 0x0A] values

def okReads : List UInt32 :=
  [0, 0, 0, 0, 0, 1, 0, 0, 0, 0, 0, 0x10, 0x40, 0x7, 0, 0, 0x10, 0, 0x20, 0x20, 0x20, 0x20]

theorem port_prints_ok : ∃ p' : Port, Ready resetConfig line8n1 p'.config ∧ ∃ before,
    Cut [] before ∧ p'.wire ++ p'.holding.toList = before ++ sentText [0x6F, 0x6B, 0x0A] := by
  have hserved : ((printOk okReads).bind fun r =>
      r.log.foldlM (Port.serve uart0Base resetConfig) fresh).isSome := by
    decide +kernel
  obtain ⟨p', hp'⟩ := Option.isSome_iff_exists.1 hserved
  obtain ⟨⟨u, log, rest⟩, hrun, hlog⟩ := Option.bind_eq_some_iff.1 hp'
  have hserves := serves_of_foldlM (fun _ _ _ => serve_access) hlog
  exact ⟨p', port_prints (fun _ => 0) 1 zeroed rfl hrun hserves⟩

end BeagleKernel.Serial
