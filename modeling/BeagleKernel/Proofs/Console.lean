import BeagleKernel.Proofs.Serial

/-!
# What the receive handlers take from a port

A handler reads one byte, the oldest that no handler has read. So as many bytes are taken as there
were interrupts, in the order they arrived; `Took` is kept by whatever arrives in between.
-/

namespace BeagleKernel.Serial

open Device Bus Uart

variable {base v : UInt32} {initial g : Config} {p₀ p p' : Port} {f : LineFormat}
  {w taken : List UInt8} {u : UartBuffers}

/-- From `p₀` on, the bytes `taken` were read. -/
def Took (p₀ : Port) (taken : List UInt8) (p : Port) : Prop :=
  ∃ new, p.arrived = p₀.arrived ++ new ∧ p₀.fifo ++ new = taken ++ p.fifo

theorem took_nil (p : Port) : Took p [] p := ⟨[], (List.append_nil _).symm, List.append_nil _⟩

/-- A port that runs as `g`, given `w` to send and with `taken` read. -/
structure Served (g : Config) (w : List UInt8) (p₀ : Port) (taken : List UInt8) (p : Port) :
    Prop where
  port : Open g w p
  took : Took p₀ taken p

theorem keeps_took : ∀ {p p'}, p.resetting = false → Took p₀ taken p →
    Port.Move initial p p' → Took p₀ taken p' := by
  rintro p p' hrunning ⟨new, harrived, hfifo⟩ (⟨-, -⟩ | ⟨-, b⟩ | ⟨hreset⟩)
  · exact ⟨new, harrived, hfifo⟩
  · refine ⟨new ++ [b], ?_, ?_⟩
    · rw [harrived, List.append_assoc]
    · rw [← List.append_assoc, hfifo, List.append_assoc]
  · exact nomatch hreset.symm.trans hrunning

theorem keeps_served : (Port.device base initial).Keeps (Served g w p₀ taken) := by
  intro p p' h hmove
  have hopen : (Port.device base initial).Keeps (Open g w) := keeps_open
  exact ⟨hopen p p' h.port hmove, keeps_took h.port.running h.took hmove⟩

/-! ## The accesses of a handler -/

theorem write_ier_eq (hmode : g.mode = .operational) :
    g.write uartIerUartOff v = { g with ier := g.enhanced 0xF0 g.ier v } := by
  simp only [Config.write, hmode]
  rfl

theorem mode_write_ier (hmode : g.mode = .operational) :
    (g.write uartIerUartOff v).mode = .operational := by
  rw [write_ier_eq hmode]
  exact hmode

/-- A handler enables what it disabled. -/
theorem write_ier_back (hmode : g.mode = .operational) (hier : g.ier = 0x01) :
    (g.write uartIerUartOff 0x00).write uartIerUartOff 0x01 = g := by
  rw [write_ier_eq (mode_write_ier hmode), write_ier_eq hmode]
  have hsame : Config.enhanced { g with ier := g.enhanced 0xF0 g.ier 0x00 } 0xF0
      (g.enhanced 0xF0 g.ier 0x00) 0x01 = g.ier := by
    simp only [Config.enhanced, hier]
    split_ifs <;> rfl
  rw [hsame]

theorem writeIer_served :
    (Port.device base initial).Triple (Served g w p₀ taken) (reg32Write base uartIerUartOff v)
      fun _ => Served (g.write uartIerUartOff v) w p₀ taken :=
  triple_write keeps_served fun p p' h hacc => by
    rw [access_write.1 hacc, Port.write, if_neg fun hoff => absurd hoff.1 (by decide),
      if_neg fun hoff => absurd hoff.1 (by decide), if_neg fun hoff => absurd hoff.1 (by decide)]
    exact ⟨⟨by rw [h.port.config], h.port.running, h.port.given⟩, h.took⟩

/-- The oldest byte that has not been read. -/
theorem uartGetc_served (hmode : g.mode = .operational) :
    (Port.device base initial).Triple (Served g w p₀ taken) (uartGetc base)
      fun c => Served g w p₀ (taken ++ [c]) := by
  have hkeeps : (Port.device base initial).Keeps fun p => Served g w p₀ taken p ∧ p.fifo ≠ [] := by
    rintro p p' ⟨h, hfifo⟩ hmove
    have hserved : (Port.device base initial).Keeps (Served g w p₀ taken) := keeps_served
    refine ⟨hserved p p' h hmove, ?_⟩
    rcases hmove with - | ⟨-, b⟩ | ⟨hreset⟩
    · exact hfifo
    · exact List.append_ne_nil_of_left_ne_nil hfifo [b]
    · exact nomatch hreset.symm.trans h.port.running
  have hwait : (Port.device base initial).Triple (Served g w p₀ taken)
      (waitSet base uartLsrUartOff 0x1) fun _ p => Served g w p₀ taken p ∧ p.fifo ≠ [] :=
    triple_waitSet keeps_served fun v p p' h hacc => by
      have hr := access_read.1 hacc
      obtain rfl := hr.same (by decide)
      rw [Port.Read, if_neg fun hoff => absurd hoff.1 (by decide)] at hr
      have hmode' : p'.config.mode ≠ .b := by rw [h.port.config, hmode]; decide
      exact ⟨h, fun hv => ⟨h, (hr.2.1 rfl hmode').1.1 hv⟩⟩
  have hread : (Port.device base initial).Triple
      (fun p => Served g w p₀ taken p ∧ p.fifo ≠ []) (reg32Read base uartRhrOff)
      fun v => Served g w p₀ (taken ++ [v.toUInt8]) :=
    triple_read hkeeps fun v p p' h hacc => by
      obtain ⟨⟨hport, new, harrived, hfifo⟩, hne⟩ := h
      obtain ⟨b, fifo, hb⟩ := List.exists_cons_of_ne_nil hne
      have hr := access_read.1 hacc
      rw [Port.Read, if_pos ⟨rfl, by rw [hport.config, hmode]⟩, hb] at hr
      obtain ⟨rfl, rfl⟩ := hr
      rw [UInt8.toUInt8_toUInt32]
      refine ⟨⟨hport.config, hport.running, hport.given⟩, new, harrived, ?_⟩
      rw [hfifo, hb, List.append_assoc]
      rfl
  exact hwait.bind fun _ => hread.bind fun _ => .pure fun _ h => h

/-- A port that runs as `g` and of which `taken` was read, whatever it sends. -/
structure Taken (g : Config) (p₀ : Port) (taken : List UInt8) (p : Port) : Prop where
  config : p.config = g
  running : p.resetting = false
  took : Took p₀ taken p

theorem keeps_taken : (Port.device base initial).Keeps (Taken g p₀ taken) := by
  intro p p' h hmove
  have hconfig : p'.config = p.config ∧ p'.resetting = p.resetting := by
    rcases hmove with - | - | ⟨hreset⟩
    · exact ⟨rfl, rfl⟩
    · exact ⟨rfl, rfl⟩
    · exact nomatch hreset.symm.trans h.running
  exact ⟨hconfig.1.trans h.config, hconfig.2.trans h.running, keeps_took h.running h.took hmove⟩

/-- Nothing is read while a byte is sent. -/
theorem uartPutc_taken (hmode : g.mode = .operational) (c : UInt8) :
    (Port.device uart0Base initial).Triple (Taken g p₀ taken) (uartPutc c)
      fun _ => Taken g p₀ taken := by
  have hwait : (Port.device uart0Base initial).Triple (Taken g p₀ taken)
      (waitSet uart0Base uartLsrUartOff 0x20) fun _ => Taken g p₀ taken :=
    triple_waitSet keeps_taken fun v p p' h hacc => by
      rw [(access_read.1 hacc).same (by decide)]
      exact ⟨h, fun _ => h⟩
  have hwrite : ∀ v, (Port.device uart0Base initial).Triple (Taken g p₀ taken)
      (reg32Write uart0Base uartThrOff v) fun _ => Taken g p₀ taken := fun v =>
    triple_write keeps_taken fun p p' h hacc => by
      rw [access_write.1 hacc, Port.write, if_pos ⟨rfl, by rw [h.config, hmode]⟩]
      exact ⟨h.config, h.running, h.took⟩
  rw [uartPutc]
  split_ifs
  · exact hwait.bind fun _ => (hwrite _).bind fun _ => hwait.bind fun _ => hwrite _
  · exact hwait.bind fun _ => hwrite _

theorem uartPutc_served (hmode : g.mode = .operational) (c : UInt8) :
    (Port.device uart0Base initial).Triple (Served g w p₀ taken) (uartPutc c)
      fun _ => Served g (w ++ sentText [c]) p₀ taken :=
  (((uartPutc_open hmode c).pre fun _ h => h.port).and
    ((uartPutc_taken hmode c).pre fun _ h => ⟨h.port.config, h.port.running, h.took⟩)).post
    fun _ _ h => ⟨h.1, h.2.took⟩

/-! ## The handlers -/

theorem handleUart0Irq_served (hmode : g.mode = .operational) (hier : g.ier = 0x01) :
    (Port.device uart0Base initial).Triple (Served g w p₀ taken) (handleUart0Irq u)
      fun u' p => ∃ byte, u' = Function.update u 0 ((u 0).push (receivedChar byte)).2 ∧
        Served g (w ++ sentText [receivedChar byte]) p₀ (taken ++ [byte]) p := by
  have hoff := mode_write_ier (v := 0x00) hmode
  refine writeIer_served.bind fun _ => (uartGetc_served hoff).bind fun byte =>
    (uartPutc_served hoff _).bind fun _ => writeIer_served.bind fun _ => .pure fun p h => ?_
  rw [write_ier_back hmode hier] at h
  exact ⟨byte, rfl, h⟩

theorem handleUart1Irq_served (hmode : g.mode = .operational) (hier : g.ier = 0x01) :
    (Port.device uart1Base initial).Triple (Served g w p₀ taken) (handleUart1Irq u)
      fun u' p => ∃ byte, u' = Uart.handleUart1Irq u byte ∧
        Served g w p₀ (taken ++ [byte]) p := by
  have hoff := mode_write_ier (v := 0x00) hmode
  refine writeIer_served.bind fun _ => (uartGetc_served hoff).bind fun byte =>
    writeIer_served.bind fun _ => .pure fun p h => ?_
  rw [write_ier_back hmode hier] at h
  exact ⟨byte, rfl, h⟩

/-! ## Interrupt after interrupt -/

/-- `circular_char_buffer_push`, one character after the other. -/
def pushAll (b : CircularCharBuffer) (cs : List UInt8) : CircularCharBuffer :=
  cs.foldl (fun b c => (b.push c).2) b

theorem pushAll_queued : ∀ {cs q : List UInt8} {b : CircularCharBuffer}, b.Queued q →
    q.length + cs.length ≤ charBufferSize → (pushAll b cs).Queued (q ++ cs)
  | [], q, b, h, _ => by rwa [List.append_nil]
  | c :: cs, q, b, h, hlen => by
    rw [List.length_cons] at hlen
    obtain ⟨b', hpush, hq⟩ := h.push (by omega) c
    have hroom : (q ++ [c]).length + cs.length ≤ charBufferSize := by
      rw [List.length_append, List.length_singleton]
      omega
    have hrest := pushAll_queued hq hroom
    rw [pushAll, List.foldl_cons, hpush, List.append_cons]
    exact hrest

theorem handleUart0Irqs_served (hmode : g.mode = .operational) (hier : g.ier = 0x01) :
    ∀ (n : ℕ) {w taken : List UInt8} {u : UartBuffers},
      (Port.device uart0Base initial).Triple (Served g w p₀ taken) (handleUart0Irqs n u)
        fun u' p => ∃ bytes, bytes.length = n ∧
          u' = Function.update u 0 (pushAll (u 0) (bytes.map receivedChar)) ∧
          Served g (w ++ sentText (bytes.map receivedChar)) p₀ (taken ++ bytes) p
  | 0, w, taken, u => .pure fun p h => by
    refine ⟨[], rfl, (Function.update_eq_self 0 u).symm, ?_⟩
    simpa [sentText, LineEnds.sent] using h
  | n + 1, w, taken, u => by
    refine (handleUart0Irq_served hmode hier).bind fun u₁ p vs u' log rest p' h hx hserves => ?_
    obtain ⟨byte, rfl, hp⟩ := h
    obtain ⟨bytes, hlen, rfl, hp'⟩ :=
      handleUart0Irqs_served hmode hier n p vs u' log rest p' hp hx hserves
    refine ⟨byte :: bytes, by rw [List.length_cons, hlen], ?_, ?_⟩
    · rw [Function.update_idem, Function.update_self]
      rfl
    · rw [List.append_assoc, List.append_assoc, ← LineEnds.sent_append] at hp'
      exact hp'

/-- Bytes may arrive at any time. From a port that is set up, as many are taken as the handler is
called, in the order they arrived; each is echoed and queued, and none twice. -/
theorem console_echoes {u' : UartBuffers} {n : ℕ} {vs rest : List UInt32} {log : List BusAccess}
    (hready : Ready initial f p.config) (hp : p.resetting = false)
    (hrun : handleUart0Irqs n u vs = some ⟨u', log, rest⟩)
    (hserves : (Port.device uart0Base initial).Serves p log p') :
    p'.config = p.config ∧ ∃ new bytes, p'.arrived = p.arrived ++ new ∧
      p.fifo ++ new = bytes ++ p'.fifo ∧ bytes.length = n ∧
      p'.wire ++ p'.holding.toList =
        p.wire ++ p.holding.toList ++ sentText (bytes.map receivedChar) ∧
      ∀ q, (u 0).Queued q → q.length + n ≤ charBufferSize →
        (u' 0).Queued (q ++ bytes.map receivedChar) := by
  have hstart : Served p.config (p.wire ++ p.holding.toList) p [] p :=
    ⟨⟨rfl, hp, rfl⟩, took_nil p⟩
  obtain ⟨bytes, hlen, rfl, ⟨hconfig, -, hgiven⟩, new, harrived, hfifo⟩ :=
    handleUart0Irqs_served hready.operational hready.ier n p vs u' log rest p' hstart hrun hserves
  refine ⟨hconfig, new, bytes, harrived, hfifo, hlen, hgiven, fun q hq hroom => ?_⟩
  rw [Function.update_self]
  exact pushAll_queued hq (by rwa [List.length_map, hlen])

/-- The configuration of a port that is set up. -/
def readyConfig : Config :=
  ⟨line8n1.lcr, 0, 0x40, 0x07, 0, 0, 0x1A, 0x00, 0x01, 0, 0x8⟩

/-- `"a"` and a carriage return have arrived. -/
def typed : Port := ⟨readyConfig, false, none, [], [0x61, 0x0D], [0x61, 0x0D]⟩

theorem readyConfig_ready : Ready resetConfig line8n1 readyConfig :=
  ⟨rfl, ⟨rfl, rfl⟩, rfl, rfl, ⟨rfl, rfl, rfl⟩, rfl, rfl, rfl⟩

theorem console_echoes_typed : ∃ (p' : Port) (u' : UartBuffers) (new bytes : List UInt8),
    p'.config = readyConfig ∧ p'.arrived = [0x61, 0x0D] ++ new ∧
      [0x61, 0x0D] ++ new = bytes ++ p'.fifo ∧ bytes.length = 2 ∧
      p'.wire ++ p'.holding.toList = [] ++ [] ++ sentText (bytes.map receivedChar) ∧
      ∀ q, (zeroed 0).Queued q → q.length + 2 ≤ charBufferSize →
        (u' 0).Queued (q ++ bytes.map receivedChar) := by
  have hserved : ((handleUart0Irqs 2 zeroed
      [0x21, 0x61, 0x21, 0x21, 0x0D, 0x20, 0x20]).bind fun r =>
      r.log.foldlM (Port.serve uart0Base resetConfig) typed).isSome := by
    decide +kernel
  obtain ⟨p', hp'⟩ := Option.isSome_iff_exists.1 hserved
  obtain ⟨⟨u', log, rest⟩, hrun, hlog⟩ := Option.bind_eq_some_iff.1 hp'
  have hserves := serves_of_foldlM (fun _ _ _ => serve_access) hlog
  obtain ⟨hconfig, new, bytes, h⟩ := console_echoes readyConfig_ready rfl hrun hserves
  exact ⟨p', u', new, bytes, hconfig, h⟩

theorem handleUart1Irqs_served (hmode : g.mode = .operational) (hier : g.ier = 0x01) :
    ∀ (n : ℕ) {taken : List UInt8} {u : UartBuffers},
      (Port.device uart1Base initial).Triple (Served g w p₀ taken) (handleUart1Irqs n u)
        fun u' p => ∃ bytes, bytes.length = n ∧ u' = bytes.foldl Uart.handleUart1Irq u ∧
          Served g w p₀ (taken ++ bytes) p
  | 0, taken, u => .pure fun p h => ⟨[], rfl, rfl, by rwa [List.append_nil]⟩
  | n + 1, taken, u => by
    refine (handleUart1Irq_served hmode hier).bind fun u₁ p vs u' log rest p' h hx hserves => ?_
    obtain ⟨byte, rfl, hp⟩ := h
    obtain ⟨bytes, hlen, rfl, hp'⟩ :=
      handleUart1Irqs_served hmode hier n p vs u' log rest p' hp hx hserves
    rw [List.append_assoc] at hp'
    exact ⟨byte :: bytes, by rw [List.length_cons, hlen], rfl, hp'⟩

/-- With UART1 the handler is, over the registers, the one that is handed the byte: as many bytes
are handed to it as it is called, those that arrived, in their order. -/
theorem uart1_hands_over {u' : UartBuffers} {n : ℕ} {vs rest : List UInt32} {log : List BusAccess}
    (hready : Ready initial f p.config) (hp : p.resetting = false)
    (hrun : handleUart1Irqs n u vs = some ⟨u', log, rest⟩)
    (hserves : (Port.device uart1Base initial).Serves p log p') :
    p'.config = p.config ∧ ∃ new bytes, p'.arrived = p.arrived ++ new ∧
      p.fifo ++ new = bytes ++ p'.fifo ∧ bytes.length = n ∧
      u' = bytes.foldl Uart.handleUart1Irq u := by
  have hstart : Served p.config (p.wire ++ p.holding.toList) p [] p :=
    ⟨⟨rfl, hp, rfl⟩, took_nil p⟩
  obtain ⟨bytes, hlen, hu', ⟨hconfig, -, -⟩, new, harrived, hfifo⟩ :=
    handleUart1Irqs_served hready.operational hready.ier n p vs u' log rest p' hstart hrun hserves
  exact ⟨hconfig, new, bytes, harrived, hfifo, hlen, hu'⟩

theorem uart1_hands_over_typed : ∃ (p' : Port) (u' : UartBuffers) (new bytes : List UInt8),
    p'.config = readyConfig ∧ p'.arrived = [0x61, 0x0D] ++ new ∧
      [0x61, 0x0D] ++ new = bytes ++ p'.fifo ∧ bytes.length = 2 ∧
      u' = bytes.foldl Uart.handleUart1Irq zeroed := by
  have hserved : ((handleUart1Irqs 2 zeroed [0x21, 0x61, 0x21, 0x0D]).bind fun r =>
      r.log.foldlM (Port.serve uart1Base resetConfig) typed).isSome := by
    decide +kernel
  obtain ⟨p', hp'⟩ := Option.isSome_iff_exists.1 hserved
  obtain ⟨⟨u', log, rest⟩, hrun, hlog⟩ := Option.bind_eq_some_iff.1 hp'
  have hserves := serves_of_foldlM (fun _ _ _ => serve_access) hlog
  obtain ⟨hconfig, new, bytes, h⟩ := uart1_hands_over readyConfig_ready rfl hrun hserves
  exact ⟨p', u', new, bytes, hconfig, h⟩

end BeagleKernel.Serial
