import BeagleKernel.Proofs.Lines
import Mathlib.Data.List.Basic

/-!
# The buffer of the motor task

`motor_task` has ten bytes for a line and tells `uart_readline` it has a hundred. The line a call
reads is in the receive buffer when it begins, so what the call writes is settled then, whatever
arrives in the meantime (`Reading`): it stays inside exactly if the line is of nine characters at
most, its newline included.
-/

namespace BeagleKernel.Uart

/-- `char uart_buffer[10]`. -/
abbrev uartBufferLength : ℕ := 10

/-- The index of the caller's buffer a step writes: a round stores the character it gets, and the
return the `NUL`. -/
def Port.writes (p : Port) : Action → Option ℕ
  | .round => p.call.bind fun c => (uartGetchar p.uart 1).1.map fun _ => c.i
  | .ret => p.call.map Call.i
  | _ => none

/-- The queue in the receive buffer. -/
def Port.queue (p : Port) : List UInt8 :=
  (List.range (p.uart 1).size).map fun i =>
    (p.uart 1).buffer (((p.uart 1).head + i) % charBufferSize)

/-- The calls are those of `motor_task`. -/
def MotorCalls (as : List (Port × Action)) : Prop :=
  ∀ x ∈ as, ∀ buffer size, x.2 = .call buffer size → size = 100

/-- All that is written is inside `uart_buffer`. -/
def WritesInside (as : List (Port × Action)) : Prop :=
  ∀ x ∈ as, ∀ i, x.1.writes x.2 = some i → i < uartBufferLength

/-- The calls read lines of nine characters at most, with their newlines. -/
def ShortLines (as : List (Port × Action)) : Prop :=
  ∀ x ∈ as, ∀ buffer size, x.2 = .call buffer size → newline ∈ x.1.queue →
    x.1.queue.idxOf newline + 1 < uartBufferLength

variable {as : List (Port × Action)} {p p' : Port} {a : Action} {c : Call} {q : List UInt8}
  {u₀ : UartBuffers}

theorem queue_eq (h : (p.uart 1).Queued q) : p.queue = q := by
  rw [Port.queue, h.size]
  exact h.holds.eq_map.symm

theorem writesInside_snoc : WritesInside (as ++ [(p, a)]) ↔
    WritesInside as ∧ ∀ i, p.writes a = some i → i < uartBufferLength := by
  simp only [WritesInside, List.forall_mem_append, List.forall_mem_singleton]

theorem shortLines_snoc : ShortLines (as ++ [(p, a)]) ↔ ShortLines as ∧
    ∀ buffer size, a = .call buffer size → newline ∈ p.queue →
      p.queue.idxOf newline + 1 < uartBufferLength := by
  simp only [ShortLines, List.forall_mem_append, List.forall_mem_singleton]

/-- The place of the newline of the line that is read, in what is stored and what is queued. -/
def Call.newlineAt (c : Call) (q : List UInt8) : ℕ := (c.line ++ q).idxOf newline

/-- The call reads a line that is there to its end. -/
structure Reading (c : Call) (q : List UInt8) : Prop where
  limit : c.limit = 99
  line : newline ∈ c.line ++ q
  looping : c.looping = true → newline ∉ c.line
  stopped : c.looping = false → c.i = c.newlineAt q + 1

/-- What a run of `motor_task`'s calls keeps: they have stayed inside exactly if the lines were
short, where a call that is going on has still to write the end of its line. -/
structure MotorRun (as : List (Port × Action)) (p : Port) (q : List UInt8) : Prop where
  queued : (p.uart 1).Queued q
  idle : p.call = none → (WritesInside as ↔ ShortLines as)
  reading : ∀ c, p.call = some c → Reading c q
  short : ∀ c, p.call = some c →
    (ShortLines as ↔ WritesInside as ∧ c.newlineAt q + 1 < uartBufferLength)

theorem motorRun_start : MotorRun [] (Port.start u₀) [] where
  queued := uartInit_queued u₀
  idle _ := by simp [WritesInside, ShortLines]
  reading := by simp [Port.start]
  short := by simp [Port.start]

theorem Reading.append (h : Reading c q) (l : List UInt8) :
    Reading c (q ++ l) ∧ c.newlineAt (q ++ l) = c.newlineAt q := by
  have hat : c.newlineAt (q ++ l) = c.newlineAt q := by
    rw [Call.newlineAt, ← List.append_assoc, List.idxOf_append_of_mem h.line]
    rfl
  refine ⟨⟨h.limit, ?_, h.looping, fun hs => ?_⟩, hat⟩
  · rw [← List.append_assoc]
    exact List.mem_append_left l h.line
  · rw [hat]
    exact h.stopped hs

theorem Reading.le (h : Reading c q) (hl : c.looping = true) : c.i ≤ c.newlineAt q := by
  rw [Call.newlineAt, List.idxOf_append_of_notMem (h.looping hl), Call.line_length]
  exact Nat.le_add_right _ _

section

variable (h : MotorRun as p q)

include h

theorem MotorRun.receive {byte : UInt8} (hs : (Action.receive byte).exec p = some p') :
    ∃ q', MotorRun (as ++ [(p, .receive byte)]) p' q' := by
  obtain ⟨hcall, q', hq', hadd⟩ := receive_room h.queued hs
  have hinside : WritesInside (as ++ [(p, Action.receive byte)]) ↔ WritesInside as := by
    simp [writesInside_snoc, Port.writes]
  have hshort : ShortLines (as ++ [(p, Action.receive byte)]) ↔ ShortLines as := by
    simp [shortLines_snoc]
  obtain ⟨l, rfl⟩ : ∃ l, q' = q ++ l := by
    split_ifs at hadd
    · exact ⟨_, hadd⟩
    · exact ⟨[], by rw [hadd, List.append_nil]⟩
  refine ⟨q ++ l, hq', ?_, ?_, ?_⟩
  · rw [hcall, hinside, hshort]
    exact h.idle
  · rw [hcall]
    exact fun c hc => ((h.reading c hc).append l).1
  · rw [hcall, hinside, hshort]
    intro c hc
    rw [((h.reading c hc).append l).2]
    exact h.short c hc

theorem MotorRun.call {buffer : ℕ → UInt8} (hs : (Action.call buffer 100).exec p = some p') :
    MotorRun (as ++ [(p, .call buffer 100)]) p' q := by
  have hinside : WritesInside (as ++ [(p, Action.call buffer 100)]) ↔ WritesInside as := by
    simp [writesInside_snoc, Port.writes]
  have hshort : ShortLines (as ++ [(p, Action.call buffer 100)]) ↔ ShortLines as ∧
      (newline ∈ q → q.idxOf newline + 1 < uartBufferLength) := by
    simp [shortLines_snoc, queue_eq h.queued]
  simp only [Action.exec] at hs
  split_ifs at hs with hbusy hnone
  · cases hs
    have hn : newline ∉ q := h.queued.lines_eq_zero_iff.1 hnone
    have hidle : p.call = none := by simpa using hbusy
    refine ⟨h.queued, fun _ => ?_, by simp [hidle], by simp [hidle]⟩
    rw [hinside, hshort, h.idle hidle]
    simp [hn]
  · cases hs
    have hn : newline ∈ q := by
      by_contra hn
      exact hnone (h.queued.lines_eq_zero_iff.2 hn)
    have hidle : p.call = none := by simpa using hbusy
    refine ⟨h.queued, by simp, fun c hc => ?_, fun c hc => ?_⟩
    · cases hc
      exact ⟨rfl, by simpa [Call.line] using hn, by simp [Call.line], by simp⟩
    · cases hc
      rw [hinside, hshort, h.idle hidle]
      simp [Call.newlineAt, Call.line, hn]

theorem MotorRun.round (hs : Action.round.exec p = some p') :
    ∃ q', MotorRun (as ++ [(p, .round)]) p' q' := by
  obtain ⟨c, hc, hs⟩ := Option.bind_eq_some_iff.1 hs
  split_ifs at hs with hloop
  cases hs
  have hreading := h.reading c hc
  have hle := hreading.le hloop.1
  have hline := hreading.line
  -- what is still to come of the line is queued
  rcases q with _ | ⟨b, q⟩
  · rw [List.append_nil] at hline
    exact absurd hline (hreading.looping hloop.1)
  obtain ⟨d, hget, hd⟩ := @uartGetchar_cons p.uart 1 (by decide) q b h.queued
  have hinside : WritesInside (as ++ [(p, Action.round)]) ↔
      WritesInside as ∧ c.i < uartBufferLength := by
    simp [writesInside_snoc, Port.writes, hc, hget]
  have hshort : ShortLines (as ++ [(p, Action.round)]) ↔ ShortLines as := by
    simp [shortLines_snoc]
  set c' : Call := ⟨c.limit, c.i + 1, Function.update c.buffer c.i b, b ≠ newline⟩ with hc'
  have hround : c.round p.uart = ⟨Function.update p.uart 1 d, some c'⟩ := by
    rw [Call.round, hget]
    rfl
  have hline' : c'.line ++ q = c.line ++ b :: q := by
    rw [hc', Call.line_update, List.append_assoc]
    rfl
  have hat : c'.newlineAt q = c.newlineAt (b :: q) := by rw [Call.newlineAt, hline']; rfl
  rw [hround]
  refine ⟨q, ?_, by simp, fun c₁ hc₁ => ?_, fun c₁ hc₁ => ?_⟩
  · simpa using hd
  · cases hc₁
    refine ⟨hreading.limit, by rwa [hline'], fun hb => ?_, fun hb => ?_⟩
    · have hb' : b ≠ newline := by simpa [hc'] using hb
      rw [hc', Call.line_update]
      simp [hreading.looping hloop.1, Ne.symm hb']
    · have hb' : b = newline := by simpa [hc'] using hb
      rw [hat, Call.newlineAt, List.idxOf_append_of_notMem (hreading.looping hloop.1), hb',
        List.idxOf_cons_self, Call.line_length]
  · cases hc₁
    rw [hinside, hshort, hat, h.short c hc]
    constructor
    · rintro ⟨hin, hlt⟩
      exact ⟨⟨hin, by omega⟩, hlt⟩
    · rintro ⟨⟨hin, -⟩, hlt⟩
      exact ⟨hin, hlt⟩

theorem MotorRun.ret (hs : Action.ret.exec p = some p') :
    MotorRun (as ++ [(p, .ret)]) p' q := by
  obtain ⟨c, hc, hs⟩ := Option.bind_eq_some_iff.1 hs
  split_ifs at hs with hloop
  cases hs
  have hreading := h.reading c hc
  have hinside : WritesInside (as ++ [(p, Action.ret)]) ↔
      WritesInside as ∧ c.i < uartBufferLength := by
    simp [writesInside_snoc, Port.writes, hc]
  have hshort : ShortLines (as ++ [(p, Action.ret)]) ↔ ShortLines as := by
    simp [shortLines_snoc]
  refine ⟨h.queued, fun _ => ?_, nofun, nofun⟩
  rw [hinside, hshort, h.short c hc]
  refine and_congr_right fun _ => ?_
  rcases hl : c.looping with _ | _
  · rw [hreading.stopped hl]
  · -- out of room, so at index 99 before the newline
    have hfull : ¬ c.i < c.limit := fun hi => hloop ⟨hl, hi⟩
    have hle := hreading.le hl
    have hten : uartBufferLength = 10 := rfl
    rw [hreading.limit] at hfull
    exact iff_of_false (fun hi => by omega) (fun hi => by omega)

theorem MotorRun.step (hcall : MotorCalls (as ++ [(p, a)])) (hs : PortStep a p p') :
    ∃ q', MotorRun (as ++ [(p, a)]) p' q' := by
  rcases a with byte | ⟨buffer, size⟩ | _ | _
  · exact h.receive hs
  · obtain rfl := hcall _ (List.mem_append_right _ (List.mem_singleton_self _)) buffer size rfl
    exact ⟨q, h.call hs⟩
  · exact h.round hs
  · exact ⟨q, h.ret hs⟩

end

theorem run_motorRun (h : Run PortStep (Port.start u₀) as p) (hcall : MotorCalls as) :
    ∃ q, MotorRun as p q := by
  induction h with
  | nil => exact ⟨[], motorRun_start⟩
  | snoc run last ih =>
    obtain ⟨q, hq⟩ := ih fun x hx => hcall x (List.mem_append_left _ hx)
    exact hq.step hcall last

/-- Over a run, the calls stay inside their buffer if the lines they read are short, and only
then, once the last one has returned. -/
theorem writesInside_iff (h : Run PortStep (Port.start u₀) as p) (hcall : MotorCalls as) :
    (ShortLines as → WritesInside as) ∧ (p.call = none → WritesInside as → ShortLines as) := by
  obtain ⟨q, hq⟩ := run_motorRun h hcall
  refine ⟨fun hshort => ?_, fun hidle => (hq.idle hidle).1⟩
  rcases hp : p.call with _ | c
  · exact (hq.idle hp).2 hshort
  · exact ((hq.short c hp).1 hshort).1

/-- The task reads a line that has arrived. -/
theorem line_run {line : List UInt8} (hline : newline ∈ line) (hlen : line.length ≤ charBufferSize)
    (hplain : line.map receivedChar = line) : ∃ as p, Run PortStep (Port.start zeroed) as p ∧
      MotorCalls as ∧ p.call = none ∧ results as = [lineOf 99 line] := by
  obtain ⟨as₁, p₁, hrun₁, hidle, hq, -, hres₁, hall⟩ :=
    arrive_run line (p := Port.start zeroed) (q := []) rfl (uartInit_queued _) (by simpa using hlen)
  rw [hplain, List.nil_append] at hq
  obtain ⟨as₂, p₂, hrun₂, hidle₂, -, -, hres₂, hsize⟩ := read_run hidle hq hline 100
  refine ⟨_, p₂, hrun₁.trans hrun₂, fun x hx buffer size heq => ?_, hidle₂, ?_⟩
  · rcases List.mem_append.1 hx with hx | hx
    · obtain ⟨-, byte, hbyte⟩ := hall x hx
      rw [hbyte] at heq
      cases heq
    · exact hsize x hx buffer size heq
  · rw [results_append, hres₁, hres₂]
    rfl

/-- A line of two characters is read. -/
theorem writesInside_iff_read : ∃ as p, Run PortStep (Port.start zeroed) as p ∧
    results as = [[0x61, newline]] ∧ (ShortLines as → WritesInside as) ∧
      (p.call = none → WritesInside as → ShortLines as) := by
  obtain ⟨as, p, hrun, hcall, -, hres⟩ :=
    @line_run [0x61, newline] (by decide) (by decide) (by decide)
  exact ⟨as, p, hrun, hres, writesInside_iff hrun hcall⟩

theorem ret_of_results {l : List UInt8} (h : l ∈ results as) :
    ∃ x ∈ as, x.2 = .ret ∧ x.1.writes x.2 = some l.length := by
  obtain ⟨⟨p, a⟩, hx, hl⟩ := List.mem_filterMap.1 h
  cases a with
  | ret =>
    obtain ⟨c, hc, rfl⟩ := Option.map_eq_some_iff.1 hl
    exact ⟨_, hx, rfl, by simp [Port.writes, show p.call = some c from hc]⟩
  | _ => cases hl

/-- A line of ten characters puts the `NUL` past the end. -/
theorem ten_characters_overrun : ¬ ∀ (u₀ : UartBuffers) as p, Run PortStep (Port.start u₀) as p →
    MotorCalls as → WritesInside as := by
  intro h
  obtain ⟨as, p, hrun, hcall, -, hres⟩ :=
    @line_run (List.replicate 9 0x61 ++ [newline]) (by decide) (by decide) (by decide)
  obtain ⟨x, hx, -, hwrites⟩ := ret_of_results (hres ▸ List.mem_singleton_self _)
  have hlt := h zeroed as p hrun hcall x hx _ hwrites
  exact absurd hlt (by decide)

end BeagleKernel.Uart
