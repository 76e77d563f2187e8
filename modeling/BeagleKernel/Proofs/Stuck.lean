import BeagleKernel.Lib.Runs
import BeagleKernel.Proofs.Readline

/-!
# A full buffer without a newline

Nothing takes a character off such a buffer, since a read waits for a newline, and nothing puts
a newline on it, since it is full. It comes about by one step only, the character that fills it
(`step_stuck`), and it is the only state in which a line that arrives is not read.
-/

namespace BeagleKernel.Uart

/-- A newline that arrives next is read by the next call. -/
def Answers (u : UartBuffers) : Prop :=
  ∀ byte, byte = newline ∨ byte = carriageReturn → ∀ buffer (size : UInt32), 2 ≤ size.toNat →
    (uartReadline (handleUart1Irq u byte) 1 buffer size).1 ≠ 0

/-- The step puts the 512th character in the buffer, and none of them is a newline. -/
def FillsUp (x : UartBuffers × Event) : Prop :=
  ∃ byte, x.2 = .receive byte ∧ byte ≠ newline ∧ byte ≠ carriageReturn ∧
    (x.1 1).size + 1 = charBufferSize ∧ (x.1 1).lines = 0

/-- The queue a line can no longer get through. -/
def Stuck (q : List UInt8) : Prop := q.length = charBufferSize ∧ newline ∉ q

variable {u u' u₀ : UartBuffers} {q : List UInt8} {e : Event} {as : List (UartBuffers × Event)}

theorem receivedChar_eq_newline {byte : UInt8} :
    receivedChar byte = newline ↔ byte = newline ∨ byte = carriageReturn := by
  unfold receivedChar
  split_ifs with h
  · simp [h]
  · simp [h]

theorem room_pos {size : UInt32} (h : 2 ≤ size.toNat) : 0 < (size - 1).toNat := by
  have hone : (1 : UInt32).toNat = 1 := rfl
  rw [UInt32.toNat_sub_of_le _ _ (UInt32.le_iff_toNat_le.2 (by omega)), hone]
  omega

theorem uartReadline_ne_zero (hq : (u 1).Queued q) (hn : newline ∈ q) (buffer : ℕ → UInt8)
    {size : UInt32} (hsize : 2 ≤ size.toNat) : (uartReadline u 1 buffer size).1 ≠ 0 := by
  obtain ⟨b, hread, -⟩ := uartReadline_one hq hn buffer size
  rw [hread]
  have := lineOf_ne_nil (room_pos hsize) (List.ne_nil_of_mem hn)
  simpa using this

theorem answers_iff_not_stuck (hq : (u 1).Queued q) : Answers u ↔ ¬ Stuck q := by
  constructor
  · rintro h ⟨hfull, hn⟩
    have h2 : (2 : UInt32).toNat = 2 := rfl
    refine h newline (.inl rfl) (fun _ => 0) 2 (by rw [h2]) ?_
    rw [handleUart1Irq_full hq hfull, uartReadline_one_none hq hn]
  · intro h byte hbyte buffer size hsize
    have hc := receivedChar_eq_newline.2 hbyte
    rcases hq.length_le.lt_or_eq with hlt | hfull
    · obtain ⟨b, hirq, hb⟩ := handleUart1Irq_room hq hlt byte
      rw [hirq]
      refine uartReadline_ne_zero (q := q ++ [newline]) ?_ (by simp) buffer hsize
      rwa [Function.update_self, ← hc]
    · rw [handleUart1Irq_full hq hfull]
      refine uartReadline_ne_zero hq ?_ buffer hsize
      by_contra hn
      exact h ⟨hfull, hn⟩

theorem fillsUp_receive (hq : (u 1).Queued q) (byte : UInt8) :
    FillsUp (u, .receive byte) ↔
      q.length + 1 = charBufferSize ∧ newline ∉ q ∧ newline ≠ receivedChar byte := by
  rw [ne_comm, Ne, receivedChar_eq_newline, not_or, ← hq.lines_eq_zero_iff, ← hq.size]
  constructor
  · rintro ⟨byte', heq, hn, hr, hsize, hlines⟩
    cases heq
    exact ⟨hsize, hlines, hn, hr⟩
  · rintro ⟨hsize, hlines, hn, hr⟩
    exact ⟨byte, rfl, hn, hr, hsize, hlines⟩

/-- What a step does to the queue: it is stuck after the step if it was before, or the step filled
it up. -/
theorem step_stuck (hq : (u 1).Queued q) (hok : e.Ok) (h : Step e u u') :
    ∃ q', (u' 1).Queued q' ∧ (Stuck q' ↔ Stuck q ∨ FillsUp (u, e)) := by
  rcases e with byte | ⟨buffer, size⟩
  · simp only [Step, Event.exec] at h
    rcases hq.length_le.lt_or_eq with hlt | hfull
    · obtain ⟨b, hirq, hb⟩ := handleUart1Irq_room hq hlt byte
      rw [hirq] at h
      subst h
      refine ⟨_, by rwa [Function.update_self], ?_⟩
      rw [fillsUp_receive hq, Stuck, Stuck, or_iff_right (fun h => by omega)]
      simp
    · rw [handleUart1Irq_full hq hfull] at h
      subst h
      refine ⟨q, hq, ?_⟩
      rw [or_iff_left]
      rintro ⟨_, -, -, -, hsize, -⟩
      simp only [hq.size] at hsize
      omega
  · simp only [Step, Event.exec] at h
    by_cases hn : newline ∈ q
    · obtain ⟨b, hread, hb⟩ := uartReadline_one hq hn buffer size
      rw [hread] at h
      subst h
      refine ⟨_, by simpa using hb, ?_⟩
      have hpos := List.length_pos_iff.2 (lineOf_ne_nil (room_pos hok) (List.ne_nil_of_mem hn))
      have hle := hq.length_le
      refine iff_of_false ?_ (not_or.2 ⟨fun h => h.2 hn, ?_⟩)
      · rintro ⟨hfull, -⟩
        rw [List.length_drop] at hfull
        have hsize : charBufferSize = 512 := rfl
        omega
      · rintro ⟨_, heq, -⟩
        cases heq
    · rw [uartReadline_one_none hq hn] at h
      subst h
      refine ⟨q, hq, ?_⟩
      simp [FillsUp]

/-- UART1 is stuck after a run exactly if it was filled up on the way. -/
theorem run_stuck (h : Run Step (uartInit u₀ 1) as u) (hok : ∀ x ∈ as, x.2.Ok) :
    (∃ q, (u 1).Queued q ∧ (Stuck q ↔ ∃ x ∈ as, FillsUp x)) ∧
      ∀ x ∈ as, Answers x.1 ∨ ∃ y ∈ as, FillsUp y := by
  induction h with
  | nil => exact ⟨⟨[], uartInit_queued u₀, by simp [Stuck]⟩, by simp⟩
  | @snoc as u u' e run last ih =>
    obtain ⟨⟨q, hq, hstuck⟩, hbefore⟩ := ih fun x hx => hok x (List.mem_append_left _ hx)
    obtain ⟨q', hq', hstep⟩ := step_stuck hq (hok (u, e) (by simp)) last
    refine ⟨⟨q', hq', ?_⟩, fun x hx => ?_⟩
    · rw [hstep, hstuck]
      simp only [List.mem_append, List.mem_singleton, or_and_right, exists_or, exists_eq_left]
    · rcases List.mem_append.1 hx with hx | hx
      · refine (hbefore x hx).imp_right ?_
        rintro ⟨y, hy, hfill⟩
        exact ⟨y, List.mem_append_left _ hy, hfill⟩
      · obtain rfl := List.mem_singleton.1 hx
        by_cases hs : Stuck q
        · obtain ⟨y, hy, hfill⟩ := hstuck.1 hs
          exact .inr ⟨y, List.mem_append_left _ hy, hfill⟩
        · exact .inl ((answers_iff_not_stuck hq).2 hs)

/-- Over a run, a newline that arrives is read by the next call in every state exactly if no
character fills the buffer up without a newline in it. -/
theorem answers_iff (h : Run Step (uartInit u₀ 1) as u) (hok : ∀ x ∈ as, x.2.Ok) :
    ((∀ x ∈ as, Answers x.1) ∧ Answers u) ↔ ∀ x ∈ as, ¬ FillsUp x := by
  obtain ⟨⟨q, hq, hstuck⟩, hbefore⟩ := run_stuck h hok
  rw [answers_iff_not_stuck hq, hstuck]
  constructor
  · rintro ⟨-, hnone⟩ x hx hfill
    exact hnone ⟨x, hx, hfill⟩
  · intro hnone
    refine ⟨fun x hx => (hbefore x hx).resolve_right ?_, ?_⟩
    all_goals
      rintro ⟨y, hy, hfill⟩
      exact hnone y hy hfill

/-! ## The state that is stuck -/

theorem receive_run (byte : UInt8) : ∀ n ≤ charBufferSize, ∃ as u,
    Run Step (uartInit u₀ 1) as u ∧ (∀ x ∈ as, x.2.Ok) ∧
      (u 1).Queued (List.replicate n (receivedChar byte))
  | 0, _ => ⟨[], _, .nil, by simp, uartInit_queued u₀⟩
  | n + 1, hn => by
    obtain ⟨as, u, hrun, hok, hq⟩ := receive_run byte n (Nat.le_of_succ_le hn)
    obtain ⟨b, hirq, hb⟩ := handleUart1Irq_room hq (by rw [List.length_replicate]; exact hn) byte
    refine ⟨as ++ [(u, .receive byte)], Function.update u 1 b, hrun.snoc ?_, ?_, ?_⟩
    · exact hirq
    · intro x hx
      rcases List.mem_append.1 hx with hx | hx
      · exact hok x hx
      · rw [List.mem_singleton.1 hx]
        trivial
    · rwa [Function.update_self, List.replicate_succ']

/-- After 512 characters without a newline no line is ever read again. -/
theorem full_without_newline_stuck :
    ¬ ∀ (u₀ : UartBuffers) as u, Run Step (uartInit u₀ 1) as u → (∀ x ∈ as, x.2.Ok) →
      Answers u := by
  intro h
  obtain ⟨as, u, hrun, hok, hq⟩ :=
    @receive_run zeroed 0x61 charBufferSize (Nat.le_refl _)
  refine (answers_iff_not_stuck hq).1 (h _ as u hrun hok) ⟨List.length_replicate, ?_⟩
  rw [List.mem_replicate]
  rintro ⟨-, hc⟩
  exact absurd hc (by decide)

/-- A line arrives, and is read. -/
theorem answers_iff_line : ∃ as u, Run Step (uartInit zeroed 1) as u ∧ as.map Prod.snd =
      [.receive 0x61, .receive newline, .readline (fun _ => 0) 10] ∧
    (((∀ x ∈ as, Answers x.1) ∧ Answers u) ↔ ∀ x ∈ as, ¬ FillsUp x) := by
  have step (e : Event) (u : UartBuffers) : Step e u (e.exec u) := rfl
  have hrun := ((Run.single (step (.receive 0x61) (uartInit zeroed 1))).snoc
    (step (.receive newline) _)).snoc (step (.readline (fun _ => 0) 10) _)
  refine ⟨_, _, hrun, rfl, answers_iff hrun fun x hx => ?_⟩
  simp only [List.mem_append, List.mem_singleton] at hx
  rcases hx with (rfl | rfl) | rfl
  · trivial
  · trivial
  · exact (by decide : 2 ≤ (10 : UInt32).toNat)

end BeagleKernel.Uart
