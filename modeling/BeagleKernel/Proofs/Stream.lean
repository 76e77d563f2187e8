import BeagleKernel.Lib.Pieces
import BeagleKernel.Proofs.MotorBuffer
import BeagleKernel.Proofs.OneLine

/-!
# What becomes of the stream

Whatever the order in which bytes arrive and calls go on, what the calls have returned, what the
one that is going on has stored and what is in the receive buffer are together the bytes that found
room there, in their order (`delivered_once`). Where each call has the same room, the stream alone
settles what they return (`reads_pieces`).
-/

namespace BeagleKernel.Uart

variable {p p' : Port} {a : Action} {as bs : List (Port × Action)} {c : Call} {q : List UInt8}
  {u₀ : UartBuffers} {room : ℕ} {size : UInt32}

/-- The bytes of a run that found room in the receive buffer. -/
def accepted (as : List (Port × Action)) : List UInt8 :=
  as.filterMap fun x => match x.2 with
    | .receive byte => if x.1.room then some (receivedChar byte) else none
    | _ => none

/-- All calls of a run have the same size. -/
def CallsOf (size : UInt32) (as : List (Port × Action)) : Prop :=
  ∀ x ∈ as, ∀ buffer s, x.2 = .call buffer s → s = size

theorem accepted_receive (as : List (Port × Action)) (p : Port) (byte : UInt8) :
    accepted (as ++ [(p, .receive byte)]) =
      accepted as ++ if p.room then [receivedChar byte] else [] := by
  rcases hr : p.room with _ | _ <;> simp [accepted, hr]

theorem accepted_quiet (as : List (Port × Action)) (p : Port) (ha : ∀ byte, a ≠ .receive byte) :
    accepted (as ++ [(p, a)]) = accepted as := by
  rcases a with byte | ⟨buffer, size⟩ | _ | _
  · exact absurd rfl (ha byte)
  all_goals simp [accepted]

/-- All that was accepted is where it belongs. -/
structure Conserved (as : List (Port × Action)) (p : Port) (q : List UInt8) : Prop where
  queued : (p.uart 1).Queued q
  chars : (results as).flatten ++ (p.stored ++ q) = accepted as

theorem conserved_start : Conserved [] (Port.start u₀) [] where
  queued := uartInit_queued u₀
  chars := rfl

/-- A round of a call takes the character at the front of the queue, if there is one. -/
theorem round_cases (hc : p.call = some c) (hq : (p.uart 1).Queued q)
    (hs : Action.round.exec p = some p') : (c.looping = true ∧ c.i < c.limit) ∧
    (q = [] ∧ p' = ⟨p.uart, some { c with looping := false }⟩ ∨
      ∃ b q' d, q = b :: q' ∧ d.Queued q' ∧ p' = ⟨Function.update p.uart 1 d,
        some ⟨c.limit, c.i + 1, Function.update c.buffer c.i b, b ≠ newline⟩⟩) := by
  simp only [Action.exec, hc, Option.bind_some] at hs
  split_ifs at hs with hloop
  cases hs
  refine ⟨hloop, ?_⟩
  rcases q with _ | ⟨b, q⟩
  · have hget := @uartGetchar_nil p.uart 1 (by decide) hq
    exact .inl ⟨rfl, by rw [Call.round, hget]⟩
  · obtain ⟨d, hget, hd⟩ := @uartGetchar_cons p.uart 1 (by decide) q b hq
    exact .inr ⟨b, q, d, rfl, hd, by rw [Call.round, hget]; rfl⟩

theorem call_cases {buffer : ℕ → UInt8} (hs : (Action.call buffer size).exec p = some p') :
    p.call = none ∧ ((p.uart 1).lines = 0 ∧ p' = p ∨
      (p.uart 1).lines ≠ 0 ∧ p' = { p with call := some ⟨(size - 1).toNat, 0, buffer, true⟩ }) := by
  simp only [Action.exec] at hs
  split_ifs at hs with hbusy hnone
  · cases hs
    exact ⟨by simpa using hbusy, .inl ⟨hnone, rfl⟩⟩
  · cases hs
    exact ⟨by simpa using hbusy, .inr ⟨hnone, rfl⟩⟩

theorem ret_cases (hs : Action.ret.exec p = some p') :
    ∃ c, p.call = some c ∧ ¬ (c.looping = true ∧ c.i < c.limit) ∧ p' = { p with call := none } := by
  obtain ⟨c, hc, hs⟩ := Option.bind_eq_some_iff.1 hs
  split_ifs at hs with hloop
  cases hs
  exact ⟨c, hc, hloop, rfl⟩

theorem stored_none (h : p.call = none) : p.stored = [] := by
  rw [Port.stored, h]
  rfl

theorem stored_some (h : p.call = some c) : p.stored = c.line := by
  rw [Port.stored, h]
  rfl

theorem Conserved.step (h : Conserved as p q) (hs : PortStep a p p') :
    ∃ q', Conserved (as ++ [(p, a)]) p' q' := by
  have hchars := h.chars
  rcases a with byte | ⟨buffer, size⟩ | _ | _
  · obtain ⟨hcall, q', hq', rfl⟩ := receive_room h.queued hs
    refine ⟨_, hq', ?_⟩
    rw [accepted_receive, results_snoc (by simp), Port.stored, hcall, ← hchars]
    split_ifs <;> simp [Port.stored]
  · rw [← accepted_quiet as p (a := .call buffer size) (by simp),
      ← results_snoc (p := p) (a := .call buffer size) (by simp)] at hchars
    obtain ⟨hidle, ⟨-, rfl⟩ | ⟨-, rfl⟩⟩ := call_cases hs
    · exact ⟨q, h.queued, hchars⟩
    · rw [stored_none hidle] at hchars
      exact ⟨q, h.queued, hchars⟩
  · rw [← accepted_quiet as p (a := .round) (by simp),
      ← results_snoc (p := p) (a := .round) (by simp)] at hchars
    obtain ⟨c, hc, -⟩ := Option.bind_eq_some_iff.1 hs
    rw [stored_some hc] at hchars
    obtain ⟨-, ⟨rfl, rfl⟩ | ⟨b, q', d, rfl, hd, rfl⟩⟩ := round_cases hc h.queued hs
    · exact ⟨[], h.queued, hchars⟩
    · refine ⟨q', by simpa using hd, ?_⟩
      rw [stored_some rfl, Call.line_update, List.append_assoc]
      exact hchars
  · obtain ⟨c, hc, -, rfl⟩ := ret_cases hs
    rw [stored_some hc] at hchars
    refine ⟨q, h.queued, ?_⟩
    rw [accepted_quiet as p (by simp), results_ret hc, stored_none rfl, ← hchars]
    simp

theorem run_conserved (h : Run PortStep (Port.start u₀) as p) : ∃ q, Conserved as p q := by
  induction h with
  | nil => exact ⟨[], conserved_start⟩
  | snoc run last ih =>
    obtain ⟨q, hq⟩ := ih
    exact hq.step last

/-- Each byte that finds room is delivered once and in its place: it has been returned, is stored
by the call that is going on or is in the receive buffer. -/
theorem delivered_once (h : Run PortStep (Port.start u₀) as p) :
    (results as).flatten ++ (p.stored ++ p.queue) = accepted as := by
  obtain ⟨q, hq⟩ := run_conserved h
  rw [queue_eq hq.queued]
  exact hq.chars

/-- A line of two characters arrives, and a call with room for one of them reads it. -/
def cutRead : List (Port × Action) × Port :=
  (trace Action.exec (Port.start zeroed)
    [.receive 0x61, .call (fun _ => 0) 2, .receive newline, .call (fun _ => 0) 2, .round,
      .ret]).get (by decide +kernel)

theorem cutRead_run : Run PortStep (Port.start zeroed) cutRead.1 cutRead.2 :=
  Run.of_trace (Option.some_get _).symm

theorem delivered_once_cutRead : (results cutRead.1).flatten ++
    (cutRead.2.stored ++ cutRead.2.queue) = accepted cutRead.1 :=
  delivered_once cutRead_run

/-! ## Calls of one size -/

/-- The call takes the first piece of what is there. -/
structure Call.Takes (room : ℕ) (c : Call) (q : List UInt8) : Prop where
  limit : c.limit = room
  within : c.i ≤ room
  line : newline ∈ c.line ++ q
  looping : c.looping = true → newline ∉ c.line
  stopped : c.looping = false → ∃ body, newline ∉ body ∧ c.line = body ++ [newline]

theorem Call.Takes.append (h : c.Takes room q) (l : List UInt8) : c.Takes room (q ++ l) where
  limit := h.limit
  within := h.within
  line := by
    rw [← List.append_assoc]
    exact List.mem_append_left l h.line
  looping := h.looping
  stopped := h.stopped

/-- A call returns the first piece. -/
theorem Call.Takes.firstPiece_eq (h : c.Takes room q)
    (hleft : ¬ (c.looping = true ∧ c.i < c.limit)) :
    firstPiece newline room (c.line ++ q) = c.line := by
  have hlen : c.line.length = c.i := Call.line_length
  have hwithin := h.within
  rcases hl : c.looping with _ | _
  · obtain ⟨body, hbody, heq⟩ := h.stopped hl
    rw [heq, List.length_append, List.length_singleton] at hlen
    rw [heq, List.append_assoc, List.singleton_append, firstPiece_record hbody (by omega)]
  · -- out of room before the newline
    have hfull : ¬ c.i < room := fun hi => hleft ⟨hl, h.limit ▸ hi⟩
    rw [firstPiece, List.idxOf_append_of_notMem (h.looping hl)]
    exact List.take_left' (by omega)

/-- What has been returned is the first of the pieces, whatever comes after. -/
structure Cut (room : ℕ) (as : List (Port × Action)) (p : Port) (q : List UInt8) : Prop where
  queued : (p.uart 1).Queued q
  reads : ∀ t, pieces newline room (accepted as ++ t) =
    results as ++ pieces newline room (p.stored ++ (q ++ t))
  takes : ∀ c, p.call = some c → c.Takes room q

theorem cut_start : Cut room [] (Port.start u₀) [] where
  queued := uartInit_queued u₀
  reads _ := rfl
  takes := by simp [Port.start]

theorem Cut.quiet (h : Cut room as p q) (ha : ∀ byte, a ≠ .receive byte) (hr : a ≠ .ret)
    (t : List UInt8) : pieces newline room (accepted (as ++ [(p, a)]) ++ t) =
      results (as ++ [(p, a)]) ++ pieces newline room (p.stored ++ (q ++ t)) := by
  rw [accepted_quiet as p ha, results_snoc hr]
  exact h.reads t

theorem Cut.receive {byte : UInt8} (h : Cut room as p q)
    (hs : (Action.receive byte).exec p = some p') :
    ∃ q', Cut room (as ++ [(p, .receive byte)]) p' q' := by
  obtain ⟨hcall, q', hq', hadd⟩ := receive_room h.queued hs
  obtain ⟨l, hl, rfl⟩ : ∃ l, (if p.room then [receivedChar byte] else []) = l ∧ q' = q ++ l := by
    refine ⟨_, rfl, ?_⟩
    rw [hadd]
    split_ifs <;> simp
  refine ⟨q ++ l, hq', fun t => ?_, fun c hc => ?_⟩
  · rw [accepted_receive, hl, results_snoc (by simp), Port.stored, hcall, List.append_assoc,
      List.append_assoc]
    exact h.reads (l ++ t)
  · rw [hcall] at hc
    exact (h.takes c hc).append l

theorem Cut.call {buffer : ℕ → UInt8} (h : Cut (size - 1).toNat as p q)
    (hs : (Action.call buffer size).exec p = some p') :
    Cut (size - 1).toNat (as ++ [(p, .call buffer size)]) p' q := by
  have hreads := h.quiet (a := .call buffer size) (by simp) (by simp)
  obtain ⟨hidle, ⟨-, rfl⟩ | ⟨hlines, rfl⟩⟩ := call_cases hs
  · exact ⟨h.queued, hreads, h.takes⟩
  · rw [stored_none hidle] at hreads
    refine ⟨h.queued, hreads, ?_⟩
    rintro c hc
    cases hc
    have hn : newline ∈ q := by
      by_contra hn
      exact hlines (h.queued.lines_eq_zero_iff.2 hn)
    exact ⟨rfl, Nat.zero_le _, by simpa [Call.line] using hn, by simp [Call.line], by simp⟩

theorem Cut.round (h : Cut room as p q) (hs : Action.round.exec p = some p') :
    ∃ q', Cut room (as ++ [(p, .round)]) p' q' := by
  have hreads := h.quiet (a := .round) (by simp) (by simp)
  obtain ⟨c, hc, -⟩ := Option.bind_eq_some_iff.1 hs
  have htakes := h.takes c hc
  have hline := htakes.line
  rw [stored_some hc] at hreads
  obtain ⟨⟨hloop, hlt⟩, ⟨rfl, -⟩ | ⟨b, q', d, rfl, hd, rfl⟩⟩ := round_cases hc h.queued hs
  · -- the newline is still to come, so the queue is not empty
    rw [List.append_nil] at hline
    exact absurd hline (htakes.looping hloop)
  · refine ⟨q', by simpa using hd, fun t => ?_, ?_⟩
    · rw [stored_some rfl, Call.line_update, List.append_assoc]
      exact hreads t
    · rintro c' hc'
      cases hc'
      refine ⟨htakes.limit, htakes.limit ▸ hlt, ?_, fun hb => ?_, fun hb => ?_⟩
      · rwa [Call.line_update, List.append_assoc]
      · rw [Call.line_update]
        have hb : b ≠ newline := by simpa using hb
        simp [htakes.looping hloop, hb.symm]
      · obtain rfl : b = newline := by simpa using hb
        exact ⟨c.line, htakes.looping hloop, Call.line_update _ _⟩

theorem Cut.ret (h : Cut room as p q) (hroom : 0 < room) (hs : Action.ret.exec p = some p') :
    Cut room (as ++ [(p, .ret)]) p' q := by
  have hreads := h.reads
  obtain ⟨c, hc, hleft, rfl⟩ := ret_cases hs
  rw [stored_some hc] at hreads
  refine ⟨h.queued, fun t => ?_, nofun⟩
  have htakes := h.takes c hc
  rw [accepted_quiet as p (by simp), hreads, results_ret hc, stored_none rfl, List.append_assoc,
    ← List.append_assoc, pieces_append htakes.line hroom, htakes.firstPiece_eq hleft,
    List.drop_left]
  rfl

theorem Cut.step (h : Cut (size - 1).toNat as p q) (hroom : 0 < (size - 1).toNat)
    (hcall : CallsOf size (as ++ [(p, a)])) (hs : PortStep a p p') :
    ∃ q', Cut (size - 1).toNat (as ++ [(p, a)]) p' q' := by
  rcases a with byte | ⟨buffer, s⟩ | _ | _
  · exact h.receive hs
  · obtain rfl := hcall _ (List.mem_append_right _ (List.mem_singleton_self _)) buffer s rfl
    exact ⟨q, h.call hs⟩
  · exact h.round hs
  · exact ⟨q, h.ret hroom hs⟩

theorem run_cut (h : Run PortStep (Port.start u₀) as p) (hcall : CallsOf size as)
    (hroom : 0 < (size - 1).toNat) : ∃ q, Cut (size - 1).toNat as p q := by
  induction h with
  | nil => exact ⟨[], cut_start⟩
  | snoc run last ih =>
    obtain ⟨q, hq⟩ := ih fun x hx => hcall x (List.mem_append_left _ hx)
    exact hq.step hroom hcall last

/-- Calls of one size return the pieces of the stream, and those of what is there are the ones to
come: neither the times at which bytes arrive nor those of the calls make a difference. -/
theorem reads_pieces (h : Run PortStep (Port.start u₀) as p) (hcall : CallsOf size as)
    (hroom : 0 < (size - 1).toNat) :
    results as ++ pieces newline (size - 1).toNat (p.stored ++ p.queue) =
      pieces newline (size - 1).toNat (accepted as) := by
  obtain ⟨q, hq⟩ := run_cut h hcall hroom
  have hreads := hq.reads []
  rw [List.append_nil, List.append_nil] at hreads
  rw [queue_eq hq.queued, hreads]

/-- Calls of one size return the first pieces of the stream, and all of them once nothing is left
to read. -/
theorem reads_settled (h : Run PortStep (Port.start u₀) as p) (hcall : CallsOf size as)
    (hroom : 0 < (size - 1).toNat) :
    results as <+: pieces newline (size - 1).toNat (accepted as) ∧
      (p.call = none → newline ∉ p.queue →
        results as = pieces newline (size - 1).toNat (accepted as)) := by
  have hpieces := reads_pieces h hcall hroom
  refine ⟨⟨_, hpieces⟩, fun hidle hempty => ?_⟩
  rw [← hpieces, stored_none hidle, List.nil_append, pieces_of_notMem hempty, List.append_nil]

theorem reads_settled_cutRead : results cutRead.1 <+: pieces newline 1 (accepted cutRead.1) ∧
    (cutRead.2.call = none → newline ∉ cutRead.2.queue →
      results cutRead.1 = pieces newline 1 (accepted cutRead.1)) := by
  refine @reads_settled _ _ _ 2 cutRead_run (fun x hx buffer s hcall => ?_) (by decide)
  have hsizes : (cutRead.1.filterMap fun x => match x.2 with
      | .call _ s => some s
      | _ => none) = List.replicate 2 2 := by decide +kernel
  exact List.eq_of_mem_replicate (hsizes ▸ List.mem_filterMap.2 ⟨x, hx, by rw [hcall]⟩)

/-- If the lines fit, they are what the calls return. -/
theorem reads_records (h : Run PortStep (Port.start u₀) as p) (hcall : CallsOf size as)
    (hroom : 0 < (size - 1).toNat)
    (hfit : ∀ l ∈ (records newline (accepted as)).1, l.length ≤ (size - 1).toNat) :
    results as ++ pieces newline (size - 1).toNat (p.stored ++ p.queue) =
      (records newline (accepted as)).1 := by
  rw [reads_pieces h hcall hroom, pieces_eq_records hfit]

/-! ## Short lines -/

theorem accepted_append : accepted (as ++ bs) = accepted as ++ accepted bs := by
  simp [accepted]

/-- If the lines of the stream are short, so are those the calls of `motor_task` find. -/
theorem shortLines_of_records (h : Run PortStep (Port.start u₀) as p) (hcall : MotorCalls as)
    (hshort : ∀ l ∈ (records newline (accepted as)).1, l.length < uartBufferLength) :
    ShortLines as := by
  have hten : uartBufferLength = 10 := rfl
  induction h with
  | nil => exact fun _ hx => nomatch hx
  | @snoc as p p' a run last ih =>
    have hcall' : MotorCalls as := fun x hx => hcall x (List.mem_append_left _ hx)
    have hshort' : ∀ l ∈ (records newline (accepted as)).1, l.length < uartBufferLength := by
      intro l hl
      rw [accepted_append] at hshort
      exact hshort l (records_isPrefix.subset hl)
    refine shortLines_snoc.2 ⟨ih hcall' hshort', ?_⟩
    rintro buffer size rfl hn
    obtain rfl := hcall _ (List.mem_append_right _ (List.mem_singleton_self _)) buffer size rfl
    obtain ⟨hidle, -⟩ := call_cases last
    -- what the call finds is a line of the stream
    have hrecords := @reads_records p as u₀ 100 run hcall' (by decide) fun l hl =>
      Nat.le_of_lt (Nat.lt_trans (hshort' l hl) (by decide))
    rw [stored_none hidle, List.nil_append, pieces_cons hn (by decide)] at hrecords
    have hfirst := hshort' (firstPiece newline 99 p.queue) (by rw [← hrecords]; simp)
    rw [length_firstPiece hn] at hfirst
    omega

theorem writesInside_of_records (h : Run PortStep (Port.start u₀) as p) (hcall : MotorCalls as)
    (hshort : ∀ l ∈ (records newline (accepted as)).1, l.length < uartBufferLength) :
    WritesInside as := by
  obtain ⟨q, hq⟩ := run_motorRun h hcall
  have hlines := shortLines_of_records h hcall hshort
  rcases hp : p.call with _ | c
  · exact (hq.idle hp).2 hlines
  · exact ((hq.short c hp).1 hlines).1

end BeagleKernel.Uart
