import BeagleKernel.Proofs.Readline
import BeagleKernel.Uart.Interleaved

/-!
# The lines that are read

While every line goes into the receive buffer whole or not at all, the buffer and what the call
that is going on has stored are together a row of lines that arrived, and the start of the next
one (`Delivers`). A line that is cut short in the buffer joins the line after it.
-/

namespace BeagleKernel.Uart

variable {p p' : Port} {a : Action} {as bs : List (Port × Action)} {c : Call} {q : List UInt8}
  {u₀ u : UartBuffers} {byte : UInt8}

/-! ## The streams of a run -/

@[simp] theorem received_receive :
    received (as ++ [(p, .receive byte)]) = received as ++ [receivedChar byte] := by
  simp [received]

theorem received_append : received (as ++ bs) = received as ++ received bs := by
  simp [received]

theorem results_append : results (as ++ bs) = results as ++ results bs := by
  simp [results]

theorem results_snoc (ha : a ≠ .ret) : results (as ++ [(p, a)]) = results as := by
  rw [results_append]
  cases a <;> simp_all [results]

theorem results_ret (hc : p.call = some c) :
    results (as ++ [(p, .ret)]) = results as ++ [c.line] := by
  simp [results, hc]

theorem CallsFit.of_append (h : CallsFit (as ++ bs)) : CallsFit as := by
  intro x hx buffer size hcall l hl
  refine h x (List.mem_append_left _ hx) buffer size hcall l ?_
  rw [linesReceived, received_append]
  exact records_isPrefix.subset hl

theorem RoomByLine.of_append (h : RoomByLine (as ++ bs)) : RoomByLine as := by
  rintro pre x post byte rfl hx
  exact h pre x (post ++ bs) byte (by simp) hx

theorem RoomByLine.last (h : RoomByLine (as ++ [(p, .receive byte)])) :
    (lineRoom as).getD p.room = p.room :=
  h as (p, .receive byte) [] byte rfl rfl

theorem lineRoom_snoc : lineRoom (as ++ [(p, .receive byte)]) =
    if receivedChar byte = newline then none else some ((lineRoom as).getD p.room) := by
  simp [lineRoom]

theorem lineRoom_quiet (as : List (Port × Action)) (p : Port) (ha : ∀ byte, a ≠ .receive byte) :
    lineRoom (as ++ [(p, a)]) = lineRoom as := by
  rcases a with byte | ⟨buffer, size⟩ | _ | _
  · exact absurd rfl (ha byte)
  all_goals simp [lineRoom]

theorem received_quiet (as : List (Port × Action)) (p : Port) (ha : ∀ byte, a ≠ .receive byte) :
    received (as ++ [(p, a)]) = received as := by
  rcases a with byte | ⟨buffer, size⟩ | _ | _
  · exact absurd rfl (ha byte)
  all_goals simp [received]

theorem lineRoom_eq_none_iff : lineRoom as = none ↔ (records newline (received as)).2 = [] := by
  induction as using List.reverseRecOn with
  | nil => simp [lineRoom, received]
  | append_singleton as x ih =>
    obtain ⟨p, a⟩ := x
    by_cases ha : ∃ byte, a = .receive byte
    · obtain ⟨byte, rfl⟩ := ha
      rw [lineRoom_snoc, received_receive]
      by_cases hn : receivedChar byte = newline
      · simp [hn]
      · simp [hn, records_snoc hn]
    · have ha : ∀ byte, a ≠ .receive byte := fun byte hb => ha ⟨byte, hb⟩
      rw [lineRoom_quiet as p ha, received_quiet as p ha, ih]

/-! ## A call -/

@[simp] theorem Call.line_length : c.line.length = c.i := by
  simp [Call.line]

theorem Call.line_update (a : UInt8) (looping : Bool) :
    Call.line ⟨c.limit, c.i + 1, Function.update c.buffer c.i a, looping⟩ = c.line ++ [a] := by
  simp only [Call.line, List.range_succ, List.map_append, List.map_singleton,
    Function.update_self, List.append_cancel_right_eq]
  refine List.map_congr_left fun j hj => Function.update_of_ne ?_ _ _
  exact Nat.ne_of_lt (List.mem_range.1 hj)

/-- What the call that is going on has stored. -/
def Port.stored (p : Port) : List UInt8 := (p.call.map Call.line).getD []

/-- The call reads the first of the lines that are there: it has room for it, and has left the
loop if it stored all of it. -/
def Call.Reads (c : Call) (kept : List (List UInt8)) : Prop :=
  ∃ l rest, kept = l :: rest ∧ c.line <+: l ∧ l.length ≤ c.limit ∧ (c.looping = true ↔ c.line ≠ l)

/-- What is in the buffer of the line that is arriving. -/
def part (as : List (Port × Action)) : List UInt8 :=
  if lineRoom as = some true then (records newline (received as)).2 else []

/-- Between the lines that were returned and those still to come, the lines `kept` are in the
buffer and with the call, before the start of the next one if it found room. -/
structure Delivers (as : List (Port × Action)) (p : Port) (kept : List (List UInt8))
    (q : List UInt8) : Prop where
  queued : (p.uart 1).Queued q
  lines : (results as ++ kept).Sublist (linesReceived as)
  chars : kept.flatten ++ part as = p.stored ++ q
  reads : ∀ c, p.call = some c → c.Reads kept

theorem delivers_start : Delivers [] (Port.start u₀) [] [] where
  queued := uartInit_queued u₀
  lines := List.Sublist.refl _
  chars := rfl
  reads := by simp [Port.start]

theorem receive_room (hq : (p.uart 1).Queued q) (h : (Action.receive byte).exec p = some p') :
    p'.call = p.call ∧ ∃ q', (p'.uart 1).Queued q' ∧
      q' = if p.room then q ++ [receivedChar byte] else q := by
  cases h
  refine ⟨rfl, _, ?_, rfl⟩
  rcases hq.length_le.lt_or_eq with hlt | hfull
  · obtain ⟨b, hirq, hb⟩ := handleUart1Irq_room hq hlt byte
    have hroom : p.room = true := by simp [Port.room, hq.size, hlt.ne]
    simpa [hirq, hroom] using hb
  · have hroom : p.room = false := by simp [Port.room, hq.size, hfull]
    simpa [handleUart1Irq_full hq hfull, hroom] using hq

theorem part_eq (h : (lineRoom as).getD p.room = p.room) :
    part as = if p.room then (records newline (received as)).2 else [] := by
  rcases hl : lineRoom as with _ | b
  · simp [part, lineRoom_eq_none_iff.1 hl]
  · rw [hl] at h
    simp only [Option.getD_some] at h
    simp [part, hl, h]

theorem Call.Reads.append {kept : List (List UInt8)} (h : c.Reads kept)
    (more : List (List UInt8)) : c.Reads (kept ++ more) := by
  obtain ⟨l, rest, rfl, h⟩ := h
  exact ⟨l, rest ++ more, rfl, h⟩

theorem Delivers.receive {kept : List (List UInt8)} (h : Delivers as p kept q)
    (hroom : RoomByLine (as ++ [(p, .receive byte)]))
    (hs : (Action.receive byte).exec p = some p') :
    ∃ kept' q', Delivers (as ++ [(p, .receive byte)]) p' kept' q' := by
  obtain ⟨hcall, q', hq', hadd⟩ := receive_room h.queued hs
  have hlast := hroom.last
  have hline : lineRoom (as ++ [(p, Action.receive byte)]) =
      if receivedChar byte = newline then none else some p.room := by
    rw [lineRoom_snoc, hlast]
  have hres : results (as ++ [(p, Action.receive byte)]) = results as := results_snoc (by simp)
  have hstored : p'.stored = p.stored := by rw [Port.stored, Port.stored, hcall]
  have hchars := h.chars
  rw [part_eq hlast] at hchars
  by_cases hn : receivedChar byte = newline
  · rw [if_pos hn] at hline
    have hlines : linesReceived (as ++ [(p, Action.receive byte)]) =
        linesReceived as ++ [(records newline (received as)).2 ++ [newline]] := by
      simp [linesReceived, hn]
    by_cases hr : p.room = true
    · refine ⟨kept ++ [(records newline (received as)).2 ++ [newline]], q', hq', ?_, ?_, ?_⟩
      · rw [hres, hlines, ← List.append_assoc]
        exact h.lines.append (List.Sublist.refl _)
      · rw [if_pos hr] at hchars hadd
        have := congrArg (· ++ [newline]) hchars
        simpa [part, hline, hadd, hstored, hn] using this
      · rw [hcall]
        exact fun c hc => (h.reads c hc).append _
    · refine ⟨kept, q', hq', ?_, ?_, ?_⟩
      · rw [hres, hlines]
        exact h.lines.trans (List.sublist_append_left _ _)
      · rw [if_neg hr] at hchars hadd
        simpa [part, hline, hadd, hstored] using hchars
      · rw [hcall]
        exact h.reads
  · rw [if_neg hn] at hline
    refine ⟨kept, q', hq', ?_, ?_, ?_⟩
    · rw [hres, linesReceived, received_receive, records_snoc hn]
      exact h.lines
    · by_cases hr : p.room = true
      · rw [if_pos hr] at hchars hadd
        have := congrArg (· ++ [receivedChar byte]) hchars
        simpa [part, hline, hadd, hstored, hr, records_snoc hn] using this
      · rw [if_neg hr] at hchars hadd
        simpa [part, hline, hadd, hstored, hr] using hchars
    · rw [hcall]
      exact h.reads

theorem snoc_quiet (as : List (Port × Action)) (p : Port) (ha : ∀ byte, a ≠ .receive byte) :
    received (as ++ [(p, a)]) = received as ∧ part (as ++ [(p, a)]) = part as := by
  rw [part, part, lineRoom_quiet as p ha, received_quiet as p ha]
  exact ⟨rfl, rfl⟩

section

variable {kept : List (List UInt8)} (h : Delivers as p kept q)

include h

/-- The lines that are there are lines that arrived. -/
theorem Delivers.record {l : List UInt8} (hl : l ∈ kept) :
    l ∈ linesReceived as ∧ ∃ body, newline ∉ body ∧ l = body ++ [newline] := by
  have hmem := h.lines.subset (List.mem_append_right _ hl)
  exact ⟨hmem, mem_records hmem⟩

theorem Delivers.call {buffer : ℕ → UInt8} {size : UInt32}
    (hfit : CallsFit (as ++ [(p, .call buffer size)]))
    (hs : (Action.call buffer size).exec p = some p') :
    Delivers (as ++ [(p, .call buffer size)]) p' kept q := by
  obtain ⟨hrec, hpart⟩ := @snoc_quiet (.call buffer size) as p (by simp)
  have hlines : (results (as ++ [(p, Action.call buffer size)]) ++ kept).Sublist
      (linesReceived (as ++ [(p, Action.call buffer size)])) := by
    rw [results_snoc (by simp), linesReceived, hrec]
    exact h.lines
  have hchars := h.chars
  rw [← hpart] at hchars
  simp only [Action.exec] at hs
  split_ifs at hs with hbusy hnone
  · cases hs
    exact ⟨h.queued, hlines, hchars, h.reads⟩
  · cases hs
    have hidle : p.stored = [] := by simp_all [Port.stored]
    rw [hidle] at hchars
    refine ⟨h.queued, hlines, hchars, ?_⟩
    rintro c hc
    cases hc
    -- there is a newline in the buffer, so it holds a line
    have hn : newline ∈ kept.flatten ++ part as := by
      rw [h.chars, hidle, List.nil_append]
      by_contra hn
      exact hnone (h.queued.lines_eq_zero_iff.2 hn)
    rcases kept with _ | ⟨l, rest⟩
    · unfold part at hn
      split_ifs at hn
      · exact absurd hn (by simpa using sep_not_mem_rest)
      · simp at hn
    obtain ⟨hmem, body, -, hl⟩ := h.record (List.mem_cons_self ..)
    have hsize := hfit _ (List.mem_append_right _ (List.mem_singleton_self _)) buffer size rfl l (by
      rwa [linesReceived, hrec])
    refine ⟨l, rest, rfl, List.nil_prefix, ?_, ?_⟩
    · have hone : (1 : UInt32).toNat = 1 := rfl
      show l.length ≤ (size - 1).toNat
      rw [UInt32.toNat_sub_of_le _ _ (UInt32.le_iff_toNat_le.2 (by omega)), hone]
      omega
    · simp [Call.line, hl]

theorem Delivers.round (hs : Action.round.exec p = some p') :
    ∃ q', Delivers (as ++ [(p, .round)]) p' kept q' := by
  obtain ⟨hrec, hpart⟩ := @snoc_quiet .round as p (by simp)
  have hlines : (results (as ++ [(p, Action.round)]) ++ kept).Sublist
      (linesReceived (as ++ [(p, Action.round)])) := by
    rw [results_snoc (by simp), linesReceived, hrec]
    exact h.lines
  have hchars := h.chars
  rw [← hpart] at hchars
  obtain ⟨c, hc, hs⟩ := Option.bind_eq_some_iff.1 hs
  split_ifs at hs with hloop
  cases hs
  obtain ⟨l, rest, rfl, hstart, hlimit, hleft⟩ := h.reads c hc
  have hne := hleft.1 hloop.1
  simp only [Port.stored, hc, Option.map_some, Option.getD_some, List.flatten_cons,
    List.append_assoc] at hchars
  rcases q with _ | ⟨b, q⟩
  · -- the line that is read is there to its end
    have hle := hstart.length_le
    have hlen := congrArg List.length hchars
    simp only [List.append_nil, List.length_append] at hlen
    exact absurd (hstart.eq_of_length (by omega)) hne
  · obtain ⟨d, hget, hd⟩ := @uartGetchar_cons p.uart 1 (by decide) q b h.queued
    obtain ⟨hnext, hlast⟩ := next_of_record (h.record (List.mem_cons_self ..)).2 hstart hne
      hchars.symm
    refine ⟨q, ?_⟩
    rw [Call.round, hget]
    refine ⟨by simpa using hd, hlines, ?_, ?_⟩
    · simp only [Port.stored, Option.map_some, Option.getD_some, Call.line_update]
      simpa using hchars
    · rintro c' hc'
      cases hc'
      refine ⟨l, rest, rfl, ?_, hlimit, ?_⟩
      · rwa [Call.line_update]
      · rw [Call.line_update, ← not_iff_not, not_not, ← hlast]
        simp

theorem Delivers.ret (hs : Action.ret.exec p = some p') :
    ∃ kept', Delivers (as ++ [(p, .ret)]) p' kept' q := by
  obtain ⟨hrec, hpart⟩ := @snoc_quiet .ret as p (by simp)
  have hchars := h.chars
  rw [← hpart] at hchars
  obtain ⟨c, hc, hs⟩ := Option.bind_eq_some_iff.1 hs
  split_ifs at hs with hloop
  cases hs
  obtain ⟨l, rest, rfl, hstart, hlimit, hleft⟩ := h.reads c hc
  -- a call leaves the loop with the whole line: at its newline, or with no room for more
  have hline : c.line = l := by
    by_cases hl : c.looping = true
    · have hfull : ¬ c.i < c.limit := fun hi => hloop ⟨hl, hi⟩
      have hle := hstart.length_le
      rw [Call.line_length] at hle
      exact hstart.eq_of_length (by rw [Call.line_length]; omega)
    · by_contra hne
      exact hl (hleft.2 hne)
  refine ⟨rest, h.queued, ?_, ?_, by simp⟩
  · rw [results_ret hc, hline, linesReceived, hrec, List.append_assoc]
    exact h.lines
  · simp only [Port.stored, hc, Option.map_some, Option.getD_some, hline, List.flatten_cons,
      List.append_assoc, List.append_cancel_left_eq] at hchars
    exact hchars

end

/-- While the lines go into the buffer whole or not at all, what is there is what the reads to
come return. -/
theorem Delivers.step {kept : List (List UInt8)} (h : Delivers as p kept q)
    (hfit : CallsFit (as ++ [(p, a)])) (hroom : RoomByLine (as ++ [(p, a)]))
    (hs : PortStep a p p') : ∃ kept' q', Delivers (as ++ [(p, a)]) p' kept' q' := by
  rcases a with byte | ⟨buffer, size⟩ | _ | _
  · exact h.receive hroom hs
  · exact ⟨kept, q, h.call hfit hs⟩
  · exact ⟨kept, h.round hs⟩
  · obtain ⟨kept', h'⟩ := h.ret hs
    exact ⟨kept', q, h'⟩

theorem run_delivers (h : Run PortStep (Port.start u₀) as p) (hfit : CallsFit as)
    (hroom : RoomByLine as) : ∃ kept q, Delivers as p kept q := by
  induction h with
  | nil => exact ⟨[], [], delivers_start⟩
  | snoc run last ih =>
    obtain ⟨kept, q, hd⟩ := ih hfit.of_append hroom.of_append
    exact hd.step hfit hroom last

/-! ## A call that nothing disturbs -/

theorem rounds_run : ∀ (room : ℕ) (c : Call) (u : UartBuffers), c.looping = true →
    c.limit = c.i + room → ∃ as c',
      Run PortStep ⟨u, some c⟩ as ⟨(readlineLoop 1 room c.i c.buffer u).2.2, some c'⟩ ∧
        (∀ x ∈ as, x.2 = .round) ∧ c'.i = (readlineLoop 1 room c.i c.buffer u).1 ∧
        c'.buffer = (readlineLoop 1 room c.i c.buffer u).2.1 ∧
        ¬ (c'.looping = true ∧ c'.i < c'.limit)
  | 0, c, u, _, hlimit => by
    refine ⟨[], c, .nil, by simp, rfl, rfl, ?_⟩
    rintro ⟨-, hlt⟩
    omega
  | room + 1, c, u, hloop, hlimit => by
    have hround : PortStep .round ⟨u, some c⟩ (c.round u) := if_pos ⟨hloop, by omega⟩
    rcases hget : uartGetchar u 1 with ⟨_ | a, u'⟩
    · rw [Call.round, hget] at hround
      refine ⟨[(⟨u, some c⟩, .round)], { c with looping := false }, ?_, by simp, ?_⟩
      · simpa only [readlineLoop, hget] using Run.single hround
      · simp [readlineLoop, hget]
    · rw [Call.round, hget] at hround
      by_cases ha : a = newline
      · refine ⟨[(⟨u, some c⟩, .round)],
          ⟨c.limit, c.i + 1, Function.update c.buffer c.i a, decide (a ≠ newline)⟩, ?_, by simp, ?_⟩
        · simpa only [readlineLoop, hget, if_pos ha] using Run.single hround
        · simp [readlineLoop, hget, ha]
      · obtain ⟨as, c', hrun, hall, hi, hbuffer, hleft⟩ := rounds_run room
          ⟨c.limit, c.i + 1, Function.update c.buffer c.i a, true⟩ u' rfl (by simp only; omega)
        refine ⟨(⟨u, some c⟩, .round) :: as, c', ?_, ?_, ?_, ?_, hleft⟩
        · have hround : PortStep .round ⟨u, some c⟩
              ⟨u', some ⟨c.limit, c.i + 1, Function.update c.buffer c.i a, true⟩⟩ := by
            simpa [ha] using hround
          simp only [readlineLoop, hget, if_neg ha]
          exact (Run.single hround).trans hrun
        · simpa using hall
        · simpa only [readlineLoop, hget, if_neg ha] using hi
        · simpa only [readlineLoop, hget, if_neg ha] using hbuffer

theorem received_rounds (h : ∀ x ∈ as, x.2 = .round) : received as = [] ∧ results as = [] := by
  constructor
  · refine List.filterMap_eq_nil_iff.2 fun x hx => ?_
    rw [h x hx]
  · refine List.filterMap_eq_nil_iff.2 fun x hx => ?_
    rw [h x hx]

theorem call_run (hidle : p.call = none) (hlines : (p.uart 1).lines ≠ 0) (buffer : ℕ → UInt8)
    (size : UInt32) : ∃ as, Run PortStep p as ⟨(uartReadline p.uart 1 buffer size).2.2, none⟩ ∧
      received as = [] ∧
      results as = [(List.range (uartReadline p.uart 1 buffer size).1).map
        (uartReadline p.uart 1 buffer size).2.1] ∧
      ∀ x ∈ as, ∀ buffer' size', x.2 = .call buffer' size' → size' = size := by
  have hread : uartReadline p.uart 1 buffer size =
      ((readlineLoop 1 (size - 1).toNat 0 buffer p.uart).1,
        Function.update (readlineLoop 1 (size - 1).toNat 0 buffer p.uart).2.1
          (readlineLoop 1 (size - 1).toNat 0 buffer p.uart).1 0,
        (readlineLoop 1 (size - 1).toNat 0 buffer p.uart).2.2) := by
    rw [uartReadline, dif_pos (by decide)]
    exact if_neg hlines
  obtain ⟨as, c', hrun, hall, hi, hbuffer, hleft⟩ := rounds_run (size - 1).toNat
    ⟨(size - 1).toNat, 0, buffer, true⟩ p.uart rfl (Nat.zero_add _).symm
  obtain ⟨hrec, hres⟩ := received_rounds hall
  have hcall : PortStep (.call buffer size) p
      ⟨p.uart, some ⟨(size - 1).toNat, 0, buffer, true⟩⟩ := by
    simp [PortStep, Action.exec, hidle, hlines]
  have hret : PortStep .ret
      ⟨(readlineLoop 1 (size - 1).toNat 0 buffer p.uart).2.2, some c'⟩
      ⟨(readlineLoop 1 (size - 1).toNat 0 buffer p.uart).2.2, none⟩ := if_neg hleft
  refine ⟨_, ((Run.single hcall).trans hrun).snoc (by rw [hread]; exact hret), ?_, ?_, ?_⟩
  · rw [received_quiet _ _ (by simp), received_append, hrec]
    rfl
  · rw [results_ret rfl, results_append, hres, hread, Call.line, hi, hbuffer]
    refine congrArg (· :: []) (List.map_congr_left fun j hj => ?_)
    exact (Function.update_of_ne (Nat.ne_of_lt (List.mem_range.1 hj)) _ _).symm
  · intro x hx buffer' size' heq
    simp only [List.mem_append, List.mem_singleton] at hx
    rcases hx with (rfl | hx) | rfl
    · cases heq
      rfl
    · rw [hall x hx] at heq
      cases heq
    · cases heq

theorem map_store (buffer : ℕ → UInt8) (cs : List UInt8) :
    (List.range cs.length).map (Function.update (store buffer 0 cs) cs.length 0) = cs := by
  refine List.ext_getElem (by simp) fun j hj hj' => ?_
  rw [List.getElem_map, List.getElem_range, Function.update_of_ne (Nat.ne_of_lt hj')]
  simpa using @store_add cs buffer 0 j hj'

theorem read_run (hidle : p.call = none) (hq : (p.uart 1).Queued q) (hn : newline ∈ q)
    (size : UInt32) : ∃ as p', Run PortStep p as p' ∧ p'.call = none ∧
      (p'.uart 1).Queued (q.drop (lineOf (size - 1).toNat q).length) ∧ received as = [] ∧
      results as = [lineOf (size - 1).toNat q] ∧
      ∀ x ∈ as, ∀ buffer' size', x.2 = .call buffer' size' → size' = size := by
  have hlines : (p.uart 1).lines ≠ 0 := fun h => hq.lines_eq_zero_iff.1 h hn
  obtain ⟨as, hrun, hrec, hres, hsize⟩ := call_run hidle hlines (fun _ => 0) size
  obtain ⟨b, hread, hb⟩ := uartReadline_one hq hn (fun _ => 0) size
  rw [hread] at hrun hres
  rw [map_store] at hres
  exact ⟨as, _, hrun, rfl, by simpa using hb, hrec, hres, hsize⟩

theorem arrive_run : ∀ (bytes : List UInt8) {p : Port} {q : List UInt8}, p.call = none →
    (p.uart 1).Queued q → q.length + bytes.length ≤ charBufferSize → ∃ as p',
      Run PortStep p as p' ∧ p'.call = none ∧ (p'.uart 1).Queued (q ++ bytes.map receivedChar) ∧
        received as = bytes.map receivedChar ∧ results as = [] ∧
        ∀ x ∈ as, x.1.room = true ∧ ∃ byte, x.2 = .receive byte
  | [], p, q, hidle, hq, _ => ⟨[], p, .nil, hidle, by simpa using hq, rfl, rfl, by simp⟩
  | byte :: bytes, p, q, hidle, hq, hlen => by
    rw [List.length_cons] at hlen
    have hlt : q.length < charBufferSize := by omega
    obtain ⟨b, hirq, hb⟩ := handleUart1Irq_room hq hlt byte
    have hstep : PortStep (.receive byte) p ⟨Function.update p.uart 1 b, none⟩ := by
      simp [PortStep, Action.exec, hirq, hidle]
    obtain ⟨as, p', hrun, hidle', hq', hrec, hres, hall⟩ := arrive_run bytes
      (p := ⟨Function.update p.uart 1 b, none⟩) (q := q ++ [receivedChar byte]) rfl
      (by simpa using hb) (by simp; omega)
    refine ⟨(p, .receive byte) :: as, p', (Run.single hstep).trans hrun, hidle', ?_, ?_, ?_, ?_⟩
    · simpa using hq'
    · rw [← List.singleton_append, received_append, hrec]
      rfl
    · rw [← List.singleton_append, results_append, hres]
      rfl
    · rintro x (_ | hx)
      · exact ⟨by simp [Port.room, hq.size, hlt.ne], byte, rfl⟩
      · exact hall x (by assumption)

theorem lineRoom_of_room : ∀ {as : List (Port × Action)},
    (∀ x ∈ as, ∀ byte, x.2 = .receive byte → x.1.room = true) → lineRoom as ≠ some false := by
  intro as h
  induction as using List.reverseRecOn with
  | nil => simp [lineRoom]
  | append_singleton as x ih =>
    have ih := ih fun x hx => h x (List.mem_append_left _ hx)
    obtain ⟨p, a⟩ := x
    by_cases ha : ∃ byte, a = .receive byte
    · obtain ⟨byte, rfl⟩ := ha
      have hr := h (p, .receive byte) (by simp) byte rfl
      rw [lineRoom_snoc]
      rcases hl : lineRoom as with _ | b
      all_goals simp_all
    · rwa [lineRoom_quiet as p fun byte hb => ha ⟨byte, hb⟩]

theorem roomByLine_of_room (h : ∀ x ∈ as, ∀ byte, x.2 = .receive byte → x.1.room = true) :
    RoomByLine as := by
  rintro pre x post byte rfl hx
  have hpre := lineRoom_of_room fun x hx => h x (List.mem_append_left _ hx)
  rw [h x (by simp) byte hx]
  rcases hl : lineRoom pre with _ | b
  · rfl
  · rw [hl] at hpre
    simpa using hpre

/-- The lines the calls return are lines that arrived, in their order, if every line goes into the
buffer whole or not at all. -/
theorem results_received (h : Run PortStep (Port.start u₀) as p) (hfit : CallsFit as)
    (hroom : RoomByLine as) :
    (results as).Sublist (linesReceived as) ∧
      ∀ l ∈ results as, l ≠ [] → l ∈ linesReceived as := by
  obtain ⟨kept, q, hd⟩ := run_delivers h hfit hroom
  have hsub := (List.sublist_append_left _ kept).trans hd.lines
  exact ⟨hsub, fun l hl _ => hsub.subset hl⟩

theorem results_received_one : ∃ as p, Run PortStep (Port.start zeroed) as p ∧
    results as = [[newline]] ∧
    ((results as).Sublist (linesReceived as) ∧
      ∀ l ∈ results as, l ≠ [] → l ∈ linesReceived as) := by
  obtain ⟨as, p, hrun, hidle, hq, hrec, hres, hall⟩ :=
    arrive_run [carriageReturn] (p := Port.start zeroed) rfl (uartInit_queued _) (by decide)
  obtain ⟨bs, p', hrun', -, -, hrec', hres', hsize⟩ := read_run hidle hq (by decide) 2
  have hline : lineOf (2 - 1 : UInt32).toNat ([] ++ [carriageReturn].map receivedChar) =
      [newline] := by decide
  rw [hline] at hres'
  refine ⟨as ++ bs, p', hrun.trans hrun', by rw [results_append, hres, hres']; rfl,
    results_received (hrun.trans hrun') ?_ (roomByLine_of_room ?_)⟩
  · intro x hx buffer size hcall l hl
    rw [linesReceived, received_append, hrec, hrec'] at hl
    rcases List.mem_append.1 hx with hx | hx
    · obtain ⟨-, byte, hbyte⟩ := hall x hx
      rw [hbyte] at hcall
      cases hcall
    · rw [hsize x hx buffer size hcall]
      revert l
      decide
  · intro x hx byte hbyte
    rcases List.mem_append.1 hx with hx | hx
    · exact (hall x hx).1
    · have hmem : receivedChar byte ∈ received bs :=
        List.mem_filterMap.2 ⟨x, hx, by rw [hbyte]⟩
      rw [hrec'] at hmem
      simp at hmem

theorem drop_run (hfull : (p.uart 1).size = charBufferSize) :
    ∀ bytes : List UInt8, ∃ as, Run PortStep p as p ∧ received as = bytes.map receivedChar ∧
      results as = [] ∧ ∀ x ∈ as, ∃ byte, x.2 = .receive byte
  | [] => ⟨[], .nil, rfl, rfl, by simp⟩
  | byte :: bytes => by
    obtain ⟨as, hrun, hrec, hres, hall⟩ := drop_run hfull bytes
    have hstep : PortStep (.receive byte) p p := by
      simp only [PortStep, Action.exec, handleUart1Irq, CircularCharBuffer.push, if_pos hfull,
        Function.update_eq_self]
    refine ⟨(p, .receive byte) :: as, (Run.single hstep).trans hrun, ?_, ?_, ?_⟩
    · rw [← List.singleton_append, received_append, hrec]
      rfl
    · rw [← List.singleton_append, results_append, hres]
      rfl
    · rintro x (_ | hx)
      · exact ⟨byte, rfl⟩
      · exact hall x (by assumption)

theorem records_line (s body : List UInt8) (hs : (records newline s).2 = [])
    (hb : newline ∉ body) : records newline (s ++ (body ++ [newline])) =
      ((records newline s).1 ++ [body ++ [newline]], []) := by
  rw [← List.append_assoc, records_snoc_sep, records_append_body hb, hs]
  rfl

/-- A line of 511 characters and one of one character come while the reader is behind, and are
read as one line, without the first one's last character. -/
theorem splices_lines :
    ¬ ∀ (u₀ : UartBuffers) as p, Run PortStep (Port.start u₀) as p → CallsFit as →
      ∀ l ∈ results as, l ≠ [] → l ∈ linesReceived as := by
  intro h
  obtain ⟨long, hlen, hn, hmap⟩ : ∃ long : List UInt8, long.length = 510 ∧ newline ∉ long ∧
      long.map receivedChar = long := by
    refine ⟨List.replicate 510 0x62, List.length_replicate, ?_, by rw [List.map_replicate]; rfl⟩
    rw [List.mem_replicate]
    rintro ⟨-, hn⟩
    exact absurd hn (by decide)
  -- the buffer fills up within the second line
  obtain ⟨as₁, p₁, hrun₁, hidle₁, hq₁, hrec₁, hres₁, hall₁⟩ :=
    arrive_run ([0x61, newline] ++ long) (p := Port.start zeroed) rfl (uartInit_queued _)
      (by simp [hlen])
  have hsent : ([0x61, newline] ++ long).map receivedChar = [0x61] ++ newline :: long := by
    rw [List.map_append, hmap]
    rfl
  rw [hsent] at hq₁ hrec₁
  obtain ⟨as₂, hrun₂, hrec₂, hres₂, hall₂⟩ :=
    drop_run (p := p₁) (by rw [hq₁.size]; simp [hlen]) [0x63, newline]
  -- the first line is read
  obtain ⟨as₃, p₃, hrun₃, hidle₃, hq₃, hrec₃, hres₃, hsize₃⟩ :=
    read_run hidle₁ hq₁ (by simp) 600
  rw [List.nil_append, lineOf_line (by decide) (by decide)] at hq₃ hres₃
  -- the third line goes on where the second one was cut off
  obtain ⟨as₄, p₄, hrun₄, hidle₄, hq₄, hrec₄, hres₄, hall₄⟩ :=
    arrive_run [0x64, newline] hidle₃ hq₃ (by simp [hlen])
  have hq₄ : (p₄.uart 1).Queued ((long ++ [0x64]) ++ newline :: []) := by
    simpa [receivedChar, carriageReturn] using hq₄
  obtain ⟨as₅, p₅, hrun₅, -, -, hrec₅, hres₅, hsize₅⟩ := read_run hidle₄ hq₄ (by simp) 600
  have hroom : (long ++ [0x64]).length < (600 - 1 : UInt32).toNat := by
    rw [List.length_append, hlen]
    decide
  rw [lineOf_line (by simp [hn]; decide) hroom] at hres₅
  have hlines : linesReceived (as₁ ++ as₂ ++ as₃ ++ as₄ ++ as₅) =
      [[0x61] ++ [newline], long ++ [0x63] ++ [newline], [0x64] ++ [newline]] := by
    have hrec : received (as₁ ++ as₂ ++ as₃ ++ as₄ ++ as₅) =
        [] ++ ([0x61] ++ [newline]) ++ (long ++ [0x63] ++ [newline]) ++ ([0x64] ++ [newline]) := by
      simp [received_append, hrec₁, hrec₂, hrec₃, hrec₄, hrec₅, receivedChar, carriageReturn]
    have h₁ := records_line [] [0x61] rfl (by decide)
    have h₂ := records_line _ (long ++ [0x63]) (congrArg Prod.snd h₁) (by simp [hn]; decide)
    have h₃ := records_line _ [0x64] (congrArg Prod.snd h₂) (by decide)
    rw [linesReceived, hrec, h₃, h₂, h₁]
    rfl
  have hfit : CallsFit (as₁ ++ as₂ ++ as₃ ++ as₄ ++ as₅) := by
    intro x hx buffer size hcall l hl
    have hsize : size = 600 := by
      simp only [List.mem_append] at hx
      rcases hx with (((hx | hx) | hx) | hx) | hx
      · obtain ⟨-, byte, hbyte⟩ := hall₁ x hx
        exact absurd (hcall.symm.trans hbyte) (by simp)
      · obtain ⟨byte, hbyte⟩ := hall₂ x hx
        exact absurd (hcall.symm.trans hbyte) (by simp)
      · exact hsize₃ x hx buffer size hcall
      · obtain ⟨-, byte, hbyte⟩ := hall₄ x hx
        exact absurd (hcall.symm.trans hbyte) (by simp)
      · exact hsize₅ x hx buffer size hcall
    have hmax : (600 : UInt32).toNat = 600 := rfl
    rw [hlines] at hl
    rw [hsize, hmax]
    simp only [List.mem_cons, List.not_mem_nil, or_false] at hl
    rcases hl with rfl | rfl | rfl <;> simp [hlen]
  have hrun := (((hrun₁.trans hrun₂).trans hrun₃).trans hrun₄).trans hrun₅
  have hmem := h zeroed _ _ hrun hfit (long ++ [0x64] ++ [newline])
    (by simp [results_append, hres₅]) (by simp)
  rw [hlines] at hmem
  simp only [List.mem_cons, List.not_mem_nil, or_false] at hmem
  rcases hmem with hmem | hmem | hmem
  · have := congrArg List.length hmem
    simp [hlen] at this
  · simp at hmem
  · have := congrArg List.length hmem
    simp [hlen] at this

end BeagleKernel.Uart
