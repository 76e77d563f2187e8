import BeagleKernel.Proofs.Readline
import BeagleKernel.Uart.MotorTask

/-!
# Which positions get through

A coordinate is sent as a byte between the newlines of a text protocol. Two of the 256 bytes are
line ends themselves, and a frame with one of them is cut there; every other frame is read as
a line of five characters and leaves the queue empty.
-/

namespace BeagleKernel.Uart

variable {u : UartBuffers} {q : List UInt8} {j : Joystick}

theorem receive_list :
    ∀ (bytes : List UInt8) {u : UartBuffers} {q : List UInt8}, (u 1).Queued q →
      q.length + bytes.length ≤ charBufferSize →
      ((bytes.foldl handleUart1Irq u) 1).Queued (q ++ bytes.map receivedChar)
  | [], u, q, hq, _ => by simpa using hq
  | byte :: bytes, u, q, hq, hlen => by
    rw [List.length_cons] at hlen
    obtain ⟨b, hirq, hb⟩ := handleUart1Irq_room hq (by omega) byte
    have := receive_list bytes (u := Function.update u 1 b) (q := q ++ [receivedChar byte])
      (by rwa [Function.update_self]) (by rw [List.length_append, List.length_singleton]; omega)
    rw [List.foldl_cons, hirq, List.map_cons]
    rwa [List.append_assoc] at this

/-- A coordinate whose byte is no line end. -/
def PlainCoordinate (v : ℤ) : Prop := v ≠ -118 ∧ v ≠ -115

/-- A position with plain coordinates. -/
def Joystick.Plain (j : Joystick) : Prop := PlainCoordinate j.x ∧ PlainCoordinate j.y

theorem payload_toNat {v : ℤ} (h : -128 ≤ v ∧ v ≤ 127) : ((payload v).toNat : ℤ) = v + 128 := by
  rw [payload, UInt8.toNat_ofNat_of_lt' (by show _ < 256; omega)]
  omega

/-- A byte that is no line end arrives as it is sent. -/
theorem receivedChar_payload {v : ℤ} (h : -128 ≤ v ∧ v ≤ 127) (hp : PlainCoordinate v) :
    receivedChar (payload v) = payload v ∧ payload v ≠ newline := by
  have hv := payload_toNat h
  rcases hp with ⟨h1, h2⟩
  have hr : payload v ≠ carriageReturn := by
    intro heq
    rw [heq] at hv
    have : (carriageReturn.toNat : ℤ) = 13 := rfl
    omega
  have hn : payload v ≠ newline := by
    intro heq
    rw [heq] at hv
    have : (newline.toNat : ℤ) = 10 := rfl
    omega
  exact ⟨if_neg hr, hn⟩

/-- The byte of every other coordinate arrives as a newline. -/
theorem receivedChar_payload_eq_newline {v : ℤ} (hp : ¬ PlainCoordinate v) :
    receivedChar (payload v) = newline := by
  have : v = -118 ∨ v = -115 := by
    unfold PlainCoordinate at hp
    omega
  rcases this with rfl | rfl
  · rfl
  · rfl

/-- A poll with a frame of plain coordinates in the queue. -/
theorem motorRound_line {c1 c2 : UInt8} (h1 : newline ≠ c1) (h2 : newline ≠ c2)
    (hq : (u 1).Queued [0x78, c1, 0x79, c2, newline]) (uartBuffer : ℕ → UInt8) :
    ∃ command buffer' u', motorRound u uartBuffer = (some command, buffer', u') ∧
      command.x = c1.toNat - 128 ∧ command.y = c2.toNat - 128 ∧ (u' 1).Queued [] := by
  obtain ⟨b, hread, hb⟩ := uartReadline_one hq (by simp) uartBuffer 100
  have hx : newline ≠ 0x78 := by decide
  have hy : newline ≠ 0x79 := by decide
  have hline : lineOf ((100 : UInt32) - 1).toNat [0x78, c1, 0x79, c2, newline] =
      [0x78, c1, 0x79, c2, newline] :=
    @lineOf_line [] [0x78, c1, 0x79, c2] 99 (by simp [hx, h1, hy, h2]) (by simp)
  rw [hline] at hread hb
  unfold motorRound
  rw [hread]
  refine ⟨_, _, _, rfl, ?_, ?_, ?_⟩
  · simp [store]
  · simp [store]
  · simpa using hb

theorem motorRound_cut {body rest : List UInt8} (hn : newline ∉ body) (hlen : body.length < 4)
    (hq : (u 1).Queued (body ++ newline :: rest)) (uartBuffer : ℕ → UInt8) :
    ∃ buffer' u', motorRound u uartBuffer = (none, buffer', u') := by
  obtain ⟨b, hread, -⟩ := uartReadline_one hq (by simp) uartBuffer 100
  have hroom : ((100 : UInt32) - 1).toNat = 99 := rfl
  have hline : lineOf ((100 : UInt32) - 1).toNat (body ++ newline :: rest) = body ++ [newline] :=
    lineOf_line hn (by omega)
  rw [hline] at hread
  unfold motorRound
  rw [hread]
  refine ⟨_, _, if_neg ?_⟩
  rw [List.length_append, List.length_singleton]
  omega

theorem motorRound_frame (hq : (u 1).Queued []) (j : Joystick) (uartBuffer : ℕ → UInt8) :
    (j.Plain ∧ ∃ command buffer' u',
      motorRound (j.frame.foldl handleUart1Irq u) uartBuffer = (some command, buffer', u') ∧
        command.x = j.x ∧ command.y = j.y ∧ (u' 1).Queued []) ∨
    (¬ j.Plain ∧ ∃ buffer' u',
      motorRound (j.frame.foldl handleUart1Irq u) uartBuffer = (none, buffer', u')) := by
  have hlen : ([] : List UInt8).length + j.frame.length ≤ charBufferSize :=
    show 5 ≤ 512 by decide
  have hnx : newline ≠ 0x78 := by decide
  have hny : newline ≠ 0x79 := by decide
  have hframe := receive_list j.frame hq hlen
  have hx : receivedChar 0x78 = 0x78 := by decide
  have hy : receivedChar 0x79 = 0x79 := by decide
  have hn : receivedChar newline = newline := by decide
  simp only [Joystick.frame, List.map_cons, List.map_nil, List.nil_append, hx, hy, hn] at hframe
  by_cases h1 : PlainCoordinate j.x
  · obtain ⟨hr1, hne1⟩ := receivedChar_payload j.x_range h1
    rw [hr1] at hframe
    by_cases h2 : PlainCoordinate j.y
    · obtain ⟨hr2, hne2⟩ := receivedChar_payload j.y_range h2
      rw [hr2] at hframe
      obtain ⟨command, buffer', u', hround, hcx, hcy, hq'⟩ :=
        motorRound_line hne1.symm hne2.symm hframe uartBuffer
      refine .inl ⟨⟨h1, h2⟩, command, buffer', u', hround, ?_, ?_, hq'⟩
      · rw [hcx, payload_toNat j.x_range, Int.add_sub_cancel]
      · rw [hcy, payload_toNat j.y_range, Int.add_sub_cancel]
    · rw [receivedChar_payload_eq_newline h2] at hframe
      refine .inr ⟨fun h => h2 h.2, ?_⟩
      refine @motorRound_cut _ [0x78, payload j.x, 0x79] _ ?_ (by simp) hframe uartBuffer
      simp [hne1.symm, hnx, hny]
  · rw [receivedChar_payload_eq_newline h1] at hframe
    exact .inr ⟨fun h => h1 h.1, @motorRound_cut _ [0x78] _ (by simp [hnx]) (by simp)
      hframe uartBuffer⟩

theorem length_decoded_le : ∀ (js : List Joystick) (u : UartBuffers) (uartBuffer : ℕ → UInt8),
    (decoded u uartBuffer js).length ≤ js.length
  | [], _, _ => Nat.le_refl _
  | j :: js, u, uartBuffer => by
    rw [decoded]
    rcases motorRound (j.frame.foldl handleUart1Irq u) uartBuffer with ⟨_ | command, buffer', u'⟩
    · exact Nat.le_succ_of_le (length_decoded_le js u' buffer')
    · exact Nat.succ_le_succ (length_decoded_le js u' buffer')

theorem decoded_eq_iff : ∀ (js : List Joystick) {u : UartBuffers} (uartBuffer : ℕ → UInt8),
    (u 1).Queued [] →
      (decoded u uartBuffer js = js.map (fun j => (j.x, j.y)) ↔ ∀ j ∈ js, j.Plain)
  | [], _, _, _ => by simp [decoded]
  | j :: js, u, uartBuffer, hq => by
    rw [decoded, List.forall_mem_cons]
    rcases motorRound_frame hq j uartBuffer with
      ⟨hplain, command, buffer', u', hround, hx, hy, hq'⟩ | ⟨hplain, buffer', u', hround⟩
    · rw [hround]
      simp only [hx, hy, List.map_cons, List.cons_inj_right, hplain, true_and]
      exact decoded_eq_iff js buffer' hq'
    · rw [hround]
      refine iff_of_false (fun heq => ?_) fun h => hplain h.1
      have hlen := congrArg List.length heq
      have hle := length_decoded_le js u' buffer'
      rw [List.length_map, List.length_cons] at hlen
      simp only at hlen
      omega

/-- The positions decoded are those sent exactly if no coordinate is -118 or -115. -/
theorem decoded_iff (u : UartBuffers) (uartBuffer : ℕ → UInt8) (js : List Joystick) :
    decoded (uartInit u 1) uartBuffer js = js.map (fun j => (j.x, j.y)) ↔
      ∀ j ∈ js, (j.x ≠ -118 ∧ j.x ≠ -115) ∧ (j.y ≠ -118 ∧ j.y ≠ -115) :=
  decoded_eq_iff js uartBuffer (uartInit_queued u)

/-- A position with a newline for its first coordinate. -/
def cutPosition : Joystick := ⟨-118, 0, by decide, by decide⟩

theorem cutPosition_lost : ¬ ∀ (u : UartBuffers) uartBuffer (js : List Joystick),
    decoded (uartInit u 1) uartBuffer js = js.map (fun j => (j.x, j.y)) := by
  intro h
  have hall := (decoded_eq_iff [cutPosition] _ (uartInit_queued zeroed)).1
    (h zeroed (fun _ => 0) [cutPosition])
  exact (hall cutPosition (List.mem_singleton.2 rfl)).1.1 rfl

end BeagleKernel.Uart
