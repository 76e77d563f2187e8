import BeagleKernel.Uart.Uart

/-!
# What a read takes from the queue

`uart_readline` takes the characters of the queue up to its first newline, as far as the caller's
buffer has room (`lineOf`), and leaves the rest (`uartReadline_spec`).
-/

namespace BeagleKernel.Uart

/-- The first characters of a queue up to a newline, `room` at most. -/
def lineOf : ℕ → List UInt8 → List UInt8
  | 0, _ => []
  | _ + 1, [] => []
  | room + 1, c :: q => if c = newline then [c] else c :: lineOf room q

/-- The buffer with characters stored from `i` on. -/
def store (buffer : ℕ → UInt8) : ℕ → List UInt8 → ℕ → UInt8
  | _, [] => buffer
  | i, c :: cs => store (Function.update buffer i c) (i + 1) cs

theorem store_of_lt {j : ℕ} : ∀ {cs : List UInt8} {buffer : ℕ → UInt8} {i : ℕ}, j < i →
    store buffer i cs j = buffer j
  | [], _, _, _ => rfl
  | c :: cs, buffer, i, h => by
    rw [store, store_of_lt (by omega), Function.update_of_ne (by omega)]

theorem store_add : ∀ {cs : List UInt8} {buffer : ℕ → UInt8} {i : ℕ} {j : ℕ} (h : j < cs.length),
    store buffer i cs (i + j) = cs[j]
  | c :: cs, buffer, i, 0, _ => by
    show store (Function.update buffer i c) (i + 1) cs i = c
    rw [store_of_lt (Nat.lt_succ_self i), Function.update_self]
  | c :: cs, buffer, i, j + 1, h => by
    rw [store, show i + (j + 1) = i + 1 + j by omega, store_add (by simpa using h)]
    rfl

section

variable {room : ℕ} {q body rest : List UInt8}

theorem lineOf_ne_nil (hroom : 0 < room) (hq : q ≠ []) : lineOf room q ≠ [] := by
  obtain ⟨room, rfl⟩ : ∃ n, room = n + 1 := ⟨room - 1, by omega⟩
  rcases q with _ | ⟨c, q⟩
  · exact absurd rfl hq
  · rw [lineOf]
    split_ifs <;> simp

theorem lineOf_line : ∀ {body : List UInt8} {room : ℕ}, newline ∉ body → body.length < room →
    lineOf room (body ++ newline :: rest) = body ++ [newline]
  | [], room + 1, _, _ => by simp [lineOf]
  | c :: body, room + 1, h, hlen => by
    have hc : ¬ c = newline := fun hc => h (by simp [hc])
    rw [List.cons_append, lineOf, if_neg hc,
      lineOf_line (fun hb => h (List.mem_cons_of_mem c hb)) (by simpa using hlen)]
    rfl

end

variable {u : UartBuffers} {uartIndex : UInt16} (h : uartIndex.toNat < 2) {q : List UInt8}

theorem uartGetchar_nil (hq : (u ⟨_, h⟩).Queued []) : uartGetchar u uartIndex = (none, u) := by
  rw [uartGetchar, dif_pos h, hq.pop_nil, Function.update_eq_self]

theorem uartGetchar_cons {c : UInt8} (hq : (u ⟨_, h⟩).Queued (c :: q)) :
    ∃ b, uartGetchar u uartIndex = (some c, Function.update u ⟨_, h⟩ b) ∧ b.Queued q := by
  obtain ⟨b, hpop, hb⟩ := hq.pop_cons
  refine ⟨b, ?_, hb⟩
  rw [uartGetchar, dif_pos h, hpop]

theorem readlineLoop_spec :
    ∀ (room i : ℕ) (buffer : ℕ → UInt8) {u : UartBuffers} {q : List UInt8},
      (u ⟨_, h⟩).Queued q → ∃ b, readlineLoop uartIndex room i buffer u =
        (i + (lineOf room q).length, store buffer i (lineOf room q),
          Function.update u ⟨_, h⟩ b) ∧ b.Queued (q.drop (lineOf room q).length)
  | 0, i, buffer, u, q, hq => ⟨u ⟨_, h⟩, by rw [Function.update_eq_self]; rfl, hq⟩
  | room + 1, i, buffer, u, [], hq => by
    refine ⟨u ⟨_, h⟩, ?_, hq⟩
    rw [readlineLoop, uartGetchar_nil h hq, Function.update_eq_self]
    rfl
  | room + 1, i, buffer, u, c :: q, hq => by
    obtain ⟨b, hget, hb⟩ := uartGetchar_cons h hq
    rw [readlineLoop, hget, lineOf]
    simp only
    split_ifs with hc
    · exact ⟨b, rfl, hb⟩
    · obtain ⟨b', hloop, hb'⟩ := readlineLoop_spec room (i + 1) (Function.update buffer i c)
        (u := Function.update u ⟨_, h⟩ b) (by rw [Function.update_self]; exact hb)
      refine ⟨b', ?_, hb'⟩
      rw [hloop, Function.update_idem, List.length_cons, Nat.add_assoc, Nat.add_comm 1]
      rfl

theorem uartReadline_none (hq : (u ⟨_, h⟩).Queued q) (hn : newline ∉ q) (buffer : ℕ → UInt8)
    (size : UInt32) : uartReadline u uartIndex buffer size = (0, buffer, u) := by
  rw [uartReadline, dif_pos h, if_pos (hq.lines_eq_zero_iff.2 hn)]

/-- What a read takes, and what it leaves. -/
theorem uartReadline_spec (hq : (u ⟨_, h⟩).Queued q) (hn : newline ∈ q) (buffer : ℕ → UInt8)
    (size : UInt32) : ∃ b, uartReadline u uartIndex buffer size =
      ((lineOf (size - 1).toNat q).length,
        Function.update (store buffer 0 (lineOf (size - 1).toNat q))
          (lineOf (size - 1).toNat q).length 0,
        Function.update u ⟨_, h⟩ b) ∧
      b.Queued (q.drop (lineOf (size - 1).toNat q).length) := by
  obtain ⟨b, hloop, hb⟩ := readlineLoop_spec h (size - 1).toNat 0 buffer hq
  have hlines : ¬ (u ⟨_, h⟩).lines = 0 := fun h0 => hq.lines_eq_zero_iff.1 h0 hn
  refine ⟨b, ?_, hb⟩
  simp only [uartReadline, dif_pos h, if_neg hlines, hloop, Nat.zero_add]

/-! ## UART1 -/

section Uart1

variable {u : UartBuffers} {q : List UInt8} (hq : (u 1).Queued q)

include hq

theorem handleUart1Irq_full (hfull : q.length = charBufferSize) (byte : UInt8) :
    handleUart1Irq u byte = u := by
  rw [handleUart1Irq, hq.push_full hfull, Function.update_eq_self]

theorem handleUart1Irq_room (hlt : q.length < charBufferSize) (byte : UInt8) :
    ∃ b, handleUart1Irq u byte = Function.update u 1 b ∧ b.Queued (q ++ [receivedChar byte]) := by
  obtain ⟨b, hpush, hb⟩ := hq.push hlt (receivedChar byte)
  exact ⟨b, by rw [handleUart1Irq, hpush], hb⟩

theorem uartReadline_one_none (hn : newline ∉ q) (buffer : ℕ → UInt8) (size : UInt32) :
    uartReadline u 1 buffer size = (0, buffer, u) :=
  @uartReadline_none u 1 (by decide) q hq hn buffer size

theorem uartReadline_one (hn : newline ∈ q) (buffer : ℕ → UInt8) (size : UInt32) :
    ∃ b, uartReadline u 1 buffer size =
      ((lineOf (size - 1).toNat q).length,
        Function.update (store buffer 0 (lineOf (size - 1).toNat q))
          (lineOf (size - 1).toNat q).length 0,
        Function.update u 1 b) ∧
      b.Queued (q.drop (lineOf (size - 1).toNat q).length) :=
  @uartReadline_spec u 1 (by decide) q hq hn buffer size

end Uart1

theorem uartInit_queued (u : UartBuffers) : (uartInit u 1 1).Queued [] := by
  rw [uartInit, dif_pos (by decide)]
  show (Function.update u 1 (u 1).init 1).Queued []
  rw [Function.update_self]
  exact CircularCharBuffer.init_queued _

end BeagleKernel.Uart
