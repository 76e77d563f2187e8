import BeagleKernel.Proofs.Readline

/-!
# A read takes one line

`uart_readline` takes the first line of the queue, or as much of it as the caller has room for
(`uartReadline_extracts`); what is left of a cut line is the next line.
-/

namespace BeagleKernel.Uart

/-- A read has taken `n` characters of the queue `q` of UART `k` into the buffer, where a `NUL`
follows them. -/
structure Extracts (k : Fin 2) (u : UartBuffers) (q : List UInt8) (buffer : ℕ → UInt8) (n : ℕ)
    (read : ℕ × (ℕ → UInt8) × UartBuffers) : Prop where
  result : read.1 = n
  chars : ∀ i < n, q[i]? = some (read.2.1 i)
  nul : read.2.1 n = 0
  beyond : ∀ i > n, read.2.1 i = buffer i
  queue : (read.2.2 k).Queued (q.drop n)
  other : ∀ j ≠ k, read.2.2 j = u j

theorem lineOf_eq_take : ∀ {q : List UInt8} {room : ℕ}, newline ∈ q →
    lineOf room q = q.take (min (q.idxOf newline + 1) room)
  | _, 0, _ => by rw [Nat.min_zero]; rfl
  | c :: q, room + 1, h => by
    rw [lineOf, Nat.add_min_add_right, List.take_succ_cons]
    by_cases hc : c = newline
    · rw [if_pos hc, hc, List.idxOf_cons_self, Nat.zero_min, List.take_zero]
    · have hq : newline ∈ q := (List.mem_cons.1 h).resolve_left (Ne.symm hc)
      rw [if_neg hc, lineOf_eq_take hq, List.idxOf_cons, cond_eq_ite,
        if_neg (by simpa using hc)]

theorem store_of_ge {j : ℕ} : ∀ {cs : List UInt8} {buffer : ℕ → UInt8} {i : ℕ},
    i + cs.length ≤ j → store buffer i cs j = buffer j
  | [], _, _, _ => rfl
  | c :: cs, buffer, i, h => by
    rw [List.length_cons] at h
    rw [store, store_of_ge (by omega), Function.update_of_ne (by omega)]

theorem uartReadline_extracts {u : UartBuffers} {uartIndex : UInt16} (h : uartIndex.toNat < 2)
    {q : List UInt8} (hq : (u ⟨_, h⟩).Queued q) {size : UInt32} (hsize : 1 ≤ size.toNat)
    (buffer : ℕ → UInt8) :
    (newline ∉ q → uartReadline u uartIndex buffer size = (0, buffer, u)) ∧
      (newline ∈ q → Extracts ⟨_, h⟩ u q buffer (min (q.idxOf newline + 1) (size.toNat - 1))
        (uartReadline u uartIndex buffer size)) := by
  refine ⟨fun hn => uartReadline_none h hq hn buffer size, fun hn => ?_⟩
  have hroom : (size - 1).toNat = size.toNat - 1 := by
    have hone : (1 : UInt32).toNat = 1 := rfl
    rw [UInt32.toNat_sub_of_le _ _ (UInt32.le_iff_toNat_le.2 (by rwa [hone])), hone]
  obtain ⟨b, hread, hb⟩ := uartReadline_spec h hq hn buffer size
  rw [hroom, lineOf_eq_take hn] at hread hb
  have hidx := List.idxOf_lt_length_of_mem hn
  set n := min (q.idxOf newline + 1) (size.toNat - 1) with hdef
  have hlen : (q.take n).length = n := by
    rw [List.length_take]
    omega
  rw [hlen] at hread hb
  rw [hread]
  refine ⟨rfl, fun i hi => ?_, ?_, fun i hi => ?_, ?_, fun j hj => ?_⟩
  · have hstore := @store_add (q.take n) buffer 0 i (by rwa [hlen])
    rw [Nat.zero_add, List.getElem_take] at hstore
    show _ = some (Function.update (store buffer 0 (q.take n)) n 0 i)
    rw [Function.update_of_ne (by omega), hstore]
    exact List.getElem?_eq_getElem (by omega)
  · exact Function.update_self ..
  · show Function.update (store buffer 0 (q.take n)) n 0 i = buffer i
    rw [Function.update_of_ne (by omega), store_of_ge (by omega)]
  · show (Function.update u ⟨_, h⟩ b ⟨_, h⟩).Queued _
    rwa [Function.update_self]
  · exact Function.update_of_ne hj _ _

/-- Both buffers with the line `a` in them, around the end of the ring. -/
def wrapped : UartBuffers := fun _ =>
  ⟨fun i => if i = 511 then 0x61 else newline, 511, 1, 2, 1⟩

theorem uartReadline_extracts_wrapped :
    Extracts 1 wrapped [0x61, newline] (fun _ => 0) 2 (uartReadline wrapped 1 (fun _ => 0) 8) :=
  have hq : (wrapped 1).Queued [0x61, newline] := by
    refine ⟨⟨by decide, by decide, fun i hi => ?_⟩, rfl, rfl, by decide⟩
    match i, hi with
    | 0, _ => rfl
    | 1, _ => rfl
  (@uartReadline_extracts wrapped 1 (by decide) _ hq 8 (by decide) fun _ => 0).2 (by decide)

end BeagleKernel.Uart
