import BeagleKernel.Fat32.Directory
import Mathlib.Data.List.GetD

/-!
# The path parser

The parser captures the components of a path in order, those it has room for: each is a row of the
path structure that reads back as the component (`component_parse`).
-/

namespace BeagleKernel.Fat32

/-- Row `k` of the path structure holds the string `s`. -/
structure Row (mem : ℕ → UInt8) (k : ℕ) (s : List UInt8) : Prop where
  short : s.length < fat32MaxComponentLength
  noNul : 0 ∉ s
  bytes : ∀ j ≤ s.length, mem (fat32MaxComponentLength * k + j) = charAt s j

theorem charAt_length (s : List UInt8) : charAt s s.length = 0 := by
  rw [charAt, List.getD_eq_default _ _ le_rfl]

theorem cstringAt_eq {mem : ℕ → UInt8} :
    ∀ {s : List UInt8} {pos left : ℕ}, 0 ∉ s → s.length < left →
      (∀ j ≤ s.length, mem (pos + j) = charAt s j) → cstringAt mem left pos = some s
  | [], pos, left + 1, _, _, h => by
    rw [cstringAt, if_pos]
    simpa [charAt] using h 0 le_rfl
  | c :: s, pos, left + 1, hnul, hlt, h => by
    have hc : mem pos = c := by simpa [charAt] using h 0 (Nat.zero_le _)
    have hne : mem pos ≠ 0 := by
      rw [hc]
      rintro rfl
      exact hnul List.mem_cons_self
    have ih := @cstringAt_eq mem s (pos + 1) left
      (fun h' => hnul (List.mem_cons_of_mem _ h')) (Nat.lt_of_succ_lt_succ hlt) fun j hj => by
        rw [Nat.add_assoc, Nat.add_comm 1 j]
        exact h (j + 1) (Nat.succ_le_succ hj)
    rw [cstringAt, if_neg hne, ih, hc]
    rfl

theorem Row.component {path : Fat32Path} {k : ℕ} {s : List UInt8} (h : Row path.components k s)
    (hk : k < fat32MaxComponents) : path.component k = pure s := by
  have hlt := h.short
  simp only [fat32MaxComponents, fat32MaxComponentLength] at hk hlt
  unfold Fat32Path.component
  rw [if_pos hk, cstringAt_eq h.noNul
    (by simp only [fat32MaxComponents, fat32MaxComponentLength]; omega) h.bytes]

theorem row_captureComponent {pre s rest : List UInt8} (mem : ℕ → UInt8) (idx : ℕ)
    (hs : s.length < fat32MaxComponentLength) (hnul : 0 ∉ s) :
    Row (captureComponent (pre ++ (s ++ rest)) pre.length s.length idx mem) idx s where
  short := hs
  noNul := hnul
  bytes j hj := by
    unfold captureComponent
    rcases hj.eq_or_lt with rfl | hlt
    · rw [Function.update_self, charAt_length]
    · rw [Function.update_of_ne (by omega), strncpy, if_pos ⟨by omega, by omega⟩,
        Nat.add_sub_cancel_left, List.drop_left, charAt, charAt, List.getD_append _ _ _ _ hlt]

theorem Row.captureComponent {mem : ℕ → UInt8} {k idx : ℕ} {s : List UInt8} (h : Row mem k s)
    (hk : k < idx) (path : List UInt8) (start len : ℕ) :
    Row (captureComponent path start len idx mem) k s where
  short := h.short
  noNul := h.noNul
  bytes j hj := by
    have hlt := h.short
    simp only [fat32MaxComponentLength] at hlt
    have hfar : fat32MaxComponentLength * k + j < fat32MaxComponentLength * idx := by
      simp only [fat32MaxComponentLength]
      omega
    rw [← h.bytes j hj, Fat32.captureComponent, Function.update_of_ne (by omega), strncpy,
      if_neg (by omega)]

/-! ## The loop -/

/-- The parser has captured `done`. -/
structure Captured (st : ParseState) (done : List (List UInt8)) : Prop where
  count : st.componentIdx = done.length
  le : done.length ≤ fat32MaxComponents
  rows : ∀ k (h : k < done.length), Row st.components k done[k]

/-- The components captured once the parser is through with one more. -/
def keep (done : List (List UInt8)) (s : List UInt8) : List (List UInt8) :=
  if s ≠ [] ∧ s.length < fat32MaxComponentLength ∧ done.length < fat32MaxComponents then
    done ++ [s]
  else done

theorem Captured.snoc {st st' : ParseState} {done : List (List UInt8)} {s : List UInt8}
    (h : Captured st done) (hlt : done.length < fat32MaxComponents)
    (hidx : st'.componentIdx = st.componentIdx + 1)
    (hrows : ∀ k r, k < done.length → Row st.components k r → Row st'.components k r)
    (hnew : Row st'.components done.length s) : Captured st' (done ++ [s]) where
  count := by
    rw [hidx, h.count, List.length_append]
    rfl
  le := by
    rw [List.length_append]
    exact hlt
  rows k hk := by
    rw [List.length_append, List.length_singleton] at hk
    rcases (Nat.lt_succ_iff.1 hk).eq_or_lt with rfl | hk
    · rwa [List.getElem_append_right le_rfl, List.getElem_singleton]
    · rw [List.getElem_append_left hk]
      exact hrows k _ hk (h.rows k hk)

/-- At a separator the parser captures the component before it, if it has room. -/
theorem parseStep_separator {pre cur rest : List UInt8} {st : ParseState}
    {done : List (List UInt8)} (hnul : 0 ∉ cur) (hstart : st.start = pre.length)
    (hcap : Captured st done)
    (hsep : charAt (pre ++ (cur ++ rest)) (pre.length + cur.length) = slash ∨
      charAt (pre ++ (cur ++ rest)) (pre.length + cur.length) = 0) :
    ∃ st', parseStep (pre ++ (cur ++ rest)) st (pre.length + cur.length) = st' ∧
      st'.start = pre.length + cur.length + 1 ∧ Captured st' (keep done cur) := by
  have hlen : pre.length + cur.length - st.start = cur.length := by omega
  have hcond : (pre.length + cur.length > st.start ∧
      pre.length + cur.length - st.start < fat32MaxComponentLength ∧
        st.componentIdx < fat32MaxComponents) ↔
      cur ≠ [] ∧ cur.length < fat32MaxComponentLength ∧ done.length < fat32MaxComponents := by
    rw [hlen, hcap.count, ← List.length_pos_iff_ne_nil]
    refine and_congr_left fun _ => ?_
    omega
  refine ⟨_, rfl, ?_⟩
  unfold parseStep keep
  rw [if_pos hsep]
  by_cases hc : cur ≠ [] ∧ cur.length < fat32MaxComponentLength ∧
      done.length < fat32MaxComponents
  · rw [if_pos hc, if_pos (hcond.2 hc), hlen, hstart, hcap.count]
    refine ⟨rfl, hcap.snoc hc.2.2 (by rw [hcap.count]) (fun k r hk h => ?_) ?_⟩
    · exact h.captureComponent hk _ _ _
    · exact row_captureComponent _ _ hc.2.1 hnul
  · rw [if_neg hc, if_neg (mt hcond.1 hc)]
    exact ⟨rfl, hcap.count, hcap.le, hcap.rows⟩

/-- The loop from an index on, with `cur` of the component there behind it. -/
theorem parse_loop :
    ∀ (rest pre cur : List UInt8) (st : ParseState) (done : List (List UInt8)),
      0 ∉ cur ++ rest → slash ∉ cur → st.start = pre.length → Captured st done →
      Captured ((List.range' (pre.length + cur.length) (rest.length + 1)).foldl
        (parseStep (pre ++ (cur ++ rest))) st) (((cur ++ rest).splitOn slash).foldl keep done)
  | [], pre, cur, st, done, hnul, hcur, hstart, hcap => by
    rw [List.append_nil] at hnul ⊢
    have hend : charAt (pre ++ cur) (pre.length + cur.length) = 0 := by
      rw [← List.length_append]
      exact charAt_length _
    obtain ⟨st', hst', -, hcap'⟩ := @parseStep_separator pre cur [] st done hnul hstart hcap
      (.inr (by rwa [List.append_nil]))
    rw [List.append_nil] at hst'
    rw [List.splitOn_eq_singleton hcur]
    simpa [hst'] using hcap'
  | c :: rest, pre, cur, st, done, hnul, hcur, hstart, hcap => by
    have hc : charAt (pre ++ (cur ++ c :: rest)) (pre.length + cur.length) = c := by
      rw [← List.append_assoc, ← List.length_append, charAt, List.getD_append_right _ _ _ _ le_rfl,
        Nat.sub_self]
      rfl
    have hassoc : pre ++ (cur ++ c :: rest) = pre ++ (cur ++ [c] ++ rest) := by simp
    rw [List.length_cons, List.range'_succ, List.foldl_cons]
    by_cases hslash : c = slash
    · subst hslash
      have hnul' : 0 ∉ cur := fun h => hnul (List.mem_append_left _ h)
      obtain ⟨st', hst', hstart', hcap'⟩ := @parseStep_separator pre cur (slash :: rest) st done
        hnul' hstart hcap (.inl hc)
      have ih := parse_loop rest (pre ++ (cur ++ [slash])) [] st' (keep done cur)
        (fun h => hnul (List.mem_append_right _ (List.mem_cons_of_mem _ h))) List.not_mem_nil
        (by rw [hstart']; simp [Nat.add_assoc]) hcap'
      rw [hst', List.splitOn_append_cons_self_of_not_mem hcur, List.foldl_cons]
      simpa [Nat.add_assoc] using ih
    · have hne : c ≠ 0 := by
        rintro rfl
        exact hnul (List.mem_append_right _ List.mem_cons_self)
      have hst : parseStep (pre ++ (cur ++ c :: rest)) st (pre.length + cur.length) = st := by
        unfold parseStep
        rw [hc, if_neg (not_or.2 ⟨hslash, hne⟩)]
      have ih := parse_loop rest pre (cur ++ [c]) st done (by simpa using hnul)
        (by simp [hcur, Ne.symm hslash]) hstart hcap
      rw [hst]
      simpa [Nat.add_assoc] using ih

theorem foldl_keep :
    ∀ (ss done : List (List UInt8)), done.length ≤ fat32MaxComponents →
      ss.foldl keep done = done ++ ((ss.filter (· ≠ [])).filter
        (·.length < fat32MaxComponentLength)).take (fat32MaxComponents - done.length)
  | [], done, _ => by simp
  | s :: ss, done, hle => by
    rw [List.foldl_cons]
    by_cases hs : s ≠ [] ∧ s.length < fat32MaxComponentLength
    · have hcons : (((s :: ss).filter (· ≠ [])).filter (·.length < fat32MaxComponentLength)) =
          s :: ((ss.filter (· ≠ [])).filter (·.length < fat32MaxComponentLength)) := by
        rw [List.filter_cons_of_pos (by simpa using hs.1),
          List.filter_cons_of_pos (by simpa using hs.2)]
      rw [hcons]
      rcases hle.eq_or_lt with heq | hlt
      · have hk : keep done s = done := if_neg (fun h => absurd h.2.2 (by omega))
        rw [hk, foldl_keep ss done hle, heq, Nat.sub_self, List.take_zero, List.take_zero]
      · have hk : keep done s = done ++ [s] := if_pos ⟨hs.1, hs.2, hlt⟩
        have hlen : (done ++ [s]).length = done.length + 1 := by simp
        obtain ⟨n, hn⟩ : ∃ n, fat32MaxComponents - done.length = n + 1 :=
          ⟨fat32MaxComponents - done.length - 1, by omega⟩
        rw [hk, foldl_keep ss _ (by omega), hlen, hn, List.take_succ_cons, List.append_assoc,
          List.singleton_append, show fat32MaxComponents - (done.length + 1) = n by omega]
    · have hk : keep done s = done := if_neg (fun h => hs ⟨h.1, h.2.1⟩)
      have hdrop : (((s :: ss).filter (· ≠ [])).filter (·.length < fat32MaxComponentLength)) =
          ((ss.filter (· ≠ [])).filter (·.length < fat32MaxComponentLength)) := by
        by_cases hnil : s = []
        · rw [List.filter_cons_of_neg (by simpa using hnil)]
        · rw [List.filter_cons_of_pos (by simpa using hnil), List.filter_cons_of_neg]
          simpa using fun h => hs ⟨hnil, h⟩
      rw [hk, hdrop]
      exact foldl_keep ss done hle

/-! ## The parser -/

theorem not_mem_skipLeadingDot {c : UInt8} {path : List UInt8} (h : c ∉ path) :
    c ∉ skipLeadingDot path := by
  unfold skipLeadingDot
  split_ifs
  · exact fun h' => h (List.mem_of_mem_tail h')
  · exact h

theorem parse_captured (path : CString) (prior : ℕ → UInt8) :
    ∃ st : ParseState, parseFat32Path path prior = ⟨st.components, st.componentIdx⟩ ∧
      Captured st (keptComponents path) := by
  have h := parse_loop (skipLeadingDot path.chars) [] [] ⟨0, 0, prior⟩ []
    (not_mem_skipLeadingDot path.noNul) List.not_mem_nil rfl
    ⟨rfl, Nat.zero_le _, fun k hk => absurd hk (Nat.not_lt_zero k)⟩
  rw [foldl_keep _ _ (Nat.zero_le _)] at h
  refine ⟨_, rfl, ?_⟩
  rw [List.range_eq_range']
  exact h

theorem numComponents_parse (path : CString) (prior : ℕ → UInt8) :
    (parseFat32Path path prior).numComponents = (keptComponents path).length := by
  obtain ⟨st, heq, hcap⟩ := parse_captured path prior
  rw [heq, ← hcap.count]

theorem length_keptComponents (path : CString) :
    (keptComponents path).length ≤ fat32MaxComponents := by
  obtain ⟨st, -, hcap⟩ := parse_captured path fun _ => 0
  exact hcap.le

theorem keptComponents_of_short {path : CString}
    (hcount : (components path).length ≤ fat32MaxComponents)
    (hlen : ∀ c ∈ components path, c.length < fat32MaxComponentLength) :
    keptComponents path = components path := by
  have hall : (components path).filter (·.length < fat32MaxComponentLength) = components path :=
    List.filter_eq_self.2 fun c hc => decide_eq_true (hlen c hc)
  rw [keptComponents, hall, List.take_of_length_le hcount]

theorem component_parse (path : CString) (prior : ℕ → UInt8) {k : ℕ}
    (h : k < (keptComponents path).length) :
    (parseFat32Path path prior).component k = pure (keptComponents path)[k] := by
  have hle := length_keptComponents path
  obtain ⟨st, heq, hcap⟩ := parse_captured path prior
  rw [heq]
  exact (hcap.rows k h).component (by omega)

end BeagleKernel.Fat32
