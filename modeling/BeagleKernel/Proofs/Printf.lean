import BeagleKernel.Lib.LineEnds
import BeagleKernel.Proofs.Format

/-!
# What `uart_vprintf` sends

The text of a format is its characters and the texts of its conversions in order (`formatted`), with
no buffer and no position in it. The text is sent with a carriage return before each newline, and
a terminal that undoes that has the text (`vprintf_sends`). Two formats one after the other are
one call or two (`vprintf_split`).
-/

namespace BeagleKernel.Uart

open Fat32 (CString charAt)
open Numeral

/-- A whole number as it is written. -/
def intNumeral (base : ℕ) (z : ℤ) : List UInt8 :=
  if z < 0 then minus :: numeral base z.natAbs else numeral base z.natAbs

def numberCall (c : UInt8) : Option NumberCall :=
  if c = 0x64 then some .d
  else if c = 0x75 then some .u
  else if c = 0x78 then some .x
  else none

/-- The text of a conversion of a word. -/
def wordText (c : UInt8) (w : UInt32) : List UInt8 :=
  match numberCall c with
  | some call => intNumeral call.base.toNat (call.value w)
  | none => [w.toUInt8]

/-- The text of a conversion, and the arguments after it. -/
def converted (c : UInt8) (ap : List VaArg) : List UInt8 × List VaArg :=
  match argKind c, ap with
  | none, ap => ([c], ap)
  | some .str, .str s :: ap => (s.chars, ap)
  | some .word, .word w :: ap => (wordText c w, ap)
  | some _, ap => ([], ap)

/-- The text of a format. -/
def formatted : List UInt8 → List VaArg → List UInt8
  | [], _ => []
  | [c], _ => [c]
  | c :: c' :: cs, ap =>
    if c = percent then (converted c' ap).1 ++ formatted cs (converted c' ap).2
    else c :: formatted (c' :: cs) ap

/-- The bytes sent, of a trace. -/
def sentBytes (log : List PrintEvent) : List UInt8 :=
  log.filterMap fun
    | .transmit c => some c
    | .format _ => none

/-- A text as `uart_putc` sends it. -/
abbrev onWire (text : List UInt8) : List UInt8 := LineEnds.sent carriageReturn newline text

/-- The text a terminal shows. -/
abbrev shown (bytes : List UInt8) : List UInt8 := LineEnds.undo carriageReturn newline bytes

theorem formatted_cons {c : UInt8} (h : c ≠ percent) (ap : List VaArg) : ∀ {cs : List UInt8},
    formatted (c :: cs) ap = c :: formatted cs ap
  | [] => rfl
  | _ :: _ => if_neg h

theorem sentBytes_format (i : ℕ) (log : List PrintEvent) :
    sentBytes (.format i :: log) = sentBytes log := rfl

theorem sentBytes_transmit (out : List UInt8) (log : List PrintEvent) :
    sentBytes (out.map .transmit ++ log) = out ++ sentBytes log := by
  rw [sentBytes, List.filterMap_append, List.filterMap_map]
  exact congrArg (· ++ sentBytes log) List.filterMap_some

/-! ## One conversion -/

theorem printed_eq (call : NumberCall) (w : UInt32) :
    printed w.toInt32 call.base call.isSigned = intNumeral call.base.toNat (call.value w) := by
  have hword : w.toInt32.toUInt32 = w := rfl
  have hunsigned : ∀ base, intNumeral base (w.toNat : ℤ) = numeral base w.toNat := fun base => by
    rw [intNumeral, if_neg (by omega), Int.natAbs_natCast]
  rw [printed]
  cases call with
  | d =>
    show _ = intNumeral 10 w.toInt32.toInt
    by_cases hneg : w.toInt32 < 0
    · have hlt : w.toInt32.toInt < 0 := Int32.lt_iff_toInt_lt.1 hneg
      have habs : (-w.toInt32).toUInt32.toNat = w.toInt32.toInt.natAbs := by
        have := toNat_neg hneg
        omega
      rw [if_pos (by simp [hneg, NumberCall.base, NumberCall.isSigned]), intNumeral, if_pos hlt,
        habs]
      rfl
    · rw [if_neg (by simp [hneg]), ← toNat_of_nonneg hneg, hword, hunsigned]
      rfl
  | u =>
    rw [if_neg (by simp [NumberCall.isSigned]), hword]
    exact (hunsigned 10).symm
  | x =>
    rw [if_neg (by simp [NumberCall.base]), hword]
    exact (hunsigned 16).symm

theorem onWire_intNumeral (call : NumberCall) (z : ℤ) :
    onWire (intNumeral call.base.toNat z) = intNumeral call.base.toNat z := by
  have h2 : 2 ≤ call.base.toNat := le_trans (by decide) call.ten_le_base
  refine flatMap_transmitted fun c hc => ?_
  rw [intNumeral] at hc
  split_ifs at hc
  · rcases List.mem_cons.1 hc with rfl | hc
    · exact ⟨by decide, by decide⟩
    · exact plain_numeral h2 call.base_le hc
  · exact plain_numeral h2 call.base_le hc

theorem numberCall_char {c : UInt8} {call : NumberCall} (h : numberCall c = some call) :
    c = call.char := by
  rw [numberCall] at h
  split_ifs at h with hd hu hx
  · cases h
    exact hd
  · cases h
    exact hu
  · cases h
    exact hx

theorem argKind_str {c : UInt8} (h : argKind c = some .str) : c = 0x73 := by
  rw [argKind] at h
  split_ifs at h with hs hw
  · exact hs
  · cases h

theorem argKind_word {c : UInt8} (h : argKind c = some .word) (hcall : numberCall c = none) :
    c = 0x63 := by
  rw [numberCall] at hcall
  rw [argKind] at h
  split_ifs at hcall h with hd hu hx hs hw
  · cases h
  · tauto

/-- What sends a text and then returns the arguments left. -/
theorem transmit_bind (out : List UInt8) (ap : List VaArg) :
    ((⟨.ok (), out.map .transmit⟩ : PrintProg Unit) >>= fun _ => pure ap) =
      ⟨.ok ap, out.map .transmit⟩ := by
  rw [Traced.bind_of_ok rfl, Traced.log_pure, List.append_nil, Traced.val_pure]

theorem onWire_singleton (c : UInt8) : onWire [c] = transmitted c := by
  rw [onWire, LineEnds.sent, List.flatMap_singleton]
  rfl

/-- A character that takes no argument is sent itself. -/
theorem convert_plain {c : UInt8} (h : argKind c = none) (ap : List VaArg) (prior : ℕ → UInt8) :
    convert c ap prior = ⟨.ok ap, (onWire [c]).map .transmit⟩ := by
  rw [argKind] at h
  split_ifs at h with hs hw
  push Not at hw
  rw [convert, if_neg hw.1, if_neg hw.2.1, if_neg hw.2.2.1, if_neg hs, if_neg hw.2.2.2,
    uartPutc_eq, transmit_bind, onWire_singleton]

theorem convert_str (s : CString) (ap : List VaArg) (prior : ℕ → UInt8) :
    convert 0x73 (.str s :: ap) prior = ⟨.ok ap, (onWire s.chars).map .transmit⟩ := by
  have hputs : HoldsAt (charAt s.chars) 0 (s.chars ++ [0]) := holdsAt_charAt fun j _ => by
    rw [Nat.zero_add]
  rw [convert_s, vaStr, Traced.pure_bind, uartPuts_eq hputs s.noNul (Nat.lt_succ_self _),
    transmit_bind]
  rfl

/-- A word is sent as a number in its base, or as the character it is. -/
theorem convert_word {c : UInt8} (h : argKind c = some .word) (w : UInt32) (ap : List VaArg)
    (prior : ℕ → UInt8) :
    convert c (.word w :: ap) prior = ⟨.ok ap, (onWire (wordText c w)).map .transmit⟩ := by
  rcases hcall : numberCall c with _ | call
  · obtain rfl := argKind_word h hcall
    rw [convert_c, vaWord, Traced.pure_bind, uartPutc_eq, transmit_bind, wordText, hcall,
      onWire_singleton]
  · obtain rfl := numberCall_char hcall
    rw [convert_number, vaWord, Traced.pure_bind,
      printNumber_eq call.ten_le_base call.base_le, transmit_bind, printed_eq, wordText, hcall,
      onWire_intNumeral]

/-- A conversion sends its text, and leaves the arguments after its own. -/
theorem convert_converted {c : UInt8} {ap : List VaArg} {kinds : List ArgKind} (prior : ℕ → UInt8)
    (h : (argKind c).toList ++ kinds <+: ap.map VaArg.kind) :
    convert c ap prior = ⟨.ok (converted c ap).2, (onWire (converted c ap).1).map .transmit⟩ ∧
      kinds <+: (converted c ap).2.map VaArg.kind := by
  rcases hkind : argKind c with _ | kind
  · have htext : converted c ap = ([c], ap) := by simp only [converted, hkind]
    rw [hkind] at h
    rw [htext]
    exact ⟨convert_plain hkind ap prior, h⟩
  rw [hkind] at h
  -- the next argument is of the kind the conversion takes
  cases kind with
  | str =>
    rcases ap with _ | ⟨w | s, ap⟩
    · simp at h
    · cases (List.cons_prefix_cons.1 h).1
    obtain rfl := argKind_str hkind
    exact ⟨convert_str s ap prior, (List.cons_prefix_cons.1 h).2⟩
  | word =>
    rcases ap with _ | ⟨w | s, ap⟩
    · simp at h
    · have htext : converted c (.word w :: ap) = (wordText c w, ap) := by
        simp only [converted, hkind]
      rw [htext]
      exact ⟨convert_word hkind w ap prior, (List.cons_prefix_cons.1 h).2⟩
    · cases (List.cons_prefix_cons.1 h).1

/-! ## The loop -/

section

variable {fmt : ℕ → UInt8} {prior : ℕ → ℕ → UInt8}

/-- From any character of the format on, the rest of its text is sent. -/
theorem uartVprintf_formatted : ∀ {fuel pos : ℕ} {cs : List UInt8} {ap : List VaArg},
    HoldsAt fmt pos (cs ++ [0]) → 0 ∉ cs → ¬ LonePercent cs → Matching cs ap →
    cs.length < fuel →
    (uartVprintf fmt prior fuel pos ap).val = .ok (pos + cs.length) ∧
      sentBytes (uartVprintf fmt prior fuel pos ap).log = onWire (formatted cs ap)
  | fuel + 1, pos, [], ap, h, _, _, _, _ => by
    rw [uartVprintf_zero h.1]
    exact ⟨rfl, rfl⟩
  | fuel + 1, pos, c :: cs, ap, ⟨hc, h⟩, h0, hlone, hap, hfuel => by
    have hne : fmt pos ≠ 0 := fun hz => h0 (by rw [← hz, hc]; exact List.mem_cons_self)
    have h0' : 0 ∉ cs := fun hz => h0 (List.mem_cons_of_mem c hz)
    rw [List.length_cons] at hfuel ⊢
    by_cases hp : c = percent
    · rcases cs with _ | ⟨c', cs⟩
      · exact absurd hp hlone
      obtain ⟨hc', h⟩ := h
      rw [Matching, argKinds, if_pos hp] at hap
      rw [LonePercent, if_pos hp] at hlone
      obtain ⟨hconv, hap'⟩ := convert_converted (prior pos) hap
      rw [List.length_cons] at hfuel ⊢
      obtain ⟨hval, hlog⟩ := @uartVprintf_formatted fuel (pos + 2) cs (converted c' ap).2 h
        (fun hz => h0' (List.mem_cons_of_mem c' hz)) hlone hap' (by omega)
      rw [uartVprintf_conversion (hc.trans hp), readFormat, readFormat, Traced.event_bind,
        Traced.event_bind, hc', hconv, Traced.bind_of_ok rfl]
      refine ⟨hval.trans (congrArg _ (by omega)), ?_⟩
      rw [sentBytes_format, sentBytes_format, sentBytes_transmit, hlog, formatted, if_pos hp,
        onWire, ← LineEnds.sent_append]
    · obtain ⟨hval, hlog⟩ := @uartVprintf_formatted fuel (pos + 1) cs ap h h0'
        (fun hl => hlone ((lonePercent_cons hp).2 hl)) (by rwa [Matching, argKinds_cons hp] at hap)
        (by omega)
      rw [uartVprintf_char hne (by rwa [hc]), readFormat, Traced.event_bind, uartPutc_eq,
        Traced.bind_of_ok rfl]
      refine ⟨hval.trans (congrArg _ (by omega)), ?_⟩
      rw [sentBytes_format, sentBytes_transmit, hlog, formatted_cons hp, hc]
      rfl

end

theorem uartVprintf_text (s : CString) (after : ℕ → UInt8) (ap : List VaArg)
    (prior : ℕ → ℕ → UInt8) {fuel : ℕ} (hap : Matching s.chars ap) (hlone : ¬ LonePercent s.chars)
    (hfuel : s.chars.length < fuel) :
    (uartVprintf (inMemory s after) prior fuel 0 ap).val = .ok s.chars.length ∧
      sentBytes (uartVprintf (inMemory s after) prior fuel 0 ap).log =
        onWire (formatted s.chars ap) := by
  have hs : HoldsAt (inMemory s after) 0 (s.chars ++ [0]) := holdsAt_charAt fun j hj => by
    rw [Nat.zero_add, inMemory, if_pos hj]
  have htext := @uartVprintf_formatted _ prior fuel 0 _ _ hs s.noNul hlone hap hfuel
  rwa [Nat.zero_add] at htext

/-- A format sends its text to the terminal, whatever is in memory after it and in the buffers. -/
theorem vprintf_sends (s : CString) (after : ℕ → UInt8) (ap : List VaArg)
    (prior : ℕ → ℕ → UInt8) {fuel : ℕ} (hap : Matching s.chars ap) (hlone : ¬ LonePercent s.chars)
    (hfuel : s.chars.length < fuel) :
    let call := uartVprintf (inMemory s after) prior fuel 0 ap
    call.val = .ok s.chars.length ∧ sentBytes call.log = onWire (formatted s.chars ap) ∧
      shown (sentBytes call.log) = formatted s.chars ap := by
  obtain ⟨hval, hlog⟩ := uartVprintf_text s after ap prior hap hlone hfuel
  refine ⟨hval, hlog, ?_⟩
  rw [hlog]
  exact LineEnds.undo_sent (by decide) _

theorem vprintf_sends_number :
    let call := uartVprintf (inMemory ⟨[percent, 0x64, newline], by decide⟩ fun _ => 0)
      (fun _ _ => 0) 4 0 [.word (-5)]
    call.val = .ok 3 ∧ sentBytes call.log = [minus, 0x35, carriageReturn, newline] ∧
      shown (sentBytes call.log) = [minus, 0x35, newline] := by
  have hsends := vprintf_sends ⟨[percent, 0x64, newline], by decide⟩ (fun _ => 0) [.word (-5)]
    (fun _ _ => 0) ⟨[], rfl⟩ (by simp [LonePercent, percent, newline]) (show 3 < 4 by decide)
  have htext : formatted [percent, 0x64, newline] [.word (-5)] = [minus, 0x35, newline] := by
    show intNumeral 10 (-5) ++ [newline] = _
    simp [intNumeral, numeral, digitChar]
  rw [htext] at hsends
  exact hsends

/-! ## Two formats, one after the other -/

section

variable {t : List UInt8} {ap' : List VaArg}

theorem lonePercent_append : ∀ {s : List UInt8}, ¬ LonePercent s →
    (LonePercent (s ++ t) ↔ LonePercent t)
  | [], _ => Iff.rfl
  | [c], h => lonePercent_cons h
  | c :: c' :: s, h => by
    rw [LonePercent] at h
    rw [List.cons_append, List.cons_append, LonePercent]
    split_ifs with hp
    · rw [if_pos hp] at h
      exact lonePercent_append h
    · rw [if_neg hp] at h
      exact lonePercent_append h

theorem argKinds_append : ∀ {s : List UInt8}, ¬ LonePercent s →
    argKinds (s ++ t) = argKinds s ++ argKinds t
  | [], _ => rfl
  | [c], h => argKinds_cons h
  | c :: c' :: s, h => by
    rw [LonePercent] at h
    rw [List.cons_append, List.cons_append, argKinds, argKinds]
    split_ifs with hp
    · rw [if_pos hp] at h
      rw [argKinds_append h, List.append_assoc]
    · rw [if_neg hp] at h
      exact argKinds_append h

/-- What a conversion takes of its arguments, it takes of more. -/
theorem converted_append {c : UInt8} {ap : List VaArg} {kinds : List ArgKind}
    (h : (argKind c).toList ++ kinds = ap.map VaArg.kind) :
    converted c (ap ++ ap') = ((converted c ap).1, (converted c ap).2 ++ ap') ∧
      kinds = (converted c ap).2.map VaArg.kind := by
  rcases hkind : argKind c with _ | kind
  · rw [hkind] at h
    simp only [converted, hkind]
    exact ⟨trivial, h⟩
  rw [hkind] at h
  rcases ap with _ | ⟨w | s, ap⟩
  · simp at h
  · obtain ⟨rfl, hkinds⟩ := List.cons.inj h
    simp only [converted, hkind, VaArg.kind]
    exact ⟨rfl, hkinds⟩
  · obtain ⟨rfl, hkinds⟩ := List.cons.inj h
    simp only [converted, hkind, VaArg.kind]
    exact ⟨rfl, hkinds⟩

theorem formatted_append : ∀ {s : List UInt8} {ap : List VaArg}, ¬ LonePercent s →
    argKinds s = ap.map VaArg.kind →
    formatted (s ++ t) (ap ++ ap') = formatted s ap ++ formatted t ap'
  | [], ap, _, hap => by
    rw [List.map_eq_nil_iff.1 hap.symm]
    rfl
  | [c], ap, h, hap => by
    rw [List.map_eq_nil_iff.1 hap.symm]
    exact formatted_cons h ap'
  | c :: c' :: s, ap, h, hap => by
    rw [LonePercent] at h
    rw [argKinds] at hap
    rw [List.cons_append, List.cons_append, formatted, formatted]
    split_ifs with hp
    · rw [if_pos hp] at h hap
      obtain ⟨htext, hkinds⟩ := @converted_append ap' _ _ _ hap
      rw [htext, formatted_append h hkinds, List.append_assoc]
    · rw [if_neg hp] at h hap
      exact congrArg (c :: ·) (formatted_append h hap)

end

/-- A format in two parts is two calls. -/
theorem vprintf_split {s t st : CString} (hst : st.chars = s.chars ++ t.chars)
    (after : ℕ → UInt8) {ap ap' : List VaArg} (prior : ℕ → ℕ → UInt8) {fuel : ℕ}
    (hs : ¬ LonePercent s.chars) (ht : ¬ LonePercent t.chars)
    (hap : argKinds s.chars = ap.map VaArg.kind) (hap' : Matching t.chars ap')
    (hfuel : st.chars.length < fuel) :
    sentBytes (uartVprintf (inMemory st after) prior fuel 0 (ap ++ ap')).log =
      sentBytes (uartVprintf (inMemory s after) prior fuel 0 ap).log ++
        sentBytes (uartVprintf (inMemory t after) prior fuel 0 ap').log := by
  have hlen : st.chars.length = s.chars.length + t.chars.length := by
    rw [hst, List.length_append]
  have hboth : Matching st.chars (ap ++ ap') := by
    rw [Matching, hst, argKinds_append hs, hap, List.map_append]
    exact (List.prefix_append_right_inj _).2 hap'
  have hlone : ¬ LonePercent st.chars := by rwa [hst, lonePercent_append hs]
  have hfirst : Matching s.chars ap := by rw [Matching, hap]
  rw [(uartVprintf_text st after _ prior hboth hlone hfuel).2,
    (uartVprintf_text s after _ prior hfirst hs (by omega)).2,
    (uartVprintf_text t after _ prior hap' ht (by omega)).2, hst, formatted_append hs hap, onWire,
    LineEnds.sent_append]

theorem vprintf_split_number :
    sentBytes (uartVprintf (inMemory ⟨[percent, 0x64, percent, 0x73], by decide⟩ fun _ => 0)
        (fun _ _ => 0) 5 0 [.word 5, .str ⟨[0x61], by decide⟩]).log =
      sentBytes (uartVprintf (inMemory ⟨[percent, 0x64], by decide⟩ fun _ => 0)
        (fun _ _ => 0) 5 0 [.word 5]).log ++
      sentBytes (uartVprintf (inMemory ⟨[percent, 0x73], by decide⟩ fun _ => 0)
        (fun _ _ => 0) 5 0 [.str ⟨[0x61], by decide⟩]).log :=
  @vprintf_split ⟨[percent, 0x64], by decide⟩ ⟨[percent, 0x73], by decide⟩
    ⟨[percent, 0x64, percent, 0x73], by decide⟩ rfl _ [.word 5] [.str ⟨[0x61], by decide⟩] _ 5
    (by simp [LonePercent]) (by simp [LonePercent]) rfl ⟨[], rfl⟩ (by decide)

end BeagleKernel.Uart
