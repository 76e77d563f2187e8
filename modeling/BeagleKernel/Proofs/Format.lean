import BeagleKernel.Proofs.Print

/-!
# What `uart_vprintf` reads of its format

A conversion is a `%` and the character after it. A format that is characters and whole conversions
is read up to its NUL and no further; after one whose last `%` is alone the scan steps over the NUL
(`readsFormatInside_iff`).
-/

namespace BeagleKernel.Uart

open Fat32 (CString charAt)

inductive ArgKind
  | word
  | str
  deriving DecidableEq

def VaArg.kind : VaArg → ArgKind
  | .word _ => .word
  | .str _ => .str

/-- The argument a conversion takes. -/
def argKind (c : UInt8) : Option ArgKind :=
  if c = 0x73 then some .str
  else if c = 0x64 ∨ c = 0x75 ∨ c = 0x78 ∨ c = 0x63 then some .word
  else none

/-- The arguments a format takes. -/
def argKinds : List UInt8 → List ArgKind
  | [] => []
  | [_] => []
  | c :: c' :: cs =>
    if c = percent then (argKind c').toList ++ argKinds cs else argKinds (c' :: cs)

/-- The arguments are those the format takes, and maybe more. -/
def Matching (fmt : List UInt8) (ap : List VaArg) : Prop := argKinds fmt <+: ap.map VaArg.kind

/-- After characters and whole conversions, the format ends in a `%`. -/
def LonePercent : List UInt8 → Prop
  | [] => False
  | [c] => c = percent
  | c :: c' :: cs => if c = percent then LonePercent cs else LonePercent (c' :: cs)

/-- The format is read up to its NUL at most, and the scan stops there. -/
def ReadsFormatInside (s : CString) (after : ℕ → UInt8) (ap : List VaArg) (prior : ℕ → ℕ → UInt8) :
    Prop :=
  ∃ fuel, (uartVprintf (inMemory s after) prior fuel 0 ap).val = .ok s.chars.length ∧
    ∀ i, .format i ∈ (uartVprintf (inMemory s after) prior fuel 0 ap).log → i ≤ s.chars.length

theorem holdsAt_charAt {str : ℕ → UInt8} {s : List UInt8} : ∀ {i : ℕ},
    (∀ j ≤ s.length, str (i + j) = charAt s j) → HoldsAt str i (s ++ [0]) := by
  induction s with
  | nil => exact fun h => ⟨h 0 le_rfl, trivial⟩
  | cons c s ih =>
    refine fun {i} h => ⟨h 0 (Nat.zero_le _), ih fun j hj => ?_⟩
    have := h (j + 1) (by simpa using hj)
    rwa [show i + 1 + j = i + (j + 1) by omega]

section

variable {ap : List VaArg} {kinds : List ArgKind}

theorem vaWord_eq (h : .word :: kinds <+: ap.map VaArg.kind) :
    ∃ w ap', vaWord ap = pure (w, ap') ∧ kinds <+: ap'.map VaArg.kind := by
  rcases ap with _ | ⟨w | s, ap⟩
  · simp at h
  · exact ⟨w, ap, rfl, (List.cons_prefix_cons.1 h).2⟩
  · cases (List.cons_prefix_cons.1 h).1

theorem vaStr_eq (h : .str :: kinds <+: ap.map VaArg.kind) :
    ∃ s ap', vaStr ap = pure (s, ap') ∧ kinds <+: ap'.map VaArg.kind := by
  rcases ap with _ | ⟨w | s, ap⟩
  · simp at h
  · cases (List.cons_prefix_cons.1 h).1
  · exact ⟨s, ap, rfl, (List.cons_prefix_cons.1 h).2⟩

theorem convert_number (call : NumberCall) (prior : ℕ → UInt8) :
    convert call.char ap prior = vaWord ap >>= fun x =>
      printNumber x.1.toInt32 call.base call.isSigned prior >>= fun _ => pure x.2 := by
  cases call with
  | d => rfl
  | u => rfl
  | x => rfl

theorem convert_s (prior : ℕ → UInt8) : convert 0x73 ap prior = vaStr ap >>= fun x =>
    uartPuts (charAt x.1.chars) (x.1.chars.length + 1) 0 >>= fun _ => pure x.2 := rfl

theorem convert_c (prior : ℕ → UInt8) : convert 0x63 ap prior = vaWord ap >>= fun x =>
    uartPutc x.1.toUInt8 >>= fun _ => pure x.2 := rfl

/-- A conversion with its argument transmits bytes, and does nothing else. -/
theorem convert_eq {c : UInt8} (prior : ℕ → UInt8)
    (h : (argKind c).toList ++ kinds <+: ap.map VaArg.kind) :
    ∃ (out : List UInt8) (ap' : List VaArg),
      convert c ap prior = ⟨.ok ap', out.map .transmit⟩ ∧ kinds <+: ap'.map VaArg.kind := by
  have hdone : ∀ (out : List UInt8) (ap : List VaArg),
      ((⟨.ok (), out.map .transmit⟩ : PrintProg Unit) >>= fun _ => pure ap) =
        ⟨.ok ap, out.map .transmit⟩ := fun out ap => by
    rw [Traced.bind_of_ok rfl, Traced.log_pure, List.append_nil, Traced.val_pure]
  have hnumber : ∀ call : NumberCall, c = call.char → argKind call.char = some .word →
      ∃ (out : List UInt8) (ap' : List VaArg),
        convert c ap prior = ⟨.ok ap', out.map .transmit⟩ ∧ kinds <+: ap'.map VaArg.kind := by
    rintro call rfl hkind
    rw [hkind] at h
    obtain ⟨w, ap', hva, hk⟩ := vaWord_eq h
    rw [convert_number, hva, Traced.pure_bind,
      printNumber_eq call.ten_le_base call.base_le, hdone]
    exact ⟨_, ap', rfl, hk⟩
  by_cases hs : c = 0x73
  · subst hs
    obtain ⟨s, ap', hva, hk⟩ := vaStr_eq h
    have hputs : HoldsAt (charAt s.chars) 0 (s.chars ++ [0]) := holdsAt_charAt fun j _ => by
      rw [Nat.zero_add]
    rw [convert_s, hva, Traced.pure_bind, uartPuts_eq hputs s.noNul (Nat.lt_succ_self _), hdone]
    exact ⟨_, ap', rfl, hk⟩
  by_cases hd : c = 0x64
  · exact hnumber .d hd rfl
  by_cases hu : c = 0x75
  · exact hnumber .u hu rfl
  by_cases hx : c = 0x78
  · exact hnumber .x hx rfl
  by_cases hc : c = 0x63
  · subst hc
    obtain ⟨w, ap', hva, hk⟩ := vaWord_eq h
    rw [convert_c, hva, Traced.pure_bind, uartPutc_eq, hdone]
    exact ⟨_, ap', rfl, hk⟩
  · have hkind : argKind c = none := by
      rw [argKind, if_neg hs, if_neg (by simp [hd, hu, hx, hc])]
    rw [hkind] at h
    rw [convert, if_neg hd, if_neg hu, if_neg hx, if_neg hs, if_neg hc, uartPutc_eq, hdone]
    exact ⟨_, ap, rfl, h⟩

end

section

variable {fmt : ℕ → UInt8} {prior : ℕ → ℕ → UInt8}

theorem uartVprintf_zero {fuel pos : ℕ} (h : fmt pos = 0) (ap : List VaArg) :
    uartVprintf fmt prior (fuel + 1) pos ap = ⟨.ok pos, [.format pos]⟩ := by
  rw [uartVprintf, readFormat, h]
  rfl

theorem uartVprintf_char {fuel pos : ℕ} (h0 : fmt pos ≠ 0) (h : fmt pos ≠ percent)
    (ap : List VaArg) : uartVprintf fmt prior (fuel + 1) pos ap =
      readFormat fmt pos >>= fun _ => uartPutc (fmt pos) >>= fun _ =>
        uartVprintf fmt prior fuel (pos + 1) ap := by
  rw [uartVprintf, readFormat, Traced.event_bind, Traced.event_bind, if_neg h0, if_neg h]

theorem uartVprintf_conversion {fuel pos : ℕ} (h : fmt pos = percent) (ap : List VaArg) :
    uartVprintf fmt prior (fuel + 1) pos ap =
      readFormat fmt pos >>= fun _ => readFormat fmt (pos + 1) >>= fun conversion =>
        convert conversion ap (prior pos) >>= fun ap =>
          uartVprintf fmt prior fuel (pos + 2) ap := by
  rw [uartVprintf, readFormat, Traced.event_bind, Traced.event_bind, if_neg (by rw [h]; decide),
    if_pos h]

theorem lonePercent_cons {c : UInt8} (h : c ≠ percent) : ∀ {cs : List UInt8},
    LonePercent (c :: cs) ↔ LonePercent cs
  | [] => iff_of_false h id
  | c' :: cs => by rw [LonePercent, if_neg h]

theorem argKinds_cons {c : UInt8} (h : c ≠ percent) : ∀ {cs : List UInt8},
    argKinds (c :: cs) = argKinds cs
  | [] => rfl
  | c' :: cs => by rw [argKinds, if_neg h]

theorem format_mem_cons {log : List PrintEvent} {i j : ℕ} :
    .format i ∈ PrintEvent.format j :: log ↔ i = j ∨ .format i ∈ log := by
  simp

theorem format_mem_transmit {out : List UInt8} {log : List PrintEvent} {i : ℕ} :
    .format i ∈ out.map .transmit ++ log ↔ .format i ∈ log := by
  simp

/-- A format of whole conversions is read to its NUL. -/
theorem uartVprintf_inside : ∀ {fuel pos : ℕ} {cs : List UInt8} {ap : List VaArg},
    HoldsAt fmt pos (cs ++ [0]) → 0 ∉ cs → ¬ LonePercent cs → Matching cs ap →
    cs.length < fuel →
    (uartVprintf fmt prior fuel pos ap).val = .ok (pos + cs.length) ∧
      ∀ i, .format i ∈ (uartVprintf fmt prior fuel pos ap).log → i ≤ pos + cs.length
  | fuel + 1, pos, [], ap, h, _, _, _, _ => by
    rw [uartVprintf_zero h.1]
    refine ⟨rfl, fun i hi => ?_⟩
    rw [PrintEvent.format.inj (List.mem_singleton.1 hi)]
    exact le_rfl
  | fuel + 1, pos, c :: cs, ap, ⟨hc, h⟩, h0, hlone, hap, hfuel => by
    have hne : fmt pos ≠ 0 := fun hz => h0 (by rw [← hz, hc]; exact List.mem_cons_self)
    have h0' : 0 ∉ cs := fun hz => h0 (List.mem_cons_of_mem c hz)
    rw [List.length_cons] at hfuel ⊢
    by_cases hp : c = percent
    · rcases cs with _ | ⟨c', cs⟩
      · exact absurd hp hlone
      obtain ⟨hc', h⟩ := h
      rw [Matching, argKinds, if_pos hp] at hap
      rw [LonePercent, if_pos hp] at hlone
      obtain ⟨out, ap', hconv, hap'⟩ := convert_eq (prior pos) hap
      rw [List.length_cons] at hfuel ⊢
      obtain ⟨hval, hlog⟩ := @uartVprintf_inside fuel (pos + 2) cs ap' h
        (fun hz => h0' (List.mem_cons_of_mem c' hz)) hlone hap' (by omega)
      rw [uartVprintf_conversion (hc.trans hp), readFormat, readFormat, Traced.event_bind,
        Traced.event_bind, hc', hconv, Traced.bind_of_ok rfl]
      refine ⟨hval.trans (congrArg _ (by omega)), fun i hi => ?_⟩
      rw [format_mem_cons, format_mem_cons, format_mem_transmit] at hi
      rcases hi with rfl | rfl | hi
      · omega
      · omega
      · have := hlog i hi
        omega
    · obtain ⟨hval, hlog⟩ := @uartVprintf_inside fuel (pos + 1) cs ap h h0'
        (fun hl => hlone ((lonePercent_cons hp).2 hl)) (by rwa [Matching, argKinds_cons hp] at hap)
        (by omega)
      rw [uartVprintf_char hne (by rwa [hc]), readFormat, Traced.event_bind, uartPutc_eq,
        Traced.bind_of_ok rfl]
      refine ⟨hval.trans (congrArg _ (by omega)), fun i hi => ?_⟩
      rw [format_mem_cons, format_mem_transmit] at hi
      rcases hi with rfl | hi
      · omega
      · have := hlog i hi
        omega

theorem format_mem_uartVprintf {fuel pos p : ℕ} {ap : List VaArg}
    (h : (uartVprintf fmt prior fuel pos ap).val = .ok p) :
    .format pos ∈ (uartVprintf fmt prior fuel pos ap).log := by
  rcases fuel with _ | fuel
  · cases h
  · rw [uartVprintf, readFormat, Traced.event_bind]
    exact List.mem_cons_self

/-- A scan that ends has read past the NUL of a format that ends in a lone `%`. -/
theorem uartVprintf_outside : ∀ {fuel pos p : ℕ} {cs : List UInt8} {ap : List VaArg},
    HoldsAt fmt pos (cs ++ [0]) → 0 ∉ cs → LonePercent cs →
    (uartVprintf fmt prior fuel pos ap).val = .ok p →
    .format (pos + cs.length + 1) ∈ (uartVprintf fmt prior fuel pos ap).log
  | 0, _, _, _, _, _, _, _, hval => by cases hval
  | fuel + 1, pos, p, c :: cs, ap, ⟨hc, h⟩, h0, hlone, hval => by
    have hne : fmt pos ≠ 0 := fun hz => h0 (by rw [← hz, hc]; exact List.mem_cons_self)
    have h0' : 0 ∉ cs := fun hz => h0 (List.mem_cons_of_mem c hz)
    rw [List.length_cons]
    by_cases hp : c = percent
    · rw [uartVprintf_conversion (hc.trans hp), readFormat, readFormat, Traced.event_bind,
        Traced.event_bind] at hval ⊢
      obtain ⟨ap', hconv, hrest⟩ := Traced.val_bind_eq_ok.1 hval
      refine List.mem_cons_of_mem _ (List.mem_cons_of_mem _
        (Traced.mem_log_bind.2 (.inr ⟨ap', hconv, ?_⟩)))
      rcases cs with _ | ⟨c', cs⟩
      · -- the scan goes on after the NUL
        exact format_mem_uartVprintf hrest
      · rw [LonePercent, if_pos hp] at hlone
        have := uartVprintf_outside h.2 (fun hz => h0' (List.mem_cons_of_mem c' hz)) hlone hrest
        have hpos : pos + (cs.length + 1 + 1) + 1 = pos + 2 + cs.length + 1 := by omega
        rwa [List.length_cons, hpos]
    · rw [uartVprintf_char hne (by rwa [hc]), readFormat, Traced.event_bind, uartPutc_eq,
        Traced.bind_of_ok rfl] at hval ⊢
      have := uartVprintf_outside h h0' ((lonePercent_cons hp).1 hlone) hval
      refine List.mem_cons_of_mem _ (List.mem_append_right _ ?_)
      rwa [show pos + (cs.length + 1) + 1 = pos + 1 + cs.length + 1 by omega]

end

/-- The scan stays inside the format unless it ends in a lone `%`. -/
theorem readsFormatInside_iff (s : CString) (after : ℕ → UInt8) (ap : List VaArg)
    (prior : ℕ → ℕ → UInt8) (h : Matching s.chars ap) :
    ReadsFormatInside s after ap prior ↔ ¬ LonePercent s.chars := by
  have hs : HoldsAt (inMemory s after) 0 (s.chars ++ [0]) := holdsAt_charAt fun j hj => by
    rw [Nat.zero_add, inMemory, if_pos hj]
  refine ⟨?_, fun hlone => ?_⟩
  · rintro ⟨fuel, hval, hlog⟩ hlone
    have := hlog _ (uartVprintf_outside hs s.noNul hlone hval)
    omega
  · have := @uartVprintf_inside _ prior (s.chars.length + 1) _ _ _ hs s.noNul hlone h (by omega)
    rw [Nat.zero_add] at this
    exact ⟨_, this⟩

theorem readsFormatInside_number :
    ReadsFormatInside ⟨[percent, 0x64], by decide⟩ (fun _ => 0) [.word 5] (fun _ _ => 0) :=
  (readsFormatInside_iff _ _ _ _ ⟨[], rfl⟩).2 (by simp [LonePercent])

/-- The scan of the format `%` goes on after its NUL. -/
theorem percent_read_past :
    ¬ ∀ s after ap prior, Matching s.chars ap → ReadsFormatInside s after ap prior := by
  intro h
  obtain ⟨fuel, hval, hlog⟩ := h ⟨[percent], by decide⟩ (fun _ => 0) [] (fun _ _ => 0) ⟨[], rfl⟩
  have hholds : HoldsAt (inMemory ⟨[percent], by decide⟩ fun _ => 0) 0 [percent, 0] :=
    ⟨rfl, rfl, trivial⟩
  have hread := @uartVprintf_outside _ _ fuel 0 _ [percent] _ hholds (by decide) rfl hval
  exact absurd (hlog 2 hread) (by decide)

end BeagleKernel.Uart
