import BeagleKernel.Lib.Masks
import BeagleKernel.Sched.Name
import Mathlib.Data.List.GetD

/-!
# What naming a process stores

`snprintf` ends its string behind the characters it has copied, and it copies up to `n` of them.
So it stays inside its buffer exactly if the string is shorter (`leavesPrefix_iff`); for a name
that is not, its NUL falls on the lowest byte of the `pid` (`namesOnly_iff`).
-/

namespace BeagleKernel.Sched

open Fat32 (CString charAt)

theorem charAt_ne_zero (src : CString) (i : ℕ) : charAt src.chars i ≠ 0 ↔ i < src.chars.length := by
  rw [charAt]
  rcases Nat.lt_or_ge i src.chars.length with h | h
  · rw [List.getD_eq_getElem _ _ h]
    exact iff_of_true (fun hz => src.noNul (hz ▸ List.getElem_mem h)) h
  · rw [List.getD_eq_default _ _ h]
    exact iff_of_false (fun hz => hz rfl) (by omega)

theorem copyFrom_eq (src : CString) (n i : ℕ) (hi : i ≤ min src.chars.length n) :
    copyFrom src.chars n i = ((List.range' i (min src.chars.length n - i)).map
      fun j => (j, charAt src.chars j), min src.chars.length n) := by
  fun_induction copyFrom src.chars n i with
  | case1 i h stores last heq ih =>
    have hlt := (charAt_ne_zero src i).1 h.2
    obtain ⟨hstores, hlast⟩ := Prod.mk.inj (heq.symm.trans (ih (by omega)))
    rw [hstores, hlast, show min src.chars.length n - i =
      min src.chars.length n - (i + 1) + 1 by omega, List.range'_succ, List.map_cons]
  | case2 i h =>
    rw [charAt_ne_zero] at h
    have heq : i = min src.chars.length n := by omega
    rw [← heq, Nat.sub_self]
    rfl

theorem snprintf_eq (src : CString) (n : ℕ) : snprintf src.chars n =
    (List.range (min src.chars.length n)).map (fun j => (j, charAt src.chars j)) ++
      [(min src.chars.length n, 0)] := by
  rw [snprintf, copyFrom_eq src n 0 (Nat.zero_le _), Nat.sub_zero, List.range_eq_range']

/-- The stores of `snprintf` are in its buffer and leave there a beginning of the string, with a
NUL behind it. -/
structure LeavesPrefix (src : CString) (n : ℕ) : Prop where
  within : ∀ st ∈ snprintf src.chars n, st.1 < n
  terminated : ∀ dest, ∃ k < n, k ≤ src.chars.length ∧
    stored dest (snprintf src.chars n) k = 0 ∧
    ∀ j < k, stored dest (snprintf src.chars n) j = charAt src.chars j

/-! ## The destination -/

theorem stored_append (dest : ℕ → UInt8) (xs ys : List (ℕ × UInt8)) :
    stored dest (xs ++ ys) = stored (stored dest xs) ys :=
  List.foldl_append

theorem stored_copied (dest : ℕ → UInt8) (c : ℕ → UInt8) (k : ℕ) :
    ∀ j < k, stored dest ((List.range k).map fun j => (j, c j)) j = c j := by
  induction k with
  | zero => exact fun j hj => absurd hj (Nat.not_lt_zero j)
  | succ k ih =>
    intro j hj
    rw [List.range_succ, List.map_append, stored_append]
    show Function.update (stored dest _) k (c k) j = c j
    rcases eq_or_ne j k with rfl | hne
    · rw [Function.update_self]
    · rw [Function.update_of_ne hne, ih j (by omega)]

/-- A string that does not fit is cut off, but its NUL is past the end. -/
theorem leavesPrefix_iff (src : CString) (n : ℕ) :
    LeavesPrefix src n ↔ src.chars.length < n := by
  constructor
  · intro h
    have hlast := h.within (min src.chars.length n, 0) (by rw [snprintf_eq]; simp)
    omega
  · intro hlt
    have hmin : min src.chars.length n = src.chars.length := by omega
    constructor
    · intro st hst
      rw [snprintf_eq, hmin, List.mem_append, List.mem_map, List.mem_singleton] at hst
      rcases hst with ⟨j, hj, rfl⟩ | rfl
      · have := List.mem_range.1 hj
        show j < n
        omega
      · exact hlt
    · intro dest
      refine ⟨src.chars.length, hlt, le_rfl, ?_, fun j hj => ?_⟩
      · rw [snprintf_eq, hmin, stored_append]
        exact Function.update_self ..
      · rw [snprintf_eq, hmin, stored_append]
        show Function.update _ src.chars.length 0 j = _
        rw [Function.update_of_ne (Nat.ne_of_lt hj), stored_copied _ _ _ j hj]

/-! ## The process -/

/-- Of a process, naming it changes the words of its name only. -/
structure NamesOnly (pcb : Pcb) (s : CString) : Prop where
  state : (pcb.setName s).state = pcb.state
  word : ∀ i, i < nameWord ∨ pidWord ≤ i → (pcb.setName s).word i = pcb.word i

theorem setByte_word_of_ne (pcb : Pcb) {off i : ℕ} (h : i ≠ off / 4) (v : UInt8) :
    (pcb.setByte off v).word i = pcb.word i :=
  Function.update_of_ne h ..

/-- The process after stores at an offset. -/
def setBytes (pcb : Pcb) (off : ℕ) (stores : List (ℕ × UInt8)) : Pcb :=
  stores.foldl (fun pcb st => pcb.setByte (off + st.1) st.2) pcb

theorem setBytes_state (pcb : Pcb) (off : ℕ) (stores : List (ℕ × UInt8)) :
    (setBytes pcb off stores).state = pcb.state := by
  induction stores generalizing pcb with
  | nil => rfl
  | cons st stores ih => exact ih _

theorem setBytes_word {off i : ℕ} (pcb : Pcb) {stores : List (ℕ × UInt8)}
    (h : ∀ st ∈ stores, i ≠ (off + st.1) / 4) : (setBytes pcb off stores).word i = pcb.word i := by
  induction stores generalizing pcb with
  | nil => rfl
  | cons st stores ih =>
    rw [setBytes, List.foldl_cons]
    exact (ih _ fun st' hst' => h st' (.tail _ hst')).trans
      (setByte_word_of_ne _ (h st (.head _)) _)

/-- The characters of a name, cut off where they must be, stay in its words. -/
theorem setBytes_copied_word (pcb : Pcb) (s : CString) {i : ℕ} (hi : i < nameWord ∨ pidWord ≤ i) :
    (setBytes pcb nameOff ((List.range (min s.chars.length nameSize)).map
      fun j => (j, charAt s.chars j))).word i = pcb.word i := by
  refine setBytes_word pcb fun st hst => ?_
  obtain ⟨j, hj, rfl⟩ := List.mem_map.1 hst
  have hj := List.mem_range.1 hj
  show i ≠ (65620 + j) / 4
  simp only [nameWord, pidWord, nameSize] at hi hj
  omega

theorem setName_eq (pcb : Pcb) (s : CString) : pcb.setName s =
    (setBytes pcb nameOff ((List.range (min s.chars.length nameSize)).map
      fun j => (j, charAt s.chars j))).setByte (nameOff + min s.chars.length nameSize) 0 := by
  rw [Pcb.setName, snprintf_eq, List.foldl_append]
  rfl

theorem setName_state (pcb : Pcb) (s : CString) : (pcb.setName s).state = pcb.state :=
  setBytes_state ..

theorem setByte_pid (pcb : Pcb) :
    (pcb.setByte (nameOff + nameSize) 0).word pidWord = pcb.word pidWord &&& ~~~0xFF := by
  rw [Pcb.setByte, show (nameOff + nameSize) / 4 = pidWord from rfl]
  show Function.update pcb.word pidWord _ pidWord = _
  rw [Function.update_self]
  exact UInt32.or_zero

theorem clear_eq_self {w m : UInt32} : w &&& ~~~m = w ↔ w &&& m = 0 := by
  constructor
  · intro h
    rw [← h, clear_and_self]
  · intro h
    rw [UInt32.and_comm, not_and_of_disjoint (and_eq_zero_comm.1 h)]

theorem namesOnly_iff (pcb : Pcb) (s : CString) :
    NamesOnly pcb s ↔ s.chars.length < nameSize ∨ pcb.word pidWord &&& 0xFF = 0 := by
  rcases Nat.lt_or_ge s.chars.length nameSize with hlt | hge
  · refine iff_of_true ⟨setName_state pcb s, fun i hi => ?_⟩ (.inl hlt)
    rw [setName_eq, setByte_word_of_ne, setBytes_copied_word pcb s hi]
    simp only [nameWord, pidWord, nameSize, nameOff] at hi hlt ⊢
    omega
  · have hmin : min s.chars.length nameSize = nameSize := by omega
    have hword (i : ℕ) (hi : i < nameWord ∨ pidWord ≤ i) (hne : i ≠ pidWord) :
        (pcb.setName s).word i = pcb.word i := by
      rw [setName_eq, setByte_word_of_ne, setBytes_copied_word pcb s hi]
      rwa [hmin]
    have hpid : (pcb.setName s).word pidWord = pcb.word pidWord &&& ~~~0xFF := by
      rw [setName_eq, hmin, setByte_pid, ← hmin, setBytes_copied_word pcb s (.inr le_rfl)]
    constructor
    · intro h
      exact .inr (clear_eq_self.1 (hpid.symm.trans (h.word pidWord (.inr le_rfl))))
    · intro h
      have hzero := h.resolve_left (by omega)
      refine ⟨setName_state pcb s, fun i hi => ?_⟩
      rcases eq_or_ne i pidWord with rfl | hne
      · rw [hpid, clear_eq_self.2 hzero]
      · exact hword i hi hne

/-- The names in use leave every field but `name` alone, and so may stay out of the processes. -/
theorem processNames_namesOnly (pcb : Pcb) : ∀ s ∈ processNames, NamesOnly pcb s := fun s hs =>
  (namesOnly_iff pcb s).2 (.inl ((by decide : ∀ s ∈ processNames, s.chars.length < nameSize) s hs))

/-- What is asked of `snprintf` for all its buffers, and of a process for all its names. -/
theorem naming_iff (src : CString) (n : ℕ) (pcb : Pcb) :
    (LeavesPrefix src n ↔ src.chars.length < n) ∧
      (NamesOnly pcb src ↔ src.chars.length < nameSize ∨ pcb.word pidWord &&& 0xFF = 0) :=
  ⟨leavesPrefix_iff src n, namesOnly_iff pcb src⟩

/-- Sixteen characters and process 1. -/
theorem not_namesOnly_sixteen :
    ¬ LeavesPrefix ⟨List.replicate 16 0x41, by decide⟩ nameSize ∧
      ¬ NamesOnly ⟨fun _ => 1, .undefined⟩ ⟨List.replicate 16 0x41, by decide⟩ := by
  rw [leavesPrefix_iff, namesOnly_iff]
  decide

end BeagleKernel.Sched
