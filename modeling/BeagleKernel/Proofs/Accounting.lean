import BeagleKernel.Proofs.Create
import Mathlib.Data.Fintype.Card
import Mathlib.Data.List.FinRange

/-!
# Which slots are in use

A slot is free or has been returned once (`Accounts`). `process_create` counts a process as it
takes a slot, and `scheduler_init` counts three of its four once more, so `num_processes` is always
three too many (`createAll_accounts`).
-/

namespace BeagleKernel.Sched

/-- The number of slots that are not free. -/
def ProcessTable.taken (t : ProcessTable) : ℕ :=
  (Finset.univ.filter (· ∉ t.freeProcesses.contents)).card

/-- The slots are accounted for. -/
structure SlotsKept (t : ProcessTable) : Prop where
  slots : ∀ p, t.freeProcesses.contents.count p + t.results.count (some p) = 1
  pids : ∀ p q, (t.pcb p).word pidWord = (t.pcb q).word pidWord → p = q
  null : ∀ base entryPoint,
    (t.processCreate base entryPoint).1 = none ↔ t.freeProcesses.contents = []

/-- So are the processes. -/
structure Consistent (t : ProcessTable) : Prop extends SlotsKept t where
  numProcesses : t.numProcesses = t.taken

/-- The slots of `free` are free, the others have been returned, and `extra` processes have been
counted besides. -/
structure Accounts (extra : ℤ) (t : ProcessTable) (free : List Process) : Prop where
  queued : t.freeProcesses.Queued free
  slots : ∀ p, free.count p + t.results.count (some p) = 1
  pid : ∀ p, (t.pcb p).word pidWord = UInt32.ofNat p
  numProcesses : t.numProcesses + free.length = maxProcesses + extra

variable {base entryPoint : UInt32} {t : ProcessTable} {free : List Process} {extra : ℤ}

theorem Accounts.taken_eq (h : Accounts extra t free) : t.taken + free.length = maxProcesses := by
  have hnodup : free.Nodup := List.nodup_iff_count_le_one.2 fun p => by
    have := h.slots p
    omega
  have hcompl : Finset.univ.filter (· ∉ t.freeProcesses.contents) = free.toFinsetᶜ := by
    ext p
    simp [h.queued.contents_eq]
  have hle : free.toFinset.card ≤ Fintype.card Process := Finset.card_le_univ _
  rw [ProcessTable.taken, hcompl, Finset.card_compl, ← List.toFinset_card_of_nodup hnodup,
    Nat.sub_add_cancel hle]
  exact Fintype.card_fin _

theorem buildContext_pid (proc entryPoint : UInt32) (pcb : Pcb) :
    (buildContext proc entryPoint pcb).word pidWord = pcb.word pidWord := by
  simp only [buildContext, setWord_word, setState_word, clearRegisters_word]
  simp +decide

/-- A slot is taken from the front of the free ones. -/
theorem Accounts.create {p : Process} (h : Accounts extra t (p :: free)) :
    ∃ t', t.processCreate base entryPoint = (some p, t') ∧ Accounts extra t' free := by
  obtain ⟨b, hb, hcreate⟩ := processCreate_cons h.queued base entryPoint
  refine ⟨_, hcreate, hb, fun r => ?_, fun r => ?_, ?_⟩
  · have := h.slots r
    simp only [List.count_append, List.count_cons, List.count_nil] at this ⊢
    simp only [beq_iff_eq, Option.some.injEq] at this ⊢
    omega
  · have := h.pid r
    simp only [Function.update_apply]
    split_ifs with hr
    · subst hr
      rw [buildContext_pid, this]
    · exact this
  · have := h.numProcesses
    rw [List.length_cons] at this
    show t.numProcesses + 1 + free.length = maxProcesses + extra
    omega

theorem Accounts.create_none (h : Accounts extra t []) :
    ∃ t', t.processCreate base entryPoint = (none, t') ∧ Accounts extra t' [] := by
  refine ⟨_, processCreate_nil h.queued base entryPoint, h.queued, fun r => ?_, h.pid,
    h.numProcesses⟩
  have := h.slots r
  simpa [List.count_append] using this

theorem Accounts.slotsKept (h : Accounts extra t free) : SlotsKept t where
  slots := by
    rw [h.queued.contents_eq]
    exact h.slots
  pids p q hpq := by
    have heq : (UInt32.ofNat p).toNat = (UInt32.ofNat q).toNat := by
      rw [← h.pid p, ← h.pid q, hpq]
    have hp : (p : ℕ) < 32 := p.isLt
    have hq : (q : ℕ) < 32 := q.isLt
    rw [UInt32.toNat_ofNat_of_lt' (by unfold UInt32.size; omega),
      UInt32.toNat_ofNat_of_lt' (by unfold UInt32.size; omega)] at heq
    exact Fin.ext heq
  null base entryPoint := by
    rw [h.queued.contents_eq]
    rcases free with _ | ⟨p, free⟩
    · obtain ⟨t', hcreate, -⟩ := @Accounts.create_none base entryPoint _ _ h
      simp [hcreate]
    · obtain ⟨t', hcreate, -⟩ := @Accounts.create base entryPoint _ _ _ _ h
      simp [hcreate]

/-! ## The initialisation -/

theorem freeSlot_pid (proc r : Process) : ((t.freeSlot proc).pcb r).word pidWord =
    if r = proc then UInt32.ofNat proc else (t.pcb r).word pidWord := by
  simp only [ProcessTable.freeSlot, Function.update_apply]
  split_ifs with hr
  · simp only [setWord_word, setState_word]
    simp +decide
  · rfl

theorem foldl_freeSlot : ∀ {ps : List Process} {t : ProcessTable} {free : List Process},
    t.freeProcesses.Queued free → free.length + ps.length ≤ genericBufferSize →
    (ps.foldl ProcessTable.freeSlot t).freeProcesses.Queued (free ++ ps) ∧
      (ps.foldl ProcessTable.freeSlot t).results = t.results ∧
      (ps.foldl ProcessTable.freeSlot t).numProcesses = t.numProcesses ∧
      ∀ r, ((ps.foldl ProcessTable.freeSlot t).pcb r).word pidWord =
        if r ∈ ps then UInt32.ofNat r else (t.pcb r).word pidWord
  | [], t, free, hq, _ => ⟨by simpa using hq, rfl, rfl, by simp⟩
  | p :: ps, t, free, hq, hlen => by
    rw [List.length_cons] at hlen
    obtain ⟨b, hpush, hb⟩ := hq.push (by omega) p
    have hfree : (t.freeSlot p).freeProcesses.Queued (free ++ [p]) := by
      rw [ProcessTable.freeSlot, hpush]
      exact hb
    obtain ⟨hqueued, hres, hnum, hpid⟩ := @foldl_freeSlot ps _ _ hfree (by simp; omega)
    refine ⟨by simpa using hqueued, hres, hnum, fun r => ?_⟩
    rw [List.foldl_cons, hpid, freeSlot_pid]
    by_cases hr : r = p
    · subst hr
      simp
    · simp [hr]

theorem initSlots_accounts (t : ProcessTable) :
    Accounts 0 t.initSlots (List.finRange maxProcesses) := by
  obtain ⟨hq, hres, hnum, hpid⟩ := @foldl_freeSlot (List.finRange maxProcesses)
    { t with
      currentIndex := 0
      numProcesses := 0
      processes := t.processes.init
      freeProcesses := t.freeProcesses.init
      readyQueue := t.readyQueue.init
      results := [] } [] (GenericCircularBuffer.init_queued _) (by decide)
  refine ⟨hq, fun p => ?_, fun r => ?_, ?_⟩
  · rw [ProcessTable.initSlots, hres,
      List.count_eq_one_of_mem (List.nodup_finRange _) (List.mem_finRange p)]
    rfl
  · rw [ProcessTable.initSlots, hpid, if_pos (List.mem_finRange r)]
  · rw [ProcessTable.initSlots, hnum, List.length_finRange]
    rfl

theorem Accounts.createIdle {p : Process} (h : Accounts extra t (p :: free)) :
    ∃ t', t.createIdle base entryPoint = some t' ∧ Accounts extra t' free := by
  obtain ⟨t', hcreate, ht'⟩ := @Accounts.create base entryPoint _ _ _ _ h
  rw [ProcessTable.createIdle, hcreate]
  exact ⟨_, rfl, ht'.queued, ht'.slots, ht'.pid, ht'.numProcesses⟩

/-- The processes but the idle one are counted twice. -/
theorem Accounts.createReady {p : Process} (h : Accounts extra t (p :: free)) :
    ∃ t', t.createReady base entryPoint = some t' ∧ Accounts (extra + 1) t' free := by
  obtain ⟨t', hcreate, ht'⟩ := @Accounts.create base entryPoint _ _ _ _ h
  rw [ProcessTable.createReady, hcreate]
  refine ⟨_, rfl, ht'.queued, ht'.slots, ht'.pid, ?_⟩
  have := ht'.numProcesses
  show t'.numProcesses + 1 + free.length = maxProcesses + (extra + 1)
  omega

theorem schedulerInit_accounts (base : UInt32) (tasks : Tasks) (t : ProcessTable) :
    ∃ t' free, schedulerInit base tasks t = some t' ∧ Accounts 3 t' free := by
  obtain ⟨rest, hrest⟩ : ∃ rest, List.finRange maxProcesses = 0 :: 1 :: 2 :: 3 :: rest := ⟨_, rfl⟩
  have h := initSlots_accounts t
  rw [hrest] at h
  obtain ⟨t₁, hidle, h₁⟩ := @Accounts.createIdle base tasks.idleTask _ _ _ _ h
  obtain ⟨t₂, hp1, h₂⟩ := @Accounts.createReady base tasks.p1 _ _ _ _ h₁
  obtain ⟨t₃, hp2, h₃⟩ := @Accounts.createReady base tasks.p2 _ _ _ _ h₂
  obtain ⟨t₄, hmotor, h₄⟩ := @Accounts.createReady base tasks.motorTask _ _ _ _ h₃
  refine ⟨t₄, rest, ?_, h₄⟩
  simp only [schedulerInit, hidle, hp1, hp2, Option.bind_eq_bind, Option.bind_some]
  exact hmotor

/-! ## Any number of creations -/

theorem Accounts.createAll : ∀ {eps : List UInt32} {t : ProcessTable} {free : List Process},
    Accounts extra t free → ∃ free', Accounts extra (Sched.createAll base t eps) free'
  | [], _, free, h => ⟨free, h⟩
  | e :: eps, t, [], h => by
    obtain ⟨t', hcreate, ht'⟩ := @Accounts.create_none base e _ _ h
    obtain ⟨free', h'⟩ := @Accounts.createAll eps _ _ ht'
    exact ⟨free', by rwa [Sched.createAll, List.foldl_cons, hcreate]⟩
  | e :: eps, t, p :: free, h => by
    obtain ⟨t', hcreate, ht'⟩ := @Accounts.create base e _ _ _ _ h
    obtain ⟨free', h'⟩ := @Accounts.createAll eps _ _ ht'
    exact ⟨free', by rwa [Sched.createAll, List.foldl_cons, hcreate]⟩

theorem Accounts.not_consistent (h : Accounts 3 t free) :
    t.numProcesses = t.taken + 3 ∧ ¬ Consistent t := by
  have htaken := h.taken_eq
  have hnum := h.numProcesses
  have heq : t.numProcesses = t.taken + 3 := by omega
  exact ⟨heq, fun hc => by have := hc.numProcesses; omega⟩

/-- However many processes are created, the slots are accounted for, and the processes counted are
three more than there are. -/
theorem createAll_accounts (base : UInt32) (tasks : Tasks) (t : ProcessTable)
    (entryPoints : List UInt32) : ∃ t', schedulerInit base tasks t = some t' ∧
      SlotsKept (createAll base t' entryPoints) ∧
      (createAll base t' entryPoints).numProcesses = (createAll base t' entryPoints).taken + 3 ∧
      ¬ Consistent (createAll base t' entryPoints) := by
  obtain ⟨t', free, hinit, h⟩ := schedulerInit_accounts base tasks t
  obtain ⟨free', h'⟩ := @Accounts.createAll base 3 entryPoints _ _ h
  exact ⟨t', hinit, h'.slotsKept, h'.not_consistent⟩

/-- Seven processes are counted once `scheduler_init` has created four. -/
theorem four_counted_as_seven : ¬ ∀ base tasks t t', schedulerInit base tasks t = some t' →
    ∀ entryPoints, Consistent (createAll base t' entryPoints) := by
  intro h
  obtain ⟨t', free, hinit, haccounts⟩ := schedulerInit_accounts 0x80200000 ⟨0, 0, 0, 0⟩ oneFree
  exact haccounts.not_consistent.2 (h _ _ _ t' hinit [])

end BeagleKernel.Sched
