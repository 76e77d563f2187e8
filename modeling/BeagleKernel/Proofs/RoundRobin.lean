import BeagleKernel.Sched.Scheduler
import Mathlib.Data.Fintype.Card
import Mathlib.Data.List.Rotate
import Mathlib.Logic.Function.Iterate

/-!
# Round robin

Between two calls of `scheduler_run` the ready queue, with the current process behind it, is the
list of the processes turned by the number of calls (`Turn`). A call puts the current process at
the end and takes the first, which turns the list by one.
-/

namespace BeagleKernel.Sched

open Scheduler

/-- The process the next call puts back in the queue. -/
def Scheduler.requeued (s : Scheduler) : List Process :=
  match s.currentProcess with
  | none => []
  | some c => if c = s.idleProcess then [] else [c]

/-- The processes in the order they are to run in, the current one last, and the pushes so far all
done. -/
structure Turn (s : Scheduler) (idle : Process) (order : List Process) : Prop where
  idleProcess : s.idleProcess = idle
  queue : ∃ q, s.readyQueue.Queued q ∧ order = q ++ s.requeued
  waiting : s.currentProcess = some idle → order = []
  running : ∀ p, s.state p = .running ↔ s.currentProcess = some p
  pushes : ∀ ok ∈ s.pushes, ok = true

variable {s : Scheduler} {idle : Process} {order : List Process}

theorem pushReady_spec {q : List Process} (h : s.readyQueue.Queued q)
    (hlt : q.length < genericBufferSize) (hpushes : ∀ ok ∈ s.pushes, ok = true) (p : Process) :
    ∃ queue pushes, s.pushReady p = { s with readyQueue := queue, pushes := pushes } ∧
      queue.Queued (q ++ [p]) ∧ ∀ ok ∈ pushes, ok = true := by
  obtain ⟨queue, hpush, hqueue⟩ := h.push hlt p
  refine ⟨queue, s.pushes ++ [true], ?_, hqueue, ?_⟩
  · rw [pushReady, hpush]
  · intro ok hok
    rcases List.mem_append.1 hok with hok | hok
    · exact hpushes ok hok
    · exact List.mem_singleton.1 hok

/-- With the current process put back the queue is the whole order, and nothing runs but an idle
process that has nothing to give way to. -/
theorem requeue_spec (h : Turn s idle order) (hlen : order.length < genericBufferSize) :
    s.requeue.idleProcess = idle ∧ s.requeue.readyQueue.Queued order ∧
      (∀ p, s.requeue.state p = .running → p = idle ∧ order = []) ∧
      ∀ ok ∈ s.requeue.pushes, ok = true := by
  obtain ⟨q, hq, horder⟩ := h.queue
  rcases hc : s.currentProcess with _ | c
  · simp only [requeued, hc, List.append_nil] at horder
    subst horder
    have hs : s.requeue = s := by rw [requeue, hc]
    rw [hs]
    refine ⟨h.idleProcess, hq, fun p hp => ?_, h.pushes⟩
    rw [h.running, hc] at hp
    cases hp
  by_cases hci : c = idle
  · subst hci
    have hs : s.requeue = s := by
      rw [requeue, hc]
      exact if_pos h.idleProcess.symm
    simp only [requeued, hc, h.idleProcess, if_true, List.append_nil] at horder
    subst horder
    rw [hs]
    refine ⟨h.idleProcess, hq, fun p hp => ?_, h.pushes⟩
    rw [h.running, hc, Option.some.injEq] at hp
    exact ⟨hp.symm, h.waiting hc⟩
  · have hs : s.requeue = (s.setState c .ready).pushReady c := by
      rw [requeue, hc]
      exact if_neg (by rwa [h.idleProcess])
    simp only [requeued, hc, h.idleProcess, if_neg hci] at horder
    subst horder
    rw [List.length_append, List.length_singleton] at hlen
    obtain ⟨queue, pushes, hpush, hqueue, hpushes⟩ :=
      pushReady_spec (s := s.setState c .ready) hq (by omega) h.pushes c
    rw [hs, hpush]
    refine ⟨h.idleProcess, hqueue, fun p hp => ?_, hpushes⟩
    simp only [setState] at hp
    by_cases hpc : p = c
    · subst hpc
      rw [Function.update_self] at hp
      cases hp
    · rw [Function.update_of_ne hpc, h.running, hc, Option.some.injEq] at hp
      exact absurd hp.symm hpc

/-- A call turns the order by one, and runs the process that was first. -/
theorem run_turn (h : Turn s idle order) (hidle : idle ∉ order)
    (hlen : order.length < genericBufferSize) :
    Turn s.run idle (order.rotate 1) ∧ s.run.currentProcess = some (order.headD idle) := by
  obtain ⟨hsame, hqueue, hrunning, hpushes⟩ := requeue_spec h hlen
  rcases order with _ | ⟨a, t⟩
  · have hrun : s.run = { s.requeue with
        currentProcess := some idle
        state := Function.update s.requeue.state idle .running } := by
      rw [run, dispatch, hqueue.pop_nil]
      simp only [Option.getD_none, hsame]
    rw [hrun]
    refine
      ⟨⟨hsame, ⟨[], hqueue, by simp [requeued, hsame]⟩, fun _ => rfl, fun p => ?_, hpushes⟩, rfl⟩
    simp only [Option.some.injEq]
    by_cases hp : p = idle
    · subst hp
      simp
    · rw [Function.update_of_ne hp]
      exact iff_of_false (fun hr => hp (hrunning p hr).1) (Ne.symm hp)
  · obtain ⟨queue, hpop, hq⟩ := hqueue.pop_cons
    have hrun : s.run = { s.requeue with
        readyQueue := queue
        currentProcess := some a
        state := Function.update s.requeue.state a .running } := by
      rw [run, dispatch, hpop]
      rfl
    have hai : a ≠ idle := fun ha => hidle (ha ▸ List.mem_cons_self)
    rw [hrun]
    refine
      ⟨⟨hsame, ⟨t, hq, by simp [requeued, hsame, hai]⟩, fun ha => ?_, fun p => ?_, hpushes⟩, rfl⟩
    · exact absurd (Option.some.inj ha) hai
    · simp only [Option.some.injEq]
      by_cases hp : p = a
      · subst hp
        simp
      · rw [Function.update_of_ne hp]
        exact iff_of_false (fun hr => List.cons_ne_nil _ _ (hrunning p hr).2) (Ne.symm hp)

/-! ## From the start -/

theorem addProcess_turn {s : Scheduler} (h : Turn s idle order) (hnone : s.currentProcess = none)
    (hlen : order.length < genericBufferSize) (p : Process) :
    Turn (s.addProcess p) idle (order ++ [p]) ∧ (s.addProcess p).currentProcess = none := by
  obtain ⟨q, hq, horder⟩ := h.queue
  simp only [requeued, hnone, List.append_nil] at horder
  subst horder
  obtain ⟨queue, pushes, hpush, hqueue, hpushes⟩ :=
    pushReady_spec (s := s.setState p .new) hq hlen h.pushes p
  rw [addProcess, hpush]
  refine ⟨⟨h.idleProcess, ⟨_, hqueue, ?_⟩, ?_, fun p' => ?_, hpushes⟩, hnone⟩
  · simp [requeued, setState, hnone]
  · intro hc
    rw [show (s.setState p .new).currentProcess = none from hnone] at hc
    cases hc
  · simp only [setState, hnone, reduceCtorEq, iff_false]
    by_cases hp : p' = p
    · subst hp
      rw [Function.update_self]
      exact ProcessState.noConfusion
    · rw [Function.update_of_ne hp, h.running, hnone]
      simp

theorem foldl_addProcess_turn :
    ∀ {procs order : List Process} {s : Scheduler}, Turn s idle order → s.currentProcess = none →
      order.length + procs.length ≤ genericBufferSize →
      Turn (procs.foldl addProcess s) idle (order ++ procs) ∧
        (procs.foldl addProcess s).currentProcess = none
  | [], order, s, h, hnone, _ => by
    rw [List.append_nil]
    exact ⟨h, hnone⟩
  | p :: procs, order, s, h, hnone, hlen => by
    rw [List.length_cons] at hlen
    obtain ⟨h', hnone'⟩ := addProcess_turn h hnone (by omega) p
    have := foldl_addProcess_turn h' hnone'
      (show (order ++ [p]).length + procs.length ≤ _ by simp; omega)
    rwa [List.append_assoc] at this

theorem init_turn (prior : GenericCircularBuffer Process) {procs : List Process}
    (hlen : procs.length ≤ genericBufferSize) :
    Turn (init prior idle procs) idle procs := by
  refine (@foldl_addProcess_turn idle procs [] _
    ⟨rfl, ⟨[], prior.init_queued, rfl⟩, ?_, fun p => ?_,
    by simp [setState]⟩ rfl (by simpa using hlen)).1
  · exact fun _ => rfl
  · simp only [setState, reduceCtorEq, iff_false]
    by_cases hp : p = idle
    · subst hp
      rw [Function.update_self]
      exact ProcessState.noConfusion
    · rw [Function.update_of_ne hp]
      exact ProcessState.noConfusion

theorem iterate_run_turn {procs : List Process} (h : Turn s idle procs) (hidle : idle ∉ procs)
    (hlen : procs.length < genericBufferSize) :
    ∀ n, Turn (run^[n] s) idle (procs.rotate n)
  | 0 => by rwa [List.rotate_zero]
  | n + 1 => by
    rw [Function.iterate_succ_apply', ← List.rotate_rotate]
    exact (run_turn (iterate_run_turn h hidle hlen n) (by rwa [List.mem_rotate])
      (by rwa [List.length_rotate])).1

/-- The processes but the current one wait in the queue, once each. -/
theorem Turn.waits (h : Turn s idle order) (hnodup : order.Nodup) (hidle : idle ∉ order)
    {c : Process} (hc : s.currentProcess = some c) (hcur : order = [] ∨ c ∈ order) :
    s.readyQueue.contents = order.dropLast ∧ s.readyQueue.contents.Nodup ∧
      ∀ p, p ∈ s.readyQueue.contents ↔ p ∈ order ∧ s.currentProcess ≠ some p := by
  obtain ⟨q, hq, horder⟩ := h.queue
  rw [hq.contents_eq]
  rcases hcur with rfl | hcur
  · obtain ⟨rfl, -⟩ := List.append_eq_nil_iff.1 horder.symm
    simp
  · have hne : c ≠ s.idleProcess := by
      rw [h.idleProcess]
      exact fun he => hidle (he ▸ hcur)
    have hreq : s.requeued = [c] := by
      simp only [requeued, hc, if_neg hne]
    rw [hreq] at horder
    subst horder
    obtain ⟨hq, -, hdisj⟩ := List.nodup_append.1 hnodup
    refine ⟨List.dropLast_concat.symm, hq, fun p => ?_⟩
    rw [List.mem_append, List.mem_singleton, hc, Ne, Option.some.injEq]
    refine ⟨fun hp => ⟨.inl hp, ?_⟩, fun hp => hp.1.resolve_right (Ne.symm hp.2)⟩
    exact (hdisj p hp c (List.mem_singleton_self c)).symm

/-- The state after `n` calls: the processes run in turn. -/
structure DispatchedInTurn (s : Scheduler) (idle : Process) (procs : List Process) (n : ℕ) :
    Prop where
  current : s.currentProcess = some (procs.getD ((n - 1) % procs.length) idle)
  running : ∀ p, s.state p = .running ↔ s.currentProcess = some p
  queue : s.readyQueue.contents = (procs.rotate n).dropLast
  once : s.readyQueue.contents.Nodup
  others : ∀ p, p ∈ s.readyQueue.contents ↔ p ∈ procs ∧ s.currentProcess ≠ some p
  pushes : ∀ ok ∈ s.pushes, ok = true

theorem length_lt_of_nodup {procs : List Process} (h : procs.Nodup) :
    procs.length < genericBufferSize := by
  have h32 : procs.length ≤ Fintype.card Process := h.length_le_card
  rw [Fintype.card_fin] at h32
  simp only [maxProcesses, genericBufferSize] at h32 ⊢
  omega

theorem headD_rotate (procs : List Process) (n : ℕ) :
    (procs.rotate n).headD idle = procs.getD (n % procs.length) idle := by
  rcases procs with _ | ⟨p, ps⟩
  · simp
  · have hlt : n % (p :: ps).length < (p :: ps).length := Nat.mod_lt _ (Nat.succ_pos _)
    rw [← List.rotate_mod, List.headD_eq_head?_getD, List.head?_rotate hlt,
      List.getD_eq_getElem?_getD]

/-- After `n` calls of `scheduler_run` the processes have been dispatched in turn, none lost and
none doubled. -/
theorem run_dispatchedInTurn (prior : GenericCircularBuffer Process) {procs : List Process}
    (hnodup : procs.Nodup) (hidle : idle ∉ procs) {n : ℕ} (hn : 1 ≤ n) :
    DispatchedInTurn (run^[n] (init prior idle procs)) idle procs n := by
  obtain ⟨n, rfl⟩ : ∃ m, n = m + 1 := ⟨n - 1, by omega⟩
  have hlen := length_lt_of_nodup hnodup
  have hturn := iterate_run_turn (@init_turn idle prior procs hlen.le) hidle hlen
  obtain ⟨hnext, hcurrent⟩ := run_turn (hturn n) (by rwa [List.mem_rotate])
    (by rwa [List.length_rotate])
  rw [← Function.iterate_succ_apply' run n] at hnext hcurrent
  rw [List.rotate_rotate] at hnext
  obtain ⟨hqueue, honce, hothers⟩ := hnext.waits (List.nodup_rotate.2 hnodup)
    (by rwa [List.mem_rotate]) hcurrent (by
      rw [List.mem_rotate, List.rotate_eq_nil_iff]
      rcases hr : procs.rotate n with _ | ⟨a, t⟩
      · exact .inl (List.rotate_eq_nil_iff.1 hr)
      · refine .inr ((List.mem_rotate (n := n)).1 ?_)
        rw [hr]
        exact List.mem_cons_self)
  rw [headD_rotate] at hcurrent
  refine ⟨hcurrent, hnext.running, hqueue, honce, fun p => ?_, hnext.pushes⟩
  rw [hothers p, List.mem_rotate]

/-- Three processes after five calls: the second runs, the third is next. -/
theorem run_dispatchedInTurn_three :
    DispatchedInTurn (run^[5] (init ⟨fun _ => 0, 7, 7, 0⟩ 0 [1, 2, 3])) 0 [1, 2, 3] 5 :=
  run_dispatchedInTurn _ (by decide) (by decide) (by decide)

end BeagleKernel.Sched
