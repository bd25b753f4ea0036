import Zcp.Common.ECThreadPool.Interleavings

/-!
# The pool can always finish

As long as the pool was asked for a thread, its workers alone can bring it to a state in which all tasks have been run
and no request to end is left: no order of the steps leads into a dead end.
-/

namespace Zcp.Common.ECThreadPool

variable {Thread Task : Type*} [DecidableEq Thread]

variable {p p' : ECThreadPool Thread Task} {e : Event Thread Task} {es : List (Event Thread Task)} {w : Thread}

/-- What a worker does on its own. -/
def Event.byWorker : Event Thread Task → Bool
  | .getNextTask _ _ => true
  | .executed _ _ => true
  | _ => false

/-- Where a run has led, the steps from there go on with it. -/
theorem Run.append {es' : List (Event Thread Task)} (h : Run es p) (hsteps : Steps p es' p') : Run (es ++ es') p' := by
  induction hsteps generalizing es with
  | refl => rwa [List.append_nil]
  | @cons p e q es' p' hstep _ ih =>
    have hrun : Run (es ++ [e] ++ es') p' := ih (h.step hstep)
    rwa [List.append_assoc] at hrun

/-- The sections that the workers have in front of them. -/
def left (p : ECThreadPool Thread Task) : ℕ :=
  2 * p.m_listTasks.length + p.running.card + p.m_ulTermReq.toNat

theorem card_running_setPhase {x : WorkerPhase Task} (hw : w ∈ p.m_setThreads) :
    (p.setPhase w x).running.card + (p.phase w).tasks.card = p.running.card + x.tasks.card := by
  rw [← Multiset.card_add, running_setPhase hw, Multiset.card_add]

theorem left_executed {lpTask : Task} (hw : w ∈ p.m_setThreads) (hphase : p.phase w = .executing lpTask) :
    (p.setPhase w .locking).left < p.left := by
  have hcard := card_running_setPhase (x := .locking) hw
  simp only [hphase, WorkerPhase.tasks, Multiset.card_singleton, Multiset.card_zero] at hcard
  have hlist : (p.setPhase w .locking).m_listTasks = p.m_listTasks := rfl
  have hterm : (p.setPhase w .locking).m_ulTermReq = p.m_ulTermReq := rfl
  rw [left, left, hlist, hterm]
  omega

/-- A worker that has something to do when it gets the mutex. -/
theorem left_getNextTask (hw : w ∈ p.m_setThreads) (hphase : p.phase w = .locking)
    (hwork : p.m_listTasks ≠ [] ∨ p.m_ulTermReq ≠ 0) : (p.getNextTask w).2.left < p.left := by
  unfold getNextTask
  split_ifs with hterm
  · have hcard := congrArg Multiset.card (sum_tasks_erase hw hphase)
    have hpos : 1 ≤ p.m_ulTermReq.toNat := hterm
    have hsub := UInt32.toNat_sub_of_le p.m_ulTermReq 1 hpos
    rw [UInt32.toNat_one] at hsub
    simp only [left, running] at hcard ⊢
    omega
  · cases hlist : p.m_listTasks with
    | nil =>
      have hzero : p.m_ulTermReq = 0 := UInt32.toNat.inj (Nat.le_zero.mp (UInt32.not_lt.mp hterm))
      exact absurd hzero (hwork.resolve_left (not_not_intro hlist))
    | cons lpTask rest =>
      have hcard : ({ p with m_listTasks := rest }.setPhase w (.executing lpTask)).running.card +
          (p.phase w).tasks.card = p.running.card + 1 := card_running_setPhase hw
      simp only [hphase, WorkerPhase.tasks, Multiset.card_zero] at hcard
      have hrest : ({ p with m_listTasks := rest }.setPhase w (.executing lpTask)).m_listTasks = rest := rfl
      have hterm : ({ p with m_listTasks := rest }.setPhase w (.executing lpTask)).m_ulTermReq = p.m_ulTermReq := rfl
      change ({ p with m_listTasks := rest }.setPhase w (.executing lpTask)).left < p.left
      rw [left, left, hrest, hterm, hlist, List.length_cons]
      omega

omit [DecidableEq Thread] in
theorem exists_executing (hrunning : p.running ≠ 0) :
    ∃ w ∈ p.m_setThreads, ∃ lpTask, p.phase w = .executing lpTask := by
  by_contra hnone
  refine hrunning (Finset.sum_eq_zero fun w hw => ?_)
  cases hphase : p.phase w with
  | locking => rfl
  | waiting => rfl
  | executing lpTask => exact absurd ⟨w, hw, lpTask, hphase⟩ hnone

/-- As long as something is left, a worker can take a step, and less is left behind it. -/
theorem exists_step (h : Attended p) (hworker : p.m_setThreads.Nonempty) (hleft : p.left ≠ 0) :
    ∃ e p', Step p e p' ∧ e.byWorker = true ∧ p'.left < p.left := by
  by_cases hrunning : p.running = 0
  · have hwork : p.m_listTasks ≠ [] ∨ p.m_ulTermReq ≠ 0 := by
      by_contra hnone
      obtain ⟨hlist, hterm⟩ := not_or.mp hnone
      refine hleft ?_
      rw [left, hrunning, not_not.mp hlist, not_not.mp hterm]
      rfl
    obtain ⟨w, hw, hawake⟩ := h.exists_awake hworker hwork
    cases hphase : p.phase w with
    | locking => exact ⟨_, _, .getNextTask hw hphase, rfl, left_getNextTask hw hphase hwork⟩
    | waiting => exact absurd hphase hawake
    | executing lpTask => exact ⟨_, _, .executed hw hphase, rfl, left_executed hw hphase⟩
  · obtain ⟨w, hw, lpTask, hphase⟩ := exists_executing hrunning
    exact ⟨_, _, .executed hw hphase, rfl, left_executed hw hphase⟩

omit [DecidableEq Thread] in
theorem requested?_byWorker (he : e.byWorker = true) : e.requested? = none := by
  cases e with
  | getNextTask w next => rfl
  | executed w lpTask => rfl
  | _ => cases he

omit [DecidableEq Thread] in
theorem dispatched?_byWorker (he : e.byWorker = true) : e.dispatched? = none := by
  cases e with
  | getNextTask w next => rfl
  | executed w lpTask => rfl
  | _ => cases he

omit [DecidableEq Thread] in
/-- A pool that was asked for a thread has one, also when some are to end. -/
theorem Counts.nonempty {n : UInt32} (h : Counts p n) (hn : n ≠ 0) : p.m_setThreads.Nonempty := by
  have hcard := h.card
  have hpos : n.toNat ≠ 0 := fun hzero => hn (UInt32.toNat.inj hzero)
  exact Finset.card_pos.mp (by omega)

/-- The induction is on what is left: it is less behind each step that `exists_step` finds. -/
theorem exists_finish (h : Run es p) (hcounts : Counts p (lastRequest es)) (hn : lastRequest es ≠ 0) :
    ∃ es' p', Steps p es' p' ∧ (∀ e ∈ es', e.byWorker = true) ∧ p'.left = 0 := by
  induction hk : p.left using Nat.strong_induction_on generalizing es p with
  | _ k ih =>
    by_cases hleft : p.left = 0
    · exact ⟨[], p, .refl, List.forall_mem_nil _, hleft⟩
    · obtain ⟨e, q, hstep, he, hless⟩ := exists_step h.attended (hcounts.nonempty hn) hleft
      have hrequest := requested?_byWorker he
      have hlast : lastRequest (es ++ [e]) = lastRequest es := lastRequest_concat_none hrequest
      have hnext : Counts q (lastRequest (es ++ [e])) :=
        counts_step hcounts hstep fun n hsome => by rw [hrequest] at hsome; cases hsome
      obtain ⟨es', p', hsteps, hworkers, hdone⟩ :=
        ih q.left (hk ▸ hless) (.step h hstep) hnext (hlast ▸ hn) rfl
      exact ⟨e :: es', p', .cons hstep hsteps, List.forall_mem_cons.mpr ⟨he, hworkers⟩, hdone⟩

/-- **The workers can always finish.** From every state of every run in which the last count that was asked for is not
zero, steps of the workers alone lead on to a state without tasks and without requests to end, and behind them each
task that was dispatched has been run. -/
theorem workers_finish (h : Run es p) (hmax : ∀ n ∈ es.filterMap Event.requested?, n ≠ 0 - 1)
    (hn : lastRequest es ≠ 0) : ∃ es' p', Steps p es' p' ∧ (∀ e ∈ es', e.byWorker = true) ∧ p'.m_listTasks = [] ∧
      p'.m_ulTermReq = 0 ∧ (es.filterMap Event.dispatched? : Multiset Task) =
        ((es ++ es').filterMap Event.executed? : Multiset Task) := by
  obtain ⟨es', p', hsteps, hworkers, hdone⟩ := exists_finish h (h.counts hmax) hn
  have hrun : Run (es ++ es') p' := h.append hsteps
  have hlist : p'.m_listTasks = [] := List.length_eq_zero_iff.mp (by rw [left] at hdone; omega)
  have hterm : p'.m_ulTermReq.toNat = 0 := by rw [left] at hdone; omega
  have hrunning : p'.running = 0 := Multiset.card_eq_zero.mp (by rw [left] at hdone; omega)
  refine ⟨es', p', hsteps, hworkers, hlist, UInt32.toNat.inj hterm, ?_⟩
  -- no task came in behind `es`, so the dispatched ones are those of the run up to `p`
  have hnone : es'.filterMap Event.dispatched? = [] :=
    List.filterMap_eq_nil_iff.mpr fun e he => dispatched?_byWorker (hworkers e he)
  have hfifo := hrun.conserves.fifo
  rw [List.filterMap_append, hnone, List.append_nil, hlist, List.append_nil] at hfifo
  rw [hfifo, hrun.conserves.once, hrunning, add_zero]

theorem workers_finish_queued : ∃ es' p', Steps queued es' p' ∧ (∀ e ∈ es', e.byWorker = true) ∧
    p'.m_listTasks = [] ∧ p'.m_ulTermReq = 0 ∧ (queuedEvents.filterMap Event.dispatched? : Multiset ℕ) =
      ((queuedEvents ++ es').filterMap Event.executed? : Multiset ℕ) :=
  workers_finish run_queued (fun n hn => by rw [List.mem_singleton.mp hn]; decide) (by decide)

end Zcp.Common.ECThreadPool
