import Mathlib.Tactic.Abel
import Zcp.Common.ECThreadPool

/-!
# Every interleaving of the pool's threads

Three invariants hold whatever the order of the steps: no task is lost or run twice, no wakeup is lost,
and the pool counts as many threads as it was asked for.
-/

namespace Zcp.Common

/-- The task that a worker runs now. -/
def WorkerPhase.tasks {Task : Type*} : WorkerPhase Task → Multiset Task
  | .executing lpTask => {lpTask}
  | _ => 0

/-- A worker in `pthread_cond_wait`. -/
def WorkerPhase.sleeps {Task : Type*} : WorkerPhase Task → Bool
  | .waiting => true
  | _ => false

namespace ECThreadPool

variable {Thread Task : Type*} [DecidableEq Thread]

variable {p p' : ECThreadPool Thread Task} {e : Event Thread Task} {es : List (Event Thread Task)}
variable {w : Thread} {woken : Option Thread} {x : WorkerPhase Task}

theorem sleeps_iff : x.sleeps = true ↔ x = .waiting := by
  cases x <;> simp [WorkerPhase.sleeps]

/-! ## The tasks -/

/-- The tasks that the workers run now. -/
def running (p : ECThreadPool Thread Task) : Multiset Task := ∑ w ∈ p.m_setThreads, (p.phase w).tasks

/-- The tasks that workers have taken, when one of them goes to another phase. -/
theorem running_setPhase (hw : w ∈ p.m_setThreads) :
    (p.setPhase w x).running + (p.phase w).tasks = p.running + x.tasks := by
  have hothers : ∑ v ∈ p.m_setThreads.erase w, (Function.update p.phase w x v).tasks =
      ∑ v ∈ p.m_setThreads.erase w, (p.phase v).tasks := by
    refine Finset.sum_congr rfl fun v hv => ?_
    rw [Function.update_of_ne (Finset.ne_of_mem_erase hv)]
  have hself : (Function.update p.phase w x w).tasks = x.tasks := by rw [Function.update_self]
  simp only [running, setPhase]
  rw [← Finset.add_sum_erase _ _ hw, ← Finset.add_sum_erase _ _ hw, hothers, hself]
  abel

/-- A worker that ends runs no task. -/
theorem sum_tasks_erase (hw : w ∈ p.m_setThreads) (hphase : p.phase w = .locking) :
    ∑ v ∈ p.m_setThreads.erase w, (p.phase v).tasks = p.running := by
  have hsum : (p.phase w).tasks + ∑ v ∈ p.m_setThreads.erase w, (p.phase v).tasks = p.running :=
    Finset.add_sum_erase _ _ hw
  have hnone : (p.phase w).tasks = 0 := by rw [hphase]; rfl
  rwa [hnone, zero_add] at hsum

/-- A worker that is woken runs no task, before or after. -/
theorem running_signal (hwoken : p.Signals woken) : (p.signal woken).running = p.running := by
  cases woken with
  | none => rfl
  | some w =>
    have hset := running_setPhase (x := .locking) hwoken.1
    rw [hwoken.2] at hset
    exact add_right_cancel hset

theorem tasks_woken (x : WorkerPhase Task) : x.woken.tasks = x.tasks := by
  cases x <;> rfl

omit [DecidableEq Thread] in
theorem running_broadcast : p.broadcast.running = p.running := by
  refine Finset.sum_congr rfl fun v _ => ?_
  exact tasks_woken (p.phase v)

/-- The list, the workers and their tasks after a section that leaves the tasks alone. -/
structure SameTasks (p p' : ECThreadPool Thread Task) : Prop where
  list : p'.m_listTasks = p.m_listTasks
  running : p'.running = p.running

variable {n : UInt32} {created : Finset Thread}

/-- Making and ending threads moves no task: new workers have none, and those that end are only asked to. -/
theorem sameTasks_adjust (hwoken : p.Signals woken) (hnew : Disjoint created (p.m_setThreads ∪ p.m_setTerminated)) :
    SameTasks p (p.adjust n woken created) := by
  rw [Finset.disjoint_union_right] at hnew
  unfold adjust
  split_ifs with hone hless
  · refine ⟨?_, running_signal (p := { p with m_ulTermReq := p.m_ulTermReq + 1 }) hwoken⟩
    cases woken <;> rfl
  · exact ⟨rfl, running_broadcast⟩
  · simp only
    split_ifs with hcancel
    · exact ⟨rfl, rfl⟩
    · refine ⟨rfl, ?_⟩
      have hold : ∀ v ∈ p.m_setThreads, v ∉ created := fun v hv hcreated =>
        Finset.disjoint_left.mp hnew.1 hcreated hv
      simp only [running]
      rw [Finset.sum_union hnew.1.symm]
      have hcreated : ∑ v ∈ created,
          (if v ∈ created then WorkerPhase.locking else p.phase v).tasks = 0 := by
        refine Finset.sum_eq_zero fun v hv => ?_
        rw [if_pos hv]
        rfl
      rw [hcreated, add_zero]
      refine Finset.sum_congr rfl fun v hv => ?_
      rw [if_neg (hold v hv)]

theorem sameTasks_setThreadCount {bWait : Bool}
    (hwoken : p.Signals woken) (hnew : Disjoint created (p.m_setThreads ∪ p.m_setTerminated)) :
    SameTasks p (p.setThreadCount n bWait woken created) := by
  have hadjust := sameTasks_adjust (n := n) hwoken hnew
  rw [setThreadCount]
  split_ifs
  · exact hadjust
  · exact ⟨hadjust.list, hadjust.running⟩

/-- The tasks in all places: dispatched ones were taken or are queued, and taken ones were run or are
being run. -/
structure Conserves (es : List (Event Thread Task)) (p : ECThreadPool Thread Task) : Prop where
  fifo : es.filterMap Event.dispatched? = es.filterMap Event.taken? ++ p.m_listTasks
  once : (es.filterMap Event.taken? : Multiset Task) = es.filterMap Event.executed? + p.running

omit [DecidableEq Thread] in
theorem filterMap_concat {β : Type*} (f : Event Thread Task → Option β) :
    (es ++ [e]).filterMap f = es.filterMap f ++ (f e).toList := by
  rw [List.filterMap_append, List.filterMap_cons]
  cases f e <;> rfl

omit [DecidableEq Thread] in
/-- An event that moves no task. -/
theorem Conserves.same (h : Conserves es p) (hsame : SameTasks p p') (hdispatched : e.dispatched? = none)
    (htaken : e.taken? = none) (hexecuted : e.executed? = none) : Conserves (es ++ [e]) p' := by
  have hkeep (f : Event Thread Task → Option Task) (hf : f e = none) :
      (es ++ [e]).filterMap f = es.filterMap f := by
    rw [filterMap_concat, hf, Option.toList_none, List.append_nil]
  refine ⟨?_, ?_⟩
  · rw [hkeep _ hdispatched, hkeep _ htaken, hsame.list, h.fifo]
  · rw [hkeep _ htaken, hkeep _ hexecuted, hsame.running, h.once]

/-- No step loses or doubles a task. The cases are the steps, of which dispatching, taking and finishing move a
task. -/
theorem conserves_step (h : Conserves es p) (hstep : Step p e p') : Conserves (es ++ [e]) p' := by
  cases hstep with
  | @dispatch lpTask woken hwoken =>
    have hlist : (p.dispatch lpTask woken).m_listTasks = p.m_listTasks ++ [lpTask] := by
      cases woken <;> rfl
    have hrunning : (p.dispatch lpTask woken).running = p.running :=
      running_signal (p := { p with m_listTasks := p.m_listTasks ++ [lpTask] }) hwoken
    refine ⟨?_, ?_⟩
    · simp only [filterMap_concat, Event.dispatched?, Event.taken?, Option.toList_some,
        Option.toList_none, List.append_nil]
      rw [h.fifo, hlist, List.append_assoc]
    · simp only [filterMap_concat, Event.taken?, Event.executed?, Option.toList_none, List.append_nil]
      rw [h.once, hrunning]
  | setThreadCount hwoken hnew hcard =>
    exact h.same (sameTasks_setThreadCount hwoken hnew) rfl rfl rfl
  | @getNextTask w hw hphase =>
    unfold getNextTask
    split_ifs with hterm
    · exact h.same ⟨rfl, sum_tasks_erase hw hphase⟩ rfl rfl rfl
    · cases hlist : p.m_listTasks with
      | nil =>
        refine h.same ⟨rfl, ?_⟩ rfl rfl rfl
        have hset := running_setPhase (x := .waiting) hw
        rw [hphase] at hset
        exact add_right_cancel hset
      | cons lpTask rest =>
        have hset := running_setPhase (p := { p with m_listTasks := rest }) (x := .executing lpTask) hw
        simp only [hphase, WorkerPhase.tasks, add_zero] at hset
        refine ⟨?_, ?_⟩
        · simp only [filterMap_concat, Event.dispatched?, Event.taken?, Option.toList_some,
            Option.toList_none, List.append_nil]
          rw [h.fifo, hlist, List.append_assoc]
          rfl
        · simp only [filterMap_concat, Event.taken?, Event.executed?, Option.toList_some,
            Option.toList_none, List.append_nil]
          rw [← Multiset.coe_add, h.once, hset, add_assoc]
          rfl
  | @executed w lpTask hw hphase =>
    have hset := running_setPhase (x := .locking) hw
    simp only [hphase, WorkerPhase.tasks, add_zero] at hset
    refine ⟨?_, ?_⟩
    · simp only [filterMap_concat, Event.dispatched?, Event.taken?, Option.toList_none, List.append_nil]
      exact h.fifo
    · simp only [filterMap_concat, Event.taken?, Event.executed?, Option.toList_some,
        Option.toList_none, List.append_nil]
      rw [← Multiset.coe_add, h.once, Multiset.coe_singleton, ← hset]
      abel
  | spurious hw hphase =>
    refine h.same ⟨rfl, ?_⟩ rfl rfl rfl
    have hset := running_setPhase (x := .locking) hw
    rw [hphase] at hset
    exact add_right_cancel hset
  | joinTerminated => exact h.same ⟨rfl, rfl⟩ rfl rfl rfl

theorem Run.conserves (h : Run es p) : Conserves es p := by
  induction h with
  | init => exact ⟨rfl, rfl⟩
  | step _ hstep ih => exact conserves_step ih hstep

/-- **No task is lost, and none is run twice.** In every run the dispatched tasks are those that
workers were given, in this order, and then those that are queued; and each task that was given has
been run once or is run by one worker now. -/
theorem tasks_conserved (h : Run es p) : es.filterMap Event.dispatched? = es.filterMap Event.taken? ++ p.m_listTasks ∧
      (es.filterMap Event.taken? : Multiset Task) = es.filterMap Event.executed? + p.running :=
  ⟨h.conserves.fifo, h.conserves.once⟩

/-- The pool's one worker waits for a task, -/
def ready : ECThreadPool ℕ ℕ := ((init.setThreadCount 1 false none {7}).getNextTask 7).2

/-- the tasks 5 and 6 come, -/
def queued : ECThreadPool ℕ ℕ := (ready.dispatch 5 (some 7)).dispatch 6 none

/-- it has run the one and runs the other, -/
def busy : ECThreadPool ℕ ℕ := (((queued.getNextTask 7).2.setPhase 7 .locking).getNextTask 7).2

/-- and then it waits again. -/
def idle : ECThreadPool ℕ ℕ := ((busy.setPhase 7 .locking).getNextTask 7).2

def queuedEvents : List (Event ℕ ℕ) := [.setThreadCount 1, .getNextTask 7 .wait, .dispatch 5, .dispatch 6]

def busyEvents : List (Event ℕ ℕ) :=
  queuedEvents ++ [.getNextTask 7 (.task 5), .executed 7 5, .getNextTask 7 (.task 6)]

def idleEvents : List (Event ℕ ℕ) := busyEvents ++ [.executed 7 6, .getNextTask 7 .wait]

/-- A run that ends with a task in the queue and a worker that has been woken for it. -/
theorem run_queued : Run queuedEvents queued := by
  have hcount : Run (([] : List (Event ℕ ℕ)) ++ [.setThreadCount 1]) (init.setThreadCount 1 false none {7}) := by
    refine .step .init (.setThreadCount ?_ ?_ ?_)
    · exact fun w hw => absurd hw (Finset.notMem_empty w)
    · decide
    · decide
  have hwait := Run.step hcount (.getNextTask (w := 7) (by decide) (by decide))
  -- the first signal wakes the worker, so the second one finds nobody who waits
  have hfirst : Run _ (ready.dispatch 5 (some 7)) := hwait.step (.dispatch (by decide))
  exact hfirst.step (.dispatch (by decide))

theorem run_busy : Run busyEvents busy := by
  have htake := run_queued.step (.getNextTask (w := 7) (by decide) (by decide))
  have hphase : (queued.getNextTask 7).2.phase 7 = .executing 5 := by decide
  have hrun : Run _ ((queued.getNextTask 7).2.setPhase 7 .locking) := htake.step (.executed (by decide) hphase)
  exact hrun.step (.getNextTask (w := 7) (by decide) (by decide))

theorem run_idle : Run idleEvents idle := by
  have hphase : busy.phase 7 = .executing 6 := by decide
  have hrun : Run _ (busy.setPhase 7 .locking) := run_busy.step (.executed (by decide) hphase)
  exact hrun.step (.getNextTask (w := 7) (by decide) (by decide))

theorem tasks_conserved_busy : busyEvents.filterMap Event.dispatched? = [5, 6] ++ busy.m_listTasks ∧
      ([5, 6] : Multiset ℕ) = ([5] : List ℕ) + busy.running :=
  tasks_conserved run_busy

/-! ## The wakeups -/

/-- The workers that are not in `pthread_cond_wait`. -/
def awake (p : ECThreadPool Thread Task) : Finset Thread :=
  p.m_setThreads.filter fun w => ¬ (p.phase w).sleeps

/-- Each task in the list is for one worker, and so is each request to end. -/
def load (p : ECThreadPool Thread Task) : ℕ := p.m_listTasks.length + p.m_ulTermReq.toNat

/-- Nobody sleeps, or enough workers are awake for all there is to do. -/
def Attended (p : ECThreadPool Thread Task) : Prop :=
  (∀ w ∈ p.m_setThreads, p.phase w ≠ .waiting) ∨ p.load ≤ p.awake.card

omit [DecidableEq Thread] in
theorem mem_awake : w ∈ p.awake ↔ w ∈ p.m_setThreads ∧ p.phase w ≠ .waiting := by
  rw [awake, Finset.mem_filter, Bool.not_eq_true, ← Bool.not_eq_true, sleeps_iff]

/-- A worker that stays awake, or is woken. -/
theorem awake_setPhase (hw : w ∈ p.m_setThreads) (hx : x ≠ .waiting) : (p.setPhase w x).awake = insert w p.awake := by
  ext v
  rw [Finset.mem_insert, mem_awake, mem_awake]
  by_cases hv : v = w
  · subst hv
    simp [setPhase, hw, hx]
  · simp [setPhase, hv]

/-- There may be one more thing to do, if a signal goes with it. -/
theorem Attended.signal (h : Attended p) {q : ECThreadPool Thread Task}
    (hthreads : q.m_setThreads = p.m_setThreads) (hphase : q.phase = p.phase)
    (hload : q.load ≤ p.load + 1) (hwoken : p.Signals woken) : Attended (q.signal woken) := by
  cases woken with
  | none =>
    refine .inl fun v hv => ?_
    rw [ECThreadPool.signal, hphase]
    exact hwoken v (hthreads ▸ hv)
  | some w =>
    obtain ⟨hw, hwaiting⟩ := hwoken
    obtain hnone | hcard := h
    · exact absurd hwaiting (hnone w hw)
    · refine .inr ?_
      have hawake : q.awake = p.awake := by rw [awake, awake, hthreads, hphase]
      have hnot : w ∉ p.awake := fun hmem => (mem_awake.mp hmem).2 hwaiting
      rw [ECThreadPool.signal, awake_setPhase (hthreads ▸ hw) (by simp), hawake,
        Finset.card_insert_of_notMem hnot]
      exact hload.trans (Nat.add_le_add_right hcard 1)

omit [DecidableEq Thread] in
/-- Less to do, for the same workers. -/
theorem Attended.mono (h : Attended p) {q : ECThreadPool Thread Task}
    (hthreads : q.m_setThreads = p.m_setThreads) (hphase : q.phase = p.phase)
    (hload : q.load ≤ p.load) : Attended q := by
  obtain hnone | hcard := h
  · exact .inl (by rwa [hthreads, hphase])
  · have hawake : q.awake = p.awake := by rw [awake, awake, hthreads, hphase]
    exact .inr (hawake ▸ hload.trans hcard)

/-- Making and ending threads leaves no work without a worker that is awake. -/
theorem attended_adjust (h : Attended p)
    (hwoken : p.Signals woken) (hnew : Disjoint created (p.m_setThreads ∪ p.m_setTerminated)) :
    Attended (p.adjust n woken created) := by
  unfold adjust
  split_ifs with hone hless
  · refine h.signal (q := { p with m_ulTermReq := p.m_ulTermReq + 1 }) rfl rfl ?_ hwoken
    have hadd : (p.m_ulTermReq + 1).toNat ≤ p.m_ulTermReq.toNat + 1 := by
      rw [UInt32.toNat_add]
      exact Nat.mod_le _ _
    simp only [load]
    omega
  · refine .inl fun v _ => ?_
    simp only [broadcast]
    cases p.phase v <;> simp [WorkerPhase.woken]
  · simp only
    split_ifs with hcancel
    · refine h.mono rfl rfl ?_
      have hsub := UInt32.toNat_sub_of_le _ _ hcancel
      simp only [load]
      omega
    · rw [Finset.disjoint_union_right] at hnew
      have hold : ∀ v ∈ p.m_setThreads, v ∉ created := fun v hv hcreated =>
        Finset.disjoint_left.mp hnew.1 hcreated hv
      obtain hnone | hcard := h
      · refine .inl fun v hv => ?_
        simp only
        split_ifs with hcreated
        · simp
        · exact hnone v ((Finset.mem_union.mp hv).resolve_right hcreated)
      · refine .inr (le_trans ?_ (hcard.trans (Finset.card_le_card fun v hv => ?_)))
        · simp [load]
        · rw [mem_awake] at hv ⊢
          refine ⟨Finset.mem_union_left _ hv.1, ?_⟩
          simp only
          rw [if_neg (hold v hv.1)]
          exact hv.2

/-- No step leaves work without a worker that is awake. A worker goes to sleep only when there is none. -/
theorem attended_step (h : Attended p) (hstep : Step p e p') : Attended p' := by
  cases hstep with
  | @dispatch lpTask woken hwoken =>
    have hsignal : Attended (({ p with m_listTasks := p.m_listTasks ++ [lpTask] }).signal woken) := by
      refine h.signal rfl rfl ?_ hwoken
      simp only [load, List.length_append, List.length_singleton]
      omega
    exact hsignal
  | @setThreadCount n bWait woken created hwoken hnew hcard =>
    have hadjust := attended_adjust (n := n) h hwoken hnew
    rw [setThreadCount]
    split_ifs
    · exact hadjust
    · exact hadjust
  -- a worker that asks for work ends, sleeps or takes a task; it sleeps only when there is neither
  | @getNextTask w hw hphase =>
    have hawake : w ∈ p.awake := mem_awake.mpr ⟨hw, by simp [hphase]⟩
    unfold getNextTask
    split_ifs with hterm
    · obtain hnone | hcard := h
      · exact .inl fun v hv => hnone v (Finset.mem_of_mem_erase hv)
      · -- one request less, and one worker less
        refine .inr ?_
        have hpos : 1 ≤ p.m_ulTermReq.toNat := hterm
        have hsub := UInt32.toNat_sub_of_le p.m_ulTermReq 1 hpos
        have hless : ({ p with m_setTerminated := insert w p.m_setTerminated
                               m_setThreads := p.m_setThreads.erase w
                               m_ulTermReq := p.m_ulTermReq - 1 } : ECThreadPool Thread Task).awake =
            p.awake.erase w := Finset.filter_erase _ _ _
        rw [hless, Finset.card_erase_of_mem hawake]
        simp only [load, UInt32.toNat_one] at hcard hsub ⊢
        omega
    · cases hlist : p.m_listTasks with
      | nil =>
        have hzero : p.m_ulTermReq.toNat = 0 := by
          have := UInt32.not_lt.mp hterm
          exact Nat.le_zero.mp this
        refine .inr ?_
        simp [load, setPhase, hlist, hzero]
      | cons lpTask rest =>
        obtain hnone | hcard := h
        · refine .inl fun v hv => ?_
          by_cases hvw : v = w
          · subst hvw
            simp [setPhase]
          · simpa [setPhase, hvw] using hnone v hv
        · refine .inr ?_
          have hsame := awake_setPhase (p := { p with m_listTasks := rest }) (x := .executing lpTask) hw (by simp)
          rw [hsame]
          refine le_trans ?_ (hcard.trans (Finset.card_le_card (Finset.subset_insert w p.awake)))
          simp only [load, setPhase, hlist, List.length_cons]
          omega
  | @executed w lpTask hw hphase =>
    obtain hnone | hcard := h
    · refine .inl fun v hv => ?_
      by_cases hvw : v = w
      · subst hvw
        simp [setPhase]
      · simpa [setPhase, hvw] using hnone v hv
    · refine .inr ?_
      rw [awake_setPhase hw (by simp)]
      exact hcard.trans (Finset.card_le_card (Finset.subset_insert w p.awake))
  -- a worker that wakes up by itself is one more that is awake
  | @spurious w hw hphase =>
    refine .inr ?_
    obtain hnone | hcard := h
    · exact absurd hphase (hnone w hw)
    · rw [awake_setPhase hw (by simp)]
      exact hcard.trans (Finset.card_le_card (Finset.subset_insert w p.awake))
  | joinTerminated => exact h

theorem Run.attended (h : Run es p) : Attended p := by
  induction h with
  | init => exact .inl fun v hv => absurd hv (Finset.notMem_empty v)
  | step _ hstep ih => exact attended_step ih hstep

omit [DecidableEq Thread] in
/-- Where work is attended and the pool has a worker, one of its workers is awake. -/
theorem Attended.exists_awake (h : Attended p) (hworker : p.m_setThreads.Nonempty)
    (hwork : p.m_listTasks ≠ [] ∨ p.m_ulTermReq ≠ 0) : ∃ w ∈ p.m_setThreads, p.phase w ≠ .waiting := by
  obtain hnone | hcard := h
  · obtain ⟨w, hw⟩ := hworker
    exact ⟨w, hw, hnone w hw⟩
  · have hload : 0 < p.load := by
      rw [load]
      obtain hlist | hterm := hwork
      · have := List.length_pos_of_ne_nil hlist
        omega
      · have : p.m_ulTermReq.toNat ≠ 0 := fun hzero => hterm (UInt32.toNat.inj hzero)
        omega
    obtain ⟨w, hw⟩ := Finset.card_pos.mp (hload.trans_le hcard)
    rw [mem_awake] at hw
    exact ⟨w, hw⟩

/-- **No wakeup is lost.** As long as there is a worker, and a task in the list or a request to end,
some worker is not in `pthread_cond_wait`: it runs a task or asks for the mutex. -/
theorem no_lost_wakeup (h : Run es p) (hworker : p.m_setThreads.Nonempty)
    (hwork : p.m_listTasks ≠ [] ∨ p.m_ulTermReq ≠ 0) : ∃ w ∈ p.m_setThreads, p.phase w ≠ .waiting :=
  h.attended.exists_awake hworker hwork

theorem no_lost_wakeup_queued : ∃ w ∈ queued.m_setThreads, queued.phase w ≠ .waiting :=
  no_lost_wakeup run_queued (by decide) (.inl (by decide))

/-! ## The number of threads -/

/-- The pool has `n` threads and those that were asked to end. -/
structure Counts (p : ECThreadPool Thread Task) (n : UInt32) : Prop where
  lt : p.m_setThreads.card < 2 ^ 32
  card : p.m_setThreads.card = n.toNat + p.m_ulTermReq.toNat

omit [DecidableEq Thread] in
theorem Counts.threadCount (h : Counts p n) : p.threadCount = n := by
  have hof : (UInt32.ofNat p.m_setThreads.card).toNat = p.m_setThreads.card :=
    UInt32.toNat_ofNat_of_lt' h.lt
  have hle : p.m_ulTermReq ≤ UInt32.ofNat p.m_setThreads.card := by
    rw [UInt32.le_iff_toNat_le, hof, h.card]
    exact Nat.le_add_left _ _
  apply UInt32.toNat.inj
  rw [ECThreadPool.threadCount, UInt32.toNat_sub_of_le _ _ hle, hof, h.card, Nat.add_sub_cancel]

theorem Counts.signal (h : Counts p n) : Counts (p.signal woken) n := by
  cases woken with
  | none => exact h
  | some w => exact ⟨h.lt, h.card⟩

/-- The section leaves as many threads as the call asks for. One less than none is the largest count
there is, which would be taken for the case of one thread to stop. -/
theorem Counts.adjust {k : UInt32} (h : Counts p k) (hn : n ≠ 0 - 1)
    (hnew : Disjoint created (p.m_setThreads ∪ p.m_setTerminated))
    (hcard : created.card = p.threadsToCreate n) : Counts (p.adjust n woken created) n := by
  have hlt := h.lt
  have heq := h.card
  unfold threadsToCreate at hcard
  unfold ECThreadPool.adjust
  rw [h.threadCount] at hcard ⊢
  split_ifs with hone hless
  · have hk : k ≠ 0 := by
      rintro rfl
      exact hn hone
    have hpos : 1 ≤ k.toNat := Nat.pos_of_ne_zero fun hzero => hk (UInt32.toNat.inj hzero)
    have hsub := UInt32.toNat_sub_of_le k 1 hpos
    rw [← hone, UInt32.toNat_one] at hsub
    refine Counts.signal ⟨hlt, ?_⟩
    have hadd := UInt32.toNat_add p.m_ulTermReq 1
    rw [UInt32.toNat_one, Nat.mod_eq_of_lt (by omega)] at hadd
    simp only
    omega
  · have hle : n.toNat < k.toNat := hless
    have hsub := UInt32.toNat_sub_of_le k n hle.le
    refine ⟨hlt, ?_⟩
    have hadd := UInt32.toNat_add p.m_ulTermReq (k - n)
    rw [Nat.mod_eq_of_lt (by omega)] at hadd
    simp only [broadcast]
    omega
  · have hle : k.toNat ≤ n.toNat := UInt32.not_lt.mp hless
    have hsub := UInt32.toNat_sub_of_le n k hle
    simp only
    split_ifs with hcancel
    · have hrest := UInt32.toNat_sub_of_le _ _ hcancel
      have hfew : (n - k).toNat ≤ p.m_ulTermReq.toNat := hcancel
      refine ⟨hlt, ?_⟩
      simp only
      omega
    · have hmany : p.m_ulTermReq.toNat < (n - k).toNat := UInt32.not_le.mp hcancel
      have hrest := UInt32.toNat_sub_of_le _ _ hmany.le
      rw [if_neg (by simp [hone, hless]), if_neg hcancel] at hcard
      rw [Finset.disjoint_union_right] at hnew
      have hunion := Finset.card_union_of_disjoint hnew.1.symm
      have hbound := n.toNat_lt
      refine ⟨?_, ?_⟩
      · simp only
        omega
      · simp only [UInt32.toNat_zero]
        omega

/-- The thread counts that were asked for, the last one at the end. -/
def lastRequest (es : List (Event Thread Task)) : UInt32 := (es.filterMap Event.requested?).getLastD 0

omit [DecidableEq Thread] in
theorem lastRequest_concat_none (h : e.requested? = none) : lastRequest (es ++ [e]) = lastRequest es := by
  rw [lastRequest, filterMap_concat, h, Option.toList_none, List.append_nil, lastRequest]

/-- Each step keeps the threads and those that are to end in balance with the last request. -/
theorem counts_step (h : Counts p (lastRequest es)) (hstep : Step p e p')
    (hmax : ∀ n, e.requested? = some n → n ≠ 0 - 1) : Counts p' (lastRequest (es ++ [e])) := by
  cases hstep with
  | @dispatch lpTask woken hwoken =>
    rw [lastRequest_concat_none rfl]
    have hsignal : Counts (({ p with m_listTasks := p.m_listTasks ++ [lpTask] }).signal woken)
        (lastRequest es) := Counts.signal ⟨h.lt, h.card⟩
    exact ⟨hsignal.lt, hsignal.card⟩
  | @setThreadCount n bWait woken created hwoken hnew hcard =>
    have hlast : lastRequest (es ++ [(.setThreadCount n : Event Thread Task)]) = n := by
      rw [lastRequest, filterMap_concat]
      exact List.getLastD_concat
    rw [hlast]
    have hadjust : Counts (p.adjust n woken created) n := h.adjust (hmax n rfl) hnew hcard
    rw [setThreadCount]
    split_ifs
    · exact hadjust
    · exact ⟨hadjust.lt, hadjust.card⟩
  | @getNextTask w hw hphase =>
    rw [lastRequest_concat_none rfl]
    unfold getNextTask
    split_ifs with hterm
    · have hpos : 1 ≤ p.m_ulTermReq.toNat := hterm
      have hsub := UInt32.toNat_sub_of_le p.m_ulTermReq 1 hpos
      have herase := Finset.card_erase_of_mem hw
      have hlt := h.lt
      have heq := h.card
      rw [UInt32.toNat_one] at hsub
      refine ⟨?_, ?_⟩
      · simp only
        omega
      · simp only
        omega
    · cases p.m_listTasks with
      | nil => exact ⟨h.lt, h.card⟩
      | cons lpTask rest => exact ⟨h.lt, h.card⟩
  | executed hw hphase =>
    rw [lastRequest_concat_none rfl]
    exact ⟨h.lt, h.card⟩
  | spurious hw hphase =>
    rw [lastRequest_concat_none rfl]
    exact ⟨h.lt, h.card⟩
  | joinTerminated =>
    rw [lastRequest_concat_none rfl]
    exact ⟨h.lt, h.card⟩

theorem Run.counts (h : Run es p) (hmax : ∀ n ∈ es.filterMap Event.requested?, n ≠ 0 - 1) :
    Counts p (lastRequest es) := by
  induction h with
  | init => exact ⟨Nat.two_pow_pos 32, rfl⟩
  | @step es e p p' _ hstep ih =>
    rw [filterMap_concat] at hmax
    refine counts_step (ih fun n hn => hmax n (List.mem_append_left _ hn)) hstep fun n hn => ?_
    exact hmax n (List.mem_append_right _ (by simp [hn]))

/-- **The pool has the threads it was asked for.** `threadCount` is the last count in every state, as
the assertion says, and no subtraction in it wraps around; and when all workers sleep, no task is left
and just that many threads are there. -/
theorem threadCount_eq_lastRequest (h : Run es p) (hmax : ∀ n ∈ es.filterMap Event.requested?, n ≠ 0 - 1) :
    p.threadCount = lastRequest es ∧ p.m_setThreads.card = (lastRequest es).toNat + p.m_ulTermReq.toNat ∧
      ((∀ w ∈ p.m_setThreads, p.phase w = .waiting) → p.m_setThreads.Nonempty →
        p.m_listTasks = [] ∧ p.m_setThreads.card = (lastRequest es).toNat) := by
  have hcounts := h.counts hmax
  refine ⟨hcounts.threadCount, hcounts.card, fun hsleep hworker => ?_⟩
  obtain hnone | hcard := h.attended
  · obtain ⟨w, hw⟩ := hworker
    exact absurd (hsleep w hw) (hnone w hw)
  · have hempty : p.awake = ∅ := by
      refine Finset.eq_empty_of_forall_notMem fun w hw => ?_
      rw [mem_awake] at hw
      exact hw.2 (hsleep w hw.1)
    rw [hempty, Finset.card_empty, load] at hcard
    have heq := hcounts.card
    refine ⟨List.length_eq_zero_iff.mp (by omega), by omega⟩

theorem threadCount_idle : idle.threadCount = 1 ∧ idle.m_setThreads.card = 1 + 0 ∧ idle.m_listTasks = [] := by
  have hcount := threadCount_eq_lastRequest run_idle fun n hn => by rw [List.mem_singleton.mp hn]; decide
  exact ⟨hcount.1, hcount.2.1, (hcount.2.2 (by decide) (by decide)).1⟩

end ECThreadPool

end Zcp.Common
