import Mathlib.Algebra.BigOperators.Group.Finset.Basic
import Mathlib.Algebra.Order.BigOperators.Group.Finset

/-!
# The thread pool

`ECThreadPool` hands its tasks to worker threads. What a thread does while it holds the pool's mutex
is one step; between two such sections the steps of all threads interleave.
-/

namespace Zcp.Common

/-- Where a worker stands while it does not hold the mutex. -/
inductive WorkerPhase (Task : Type*) where
  /-- It is new, was woken, or has run its task, and asks for the mutex. -/
  | locking
  /-- In `pthread_cond_wait` on `m_hCondition`. -/
  | waiting
  | executing (lpTask : Task)
deriving DecidableEq, Repr

/-- A worker after a broadcast. -/
def WorkerPhase.woken {Task : Type*} : WorkerPhase Task → WorkerPhase Task
  | .waiting => .locking
  | ph => ph

/-- What `getNextTask` gives its worker. -/
inductive NextTask (Task : Type*) where
  /-- `false`: the thread ends. -/
  | terminate
  /-- The worker goes into `pthread_cond_wait`. -/
  | wait
  | task (lpTask : Task)
deriving DecidableEq, Repr

/-- The pool, with the phase of each worker. A task stands for its `STaskInfo`. -/
structure ECThreadPool (Thread Task : Type*) where
  m_setThreads : Finset Thread
  m_setTerminated : Finset Thread
  m_listTasks : List Task
  m_ulTermReq : UInt32
  phase : Thread → WorkerPhase Task

namespace ECThreadPool

variable {Thread Task : Type*} [DecidableEq Thread]

/-- The constructor's pool, before it sets its thread count. -/
def init : ECThreadPool Thread Task := ⟨∅, ∅, [], 0, fun _ => .locking⟩

/-- `ECThreadPool::threadCount`: a `size_t` less an `unsigned`, cut to an `unsigned`. -/
def threadCount (p : ECThreadPool Thread Task) : UInt32 :=
  .ofNat p.m_setThreads.card - p.m_ulTermReq

def setPhase (p : ECThreadPool Thread Task) (w : Thread) (ph : WorkerPhase Task) :
    ECThreadPool Thread Task :=
  { p with phase := Function.update p.phase w ph }

/-- `pthread_cond_signal(&m_hCondition)`, which wakes the worker `woken` if there is one to wake. -/
def signal (p : ECThreadPool Thread Task) : Option Thread → ECThreadPool Thread Task
  | none => p
  | some w => p.setPhase w .locking

/-- `pthread_cond_broadcast(&m_hCondition)`. -/
def broadcast (p : ECThreadPool Thread Task) : ECThreadPool Thread Task :=
  { p with phase := fun w => (p.phase w).woken }

/-- `ECThreadPool::joinTerminated`. -/
def joinTerminated (p : ECThreadPool Thread Task) : ECThreadPool Thread Task :=
  { p with m_setTerminated := ∅ }

/-- `ECThreadPool::dispatch`. -/
def dispatch (p : ECThreadPool Thread Task) (lpTask : Task) (woken : Option Thread) :
    ECThreadPool Thread Task :=
  ({ p with m_listTasks := p.m_listTasks ++ [lpTask] }.signal woken).joinTerminated

/-- The threads that `setThreadCount` has to create. -/
def threadsToCreate (p : ECThreadPool Thread Task) (ulThreadCount : UInt32) : ℕ :=
  if ulThreadCount = p.threadCount - 1 ∨ ulThreadCount < p.threadCount then 0
  else if ulThreadCount - p.threadCount ≤ p.m_ulTermReq then 0
  else (ulThreadCount - p.threadCount - p.m_ulTermReq).toNat

/-- The first section of `ECThreadPool::setThreadCount`, to where it may begin to wait. `created` are
the threads that `pthread_create` makes. -/
def adjust (p : ECThreadPool Thread Task) (ulThreadCount : UInt32) (woken : Option Thread)
    (created : Finset Thread) : ECThreadPool Thread Task :=
  if ulThreadCount = p.threadCount - 1 then
    { p with m_ulTermReq := p.m_ulTermReq + 1 }.signal woken
  else if ulThreadCount < p.threadCount then
    { p with m_ulTermReq := p.m_ulTermReq + (p.threadCount - ulThreadCount) }.broadcast
  else
    let ulThreadsToAdd := ulThreadCount - p.threadCount
    if ulThreadsToAdd ≤ p.m_ulTermReq then { p with m_ulTermReq := p.m_ulTermReq - ulThreadsToAdd }
    else
      { p with m_ulTermReq := 0
               m_setThreads := p.m_setThreads ∪ created
               phase := fun w => if w ∈ created then .locking else p.phase w }

/-- `ECThreadPool::setThreadCount`. A call that waits joins the terminated threads each time it is
woken. -/
def setThreadCount (p : ECThreadPool Thread Task) (ulThreadCount : UInt32) (bWait : Bool)
    (woken : Option Thread) (created : Finset Thread) : ECThreadPool Thread Task :=
  let p' := p.adjust ulThreadCount woken created
  if bWait ∧ ulThreadCount.toNat < p'.m_setThreads.card then p' else p'.joinTerminated

/-- `ECThreadPool::getNextTask`, from where the worker `w` has the mutex to where it gives it up. -/
def getNextTask (p : ECThreadPool Thread Task) (w : Thread) :
    NextTask Task × ECThreadPool Thread Task :=
  if 0 < p.m_ulTermReq then
    (.terminate, { p with m_setTerminated := insert w p.m_setTerminated
                          m_setThreads := p.m_setThreads.erase w
                          m_ulTermReq := p.m_ulTermReq - 1 })
  else
    match p.m_listTasks with
    | [] => (.wait, p.setPhase w .waiting)
    | lpTask :: rest => (.task lpTask, { p with m_listTasks := rest }.setPhase w (.executing lpTask))

/-! ## Interleavings -/

/-- A step, as an observer of the pool sees it. -/
inductive Event (Thread Task : Type*) where
  | dispatch (lpTask : Task)
  | setThreadCount (ulThreadCount : UInt32)
  | getNextTask (w : Thread) (next : NextTask Task)
  /-- A worker has run its task. -/
  | executed (w : Thread) (lpTask : Task)
  /-- A thread leaves `pthread_cond_wait`: a worker without a signal, or a caller of `setThreadCount`. -/
  | wakeup
deriving DecidableEq

/-- A signal wakes a worker that waits; it is lost only when none does. -/
def Signals (p : ECThreadPool Thread Task) : Option Thread → Prop
  | none => ∀ w ∈ p.m_setThreads, p.phase w ≠ .waiting
  | some w => w ∈ p.m_setThreads ∧ p.phase w = .waiting

instance decidableSignals [DecidableEq Task] (p : ECThreadPool Thread Task) :
    (woken : Option Thread) → Decidable (p.Signals woken)
  | none => inferInstanceAs (Decidable (∀ w ∈ p.m_setThreads, p.phase w ≠ .waiting))
  | some w => inferInstanceAs (Decidable (w ∈ p.m_setThreads ∧ p.phase w = .waiting))

/-- One section under the mutex, or a worker's way between two of them. -/
inductive Step : ECThreadPool Thread Task → Event Thread Task → ECThreadPool Thread Task → Prop
  | dispatch {p lpTask woken} (hwoken : p.Signals woken) :
      Step p (.dispatch lpTask) (p.dispatch lpTask woken)
  | setThreadCount {p ulThreadCount bWait woken created} (hwoken : p.Signals woken)
      (hnew : Disjoint created (p.m_setThreads ∪ p.m_setTerminated))
      (hcard : created.card = p.threadsToCreate ulThreadCount) :
      Step p (.setThreadCount ulThreadCount) (p.setThreadCount ulThreadCount bWait woken created)
  | getNextTask {p w} (hw : w ∈ p.m_setThreads) (hphase : p.phase w = .locking) :
      Step p (.getNextTask w (p.getNextTask w).1) (p.getNextTask w).2
  | executed {p w lpTask} (hw : w ∈ p.m_setThreads) (hphase : p.phase w = .executing lpTask) :
      Step p (.executed w lpTask) (p.setPhase w .locking)
  | spurious {p w} (hw : w ∈ p.m_setThreads) (hphase : p.phase w = .waiting) :
      Step p .wakeup (p.setPhase w .locking)
  | joinTerminated {p} : Step p .wakeup p.joinTerminated

/-- The pools that the constructor's pool can become, with the events on the way. -/
inductive Run : List (Event Thread Task) → ECThreadPool Thread Task → Prop
  | init : Run [] init
  | step {es e p p'} (hrun : Run es p) (hstep : Step p e p') : Run (es ++ [e]) p'

/-- The steps that lead from a pool to another one, with their events. -/
inductive Steps : ECThreadPool Thread Task → List (Event Thread Task) → ECThreadPool Thread Task → Prop
  | refl {p} : Steps p [] p
  | cons {p e q es p'} (hstep : Step p e q) (hrest : Steps q es p') : Steps p (e :: es) p'

/-! What the events say, -/

/-- the tasks that were dispatched, -/
def Event.dispatched? : Event Thread Task → Option Task
  | .dispatch lpTask => some lpTask
  | _ => none

/-- the tasks that workers were given, -/
def Event.taken? : Event Thread Task → Option Task
  | .getNextTask _ (.task lpTask) => some lpTask
  | _ => none

/-- the tasks that workers have run, -/
def Event.executed? : Event Thread Task → Option Task
  | .executed _ lpTask => some lpTask
  | _ => none

/-- and the thread counts that were asked for. -/
def Event.requested? : Event Thread Task → Option UInt32
  | .setThreadCount ulThreadCount => some ulThreadCount
  | _ => none

end ECThreadPool

end Zcp.Common
