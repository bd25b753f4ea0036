import Mathlib.Data.List.AList
import Zcp.Libserver.ZarafaCode

/-!
# Object locks

`ECLockManager` keeps one session for each locked object. A caller holds a lock through an
`ECObjectLock`, a handle that shares an `ECObjectLockImpl` with its copies; the implementation object
gives the lock back when one of its handles is unlocked, or when the last of them goes.
-/

namespace Zcp.Libserver

/-- The name of an `ECObjectLock` variable. -/
abbrev HandleId := ℕ

/-- The place of an `ECObjectLockImpl`, never used twice. -/
abbrev ImplId := ℕ

/-- `LockMap`: the session that holds each object. -/
abbrev LockMap := AList fun _ : ObjId => ECSESSIONID

/-- What handles share. `armed` says that the weak pointer to the manager is still set. -/
structure ECObjectLockImpl where
  ulObjId : ObjId
  sessionId : ECSESSIONID
  armed : Bool
deriving DecidableEq, Repr

/-- The lock table, and the handles around it. A handle without an entry in `handles` has no
implementation: it is fresh, or was unlocked. -/
structure ECLockManager where
  mapLocks : LockMap
  impls : List ECObjectLockImpl
  handles : AList fun _ : HandleId => ImplId

namespace ECLockManager

/-- `ECLockManager::Create`. -/
def Create : ECLockManager := ⟨∅, [], ∅⟩

/-- The table's part of `LockObject`: an object that some session has stays with it. -/
def insertLock (m : LockMap) (ulObjId : ObjId) (sessionId : ECSESSIONID) : ECRESULT × LockMap :=
  match m.lookup ulObjId with
  | none => (.erSuccess, m.insert ulObjId sessionId)
  | some s => (if s = sessionId then .erSuccess else .ZARAFA_E_NO_ACCESS, m)

/-- `ECLockManager::UnlockObject`. -/
def UnlockObject (m : LockMap) (ulObjId : ObjId) (sessionId : ECSESSIONID) : ECRESULT × LockMap :=
  match m.lookup ulObjId with
  | none => (.ZARAFA_E_NOT_FOUND, m)
  | some s => if s = sessionId then (.erSuccess, m.erase ulObjId) else (.ZARAFA_E_NO_ACCESS, m)

/-- `ECLockManager::IsLocked`, with the session it stores. -/
def IsLocked (st : ECLockManager) (ulObjId : ObjId) : Option ECSESSIONID :=
  st.mapLocks.lookup ulObjId

/-- `ECObjectLockImpl::Unlock`. -/
def unlockImpl (st : ECLockManager) (i : ImplId) : ECRESULT × ECLockManager :=
  match st.impls[i]? with
  | some impl =>
    if impl.armed then
      match UnlockObject st.mapLocks impl.ulObjId impl.sessionId with
      | (.erSuccess, m) =>
        (.erSuccess, { st with mapLocks := m, impls := st.impls.set i { impl with armed := false } })
      | (er, m) => (er, { st with mapLocks := m })
    else (.erSuccess, st)
  | none => (.erSuccess, st)

/-- Some handle still has the implementation `i`. -/
def isShared (st : ECLockManager) (i : ImplId) : Bool := st.handles.entries.any (·.2 = i)

/-- One handle less has the implementation `i`: the destructor runs when it was the last. -/
def release (st : ECLockManager) (i : ImplId) : ECLockManager :=
  if st.isShared i then st else (st.unlockImpl i).2

/-- The destructor of a handle, and `m_ptrImpl.reset()`. -/
def dropHandle (st : ECLockManager) (h : HandleId) : ECLockManager :=
  match st.handles.lookup h with
  | none => st
  | some i => { st with handles := st.handles.erase h }.release i

/-- `ECObjectLock::operator=`, and the copy constructor when `h` is a new handle. The old
implementation goes with the temporary, after the swap. -/
def assignHandle (st : ECLockManager) (h other : HandleId) : ECLockManager :=
  if h = other then st
  else
    match st.handles.lookup other with
    | none => st.dropHandle h
    | some i =>
      let st' := { st with handles := st.handles.insert h i }
      match st.handles.lookup h with
      | none => st'
      | some old => st'.release old

/-- `ECObjectLock::Unlock`. A handle without an implementation is a null pointer. -/
def unlockHandle (st : ECLockManager) (h : HandleId) : Option (ECRESULT × ECLockManager) :=
  match st.handles.lookup h with
  | none => none
  | some i =>
    match st.unlockImpl i with
    | (.erSuccess, st') => some (.erSuccess, st'.dropHandle h)
    | (er, st') => some (er, st')

/-- The handle's old implementation would be destroyed by an assignment to it, and would take the
manager's lock for that. -/
def destroysArmed (st : ECLockManager) (h : HandleId) : Bool :=
  match st.handles.lookup h with
  | none => false
  | some i =>
    !{ st with handles := st.handles.erase h }.isShared i && (st.impls[i]?.any (·.armed))

/-- `ECLockManager::LockObject`. The handle is assigned while the manager's lock is taken. When that assignment
has to unlock something, the lock is taken a second time by the thread that holds it, which is undefined (`none`). -/
def LockObject (st : ECLockManager) (ulObjId : ObjId) (sessionId : ECSESSIONID)
    (lpObjectLock : Option HandleId) : Option (ECRESULT × ECLockManager) :=
  let (er, m) := insertLock st.mapLocks ulObjId sessionId
  match lpObjectLock with
  | none => some (er, { st with mapLocks := m })
  | some h =>
    if st.destroysArmed h then none
    else
      some (er, { mapLocks := m
                  impls := st.impls ++ [⟨ulObjId, sessionId, true⟩]
                  handles := st.handles.insert h st.impls.length })

/-! ## Calls -/

/-- A call on the manager or on a handle. -/
inductive LockOp where
  | lockObject (ulObjId : ObjId) (sessionId : ECSESSIONID) (lpObjectLock : Option HandleId)
  | assign (h other : HandleId)
  | unlock (h : HandleId)
  | destroy (h : HandleId)
deriving DecidableEq, Repr

/-- What a call answers and leaves, `none` when it is undefined. -/
def LockOp.exec (st : ECLockManager) : LockOp → Option (ECRESULT × ECLockManager)
  | .lockObject o s lp => st.LockObject o s lp
  | .assign h other => some (.erSuccess, st.assignHandle h other)
  | .unlock h => st.unlockHandle h
  | .destroy h => some (.erSuccess, st.dropHandle h)

/-- The manager with the history that the locks are about: `returned` names the lock of a handle that
a successful `LockObject` returned and that was not unlocked, destroyed or assigned to since, and
`granted` says which implementations come from a successful `LockObject`. -/
structure Tracked where
  st : ECLockManager
  returned : HandleId → Option (ObjId × ECSESSIONID)
  granted : ImplId → Bool

/-- No lock was asked for yet. -/
def Tracked.init : Tracked := ⟨Create, fun _ => none, fun _ => false⟩

/-- What a call adds to the history. -/
def Tracked.record (t : Tracked) (er : ECRESULT) (st : ECLockManager) : LockOp → Tracked
  | .lockObject _ _ none => { t with st }
  | .lockObject o s (some h) =>
    { st
      returned := Function.update t.returned h (if er = .erSuccess then some (o, s) else none)
      granted := Function.update t.granted t.st.impls.length (er = .erSuccess) }
  | .assign h other =>
    { t with st, returned := if h = other then t.returned else Function.update t.returned h none }
  | .unlock h =>
    { t with st, returned := if er = .erSuccess then Function.update t.returned h none
                             else t.returned }
  | .destroy h => { t with st, returned := Function.update t.returned h none }

/-- A call, with the history. -/
def Tracked.step (t : Tracked) (op : LockOp) : Option Tracked :=
  (op.exec t.st).map fun p => t.record p.1 p.2 op

/-- A call that is defined, between its two states. -/
structure Call where
  before : Tracked
  op : LockOp
  after : Tracked

/-- The calls of a run up to the first one that is undefined. -/
def calls (t : Tracked) : List LockOp → List Call
  | [] => []
  | op :: ops =>
    match t.step op with
    | none => []
    | some t' => ⟨t, op, t'⟩ :: calls t' ops

/-! ## What locks promise -/

/-- The lock `(o, s)` is held through `h`: a successful `LockObject` returned `h` for it, or `h` has an
implementation that came from one (a copy has it too), and it was not unlocked since. -/
def Tracked.Holds (t : Tracked) (h : HandleId) (o : ObjId) (s : ECSESSIONID) : Prop :=
  t.returned h = some (o, s) ∨
    ∃ i, t.st.handles.lookup h = some i ∧ t.st.impls[i]? = some ⟨o, s, true⟩ ∧ t.granted i

/-- While a lock is held, `LockObject` of every other session fails, with a handle or without. -/
def Tracked.Excludes (t : Tracked) : Prop :=
  ∀ h o s, t.Holds h o s → ∀ s' ≠ s, ∀ lp er st',
    t.st.LockObject o s' lp = some (er, st') → er ≠ .erSuccess

/-- A destroyed handle that came from a failed `LockObject` leaves the locks that others hold. -/
def Call.KeepsOthers (c : Call) : Prop :=
  ∀ h i, c.op = .destroy h → c.before.st.handles.lookup h = some i → c.before.granted i = false →
    ∀ h' ≠ h, ∀ o s, c.before.Holds h' o s → c.before.st.IsLocked o = some s →
      c.after.st.IsLocked o = some s

/-- The call makes handle `h` give the implementation `i` back: it is unlocked, or `h` is the last
handle that has it and is destroyed or assigned to. -/
def LockOp.GivesBack (st : ECLockManager) (h : HandleId) (i : ImplId) : LockOp → Prop
  | .lockObject _ _ _ => False
  | .assign h' other =>
    h' = h ∧ h ≠ other ∧ st.handles.lookup h = some i ∧ ∀ k ≠ h, st.handles.lookup k ≠ some i
  | .unlock h' => h' = h ∧ st.handles.lookup h = some i
  | .destroy h' => h' = h ∧ st.handles.lookup h = some i ∧ ∀ k ≠ h, st.handles.lookup k ≠ some i

/-- The lock `(o, s)` is held through `k` by another call of `LockObject` than the one that made `i`,
or `k` is the handle that call returned. -/
def Tracked.HoldsBeside (t : Tracked) (i : ImplId) (k : HandleId) (o : ObjId) (s : ECSESSIONID) :
    Prop :=
  t.returned k = some (o, s) ∨
    ∃ j ≠ i, t.st.handles.lookup k = some j ∧ t.st.impls[j]? = some ⟨o, s, true⟩ ∧ t.granted j

/-- What the call gives back, nobody else holds. -/
def Call.IsSole (c : Call) : Prop :=
  ∀ h i o s, c.op.GivesBack c.before.st h i → c.before.st.impls[i]? = some ⟨o, s, true⟩ →
    ∀ k ≠ h, ¬ c.before.HoldsBeside i k o s

end ECLockManager

end Zcp.Libserver
