import Zcp.Common.ECCache.Entries
import Zcp.Libserver.ECSecurity.SetRights

/-!
# The cached access lists

`SetRights` takes the access list of an object out of the cache before it changes the rows. `GetACLs` stores
what it has selected when it is not in the cache. Calls of several sessions take turns between these steps,
so that a list may be cached between the removal and the change. `run_current` says that the cache is
current when no row changes while a list of its object is cached, or about to be.
-/

namespace Zcp.Libserver

open Zcp.Common
open Zcp.Common.ECCache
open Zcp.Libserver.ECSecurity (AclRow AclStatement RightsEntry UserManagement selectRights)

namespace ACLs

/-- Where a session is in its call. -/
inductive Call where
  | idle
  /-- In `SetRights`, behind the invalidation: the statements that are left. -/
  | setRights (objid : ObjId) (todo : List AclStatement)
  /-- In `GetACLs`, when the cache has had no answer. -/
  | select (objid : ObjId)
  /-- In `GetACLs`, behind the select: the rights to store. -/
  | setACLs (objid : ObjId) (rights : List Rights)

/-- The table, the cache and the sessions. -/
structure World (σ : Type*) where
  acl : List AclRow
  m_AclCache : ECCache ObjId (List Rights)
  call : σ → Call

/-- The cache, whose entries do not age. -/
structure AclCacheType extends CacheType ObjId (List Rights) where
  ageless : m_lMaxAge = 0

/-- The next step of a session. -/
inductive Event (σ : Type*) where
  | setRights (s : σ) (objid : ObjId) (lpsRightsArray : List RightsEntry)
  /-- The next statement of `SetRights`, which may fail. -/
  | statement (s : σ) (fails : Bool)
  | getACLs (s : σ) (objid : ObjId) (tNow : ℤ)
  /-- The select of `GetACLs`, which may fail. -/
  | select (s : σ) (fails : Bool)
  | setACLs (s : σ) (tNow : ℤ)

/-- `SetRights` returns when no statement is left. -/
def Call.setting (objid : ObjId) : List AclStatement → Call
  | [] => .idle
  | todo => .setRights objid todo

section Steps

variable {σ : Type*} [DecidableEq σ] (t : AclCacheType) (users : UserManagement)

/-- The world before any call. -/
def World.start (acl : List AclRow) : World σ := ⟨acl, .new, fun _ => .idle⟩

namespace World

variable (w : World σ)

/-- A session goes on with its call. -/
def goOn (s : σ) (call : Call) : World σ := { w with call := Function.update w.call s call }

/-- A step of a session that has something else to do changes nothing. -/
def step : Event σ → World σ
  | .setRights s objid lpsRightsArray =>
    match w.call s with
    | .idle =>
      -- `Update(fnevObjectModified)` comes first, then the statements
      let w := { w with m_AclCache := (w.m_AclCache.removeCacheItem t.toCacheType objid).2 }
      w.goOn s (.setting objid (ECSecurity.SetRights users lpsRightsArray).1)
    | _ => w
  | .statement s fails =>
    match w.call s with
    | .setRights objid (statement :: todo) =>
      if fails then w.goOn s .idle
      else { w with acl := statement.run objid w.acl }.goOn s (.setting objid todo)
    | _ => w
  | .getACLs s objid tNow =>
    match w.call s with
    | .idle =>
      let (_, found, cache) := w.m_AclCache.getCacheItem t.toCacheType objid tNow
      let w := { w with m_AclCache := cache }
      match found with
      | some _ => w
      | none => w.goOn s (.select objid)
    | _ => w
  | .select s fails =>
    match w.call s with
    | .select objid =>
      if fails then w.goOn s .idle else w.goOn s (.setACLs objid (selectRights w.acl objid))
    | _ => w
  | .setACLs s tNow =>
    match w.call s with
    | .setACLs objid rights =>
      { w with m_AclCache := w.m_AclCache.addCacheItem t.toCacheType objid rights tNow }.goOn s .idle
    | _ => w

/-- The steps of all sessions, in some order. -/
def run : World σ → List (Event σ) → World σ
  | w, [] => w
  | w, event :: events => run (w.step t users event) events

/-- What `GetACLs` answers when no other call takes a step in between. -/
def answer (objid : ObjId) : Except Failure (List Rights) :=
  match w.m_AclCache.find objid with
  | some item => .ok item.value
  | none => .ok (selectRights w.acl objid)

/-- What the table has for an object. -/
def rows (objid : ObjId) : Except Failure (List Rights) := .ok (selectRights w.acl objid)

/-- No `SetRights` and no `GetACLs` for the object is in progress. -/
def Quiet (objid : ObjId) : Prop :=
  ∀ s, (∀ todo, w.call s ≠ .setRights objid todo) ∧ w.call s ≠ .select objid ∧
    ∀ rights, w.call s ≠ .setACLs objid rights

/-- The cached list of an object has the rows of the object. -/
def Current (objid : ObjId) : Prop :=
  ∀ item, w.m_AclCache.find objid = some item → item.value = selectRights w.acl objid

/-- A statement that changes the rows of an object comes when no list of the object is cached, and none has
been selected that is still to be stored. -/
def Meets : Event σ → Prop
  | .statement s false => ∀ objid statement todo, w.call s = .setRights objid (statement :: todo) →
      selectRights (statement.run objid w.acl) objid ≠ selectRights w.acl objid →
        (w.m_AclCache.find objid = none) ∧ ∀ s' rights, w.call s' ≠ .setACLs objid rights
  | _ => True

/-- All steps of a run meet the condition. -/
def MeetsRun : World σ → List (Event σ) → Prop
  | _, [] => True
  | w, event :: events => w.Meets event ∧ MeetsRun (w.step t users event) events

end World

end Steps

/-! ## Invariant -/

/-- Every list that is cached, or has been selected, has the rows of its object. -/
structure World.Fresh {σ : Type*} (t : AclCacheType) (w : World σ) : Prop where
  keyed : w.m_AclCache.Keyed t.toCacheType
  cached : ∀ o rights, w.m_AclCache.Maps o rights → rights = selectRights w.acl o
  selected : ∀ s o rights, w.call s = .setACLs o rights → rights = selectRights w.acl o

namespace World

variable {σ : Type*} [DecidableEq σ] {t : AclCacheType} {users : UserManagement} {w : World σ}

omit [DecidableEq σ] in
theorem fresh_start (acl : List AclRow) : (start acl : World σ).Fresh t where
  keyed := keyed_new
  cached o rights h := absurd h (not_maps_new o rights)
  selected _ _ _ h := nomatch h

/-- A session that goes on with another call than a store keeps the lists. -/
theorem Fresh.goOn (hw : w.Fresh t) (s : σ) {call : Call}
    (hcall : ∀ o rights, call = .setACLs o rights → rights = selectRights w.acl o) : (w.goOn s call).Fresh t where
  keyed := hw.keyed
  cached := hw.cached
  selected s' o rights h := by
    change Function.update w.call s call s' = _ at h
    by_cases hs : s' = s
    · subst hs
      rw [Function.update_self] at h
      exact hcall o rights h
    · rw [Function.update_of_ne hs] at h
      exact hw.selected s' o rights h

omit [DecidableEq σ] in
/-- A cache with entries of this one. -/
theorem Fresh.cache (hw : w.Fresh t) {cache : ECCache ObjId (List Rights)} (hkeyed : cache.Keyed t.toCacheType)
    (hmaps : ∀ o rights, cache.Maps o rights → w.m_AclCache.Maps o rights) :
    ({ w with m_AclCache := cache } : World σ).Fresh t where
  keyed := hkeyed
  cached o rights h := hw.cached o rights (hmaps o rights h)
  selected := hw.selected

theorem setting_ne_setACLs {objid o : ObjId} {todo : List AclStatement} {rights : List Rights} :
    Call.setting objid todo ≠ .setACLs o rights := by
  cases todo with
  | nil => exact nofun
  | cons statement todo => exact nofun

omit [DecidableEq σ] in
/-- A statement that meets the condition keeps every list. -/
theorem Fresh.statement (hw : w.Fresh t) {objid : ObjId} (statement : AclStatement)
    (hmeets : selectRights (statement.run objid w.acl) objid ≠ selectRights w.acl objid →
      (w.m_AclCache.find objid = none) ∧ ∀ s' rights, w.call s' ≠ .setACLs objid rights) :
    ({ w with acl := statement.run objid w.acl } : World σ).Fresh t := by
  have hrows (o : ObjId) : selectRights (statement.run objid w.acl) o = selectRights w.acl o ∨
      o = objid ∧ (w.m_AclCache.find objid = none) ∧ ∀ s' rights, w.call s' ≠ .setACLs objid rights := by
    by_cases ho : o = objid
    · subst ho
      by_cases hsame : selectRights (statement.run o w.acl) o = selectRights w.acl o
      · exact .inl hsame
      · exact .inr ⟨rfl, hmeets hsame⟩
    · exact .inl (ECSecurity.selectRights_run ho w.acl statement)
  refine ⟨hw.keyed, fun o rights h => ?_, fun s o rights h => ?_⟩
  · rcases hrows o with hsame | ⟨rfl, hnone, -⟩
    · exact (hw.cached o rights h).trans hsame.symm
    · exact absurd h (not_maps_of_find hnone rights)
  · rcases hrows o with hsame | ⟨rfl, -, hnone⟩
    · exact (hw.selected s o rights h).trans hsame.symm
    · exact absurd h (hnone s rights)

/-- A step that meets the condition keeps every list. -/
theorem Fresh.step (hw : w.Fresh t) (event : Event σ) (hmeets : w.Meets event) : (w.step t users event).Fresh t := by
  cases event with
  | setRights s objid lpsRightsArray =>
    rw [World.step]
    split
    · refine (hw.cache (keyed_removeCacheItem hw.keyed objid) fun o rights h => ?_).goOn s ?_
      · exact ((maps_removeCacheItem hw.keyed).mp h).2
      · intro o rights h
        exact absurd h setting_ne_setACLs
    · exact hw
  | statement s fails =>
    rw [World.step]
    split
    · rename_i objid statement todo hcall
      split_ifs with hfails
      · exact hw.goOn s nofun
      · rw [Bool.not_eq_true] at hfails
        subst hfails
        refine (hw.statement statement (hmeets objid statement todo hcall)).goOn s ?_
        intro o rights h
        exact absurd h setting_ne_setACLs
    · exact hw
  | getACLs s objid tNow =>
    rw [World.step]
    split
    · obtain ⟨er, cache, heq, hkeyed, hmaps⟩ := getCacheItem_spec t.ageless hw.keyed objid tNow
      rw [heq]
      have hcache := hw.cache hkeyed fun o rights => (hmaps o rights).mp
      cases w.m_AclCache.find objid with
      | some item => exact hcache
      | none => exact hcache.goOn s nofun
    · exact hw
  | select s fails =>
    rw [World.step]
    split
    · rename_i objid hcall
      split_ifs
      · exact hw.goOn s nofun
      · refine hw.goOn s ?_
        rintro o rights ⟨⟩
        rfl
    · exact hw
  | setACLs s tNow =>
    rw [World.step]
    split
    · rename_i objid rights hcall
      -- what is stored was selected by this session, and still holds
      have hstored : ({ w with m_AclCache :=
          w.m_AclCache.addCacheItem t.toCacheType objid rights tNow } : World σ).Fresh t := by
        refine ⟨keyed_addCacheItem hw.keyed objid rights tNow, ?_, hw.selected⟩
        intro o rights' h
        rcases maps_of_addCacheItem hw.keyed h with ⟨rfl, rfl⟩ | ⟨-, hold⟩
        · exact hw.selected s o rights' hcall
        · exact hw.cached o rights' hold
      exact hstored.goOn s nofun
    · exact hw

theorem Fresh.run (hw : w.Fresh t) {events : List (Event σ)} (hmeets : w.MeetsRun t users events) :
    (w.run t users events).Fresh t := by
  induction events generalizing w with
  | nil => exact hw
  | cons event events ih => exact ih (hw.step event hmeets.1) hmeets.2

omit [DecidableEq σ] in
theorem Fresh.current (hw : w.Fresh t) (objid : ObjId) : w.Current objid := fun item hf =>
  hw.cached objid item.value (maps_of_find hf)

omit [DecidableEq σ] in
/-- Where the cache is current, `GetACLs` answers the rows. -/
theorem answer_eq {objid : ObjId} (h : w.Current objid) : w.answer objid = w.rows objid := by
  rw [answer]
  cases hf : w.m_AclCache.find objid with
  | none => rfl
  | some item => exact congrArg Except.ok (h item hf)

/-- While no row changes with a list of its object cached or about to be, an object without calls has no
other list in the cache than its rows; permissions are then decided by the rows. -/
theorem run_current (t : AclCacheType) (users : UserManagement) (acl : List AclRow)
    (events : List (Event σ)) (hmeets : (start acl).MeetsRun t users events) :
    (∀ objid, ((start acl).run t users events).Quiet objid → ((start acl).run t users events).Current objid) ∧
      ((∀ objid, ((start acl).run t users events).Quiet objid) → ∀ (sec : ECSecurity) (ulObjId : ObjId),
          ECSecurity.GetObjectPermission
              { sec with GetACLs := ((start acl).run t users events).answer } ulObjId =
            ECSecurity.GetObjectPermission
              { sec with GetACLs := ((start acl).run t users events).rows } ulObjId) := by
  have hfresh := (fresh_start (t := t) (σ := σ) acl).run hmeets
  refine ⟨fun objid _ => hfresh.current objid, fun _ sec ulObjId => ?_⟩
  congr 2
  funext objid
  exact answer_eq (hfresh.current objid)

end World

/-! ## A right that is taken away -/

theorem aclKey_lt : ∀ _ : ObjId, 0 < 2 ^ 32 := fun _ => by decide

theorem aclValue_lt (rights : List Rights) : rights.length * 12 % 2 ^ 32 < 2 ^ 32 := Nat.mod_lt _ (by decide)

theorem noAge : (0 : ℤ) = 0 := rfl

/-- A cache of some size. An entry has 12 bytes for each right. -/
def cacheOfSize (ulSize : ℕ) : AclCacheType where
  m_ulMaxSize := ulSize
  m_lMaxAge := 0
  keySize _ := 0
  valueSize rights := rights.length * 12 % 2 ^ 32
  keySize_lt := aclKey_lt
  valueSize_lt := aclValue_lt
  entrySize := 72
  place := List.cons
  place_perm _ _ := .rfl
  share n := n / 20
  ageless := noAge

/-- Every user is active, and has its id on this server. -/
def activeUsers : UserManagement :=
  ⟨fun _ => .error notFound, fun _ => .error notFound, fun _ => .ok .ACTIVE_USER⟩

/-- The right of user 3 to read object 5. -/
def mayRead : List AclRow := [⟨5, ⟨3, 2, 1⟩⟩]

/-- One session takes the right away, then another one asks for the rights. -/
def revoked : List (Event Bool) :=
  [.setRights false 5 [⟨[], 3, 2, 1, ECSecurity.RIGHT_DELETED⟩], .statement false false,
    .getACLs true 5 0, .select true false, .setACLs true 0]

theorem run_current_revoked :
    (∀ objid, ((World.start mayRead).run (cacheOfSize 1000) activeUsers revoked).Quiet objid →
        ((World.start mayRead).run (cacheOfSize 1000) activeUsers revoked).Current objid) ∧
      ((∀ objid, ((World.start mayRead).run (cacheOfSize 1000) activeUsers revoked).Quiet objid) →
        ∀ (sec : ECSecurity) (ulObjId : ObjId), ECSecurity.GetObjectPermission { sec with GetACLs :=
              ((World.start mayRead).run (cacheOfSize 1000) activeUsers revoked).answer } ulObjId =
            ECSecurity.GetObjectPermission { sec with GetACLs :=
              ((World.start mayRead).run (cacheOfSize 1000) activeUsers revoked).rows } ulObjId) := by
  refine World.run_current (cacheOfSize 1000) activeUsers mayRead revoked ?_
  refine ⟨trivial, ?_, trivial, trivial, trivial, trivial⟩
  intro objid statement todo hcall hrows
  have hset : Call.setRights (5 : ObjId) [AclStatement.delete 3 2] =
      .setRights objid (statement :: todo) := hcall
  obtain ⟨rfl, -⟩ := Call.setRights.inj hset
  refine ⟨rfl, fun s rights h => ?_⟩
  cases s with
  | false => exact nomatch (show Call.setRights (5 : ObjId) [AclStatement.delete 3 2] = _ from h)
  | true => exact nomatch (show Call.idle = _ from h)

/-- The other session asks between the invalidation and the statement. -/
def overtaken : List (Event Bool) :=
  [.setRights false 5 [⟨[], 3, 2, 1, ECSecurity.RIGHT_DELETED⟩], .getACLs true 5 0,
    .select true false, .setACLs true 0, .statement false false]

/-- The right stays in the cache after it has been taken away. -/
theorem not_current_overtaken : ¬ (((World.start mayRead).run (cacheOfSize 1000) activeUsers overtaken).Quiet 5 →
      ((World.start mayRead).run (cacheOfSize 1000) activeUsers overtaken).Current 5) := by
  intro h
  have hidle (s : Bool) :
      ((World.start mayRead).run (cacheOfSize 1000) activeUsers overtaken).call s = .idle := by
    cases s with
    | false => rfl
    | true => rfl
  have hcurrent := h fun s => by
    rw [hidle s]
    exact ⟨nofun, nofun, nofun⟩
  have hstale := hcurrent ⟨5, [⟨3, 2, 1⟩], 0⟩ (by decide +kernel)
  exact absurd hstale (by decide +kernel)

end ACLs

end Zcp.Libserver
