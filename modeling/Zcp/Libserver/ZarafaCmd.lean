import Mathlib.Data.List.Sort
import Zcp.Lib.OrderedMap
import Zcp.Libserver.ECSecurity
import Zcp.Libserver.ZarafaCmdUtil

/-!
# Marking messages read

`setReadFlags` of `provider/libserver/ZarafaCmd.cpp`, with `UpdateTProp` and `UpdateFolderCount` of
`ZarafaCmdUtil.cpp`, `PurgeDeferredTableUpdates` of `ECTPropsPurge.cpp` and `UpdateCell` of `ECCacheManager.cpp`.
The flags of a message are in `properties`, once more in `tproperties` for the table of its folder, and in the
cache of cells; the number of unread messages is a property of the folder. All statements are in one transaction, and
any of them can fail.
-/

namespace Zcp.Libserver.ZarafaCmd

open Zcp.Lib
open ZarafaCmdUtil (HierarchyRow Has MAPI_MESSAGE MAPI_ASSOCIATED MSGFLAG_READ)

def MSGFLAG_RN_PENDING : UInt32 := 0x100

def MSGFLAG_NRN_PENDING : UInt32 := 0x200

/-! The flags of a call. -/

def SUPPRESS_RECEIPT : UInt32 := 0x1

def CLEAR_READ_FLAG : UInt32 := 0x4

def GENERATE_RECEIPT_ONLY : UInt32 := 0x10

def CLEAR_RN_PENDING : UInt32 := 0x20

def CLEAR_NRN_PENDING : UInt32 := 0x40

/-! ## The database -/

/-- A property in `properties`, by the object, and in `tproperties`, by the folder and the object. -/
structure PropTables (ν : Type) where
  properties : ObjId → Option ν
  tproperties : ObjId → ObjId → Option ν

/-- What the call reads and writes. -/
structure Database where
  hierarchy : List HierarchyRow
  hierarchy_nodup : (hierarchy.map HierarchyRow.id).Nodup
  /-- `PR_MESSAGE_FLAGS`. -/
  messageFlags : PropTables UInt32
  /-- `PR_CONTENT_UNREAD`. -/
  contentUnread : PropTables ℕ
  /-- The folder and the object of the rows of `deferredupdate`. -/
  deferredupdate : List (ObjId × ObjId)

/-- What can fail for reasons of its own. -/
inductive Statement where
  | Begin
  /-- `GetObject` for an object of the message list. -/
  | collectParent (ulObjId : ObjId)
  | lockFolder (ulFolderId : ObjId)
  | selectDeferred
  | lockDeferred
  | replaceDeferred
  | deleteDeferred
  | selectMessages
  | updateFlags
  | updateFlagsTProp
  /-- `GetObject` for a message that is counted. -/
  | countParent (ulObjId : ObjId)
  | GetParent (ulFolderId : ObjId)
  /-- `GetObject` in `UpdateFolderCount`. -/
  | folderType (ulFolderId : ObjId)
  | updateCount (ulFolderId : ObjId)
  | updateCountTProp (ulFolderId : ObjId)
  | Commit
deriving DecidableEq, Repr

/-- A session, with the answers it gets. -/
structure Session where
  sec : ECSecurity
  GetObjectFromEntryId : List UInt8 → Except Failure ObjId
  fails : Statement → Option Failure

/-- Why the call fails. -/
inductive ReadFlagsError where
  | failure (er : Failure)
  | ZARAFA_E_INVALID_PARAMETER
deriving DecidableEq

/-- A call. An entry id or a message list that is `none` is `NULL`. -/
structure Request where
  ulFlags : UInt32
  lpsEntryId : Option (List UInt8)
  lpMessageList : Option (List (List UInt8))

namespace Request

variable (req : Request)

/-- `ulFlagsRemove`. -/
def ulFlagsRemove : UInt32 :=
  (if Has req.ulFlags CLEAR_NRN_PENDING ∨ Has req.ulFlags SUPPRESS_RECEIPT ∨ Has req.ulFlags GENERATE_RECEIPT_ONLY then
    MSGFLAG_NRN_PENDING else 0) |||
  (if Has req.ulFlags CLEAR_RN_PENDING ∨ Has req.ulFlags SUPPRESS_RECEIPT ∨ Has req.ulFlags GENERATE_RECEIPT_ONLY then
    MSGFLAG_RN_PENDING else 0) |||
  (if ¬ Has req.ulFlags GENERATE_RECEIPT_ONLY ∧ Has req.ulFlags CLEAR_READ_FLAG then MSGFLAG_READ else 0)

/-- `ulFlagsAdd`. -/
def ulFlagsAdd : UInt32 :=
  if ¬ Has req.ulFlags GENERATE_RECEIPT_ONLY ∧ ¬ Has req.ulFlags CLEAR_READ_FLAG then MSGFLAG_READ else 0

/-- The new flags of a message. -/
def newFlags (val_ulong : UInt32) : UInt32 := (val_ulong &&& ~~~req.ulFlagsRemove) ||| req.ulFlagsAdd

/-- Whether flags change at all, as the two `SELECT`s ask. -/
def changes (val_ulong : UInt32) : Bool :=
  val_ulong &&& req.ulFlagsRemove ≠ 0 ∨ val_ulong &&& req.ulFlagsAdd ≠ req.ulFlagsAdd

end Request

/-! ## Functions it calls -/

section Functions

variable (s : Session)

/-- The statement succeeds. -/
def Session.does (statement : Statement) : Except ReadFlagsError Unit :=
  match s.fails statement with
  | some er => .error (.failure er)
  | none => .ok ()

namespace Database

variable (db : Database)

/-- The row of an object. -/
def row (ulObjId : ObjId) : Option HierarchyRow := db.hierarchy.find? fun r => r.id = ulObjId

/-- The parent of an object, as the cache has it. -/
def parentOf (r : HierarchyRow) : ObjId := r.parent.getD CACHE_NO_PARENT

/-- `ECCacheManager::GetObject`, in one of its calls. -/
def GetObject (statement : Statement) (ulObjId : ObjId) : Except ReadFlagsError HierarchyRow :=
  match s.fails statement, db.row ulObjId with
  | some er, _ => .error (.failure er)
  | none, none => .error (.failure notFound)
  | none, some r => .ok r

end Database

/-- `UpdateTProp`: take the values from `properties` for the rows of one folder. -/
def UpdateTProp {ν : Type} (t : PropTables ν) (ulFolderId : ObjId) (lpObjectIDs : List ObjId) : PropTables ν :=
  { t with
    tproperties := fun folderid id =>
      if folderid = ulFolderId ∧ id ∈ lpObjectIDs then
        match t.tproperties folderid id, t.properties id with
        | some _, some v => some v
        | old, _ => old
      else t.tproperties folderid id }

/-- What `UpdateFolderCount` makes of a counter. -/
def addDelta (val_ulong : ℕ) (lDelta : ℤ) : ℕ :=
  if lDelta < 0 then (if val_ulong ≥ lDelta.natAbs then (val_ulong + lDelta).toNat else 0)
  else (val_ulong + lDelta).toNat

/-- `UpdateFolderCount`, for `PR_CONTENT_UNREAD`. -/
def UpdateFolderCount (db : Database) (ulFolderId : ObjId) (lDelta : ℤ) : Except ReadFlagsError Database :=
  if lDelta = 0 then .ok db
  else do
    let r ← db.GetObject s (.folderType ulFolderId) ulFolderId
    if r.type ≠ MAPI_FOLDER then .ok db
    else do
      s.does (.updateCount ulFolderId)
      let properties : ObjId → Option ℕ := fun id =>
        if id = ulFolderId then (db.contentUnread.properties id).map fun v => addDelta v lDelta
        else db.contentUnread.properties id
      s.does (.updateCountTProp ulFolderId)
      .ok { db with contentUnread := UpdateTProp { db.contentUnread with properties } (Database.parentOf r) [ulFolderId] }

/-- The rows that `PurgeDeferredTableUpdates` puts into `tproperties`. -/
def replaceDeferred {ν : Type} (t : PropTables ν) (ulFolderId : ObjId) (ids : List ObjId) : PropTables ν :=
  { t with
    tproperties := fun folderid id =>
      if folderid = ulFolderId ∧ id ∈ ids then (t.properties id).or (t.tproperties folderid id)
      else t.tproperties folderid id }

/-- `ECTPropsPurge::PurgeDeferredTableUpdates`, whose errors are ignored. -/
def PurgeDeferredTableUpdates (db : Database) (ulFolderId : ObjId) : Database :=
  let ids := (db.deferredupdate.filter fun d => d.1 = ulFolderId).map Prod.snd
  if (s.fails .selectDeferred).isSome ∨ ids = [] ∨ (s.fails .lockDeferred).isSome ∨ (s.fails .replaceDeferred).isSome then
    db
  else
    { db with
      messageFlags := replaceDeferred db.messageFlags ulFolderId ids
      contentUnread := replaceDeferred db.contentUnread ulFolderId ids
      deferredupdate := if (s.fails .deleteDeferred).isSome then db.deferredupdate
        else db.deferredupdate.filter fun d => d.2 ∉ ids }

/-! ## The messages -/

/-- The messages of the call that change and their old flags, and what was found out with them. -/
structure Selection where
  db : Database
  lObjectIds : List (ObjId × UInt32)
  ulParent : ObjId
  /-- The folders for which `CheckPermission` has been passed. -/
  passed : List ObjId

/-- The result of a `SELECT` of messages, from rows that `among` holds for and with the flags `val_ulong`. -/
def Database.selectMessages (db : Database) (req : Request) (among : HierarchyRow → Bool)
    (val_ulong : HierarchyRow → Option UInt32) : List (ObjId × UInt32) :=
  db.hierarchy.filterMap fun r =>
    match val_ulong r with
    | some v => if r.type = MAPI_MESSAGE ∧ r.flags = 0 ∧ among r ∧ req.changes v then some (r.id, v) else none
    | none => none

/-- `CheckPermission` for `ecSecurityRead`. -/
def Session.CheckPermission (ulObjId : ObjId) : Except ReadFlagsError Unit :=
  match s.sec.CheckPermission ulObjId ecSecurityRead with
  | .erSuccess => .ok ()
  | .ZARAFA_E_NO_ACCESS => .error (.failure ⟨.ZARAFA_E_NO_ACCESS, by decide⟩)
  | .ZARAFA_E_NOT_FOUND => .error (.failure notFound)
  | .ZARAFA_E_DATABASE_ERROR => .error (.failure ⟨.ZARAFA_E_DATABASE_ERROR, by decide⟩)

/-- All messages of a folder. -/
def selectFolder (db : Database) (req : Request) (lpsEntryId : List UInt8) : Except ReadFlagsError Selection := do
  let ulFolderId ← (s.GetObjectFromEntryId lpsEntryId).mapError .failure
  s.does (.lockFolder ulFolderId)
  s.CheckPermission ulFolderId
  let db := PurgeDeferredTableUpdates s db ulFolderId
  s.does .selectMessages
  .ok
    { db
      lObjectIds := db.selectMessages req (fun r => r.parent = some ulFolderId) fun r =>
        db.messageFlags.tproperties ulFolderId r.id
      ulParent := ulFolderId
      passed := [ulFolderId] }

/-- The loop that collects the parents. The last one found stays in `ulParent`. -/
def collectParents (db : Database) : List ObjId → List ObjId × ObjId → List ObjId × ObjId
  | [], acc => acc
  | id :: ids, (setParents, ulParent) =>
    match db.GetObject s (.collectParent id) id with
    | .ok r => collectParents db ids (setParents ++ [Database.parentOf r], Database.parentOf r)
    | .error _ => collectParents db ids (setParents, ulParent)

/-- The loop that checks the permissions. It goes over the set of parents, but checks `ulParent` each time. -/
def checkParents (ulParent : ObjId) : List ObjId → Except ReadFlagsError (List ObjId)
  | [] => .ok []
  | _ :: iParents => do
    s.CheckPermission ulParent
    let passed ← checkParents ulParent iParents
    .ok (ulParent :: passed)

/-- The messages of a list. -/
def selectList (db : Database) (req : Request) (lHierarchyIDs : List ObjId) : Except ReadFlagsError Selection := do
  let (parents, ulParent) := collectParents s db lHierarchyIDs ([], 0)
  let setParents := parents.dedup.insertionSort (· ≤ ·)
  setParents.forM fun iParent => s.does (.lockFolder iParent)
  let passed ← checkParents s ulParent setParents
  s.does .selectMessages
  .ok
    { db
      lObjectIds := db.selectMessages req (fun r => r.id ∈ lHierarchyIDs) fun r => db.messageFlags.properties r.id
      ulParent
      passed }

/-- `ECCacheManager::GetEntryListToObjectList`, which leaves unknown entry ids out. -/
def Session.GetEntryListToObjectList (lpEntryList : List (List UInt8)) : List ObjId :=
  lpEntryList.filterMap fun entryId => (s.GetObjectFromEntryId entryId).toOption

/-- The messages of the call. -/
def select (db : Database) (req : Request) : Except ReadFlagsError Selection :=
  match req.lpMessageList, req.lpsEntryId with
  | none, none => .error .ZARAFA_E_INVALID_PARAMETER
  | none, some lpsEntryId => selectFolder s db req lpsEntryId
  | some lpMessageList, _ =>
    let lHierarchyIDs := s.GetEntryListToObjectList lpMessageList
    -- without objects there is nothing to do
    if lHierarchyIDs = [] then .ok ⟨db, [], 0, []⟩ else selectList s db req lHierarchyIDs

/-! ## The update -/

/-- The change of the number of unread messages for a message with these old flags. -/
def Request.delta (req : Request) (val_ulong : UInt32) : ℤ :=
  (if Has req.ulFlagsAdd MSGFLAG_READ ∧ val_ulong &&& MSGFLAG_READ = 0 then -1 else 0) +
    if Has req.ulFlagsRemove MSGFLAG_READ ∧ val_ulong &&& MSGFLAG_READ = MSGFLAG_READ then 1 else 0

/-- An entry of `mapParents`, by its folder. -/
def folderKey (p : ObjId × ℤ) : ℕ := p.1.toNat

/-- The loop that counts the changes of each folder in `mapParents`. -/
def countChanges (db : Database) (req : Request) :
    List (ObjId × UInt32) → List (ObjId × ℤ) → Except ReadFlagsError (List (ObjId × ℤ))
  | [], mapParents => .ok mapParents
  | (id, val_ulong) :: lObjectIds, mapParents => do
    let r ← db.GetObject s (.countParent id) id
    let ulParent := Database.parentOf r
    let old := ((OrderedMap.get folderKey ulParent.toNat mapParents).map Prod.snd).getD 0
    countChanges db req lObjectIds (OrderedMap.set folderKey (ulParent, old + req.delta val_ulong) mapParents)

/-- The loop that updates the counters. -/
def updateCounts (db : Database) : List (ObjId × ℤ) → Except ReadFlagsError Database
  | [] => .ok db
  | (ulFolderId, lDelta) :: mapParents =>
    if lDelta = 0 then updateCounts db mapParents
    else do
      let r ← db.GetObject s (.GetParent ulFolderId) ulFolderId
      if r.parent = none then .error (.failure notFound)
      else do
        let db ← UpdateFolderCount s db ulFolderId lDelta
        updateCounts db mapParents

/-- `UPDATE properties SET val_ulong=...` for the flags of some messages. -/
def Database.updateFlags (db : Database) (req : Request) (ids : List ObjId) : Database :=
  { db with
    messageFlags.properties := fun id =>
      if id ∈ ids then (db.messageFlags.properties id).map req.newFlags else db.messageFlags.properties id }

/-- From the update of the flags up to the commit, with the folders that have been counted. -/
def update (req : Request) (sel : Selection) : Except ReadFlagsError (Database × List (ObjId × ℤ)) := do
  let ids := sel.lObjectIds.map Prod.fst
  s.does .updateFlags
  let db := sel.db.updateFlags req ids
  s.does .updateFlagsTProp
  let db := { db with messageFlags := UpdateTProp db.messageFlags sel.ulParent ids }
  let mapParents ← countChanges s db req sel.lObjectIds []
  let db ← updateCounts s db mapParents
  .ok (db, mapParents)

end Functions

/-! ## The cache of cells -/

/-- A cached property: the value of a `PT_LONG`, or something else. -/
inductive CachedProp where
  | PT_LONG (ul : UInt32)
  | other
deriving DecidableEq

/-- `ECsCells`, by property tags. -/
abbrev ECsCells := UInt32 → Option CachedProp

def PR_MESSAGE_FLAGS : UInt32 := 0x0E070003

/-- `PT_LONG` in a tag. -/
def isLong (ulPropTag : UInt32) : Bool := ulPropTag &&& 0xFFFF = 3

/-- `ECsCells::UpdatePropVal` with a mask. -/
def ECsCells.UpdatePropVal (cells : ECsCells) (ulPropTag ulMask ulValue : UInt32) : ECsCells :=
  match isLong ulPropTag, cells ulPropTag with
  | true, some (.PT_LONG ul) =>
    Function.update cells ulPropTag (some (.PT_LONG ((ul &&& ~~~ulMask) ||| (ulValue &&& ulMask))))
  | _, _ => cells

/-- `m_CellCache`. -/
abbrev CellCache := ObjId → Option ECsCells

/-- `ECCacheManager::UpdateCell`. -/
def CellCache.UpdateCell (cache : CellCache) (ulObjId : ObjId) (ulPropTag ulMask ulValue : UInt32) : CellCache :=
  fun id => if id = ulObjId then (cache id).map fun cells => cells.UpdatePropVal ulPropTag ulMask ulValue else cache id

/-- `ECCacheManager::_DelCell`. -/
def CellCache.DelCell (cache : CellCache) (ulObjId : ObjId) : CellCache :=
  fun id => if id = ulObjId then none else cache id

/-- The updates of the cache after the commit. -/
def CellCache.followUp (cache : CellCache) (req : Request) (lObjectIds : List (ObjId × UInt32))
    (mapParents : List (ObjId × ℤ)) : CellCache :=
  let updated := lObjectIds.foldl (fun cache o => cache.UpdateCell o.1 PR_MESSAGE_FLAGS
    ((req.ulFlagsAdd ||| req.ulFlagsRemove) &&& MSGFLAG_READ) (req.ulFlagsAdd &&& MSGFLAG_READ)) cache
  mapParents.foldl (fun cache p => cache.DelCell p.1) updated

/-! ## The call -/

/-- The database and the cache. -/
structure World where
  db : Database
  cells : CellCache

/-- What a call leaves, with the folders for which it has passed `CheckPermission`. -/
structure Outcome where
  er : Option ReadFlagsError
  world : World
  passed : List ObjId

/-- `setReadFlags`. An error rolls the transaction back. -/
def setReadFlags (s : Session) (w : World) (req : Request) : Outcome :=
  if Has req.ulFlags GENERATE_RECEIPT_ONLY then ⟨none, w, []⟩
  else if req.lpMessageList = none ∧ req.lpsEntryId = none then ⟨some .ZARAFA_E_INVALID_PARAMETER, w, []⟩
  else if req.ulFlagsRemove = 0 ∧ req.ulFlagsAdd = 0 then ⟨none, w, []⟩
  else
    match s.fails .Begin with
    | some er => ⟨some (.failure er), w, []⟩
    | none =>
      match select s w.db req with
      | .error er => ⟨some er, w, []⟩
      | .ok sel =>
        if sel.lObjectIds = [] then
          -- whether this commit succeeds is not looked at
          ⟨none, if (s.fails .Commit).isSome then w else { w with db := sel.db }, sel.passed⟩
        else
          match update s req sel with
          | .error er => ⟨some er, w, sel.passed⟩
          | .ok (db, mapParents) =>
            match s.fails .Commit with
            | some er => ⟨some (.failure er), w, sel.passed⟩
            | none => ⟨none, ⟨db, w.cells.followUp req sel.lObjectIds mapParents⟩, sel.passed⟩

end Zcp.Libserver.ZarafaCmd
