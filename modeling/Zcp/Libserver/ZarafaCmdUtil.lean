import Mathlib.Data.List.Sort
import Mathlib.Data.UInt
import Zcp.Libserver.ZarafaCode

/-!
# Deleting objects

The delete functions of `provider/libserver/ZarafaCmdUtil.cpp`. A list of objects is expanded to all objects
below them, and these are marked as deleted in one transaction, or removed in transactions of 32 objects.
Counters of the folders, the size of the store, the change log, the caches and the notifications follow.
-/

namespace Zcp.Libserver.ZarafaCmdUtil

def MAPI_MESSAGE : UInt32 := 5

def MAPI_MAILUSER : UInt32 := 6

def MAPI_ATTACH : UInt32 := 7

def MAPI_DISTLIST : UInt32 := 8

def MSGFLAG_READ : UInt32 := 0x1

def MSGFLAG_SUBMIT : UInt32 := 0x4

def MAPI_ASSOCIATED : UInt32 := 0x40

def FOLDER_SEARCH : UInt32 := 0x2

/-! The flags of a delete. -/

def EC_DELETE_FOLDERS : UInt32 := 0x1

def EC_DELETE_MESSAGES : UInt32 := 0x2

def EC_DELETE_RECIPIENTS : UInt32 := 0x4

def EC_DELETE_ATTACHMENTS : UInt32 := 0x8

def EC_DELETE_CONTAINER : UInt32 := 0x10

def EC_DELETE_HARD_DELETE : UInt32 := 0x20

def EC_DELETE_STORE : UInt32 := 0x40

def EC_DELETE_NOT_ASSOCIATED_MSG : UInt32 := 0x80

def EC_TABLE_CHANGE_THRESHOLD : ℕ := 10

/-- Some of the bits are set. -/
abbrev Has (ulFlags bits : UInt32) : Prop := ulFlags &&& bits ≠ 0

/-! ## Database -/

/-- A row of the table `hierarchy`. -/
structure HierarchyRow where
  id : ObjId
  parent : Option ObjId
  type : UInt32
  flags : UInt32
deriving DecidableEq, Repr

/-- The counters of a folder. -/
inductive Counter where
  | PR_CONTENT_COUNT
  | PR_CONTENT_UNREAD
  | PR_ASSOC_CONTENT_COUNT
  | PR_DELETED_MSG_COUNT
  | PR_DELETED_ASSOC_MSG_COUNT
  | PR_SUBFOLDERS
  | PR_FOLDER_CHILD_COUNT
  | PR_DELETED_FOLDER_COUNT
deriving DecidableEq, Repr

/-- The hierarchy and the properties of its objects. -/
structure Database where
  hierarchy : List HierarchyRow
  /-- The objects that are stores. -/
  stores : List ObjId
  /-- `PR_MESSAGE_FLAGS`. -/
  messageFlags : ObjId → Option UInt32
  /-- `PR_MESSAGE_SIZE`, or `PR_ATTACH_SIZE`. -/
  objectSize : ObjId → Option UInt32
  folderCount : ObjId → Counter → Option ℕ
  /-- `PR_MESSAGE_SIZE_EXTENDED`. -/
  storeSize : ObjId → Option ℕ
  outgoingqueue : List ObjId

namespace Database

variable (db : Database)

/-- The row of an object. -/
def row (ulObjId : ObjId) : Option HierarchyRow := db.hierarchy.find? fun r => r.id = ulObjId

/-- `ECCacheManager::GetParent`. -/
def GetParent (ulObjId : ObjId) : Option ObjId := (db.row ulObjId).bind HierarchyRow.parent

/-- `ECCacheManager::GetStoreAndType`. -/
def GetStoreAndType : (maxdepth : ℕ) → ObjId → Option ObjId
  | 0, _ => none
  | maxdepth + 1, ulObjId =>
    match db.GetParent ulObjId with
    | none => if ulObjId ∈ db.stores then some ulObjId else none
    | some ulSubObjId => GetStoreAndType maxdepth ulSubObjId

/-- `ECCacheManager::GetStore`. -/
def GetStore (ulObjId : ObjId) : Option ObjId := db.GetStoreAndType 100 ulObjId

end Database

/-! ## Items -/

/-- `DELETEITEM`. -/
structure DELETEITEM where
  ulId : ObjId
  ulParent : ObjId
  fRoot : Bool
  fInOGQueue : Bool
  ulObjType : UInt32
  ulParentType : UInt32
  ulFlags : UInt32
  ulStoreId : ObjId
  ulObjSize : UInt32
  ulMessageFlags : UInt32
  sSourceKey : List UInt8
  sParentSourceKey : List UInt8
deriving DecidableEq, Repr

/-- A new item, without any data. -/
def DELETEITEM.new : DELETEITEM := ⟨0, 0, false, false, 0, 0, 0, 0, 0, 0, [], []⟩

/-- A message that lies in a folder. -/
def DELETEITEM.IsMessage (item : DELETEITEM) : Prop :=
  item.ulObjType = MAPI_MESSAGE ∧ item.ulParentType = MAPI_FOLDER

instance (item : DELETEITEM) : Decidable item.IsMessage := inferInstanceAs (Decidable (_ ∧ _))

/-- `RealObjType`. -/
def RealObjType (ulObjType ulParentType : UInt32) : UInt32 :=
  if ulParentType = MAPI_MESSAGE ∧ ulObjType ≠ MAPI_MAILUSER ∧ ulObjType ≠ MAPI_DISTLIST ∧
      ulObjType ≠ MAPI_ATTACH then MAPI_MAILUSER
  else ulObjType

/-- What a delete answers beside the failures of the database. -/
inductive DeleteError where
  | failure (er : Failure)
  | ZARAFA_E_HAS_MESSAGES
  | ZARAFA_E_HAS_FOLDERS
  | ZARAFA_E_HAS_RECIPIENTS
  | ZARAFA_E_HAS_ATTACHMENTS
  | ZARAFA_E_NOT_FOUND
  | ZARAFA_E_INVALID_PARAMETER

/-- What the session knows of objects. -/
structure ECSession where
  /-- `CheckPermission` for `ecSecurityDelete`. -/
  CheckPermission : ObjId → Except Failure Unit
  /-- `GetSourceKey`, `none` when it fails. -/
  GetSourceKey : ObjId → Option (List UInt8)

/-- A flag that is needed for an object that has not been asked for itself. -/
def needs (ulFlags bits : UInt32) (er : DeleteError) : Except DeleteError Unit :=
  if Has ulFlags bits then .ok () else .error er

/-- `ValidateDeleteObject`. -/
def ValidateDeleteObject (lpSession : ECSession) (bCheckPermission : Bool) (ulFlags : UInt32)
    (sItem : DELETEITEM) : Except DeleteError Unit := do
  if bCheckPermission ∧ (sItem.IsMessage ∨ sItem.ulObjType = MAPI_FOLDER) then
    (lpSession.CheckPermission sItem.ulId).mapError .failure
  if sItem.fRoot then .ok ()
  else
    let type := RealObjType sItem.ulObjType sItem.ulParentType
    if type = MAPI_MESSAGE then needs ulFlags EC_DELETE_MESSAGES .ZARAFA_E_HAS_MESSAGES
    else if type = MAPI_FOLDER then needs ulFlags EC_DELETE_FOLDERS .ZARAFA_E_HAS_FOLDERS
    else if type = MAPI_MAILUSER ∨ type = MAPI_DISTLIST then
      needs ulFlags EC_DELETE_RECIPIENTS .ZARAFA_E_HAS_RECIPIENTS
    else if type = MAPI_ATTACH then needs ulFlags EC_DELETE_ATTACHMENTS .ZARAFA_E_HAS_ATTACHMENTS
    else if type = MAPI_STORE then needs ulFlags EC_DELETE_STORE .ZARAFA_E_NOT_FOUND
    else .ok ()

/-! ## Expanding the list -/

section Expand

variable (lpSession : ECSession) (db : Database) (ulFlags : UInt32) (bCheckPermission : Bool)

/-- A row that the queries of a soft delete leave out. -/
def HierarchyRow.Skipped (r : HierarchyRow) : Prop :=
  ¬ Has ulFlags EC_DELETE_HARD_DELETE ∧ Has r.flags MSGFLAG_DELETED

instance (r : HierarchyRow) : Decidable (r.Skipped ulFlags) := inferInstanceAs (Decidable (_ ∧ _))

/-- The query for the roots: the object itself, or what lies in it. -/
def rootRows (ulObjId : ObjId) : List HierarchyRow :=
  db.hierarchy.filter fun r =>
    (if Has ulFlags EC_DELETE_CONTAINER then r.id = ulObjId else r.parent = some ulObjId) ∧
      ¬ r.Skipped ulFlags ∧
      ¬ (¬ Has ulFlags EC_DELETE_CONTAINER ∧ Has ulFlags EC_DELETE_NOT_ASSOCIATED_MSG ∧
        Has r.flags MAPI_ASSOCIATED)

/-- The query for the objects below an item. -/
def childRows (ulObjId : ObjId) : List HierarchyRow :=
  db.hierarchy.filter fun r => r.parent = some ulObjId ∧ ¬ r.Skipped ulFlags

/-- The state of `ExpandDeletedItems`. `sItem` is used for all items, one after the other. -/
structure Expansion where
  setIDs : List ObjId
  sItem : DELETEITEM
  lstDeleteItems : List DELETEITEM

/-- Store, size and source keys of an item. What cannot be read stays as it is. -/
def extendedData (sItem : DELETEITEM) : DELETEITEM :=
  { sItem with
    ulStoreId := (db.GetStore sItem.ulId).getD sItem.ulStoreId
    ulObjSize := if Has sItem.ulFlags MSGFLAG_DELETED then sItem.ulObjSize
      else (db.objectSize sItem.ulId).getD sItem.ulObjSize
    sSourceKey := (lpSession.GetSourceKey sItem.ulId).getD sItem.sSourceKey
    sParentSourceKey := (lpSession.GetSourceKey sItem.ulParent).getD sItem.sParentSourceKey }

/-- Validate an item and append it to the list. -/
def pushItem (st : Expansion) (sItem : DELETEITEM) (extended : Bool) :
    Except DeleteError Expansion := do
  ValidateDeleteObject lpSession bCheckPermission ulFlags sItem
  let sItem := if extended then extendedData lpSession db sItem else sItem
  .ok ⟨sItem.ulId :: st.setIDs, sItem, st.lstDeleteItems ++ [sItem]⟩

/-- A row of the query for the roots. -/
def addRoot (st : Expansion) (r : HierarchyRow) : Except DeleteError Expansion :=
  if r.parent = none ∧ r.type ≠ MAPI_STORE then .ok st
  else if r.id ∈ st.setIDs then .ok st
  else
    let sItem := { st.sItem with
      fRoot := true
      ulId := r.id
      ulParent := r.parent.getD 0
      ulObjType := r.type
      ulFlags := r.flags
      ulObjSize := 0
      ulStoreId := 0
      ulParentType := ((r.parent.bind db.row).map HierarchyRow.type).getD 0
      ulMessageFlags := (db.messageFlags r.id).getD 0
      fInOGQueue := decide (r.id ∈ db.outgoingqueue) }
    pushItem lpSession db ulFlags bCheckPermission st sItem
      (decide (r.type = MAPI_STORE ∨ r.type = MAPI_FOLDER ∨ r.type = MAPI_MESSAGE))

/-- A row of the query for the objects below an item. It has the parent's mark, because only the topmost
object is marked as deleted. -/
def addChild (parent : DELETEITEM) (st : Expansion) (r : HierarchyRow) :
    Except DeleteError Expansion :=
  if r.id ∈ st.setIDs then .ok st
  else
    let sItem := { st.sItem with
      fRoot := false
      ulObjSize := 0
      ulStoreId := 0
      ulId := r.id
      ulParent := parent.ulId
      ulParentType := parent.ulObjType
      ulObjType := r.type
      ulFlags := r.flags ||| (parent.ulFlags &&& MSGFLAG_DELETED)
      fInOGQueue := decide (r.id ∈ db.outgoingqueue) }
    pushItem lpSession db ulFlags bCheckPermission st sItem
      (decide (r.type = MAPI_STORE ∨ r.type = MAPI_FOLDER ∨
        r.type = MAPI_MESSAGE ∧ parent.ulObjType = MAPI_FOLDER))

/-- The loop over the objects of the list. An object that does not exist ends it. -/
def addRoots : Expansion → List ObjId → Except DeleteError Expansion
  | st, [] => .ok st
  | st, ulObjId :: lpsObjectList => do
    if (db.row ulObjId).isNone then .error .ZARAFA_E_NOT_FOUND
    let st ← (rootRows db ulFlags ulObjId).foldlM (addRoot lpSession db ulFlags bCheckPermission) st
    addRoots st lpsObjectList

/-- The loop through the items that appends what lies below them. Every item has a row of its own, so that
there are not more items than rows. -/
def addChildren : (fuel : ℕ) → (i : ℕ) → Expansion → Except DeleteError Expansion
  | 0, _, st => .ok st
  | fuel + 1, i, st =>
    match st.lstDeleteItems[i]? with
    | none => .ok st
    | some item => do
      let st ← (childRows db ulFlags item.ulId).foldlM
        (addChild lpSession db ulFlags bCheckPermission item) st
      addChildren fuel (i + 1) st

/-- `ExpandDeletedItems`. -/
def ExpandDeletedItems (lpsObjectList : List ObjId) : Except DeleteError (List DELETEITEM) := do
  let st ← addRoots lpSession db ulFlags bCheckPermission ⟨[], .new, []⟩ lpsObjectList
  let st ← addChildren lpSession db ulFlags bCheckPermission (db.hierarchy.length + 1) 0 st
  .ok st.lstDeleteItems

end Expand

/-! ## Folder counts -/

/-- `PARENTINFO`: the changes of the counters of a folder. -/
structure PARENTINFO where
  lItems : ℤ
  lFolders : ℤ
  lAssoc : ℤ
  lDeleted : ℤ
  lDeletedFolders : ℤ
  lDeletedAssoc : ℤ
  lUnread : ℤ
deriving DecidableEq, Repr

/-- The counters that `ApplyFolderCounts` updates with a change. -/
def PARENTINFO.delta (pi : PARENTINFO) : Counter → ℤ
  | .PR_CONTENT_COUNT => pi.lItems
  | .PR_CONTENT_UNREAD => pi.lUnread
  | .PR_ASSOC_CONTENT_COUNT => pi.lAssoc
  | .PR_DELETED_MSG_COUNT => pi.lDeleted
  | .PR_DELETED_ASSOC_MSG_COUNT => pi.lDeletedAssoc
  | .PR_SUBFOLDERS => pi.lFolders
  | .PR_FOLDER_CHILD_COUNT => pi.lFolders
  | .PR_DELETED_FOLDER_COUNT => pi.lDeletedFolders

/-- The changes by folder. -/
abbrev FolderCounts := ObjId → PARENTINFO

def FolderCounts.empty : FolderCounts := fun _ => ⟨0, 0, 0, 0, 0, 0, 0⟩

/-- The statement of `UpdateFolderCount`, which keeps the value positive. -/
def addDelta (val_ulong : ℕ) (lDelta : ℤ) : ℕ :=
  if lDelta < 0 then
    if val_ulong ≥ lDelta.natAbs then (val_ulong + lDelta).toNat else 0
  else (val_ulong + lDelta).toNat

theorem addDelta_eq (val_ulong : ℕ) (lDelta : ℤ) : addDelta val_ulong lDelta = (val_ulong + lDelta).toNat := by
  unfold addDelta
  split_ifs <;> omega

/-- `ApplyFolderCounts` for all folders of the map, one independent of the other. The types are those that the
cache has had before the batch. -/
def ApplyFolderCounts (cached db : Database) (mapFolderCounts : FolderCounts) : Database :=
  { db with folderCount := fun ulFolderId counter =>
      if (cached.row ulFolderId).map HierarchyRow.type = some MAPI_FOLDER then
        (db.folderCount ulFolderId counter).map fun val_ulong =>
          addDelta val_ulong ((mapFolderCounts ulFolderId).delta counter)
      else db.folderCount ulFolderId counter }

/-! ## Soft delete -/

/-- An item that a soft delete marks when it is a root. -/
def DELETEITEM.IsMarkable (item : DELETEITEM) : Prop :=
  item.IsMessage ∨ item.ulObjType = MAPI_FOLDER ∨ item.ulObjType = MAPI_STORE

instance (item : DELETEITEM) : Decidable item.IsMarkable := inferInstanceAs (Decidable (_ ∨ _))

/-- The change of the counters for a root that is marked. -/
def softCounts (item : DELETEITEM) (pi : PARENTINFO) : PARENTINFO :=
  if Has item.ulFlags MSGFLAG_DELETED then pi
  else if item.ulObjType = MAPI_MESSAGE then
    if Has item.ulFlags MAPI_ASSOCIATED then
      { pi with lAssoc := pi.lAssoc - 1, lDeletedAssoc := pi.lDeletedAssoc + 1 }
    else
      { pi with
        lItems := pi.lItems - 1
        lDeleted := pi.lDeleted + 1
        lUnread := if Has item.ulMessageFlags MSGFLAG_READ then pi.lUnread else pi.lUnread - 1 }
  else if item.ulObjType = MAPI_FOLDER then
    { pi with lFolders := pi.lFolders - 1, lDeletedFolders := pi.lDeletedFolders + 1 }
  else pi

/-- Change the counters of the parent. -/
def FolderCounts.update (counts : FolderCounts) (ulParent : ObjId) (f : PARENTINFO → PARENTINFO) :
    FolderCounts :=
  fun ulFolderId => if ulFolderId = ulParent then f (counts ulFolderId) else counts ulFolderId

def softCount (counts : FolderCounts) (item : DELETEITEM) : FolderCounts :=
  if item.IsMarkable ∧ item.fRoot ∧ item.ulParentType = MAPI_FOLDER then
    counts.update item.ulParent (softCounts item)
  else counts

/-- `DeleteObjectSoft`, when all its statements succeed. -/
def DeleteObjectSoft (db : Database) (lstDeleteItems : List DELETEITEM) : Database :=
  let clauseOQQ := (lstDeleteItems.filter fun item => item.IsMarkable ∧ item.fInOGQueue).map (·.ulId)
  let clause := (lstDeleteItems.filter fun item => item.IsMarkable ∧ item.fRoot).map (·.ulId)
  let marked := { db with
    outgoingqueue := db.outgoingqueue.filter (· ∉ clauseOQQ)
    messageFlags := fun id =>
      if id ∈ clauseOQQ then (db.messageFlags id).map (· &&& ~~~MSGFLAG_SUBMIT)
      else db.messageFlags id
    hierarchy := db.hierarchy.map fun r =>
      if r.id ∈ clause then { r with flags := r.flags ||| MSGFLAG_DELETED } else r }
  ApplyFolderCounts db marked (lstDeleteItems.foldl softCount .empty)

/-! ## Hard delete -/

/-- The change of the counters for a root that is removed. -/
def hardCounts (item : DELETEITEM) (pi : PARENTINFO) : PARENTINFO :=
  if item.ulObjType = MAPI_MESSAGE then
    if item.ulFlags = MAPI_ASSOCIATED then { pi with lAssoc := pi.lAssoc - 1 }
    else if item.ulFlags = 0 then
      { pi with
        lItems := pi.lItems - 1
        lUnread := if Has item.ulMessageFlags MSGFLAG_READ then pi.lUnread else pi.lUnread - 1 }
    else if item.ulFlags = MAPI_ASSOCIATED ||| MSGFLAG_DELETED then
      { pi with lDeletedAssoc := pi.lDeletedAssoc - 1 }
    else { pi with lDeleted := pi.lDeleted - 1 }
  else if item.ulObjType = MAPI_FOLDER then
    if Has item.ulFlags MSGFLAG_DELETED then { pi with lDeletedFolders := pi.lDeletedFolders - 1 }
    else { pi with lFolders := pi.lFolders - 1 }
  else pi

def hardCount (ulFlags : UInt32) (counts : FolderCounts) (item : DELETEITEM) : FolderCounts :=
  if ¬ Has ulFlags EC_DELETE_STORE ∧ item.ulParentType = MAPI_FOLDER ∧ item.fRoot then
    counts.update item.ulParent (hardCounts item)
  else counts

/-- Values of the objects that are left. -/
def without {β : Type} (clause : List ObjId) (values : ObjId → Option β) : ObjId → Option β :=
  fun id => if id ∈ clause then none else values id

/-- A transaction of `DeleteObjectHard`, when all its statements succeed. -/
def deleteBatch (ulFlags : UInt32) (db : Database) (batch : List DELETEITEM) : Database :=
  let clause := batch.map (·.ulId)
  let clauseOGQ := (batch.filter (·.fInOGQueue)).map (·.ulId)
  let rest := { db with
    outgoingqueue := db.outgoingqueue.filter (· ∉ clauseOGQ)
    hierarchy := db.hierarchy.filter fun r => r.id ∉ clause
    messageFlags := without clause db.messageFlags
    objectSize := without clause db.objectSize
    folderCount := fun id counter => without clause (db.folderCount · counter) id
    storeSize := without clause db.storeSize }
  ApplyFolderCounts db rest (batch.foldl (hardCount ulFlags) .empty)

/-- The loop of `DeleteObjectHard` over the reversed list. `fails` says in which transactions a statement
fails; such a transaction is rolled back. -/
def hardLoop (ulFlags : UInt32) (fails : ℕ → Option DeleteError) : (fuel : ℕ) → (transaction : ℕ) →
    Database → (left lstDeleted : List DELETEITEM) →
      Option DeleteError × Database × List DELETEITEM
  | 0, _, db, _, lstDeleted => (none, db, lstDeleted)
  | _, _, db, [], lstDeleted => (none, db, lstDeleted)
  | fuel + 1, transaction, db, left, lstDeleted =>
    match fails transaction with
    | some er => (some er, db, lstDeleted)
    | none =>
      hardLoop ulFlags fails fuel (transaction + 1) (deleteBatch ulFlags db (left.take 32))
        (left.drop 32) ((left.take 32).reverse ++ lstDeleted)

/-- `DeleteObjectHard`: the error, the database and the items that have been deleted. -/
def DeleteObjectHard (ulFlags : UInt32) (fails : ℕ → Option DeleteError) (db : Database)
    (lstDeleteItems : List DELETEITEM) : Option DeleteError × Database × List DELETEITEM :=
  if Has ulFlags EC_DELETE_HARD_DELETE then
    hardLoop ulFlags fails lstDeleteItems.length 0 db lstDeleteItems.reverse []
  else (some .ZARAFA_E_INVALID_PARAMETER, db, [])

/-! ## Store size -/

/-- What is subtracted from the size of a store. -/
def sizeOfDeleted (lstDeleted : List DELETEITEM) (ulStoreId : ObjId) : ℕ :=
  ((lstDeleted.filter fun item => item.IsMessage ∧ ¬ Has item.ulFlags MSGFLAG_DELETED ∧
    item.ulStoreId = ulStoreId).map (·.ulObjSize.toNat)).sum

/-- `DeleteObjectStoreSize`, with the statement of `UpdateObjectSize` for each store: a size that is too small
stays as it is. -/
def DeleteObjectStoreSize (db : Database) (lstDeleted : List DELETEITEM) : Database :=
  { db with storeSize := fun ulStoreId =>
      (db.storeSize ulStoreId).map fun val_longint =>
        if val_longint ≥ sizeOfDeleted lstDeleted ulStoreId then
          val_longint - sizeOfDeleted lstDeleted ulStoreId
        else val_longint }

/-! ## Changes, caches and notifications -/

inductive ChangeType where
  | ICS_MESSAGE_HARD_DELETE
  | ICS_MESSAGE_SOFT_DELETE
  | ICS_FOLDER_HARD_DELETE
  | ICS_FOLDER_SOFT_DELETE
deriving DecidableEq, Repr

/-- A call of `AddChange`. -/
structure Change where
  sSourceKey : List UInt8
  sParentSourceKey : List UInt8
  changeType : ChangeType
deriving DecidableEq, Repr

/-- The change of an item. -/
def changeOf (ulFlags : UInt32) (item : DELETEITEM) : List Change :=
  if item.IsMessage then
    [⟨item.sSourceKey, item.sParentSourceKey,
      if Has ulFlags EC_DELETE_HARD_DELETE then .ICS_MESSAGE_HARD_DELETE
      else .ICS_MESSAGE_SOFT_DELETE⟩]
  else if item.ulObjType = MAPI_FOLDER ∧ ¬ Has item.ulFlags FOLDER_SEARCH then
    [⟨item.sSourceKey, item.sParentSourceKey,
      if Has ulFlags EC_DELETE_HARD_DELETE then .ICS_FOLDER_HARD_DELETE
      else .ICS_FOLDER_SOFT_DELETE⟩]
  else []

/-- `DeleteObjectUpdateICS`. -/
def DeleteObjectUpdateICS (ulFlags : UInt32) (lstDeleted : List DELETEITEM) : List Change :=
  lstDeleted.flatMap (changeOf ulFlags)

/-- A call that takes something out of the caches. -/
inductive CacheUpdate where
  | fnevObjectDeleted (ulObjId : ObjId)
  | fnevObjectModified (ulObjId : ObjId)
  | RemoveIndexData (ulObjId : ObjId)
deriving DecidableEq, Repr

/-- `DeleteObjectCacheUpdate`. -/
def DeleteObjectCacheUpdate (ulFlags : UInt32) (lstDeleted : List DELETEITEM) : List CacheUpdate :=
  lstDeleted.flatMap fun item =>
    .fnevObjectDeleted item.ulId ::
      ((if item.fRoot then [.fnevObjectModified item.ulParent] else []) ++
        if Has ulFlags EC_DELETE_HARD_DELETE then [.RemoveIndexData item.ulId] else [])

/-- A notification or an update of the tables that are open. -/
inductive Notification where
  | UpdateOutgoingTables (ulStoreId ulObjId : ObjId) (EC_SUBMIT_MASTER : Bool)
  | NotificationDeleted (ulObjType : UInt32) (ulObjId ulStoreId ulParent : ObjId) (ulFlags : UInt32)
  | TABLE_ROW_DELETE (ulFlags : UInt32) (ulParent ulObjId : ObjId) (ulObjType : UInt32)
  | TABLE_ROW_ADD (ulFlags : UInt32) (ulParent ulObjId : ObjId) (ulObjType : UInt32)
  | TABLE_ROW_MODIFY (ulGrandParent ulParent : ObjId)
  | TABLE_CHANGE (ulFlags : UInt32) (ulParent : ObjId) (ulObjType : UInt32)
  | NotificationModified (ulParent : ObjId)
deriving DecidableEq, Repr

/-- Items of which `DeleteObjectNotifications` tells. -/
def DELETEITEM.IsNotified (item : DELETEITEM) : Prop :=
  item.IsMessage ∨ item.ulObjType = MAPI_FOLDER

instance (item : DELETEITEM) : Decidable item.IsNotified := inferInstanceAs (Decidable (_ ∨ _))

/-- The flags of `MSGFLAG_NOTIFY_FLAGS`. -/
def DELETEITEM.notifyFlags (item : DELETEITEM) : UInt32 :=
  item.ulFlags &&& (MAPI_ASSOCIATED ||| MSGFLAG_DELETED)

/-- The notifications of an item. -/
def itemNotifications (ulFlags : UInt32) (few : Bool) (item : DELETEITEM) : List Notification :=
  (if Has item.ulFlags MSGFLAG_SUBMIT ∧ item.IsMessage then
    [.UpdateOutgoingTables item.ulStoreId item.ulId false,
      .UpdateOutgoingTables item.ulStoreId item.ulId true] else []) ++
  if item.IsNotified then
    .NotificationDeleted item.ulObjType item.ulId item.ulStoreId item.ulParent item.notifyFlags ::
      if few then
        .TABLE_ROW_DELETE item.notifyFlags item.ulParent item.ulId item.ulObjType ::
          if Has ulFlags EC_DELETE_HARD_DELETE then []
          else [.TABLE_ROW_ADD MSGFLAG_DELETED item.ulParent item.ulId item.ulObjType]
      else []
  else []

/-- What has changed in the tables of a folder, as type and flags. -/
def tableChanges (ulFlags : UInt32) (lstDeleted : List DELETEITEM) (ulParent : ObjId) :
    List (UInt32 × UInt32) :=
  let changes := (lstDeleted.filter fun item => item.IsNotified ∧ item.ulParent = ulParent).flatMap
    fun item => (item.ulObjType, item.notifyFlags) ::
      if Has ulFlags EC_DELETE_HARD_DELETE then []
      else [(item.ulObjType, item.notifyFlags ||| MSGFLAG_DELETED)]
  changes.dedup.mergeSort fun a b => a.2 < b.2 ∨ a.2 = b.2 ∧ a.1 ≤ b.1

/-- `DeleteObjectNotifications`. -/
def DeleteObjectNotifications (db : Database) (ulFlags : UInt32) (lstDeleted : List DELETEITEM) :
    List Notification :=
  let few := lstDeleted.length < EC_TABLE_CHANGE_THRESHOLD
  let parents := ((lstDeleted.filter fun item => item.IsNotified ∧ item.fRoot).map (·.ulParent)).dedup
  let lstParent := parents.mergeSort (· ≤ ·)
  lstDeleted.flatMap (itemNotifications ulFlags few) ++ lstParent.flatMap fun ulParent =>
    (if few then []
      else (tableChanges ulFlags lstDeleted ulParent).map fun n => .TABLE_CHANGE n.2 ulParent n.1) ++
    .NotificationModified ulParent ::
      match db.GetParent ulParent with
      | none => []
      | some ulGrandParent => [.TABLE_ROW_MODIFY ulGrandParent ulParent]

/-! ## Deleting -/

/-- What `CheckWithinLastSyncedMessagesSet` answers for a source key. -/
inductive ScopeAnswer where
  | erSuccess
  | ZARAFA_E_NOT_FOUND
  | failure
deriving DecidableEq, Repr

/-- `CheckICSDeleteScope`: take out what the client has not synchronized. A failure ends it. -/
def CheckICSDeleteScope (scope : List UInt8 → ScopeAnswer) : List DELETEITEM → List DELETEITEM
  | [] => []
  | item :: lstDeleted =>
    match scope item.sSourceKey with
    | .erSuccess => item :: CheckICSDeleteScope scope lstDeleted
    | .ZARAFA_E_NOT_FOUND => CheckICSDeleteScope scope lstDeleted
    | .failure => item :: lstDeleted

/-- The database, and what has been told about it. -/
structure World where
  db : Database
  changes : List Change
  cacheUpdates : List CacheUpdate
  notifications : List Notification

/-- The arguments of `DeleteObjects`, and the statements that fail. -/
structure Request where
  lpSession : ECSession
  lpsObjectList : List ObjId
  ulFlags : UInt32
  /-- The scope of the sync id, if there is one. -/
  scope : Option (List UInt8 → ScopeAnswer)
  bNoTransaction : Bool
  bCheckPermission : Bool
  /-- In `DeleteObjectHard`, by transaction. -/
  hardFails : ℕ → Option DeleteError
  /-- In `DeleteObjectSoft`. -/
  softFails : Option DeleteError
  /-- In the update of the sizes, or later. -/
  sizeFails : Option DeleteError

namespace Request

variable (req : Request)

/-- The list, in order and without duplicates. -/
def objects : List ObjId := (req.lpsObjectList.mergeSort (· ≤ ·)).dedup

/-- The items to delete. -/
def items (db : Database) : Except DeleteError (List DELETEITEM) := do
  let lstDeleteItems ←
    ExpandDeletedItems req.lpSession db req.ulFlags req.bCheckPermission req.objects
  .ok (match req.scope with
    | none => lstDeleteItems
    | some scope => CheckICSDeleteScope scope lstDeleteItems)

/-- What follows on a delete: the size of the store, the change log, the caches and the notifications. -/
def follow (w : World) (lstDeleted : List DELETEITEM) : World :=
  if Has req.ulFlags EC_DELETE_STORE then
    { w with cacheUpdates := w.cacheUpdates ++ DeleteObjectCacheUpdate req.ulFlags lstDeleted }
  else
    let db := DeleteObjectStoreSize w.db lstDeleted
    ⟨db, w.changes ++ DeleteObjectUpdateICS req.ulFlags lstDeleted,
      w.cacheUpdates ++ DeleteObjectCacheUpdate req.ulFlags lstDeleted,
      w.notifications ++ DeleteObjectNotifications db req.ulFlags lstDeleted⟩

/-- `DeleteObjects`. A soft delete that fails is rolled back as a whole. -/
def DeleteObjects (w : World) : Option DeleteError × World :=
  if req.bNoTransaction ∧ (Has req.ulFlags EC_DELETE_HARD_DELETE ∨ Has req.ulFlags EC_DELETE_STORE) then
    (some .ZARAFA_E_INVALID_PARAMETER, w)
  else
    match req.items w.db with
    | .error er => (some er, w)
    | .ok lstDeleteItems =>
      if Has req.ulFlags EC_DELETE_HARD_DELETE then
        match DeleteObjectHard req.ulFlags req.hardFails w.db lstDeleteItems with
        | (some er, db, _) => (some er, { w with db })
        | (none, db, lstDeleted) =>
          match req.sizeFails with
          | some er => (some er, { w with db })
          | none => (none, req.follow { w with db } lstDeleted)
      else
        match req.softFails, req.sizeFails with
        | none, none =>
          (none, req.follow { w with db := DeleteObjectSoft w.db lstDeleteItems } lstDeleteItems)
        | some er, _ => (some er, w)
        | none, some er => (some er, w)

end Request

end Zcp.Libserver.ZarafaCmdUtil
