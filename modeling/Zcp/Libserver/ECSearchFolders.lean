import Zcp.Common.ECKeyTable
import Zcp.Lib.KeyedTable
import Zcp.Libserver.ZarafaCmdUtil

/-!
# Results of search folders

The functions of `provider/libserver/ECSearchFolders.cpp` that write the table `searchresults` and the counters of a
search folder. `ProcessMessageChange` follows a change of messages, `ProcessCandidateRows` adds what a search has
found, and `ResetResults` empties a folder. A statement of the database fails with a lock time-out, and a rollback
restores what the transaction has changed.
-/

namespace Zcp.Libserver.ECSearchFolders

open Common Lib ZarafaCmdUtil

def RECURSIVE_SEARCH : UInt32 := 0x4

/-- The rows of `searchresults` for one search folder: the `flags` of each `hierarchyid`. -/
abbrev SearchResults := KeyedTable ObjId UInt32

/-- What the tables hold for one search folder. -/
structure SearchFolder where
  searchresults : SearchResults
  /-- `PR_CONTENT_COUNT` in `properties`. -/
  contentCount : ℕ
  /-- `PR_CONTENT_UNREAD` in `properties`. -/
  contentUnread : ℕ

/-- A search folder that has just been created. -/
def SearchFolder.new : SearchFolder := ⟨∅, 0, 0⟩

/-- The calls that may fail. The number is the place of an object in the list of a function. -/
inductive Call where
  | GetThreadLocalDatabase
  | GetObject
  | GetParent
  | CreateSessionInternal
  | Begin
  /-- `SELECT … FOR UPDATE`, the lock of a search folder. -/
  | SelectForUpdate
  /-- `SELECT flags FROM searchresults`. -/
  | SelectFlags (i : ℕ)
  /-- `INSERT INTO searchresults … ON DUPLICATE KEY UPDATE`. -/
  | InsertResult (i : ℕ)
  /-- `DELETE FROM searchresults` for one object. -/
  | DeleteResult (i : ℕ)
  /-- `INSERT IGNORE INTO searchresults`. -/
  | InsertIgnore
  /-- `UPDATE searchresults SET flags = 0`. -/
  | UpdateFlags (i : ℕ)
  /-- `DELETE FROM searchresults` for the folder. -/
  | DeleteAll
  /-- `UPDATE properties SET val_ulong = 0`. -/
  | ResetCounters
  /-- The `UPDATE properties` of `UpdateFolderCount`. -/
  | UpdateCounter (counter : Counter)
  | UpdateTProp (counter : Counter)
  | Commit
deriving DecidableEq, Repr

variable (fails : Call → Bool)

/-! ## Results -/

/-- `AddResults` for one object, with `fInserted`. It is an error that the row is there already. -/
def AddResults (i : ℕ) (searchresults : SearchResults) (ulObjId : ObjId) (ulFlags : UInt32) :
    Option (SearchResults × Bool) :=
  if fails (.SelectFlags i) then none
  else if searchresults.lookup ulObjId = some ulFlags then none
  else if fails (.InsertResult i) then none
  else some (searchresults.insert ulObjId ulFlags, (searchresults.lookup ulObjId).isNone)

/-- `DeleteResults`, with the flags of the row that is deleted. -/
def DeleteResults (i : ℕ) (searchresults : SearchResults) (ulObjId : ObjId) : Option (SearchResults × UInt32) :=
  if fails (.SelectFlags i) then none
  else match searchresults.lookup ulObjId with
    | none => none
    | some ulOldFlags =>
      if fails (.DeleteResult i) then none else some (searchresults.erase ulObjId, ulOldFlags)

/-- One row of an `INSERT IGNORE`, with the number of rows inserted. -/
def insertIgnore (inserted : SearchResults × ℕ) (ulObjId : ObjId) : SearchResults × ℕ :=
  if ulObjId ∈ inserted.1 then inserted else (inserted.1.insert ulObjId MSGFLAG_READ, inserted.2 + 1)

/-- One `UPDATE searchresults SET flags = 0`, with the number of rows changed. -/
def updateFlags (modified : SearchResults × ℕ) (ulObjId : ObjId) : SearchResults × ℕ :=
  match modified.1.lookup ulObjId with
  | none => modified
  | some flags => if flags = 0 then modified else (modified.1.insert ulObjId 0, modified.2 + 1)

/-- The loop over `lstFlags`. -/
def updateUnread : ℕ → List (ObjId × UInt32) → SearchResults × ℕ → Option (SearchResults × ℕ)
  | _, [], modified => some modified
  | i, (ulObjId, ulFlags) :: rest, modified =>
    if ulFlags = 0 then
      if fails (.UpdateFlags i) then none else updateUnread (i + 1) rest (updateFlags modified ulObjId)
    else updateUnread (i + 1) rest modified

/-- `AddResults` for a list, with the numbers of rows inserted and changed. All are inserted as read first. -/
def AddResultList (searchresults : SearchResults) (lstMatches : List (ObjId × UInt32)) :
    Option (SearchResults × ℕ × ℕ) :=
  if lstMatches = [] then some (searchresults, 0, 0)
  else if fails .InsertIgnore then none
  else
    let inserted := (lstMatches.map Prod.fst).foldl insertIgnore (searchresults, 0)
    (updateUnread fails 0 lstMatches (inserted.1, 0)).map fun modified => (modified.1, inserted.2, modified.2)

/-- The statement of `UpdateFolderCount`, for the two counters of a search folder. -/
def SearchFolder.addCount (folder : SearchFolder) : Counter → ℤ → SearchFolder
  | .PR_CONTENT_COUNT, lDelta => { folder with contentCount := addDelta folder.contentCount lDelta }
  | .PR_CONTENT_UNREAD, lDelta => { folder with contentUnread := addDelta folder.contentUnread lDelta }
  | _, _ => folder

/-- `UpdateFolderCount`. -/
def UpdateFolderCount (folder : SearchFolder) (ulPropTag : Counter) (lDelta : ℤ) : SearchFolder × ECRESULT :=
  if lDelta = 0 then (folder, .erSuccess)
  else if fails (.UpdateCounter ulPropTag) then (folder, .ZARAFA_E_DATABASE_ERROR)
  else
    (folder.addCount ulPropTag lDelta,
      if fails (.UpdateTProp ulPropTag) then .ZARAFA_E_DATABASE_ERROR else .erSuccess)

/-! ## Changes of messages -/

/-- A row of `lpRowSet`: what `MatchRowRestrict` says of it, nothing when it fails, and `PR_MESSAGE_FLAGS` when that
is the row's first property. -/
structure RowData where
  fMatch : Option Bool
  ulMessageFlags : Option UInt32

/-- The results of a folder in a transaction, and the counts that go with them. -/
structure Changes where
  searchresults : SearchResults
  lCount : ℤ
  lUnreadCount : ℤ

/-- A message that matches. A row that was there had the other of the two flags. -/
def Changes.add (changes : Changes) (i : ℕ) (ulObjId : ObjId) (ulFlags : UInt32) : Changes :=
  match AddResults fails i changes.searchresults ulObjId ulFlags with
  | some (searchresults, true) =>
    ⟨searchresults, changes.lCount + 1,
      if ulFlags = 0 then changes.lUnreadCount + 1 else changes.lUnreadCount⟩
  | some (searchresults, false) =>
    ⟨searchresults, changes.lCount,
      if ulFlags = 0 then changes.lUnreadCount + 1 else changes.lUnreadCount - 1⟩
  | none => changes

/-- A message that is no result. -/
def Changes.remove (changes : Changes) (i : ℕ) (ulObjId : ObjId) : Changes :=
  match DeleteResults fails i changes.searchresults ulObjId with
  | some (searchresults, ulFlags) =>
    ⟨searchresults, changes.lCount - 1,
      if ulFlags = 0 then changes.lUnreadCount - 1 else changes.lUnreadCount⟩
  | none => changes

/-- A message of a target folder. -/
def Changes.matchRow (ulType : UpdateType) (changes : Changes) (i : ℕ) (ulObjId : ObjId) (row : RowData) : Changes :=
  match row.fMatch with
  | none => changes
  | some true =>
    match row.ulMessageFlags with
    | none => changes
    | some ulMessageFlags => changes.add fails i ulObjId (ulMessageFlags &&& MSGFLAG_READ)
  | some false => if ulType = .TABLE_ROW_MODIFY then changes.remove fails i ulObjId else changes

/-- The loop over the messages of a target folder. -/
def Changes.matchRows (ulType : UpdateType) : ℕ → List (ObjId × RowData) → Changes → Changes
  | _, [], changes => changes
  | i, (ulObjId, row) :: rest, changes =>
    matchRows ulType (i + 1) rest (changes.matchRow fails ulType i ulObjId row)

/-- The loop over messages that are no results. -/
def Changes.removeAll : ℕ → List ObjId → Changes → Changes
  | _, [], changes => changes
  | i, ulObjId :: rest, changes => removeAll (i + 1) rest (changes.remove fails i ulObjId)

/-- `searchCriteria`. Of the restriction it only matters here that there is one. -/
structure SearchCriteria where
  lpFolders : Option (List (List UInt8))
  fRestrict : Bool
  ulFlags : UInt32

/-- What the calls of one attempt answer. -/
structure Attempt where
  fails : Call → Bool
  /-- `GetObjectFromEntryId`, nothing for an unknown folder. -/
  GetObjectFromEntryId : List UInt8 → Option ObjId
  /-- The answers of `GetParent` until it fails. -/
  lstParents : List ObjId
  /-- The rows of `QueryRowData`, nothing when that or another call before the loop fails. -/
  lpRowSet : Option (List RowData)

/-- One of the target folders is among the given ones. -/
def IsTarget (GetObjectFromEntryId : List UInt8 → Option ObjId) (lpFolders : List (List UInt8))
    (folders : List ObjId) : Bool :=
  lpFolders.any fun entryid => (GetObjectFromEntryId entryid).any fun ulSCFolderId => ulSCFolderId ∈ folders

/-- The test whether a change concerns a search folder, with the parents that it has collected. -/
def bIsInTargetFolder (attempt : Attempt) (criteria : SearchCriteria) (lpFolders : List (List UInt8))
    (ulType : UpdateType) (ulFolderId : ObjId) (setParents : List ObjId) : Bool × List ObjId :=
  if ulType = .TABLE_ROW_DELETE then (false, setParents)
  else if IsTarget attempt.GetObjectFromEntryId lpFolders [ulFolderId] then (true, setParents)
  else if Has criteria.ulFlags RECURSIVE_SEARCH then
    let setParents := ulFolderId :: attempt.lstParents ++ setParents
    (IsTarget attempt.GetObjectFromEntryId lpFolders setParents, setParents)
  else (false, setParents)

/-- How an attempt ends. -/
inductive Ending where
  /-- The transaction is committed. -/
  | committed (folder : SearchFolder)
  /-- It is rolled back, or there is nothing to do. -/
  | again
  /-- The function is left before the transaction has changed anything. -/
  | exit

/-- The changes of a transaction in a search folder, nothing when the function is left. -/
def collectChanges (attempt : Attempt) (lstObjectIDs : List ObjId) (ulType : UpdateType) (inTarget : Bool)
    (searchresults : SearchResults) : Option Changes :=
  let start : Changes := ⟨searchresults, 0, 0⟩
  if inTarget then
    if attempt.fails .CreateSessionInternal then none
    else if ulType = .TABLE_ROW_ADD ∨ ulType = .TABLE_ROW_MODIFY then
      attempt.lpRowSet.map fun lpRowSet =>
        start.matchRows attempt.fails ulType 0 (lstObjectIDs.zip lpRowSet)
    else some (start.removeAll attempt.fails 0 lstObjectIDs)
  else some (start.removeAll attempt.fails 0 lstObjectIDs)

/-- The end of a transaction: the two counters and the commit. -/
def commitChanges (fails : Call → Bool) (folder : SearchFolder) (changes : Changes) : Ending :=
  let written := { folder with searchresults := changes.searchresults }
  if changes.lCount ≠ 0 ∨ changes.lUnreadCount ≠ 0 then
    let counted := UpdateFolderCount fails written .PR_CONTENT_COUNT changes.lCount
    if counted.2 = .erSuccess then
      let unread := UpdateFolderCount fails counted.1 .PR_CONTENT_UNREAD changes.lUnreadCount
      if unread.2 = .erSuccess then
        if fails .Commit then .again else .committed unread.1
      else .again
    else .again
  else if fails .Commit then .again
  else .committed written

/-- One attempt to follow a change in one search folder. -/
def attemptChange (attempt : Attempt) (criteria : SearchCriteria) (ulFolderId : ObjId) (lstObjectIDs : List ObjId)
    (ulType : UpdateType) (setParents : List ObjId) (folder : SearchFolder) : Ending × List ObjId :=
  match criteria.lpFolders with
  | none => (.again, setParents)
  | some lpFolders =>
    if criteria.fRestrict = false then (.again, setParents)
    else if attempt.fails .Begin then (.exit, setParents)
    else if attempt.fails .SelectForUpdate then (.again, setParents)
    else
      let target := bIsInTargetFolder attempt criteria lpFolders ulType ulFolderId setParents
      match collectChanges attempt lstObjectIDs ulType target.1 folder.searchresults with
      | none => (.exit, target.2)
      | some changes => (commitChanges attempt.fails folder changes, target.2)

/-- The attempts for one search folder, and whether the function goes on with the next one. -/
def changeFolder (attempts : ℕ → Attempt) (criteria : SearchCriteria) (ulFolderId : ObjId)
    (lstObjectIDs : List ObjId) (ulType : UpdateType) :
    (ulAttempts : ℕ) → List ObjId → SearchFolder → SearchFolder × List ObjId × Bool
  | 0, setParents, folder => (folder, setParents, true)
  | ulAttempts + 1, setParents, folder =>
    match attemptChange (attempts (ulAttempts + 1)) criteria ulFolderId lstObjectIDs ulType setParents folder with
    | (.committed changed, setParents) => (changed, setParents, true)
    | (.again, setParents) =>
      changeFolder attempts criteria ulFolderId lstObjectIDs ulType ulAttempts setParents folder
    | (.exit, setParents) => (folder, setParents, false)

/-- The search folders of all stores. -/
abbrev Tables := ObjId → SearchFolder

/-- The loop over the search folders of a store. -/
def changeFolders (attempts : ObjId → ℕ → Attempt) (ulFolderId : ObjId) (lstObjectIDs : List ObjId)
    (ulType : UpdateType) : List (ObjId × SearchCriteria) → List ObjId → Tables → Tables
  | [], _, tables => tables
  | (id, criteria) :: rest, setParents, tables =>
    let (changed, setParents, goesOn) :=
      changeFolder (attempts id) criteria ulFolderId lstObjectIDs ulType 4 setParents (tables id)
    let tables := Function.update tables id changed
    if goesOn then changeFolders attempts ulFolderId lstObjectIDs ulType rest setParents tables else tables

/-- `ProcessMessageChange` for the search folders of a store. -/
def ProcessMessageChange (attempts : ObjId → ℕ → Attempt) (searchFolders : List (ObjId × SearchCriteria))
    (ulFolderId : ObjId) (lstObjectIDs : List ObjId) (ulType : UpdateType) (tables : Tables) : Tables :=
  if fails .GetThreadLocalDatabase ∨ fails .GetObject then tables
  else changeFolders attempts ulFolderId lstObjectIDs ulType searchFolders [] tables

/-! ## Searches -/

/-- A row of a search, and what is read of `*lpbCancel` before it. -/
structure CandidateRow extends RowData where
  lpbCancel : Bool

/-- The matches of the loop over the rows, with their flags. -/
def lstMatches : List (ObjId × CandidateRow) → List (ObjId × UInt32)
  | [] => []
  | (ulObjId, row) :: rest =>
    if row.lpbCancel then []
    else match row.fMatch, row.ulMessageFlags with
      | some true, some ulMessageFlags => (ulObjId, ulMessageFlags &&& MSGFLAG_READ) :: lstMatches rest
      | _, _ => lstMatches rest

/-- The part of `ProcessCandidateRows` before its commit: the folder and `er`, or nothing when it has gone to
`exit`. The error of the second counter does not. -/
def addCandidates (ecRows : List ObjId) (lpRowSet : Option (List CandidateRow)) (folder : SearchFolder) :
    Option (SearchFolder × ECRESULT) :=
  match lpRowSet with
  | none => none
  | some lpRowSet =>
    match AddResultList fails folder.searchresults (lstMatches (ecRows.zip lpRowSet)) with
    | none => none
    | some (searchresults, lCount, lUnreadCount) =>
      let written := { folder with searchresults := searchresults }
      if lCount ≠ 0 ∨ lUnreadCount ≠ 0 then
        let counted := UpdateFolderCount fails written .PR_CONTENT_COUNT lCount
        if counted.2 = .erSuccess then
          some (UpdateFolderCount fails counted.1 .PR_CONTENT_UNREAD lUnreadCount)
        else none
      else some (written, .erSuccess)

/-- `ProcessCandidateRows` with `bNotify`, in a transaction of its own. -/
def ProcessCandidateRows (ecRows : List ObjId) (lpRowSet : Option (List CandidateRow)) (folder : SearchFolder) :
    SearchFolder :=
  if fails .Begin ∨ fails .SelectForUpdate then folder
  else match addCandidates fails ecRows lpRowSet folder with
    | none => folder
    | some (added, _) => if fails .Commit then folder else added

/-- The rows of one call of `ProcessCandidateRows`, and what its own calls answer. -/
structure Batch where
  fails : Call → Bool
  ecRows : List ObjId
  lpRowSet : Option (List CandidateRow)

/-- `ProcessCandidateRows` without `bNotify`, for some batches in the transaction of its caller. -/
def processBatches : List Batch → SearchFolder → Option SearchFolder
  | [], folder => some folder
  | batch :: rest, folder =>
    match addCandidates batch.fails batch.ecRows batch.lpRowSet folder with
    | some (added, .erSuccess) => processBatches rest added
    | _ => none

/-- The transaction of such a caller, which rolls back on an error. -/
def ProcessBatches (batches : List Batch) (folder : SearchFolder) : SearchFolder :=
  if fails .Begin then folder
  else match processBatches batches folder with
    | none => folder
    | some added => if fails .Commit then folder else added

/-- `ResetResults`. -/
def ResetResults (folder : SearchFolder) : SearchFolder :=
  if fails .GetParent ∨ fails .GetThreadLocalDatabase ∨ fails .Begin ∨ fails .SelectForUpdate ∨ fails .DeleteAll ∨
      fails .ResetCounters ∨ fails (.UpdateTProp .PR_CONTENT_COUNT) ∨ fails (.UpdateTProp .PR_CONTENT_UNREAD) ∨
      fails .Commit then folder
  else ⟨∅, 0, 0⟩

/-! ## Runs -/

/-- The operations on search folders, with what their calls answer. -/
inductive Operation where
  | ProcessMessageChange (fails : Call → Bool) (attempts : ObjId → ℕ → Attempt)
      (searchFolders : List (ObjId × SearchCriteria)) (ulFolderId : ObjId) (lstObjectIDs : List ObjId)
      (ulType : UpdateType)
  | ProcessCandidateRows (ulFolderId : ObjId) (batch : Batch)
  | ProcessBatches (ulFolderId : ObjId) (fails : Call → Bool) (batches : List Batch)
  | ResetResults (ulFolderId : ObjId) (fails : Call → Bool)

/-- The tables after an operation. -/
def Operation.run (tables : Tables) : Operation → Tables
  | .ProcessMessageChange fails attempts searchFolders ulFolderId lstObjectIDs ulType =>
    ECSearchFolders.ProcessMessageChange fails attempts searchFolders ulFolderId lstObjectIDs ulType tables
  | .ProcessCandidateRows ulFolderId batch =>
    Function.update tables ulFolderId
      (ECSearchFolders.ProcessCandidateRows batch.fails batch.ecRows batch.lpRowSet (tables ulFolderId))
  | .ProcessBatches ulFolderId fails batches =>
    Function.update tables ulFolderId (ECSearchFolders.ProcessBatches fails batches (tables ulFolderId))
  | .ResetResults ulFolderId fails =>
    Function.update tables ulFolderId (ECSearchFolders.ResetResults fails (tables ulFolderId))

/-- The tables after a sequence of operations. -/
def run (operations : List Operation) (tables : Tables) : Tables := operations.foldl Operation.run tables

end Zcp.Libserver.ECSearchFolders
