import Zcp.Lib.SortedSets
import Zcp.Lib.StableSort
import Zcp.Libserver.ECSearchFolders.Counters

/-!
# Events of search folders in batches

`FlushEvents` of `provider/libserver/ECSearchFolders.cpp` takes up to 500 events from the queue and sorts them by
folder. Each sequence of events of one type in one folder becomes one call of `ProcessMessageChange`. The order of the
events in a folder stays, but that of events in different folders does not: when a message changes and is moved to a
folder with a smaller id, the change in the old folder is processed after that in the new one.
-/

namespace Zcp.Libserver.ECSearchFolders

open Common Lib ZarafaCmdUtil

/-- `EVENT`. -/
structure EVENT where
  ulStoreId : ObjId
  ulFolderId : ObjId
  ulObjectId : ObjId
  ulType : UpdateType
deriving DecidableEq, Repr

/-- The search folders, and the data that stays while a queue is processed. -/
structure Setup where
  /-- The search folders of a store. -/
  m_mapSearchFolders : ObjId → List (ObjId × SearchCriteria)
  ascending : ∀ ulStoreId, ((m_mapSearchFolders ulStoreId).map Prod.fst).Pairwise (· < ·)
  /-- The store of a folder. -/
  GetStore : ObjId → ObjId
  GetObjectFromEntryId : List UInt8 → Option ObjId
  /-- The parents of a folder. -/
  lstParents : ObjId → List ObjId
  /-- The row of each message for a search folder, nothing when the restriction of that is not one that can be
  evaluated. -/
  lpRowSet : ObjId → Option (ObjId → RowData)

/-- The queue. An event has the store of its folder. -/
structure Setup.Queue (setup : Setup) where
  m_lstEvents : List EVENT
  stores : ∀ event ∈ m_lstEvents, event.ulStoreId = setup.GetStore event.ulFolderId

/-- What the calls of an attempt answer for one search folder. None fails. -/
def Setup.attempt (setup : Setup) (ulFolderId : ObjId) (lstObjectIDs : List ObjId) (id : ObjId) : Attempt where
  fails _ := false
  GetObjectFromEntryId := setup.GetObjectFromEntryId
  lstParents := setup.lstParents ulFolderId
  lpRowSet := (setup.lpRowSet id).map fun row => lstObjectIDs.map row

/-- `ProcessMessageChange` with the data of a set-up. -/
def Setup.ProcessMessageChange (setup : Setup) (ulStoreId ulFolderId : ObjId) (lstObjectIDs : List ObjId)
    (ulType : UpdateType) (tables : Tables) : Tables :=
  ECSearchFolders.ProcessMessageChange (fun _ => false) (fun id _ => setup.attempt ulFolderId lstObjectIDs id)
    (setup.m_mapSearchFolders ulStoreId) ulFolderId lstObjectIDs ulType tables

/-- A sequence of events of one type in one folder. -/
structure Sequence where
  ulStoreId : ObjId
  ulFolderId : ObjId
  ulType : UpdateType
  lstObjectIDs : List ObjId

/-- A sequence is processed, with each of its messages once. -/
def Setup.flush (setup : Setup) (sequence : Sequence) (tables : Tables) : Tables :=
  if sequence.lstObjectIDs = [] then tables
  else
    setup.ProcessMessageChange sequence.ulStoreId sequence.ulFolderId
      (unique (stableSort UInt32.toNat sequence.lstObjectIDs)) sequence.ulType tables

/-- The loop over the sorted events. -/
def Setup.flushLoop (setup : Setup) : List EVENT → Sequence → Tables → Tables
  | [], sequence, tables => setup.flush sequence tables
  | event :: rest, sequence, tables =>
    if event.ulFolderId ≠ sequence.ulFolderId ∨ event.ulType ≠ sequence.ulType then
      flushLoop setup rest ⟨event.ulStoreId, event.ulFolderId, event.ulType, [event.ulObjectId]⟩
        (setup.flush sequence tables)
    else
      flushLoop setup rest
        ⟨event.ulStoreId, event.ulFolderId, event.ulType, sequence.lstObjectIDs ++ [event.ulObjectId]⟩ tables

/-- `FlushEvents`, with the events that it leaves in the queue. -/
def Setup.FlushEvents (setup : Setup) (m_lstEvents : List EVENT) (tables : Tables) : List EVENT × Tables :=
  let lstEvents := stableSort (fun event => event.ulFolderId.toNat) (m_lstEvents.take 500)
  (m_lstEvents.drop 500, setup.flushLoop lstEvents ⟨0, 0, .TABLE_ROW_MODIFY, []⟩ tables)

/-- `ProcessMessageChange` once for each event. -/
def Setup.processEach (setup : Setup) (lstEvents : List EVENT) (tables : Tables) : Tables :=
  lstEvents.foldl (fun tables event =>
    setup.ProcessMessageChange event.ulStoreId event.ulFolderId [event.ulObjectId] event.ulType tables) tables

/-- The rows of `searchresults` are the same for every search folder. -/
def SameResults (tables tables' : Tables) : Prop :=
  ∀ id ulObjId, (tables id).searchresults.lookup ulObjId = (tables' id).searchresults.lookup ulObjId

/-! ## What an event does with a row -/

/-- What a row says about the result of its message: it has these flags, it is deleted, or, with nothing, it stays. -/
def RowData.writes (row : RowData) (ulType : UpdateType) : Option (Option UInt32) :=
  match row.fMatch with
  | none => none
  | some true => row.ulMessageFlags.map fun ulMessageFlags => some (ulMessageFlags &&& MSGFLAG_READ)
  | some false => if ulType = .TABLE_ROW_MODIFY then some none else none

section

variable (setup : Setup) (ulFolderId : ObjId) (ulType : UpdateType)

/-- A change of this type in the folder concerns the targets of a search folder. -/
def Setup.InTarget (criteria : SearchCriteria) (lpFolders : List (List UInt8)) : Bool :=
  ulType ≠ .TABLE_ROW_DELETE &&
    (IsTarget setup.GetObjectFromEntryId lpFolders [ulFolderId] ||
      Has criteria.ulFlags RECURSIVE_SEARCH &&
        IsTarget setup.GetObjectFromEntryId lpFolders (ulFolderId :: setup.lstParents ulFolderId))

/-- What a change of a message does with its result in a search folder. -/
def Setup.folderWrites (id : ObjId) (criteria : SearchCriteria) (ulObjId : ObjId) : Option (Option UInt32) :=
  match criteria.lpFolders with
  | none => none
  | some lpFolders =>
    if criteria.fRestrict = false then none
    else if setup.InTarget ulFolderId ulType criteria lpFolders then
      if ulType = .TABLE_ROW_ADD ∨ ulType = .TABLE_ROW_MODIFY then
        (setup.lpRowSet id).bind fun row => (row ulObjId).writes ulType
      else some none
    else some none

/-- A change goes no further than a search folder whose restriction cannot be evaluated. -/
def Setup.endsAt (id : ObjId) (criteria : SearchCriteria) : Bool :=
  match criteria.lpFolders with
  | none => false
  | some lpFolders =>
    criteria.fRestrict && setup.InTarget ulFolderId ulType criteria lpFolders &&
      (ulType = .TABLE_ROW_ADD ∨ ulType = .TABLE_ROW_MODIFY) && (setup.lpRowSet id).isNone

/-- What a change of a message does with its result in one of the search folders of a store. -/
def Setup.storeWrites (id ulObjId : ObjId) : List (ObjId × SearchCriteria) → Option (Option UInt32)
  | [] => none
  | (id', criteria) :: rest =>
    if setup.endsAt ulFolderId ulType id' criteria then none
    else if id' = id then setup.folderWrites ulFolderId ulType id criteria ulObjId
    else storeWrites id ulObjId rest

end

/-- What an event does with the result of a message in a search folder. -/
def Setup.writes (setup : Setup) (id ulObjId : ObjId) (event : EVENT) : Option (Option UInt32) :=
  if event.ulObjectId = ulObjId then
    setup.storeWrites event.ulFolderId event.ulType id ulObjId (setup.m_mapSearchFolders event.ulStoreId)
  else none

/-- For each result, the last event that does something with it does what the last of those does that are in the
folder with the greatest id. -/
def Setup.LastDecides (setup : Setup) (lstEvents : List EVENT) : Prop :=
  ∀ id ulObjId,
    let deciding := writers (setup.writes id ulObjId) lstEvents
    (greatest (fun event => event.ulFolderId.toNat) deciding).getLast?.bind (setup.writes id ulObjId) =
      deciding.getLast?.bind (setup.writes id ulObjId)

/-! ## One change -/

section

variable {changes : Changes} {i : ℕ}

theorem add_lookup (ulObjId ulObjId' : ObjId) (ulFlags : UInt32) :
    (changes.add (fun _ => false) i ulObjId ulFlags).searchresults.lookup ulObjId' =
      if ulObjId' = ulObjId then some ulFlags else changes.searchresults.lookup ulObjId' := by
  have hinsert : (changes.searchresults.insert ulObjId ulFlags).lookup ulObjId' =
      if ulObjId' = ulObjId then some ulFlags else changes.searchresults.lookup ulObjId' := by
    split_ifs with heq
    · rw [heq, AList.lookup_insert]
    · rw [AList.lookup_insert_ne heq]
  unfold Changes.add AddResults
  rw [if_neg Bool.false_ne_true, if_neg Bool.false_ne_true]
  by_cases hsame : changes.searchresults.lookup ulObjId = some ulFlags
  · rw [if_pos hsame]
    dsimp only
    split_ifs with heq
    · rw [heq, hsame]
    · rfl
  · rw [if_neg hsame]
    cases (changes.searchresults.lookup ulObjId).isNone <;> exact hinsert

theorem remove_lookup (ulObjId ulObjId' : ObjId) :
    (changes.remove (fun _ => false) i ulObjId).searchresults.lookup ulObjId' =
      if ulObjId' = ulObjId then none else changes.searchresults.lookup ulObjId' := by
  unfold Changes.remove DeleteResults
  rw [if_neg Bool.false_ne_true]
  cases hlookup : changes.searchresults.lookup ulObjId with
  | none =>
    dsimp only
    split_ifs with heq
    · rw [heq, hlookup]
    · rfl
  | some ulFlags =>
    simp only [Bool.false_eq_true, if_false]
    split_ifs with heq
    · rw [heq, AList.lookup_erase]
    · rw [AList.lookup_erase_ne heq]

theorem matchRow_lookup (ulType : UpdateType) (row : RowData) (ulObjId ulObjId' : ObjId) :
    (changes.matchRow (fun _ => false) ulType i ulObjId row).searchresults.lookup ulObjId' =
      if ulObjId' = ulObjId then (row.writes ulType).getD (changes.searchresults.lookup ulObjId')
      else changes.searchresults.lookup ulObjId' := by
  unfold Changes.matchRow RowData.writes
  cases row.fMatch with
  | none => exact (ite_self _).symm
  | some fMatch =>
    cases fMatch with
    | true =>
      cases row.ulMessageFlags with
      | none => exact (ite_self _).symm
      | some ulMessageFlags => exact add_lookup ulObjId ulObjId' _
    | false =>
      by_cases hmodify : ulType = .TABLE_ROW_MODIFY
      · simp only [if_pos hmodify, Option.getD_some]
        exact remove_lookup ulObjId ulObjId'
      · simp only [if_neg hmodify, Option.getD_none, ite_self]

theorem matchRows_lookup (ulType : UpdateType) (row : ObjId → RowData) (lstObjectIDs : List ObjId) (ulObjId : ObjId) :
    (changes.matchRows (fun _ => false) ulType i (lstObjectIDs.zip (lstObjectIDs.map row))).searchresults.lookup
        ulObjId =
      if ulObjId ∈ lstObjectIDs then ((row ulObjId).writes ulType).getD (changes.searchresults.lookup ulObjId)
      else changes.searchresults.lookup ulObjId := by
  induction lstObjectIDs generalizing i changes with
  | nil => rfl
  | cons id rest ih =>
    refine ih.trans ?_
    rw [matchRow_lookup]
    by_cases heq : ulObjId = id
    · subst heq
      rw [if_pos rfl, if_pos List.mem_cons_self]
      -- to write the same twice is to write it once
      cases (row ulObjId).writes ulType <;> exact ite_self _
    · rw [if_neg heq]
      simp only [List.mem_cons, heq, false_or]

theorem removeAll_lookup (lstObjectIDs : List ObjId) (ulObjId : ObjId) :
    (changes.removeAll (fun _ => false) i lstObjectIDs).searchresults.lookup ulObjId =
      if ulObjId ∈ lstObjectIDs then none else changes.searchresults.lookup ulObjId := by
  induction lstObjectIDs generalizing i changes with
  | nil => rfl
  | cons id rest ih =>
    refine ih.trans ?_
    rw [remove_lookup]
    by_cases heq : ulObjId = id
    · subst heq
      rw [if_pos rfl, if_pos List.mem_cons_self]
      exact ite_self _
    · rw [if_neg heq]
      simp only [List.mem_cons, heq, false_or]

end

section

variable {setup : Setup} {ulFolderId : ObjId} {ulType : UpdateType}

theorem commitChanges_eq (folder : SearchFolder) (changes : Changes) :
    ∃ changed, commitChanges (fun _ => false) folder changes = .committed changed ∧
      changed.searchresults = changes.searchresults := by
  have hran : ∀ (folder : SearchFolder) ulPropTag lDelta,
      (UpdateFolderCount (fun _ => false) folder ulPropTag lDelta).2 = .erSuccess := fun _ _ _ =>
    UpdateFolderCount_succeeds.mpr (Or.inr ⟨rfl, rfl⟩)
  have hrows : ∀ (folder : SearchFolder) ulPropTag lDelta,
      (UpdateFolderCount (fun _ => false) folder ulPropTag lDelta).1.searchresults = folder.searchresults := by
    intro folder ulPropTag lDelta
    rw [UpdateFolderCount_eq (hran folder ulPropTag lDelta)]
    cases ulPropTag <;> rfl
  unfold commitChanges
  dsimp only
  rw [if_neg Bool.false_ne_true]
  by_cases hcounts : changes.lCount ≠ 0 ∨ changes.lUnreadCount ≠ 0
  · rw [if_pos hcounts, if_pos (hran _ _ _), if_pos (hran _ _ _)]
    exact ⟨_, rfl, (hrows _ _ _).trans (hrows _ _ _)⟩
  · rw [if_neg hcounts]
    exact ⟨_, rfl, rfl⟩

theorem IsTarget_congr {GetObjectFromEntryId : List UInt8 → Option ObjId} {lpFolders : List (List UInt8)}
    {folders folders' : List ObjId} (h : ∀ id, id ∈ folders ↔ id ∈ folders') :
    IsTarget GetObjectFromEntryId lpFolders folders = IsTarget GetObjectFromEntryId lpFolders folders' := by
  unfold IsTarget
  simp only [h]

variable (ulType) in
/-- The parents that a change has collected are those of its folder. -/
theorem bIsInTargetFolder_eq (criteria : SearchCriteria) (lpFolders : List (List UInt8)) (lstObjectIDs : List ObjId)
    (id : ObjId) {setParents : List ObjId} (hparents : setParents ⊆ ulFolderId :: setup.lstParents ulFolderId) :
    (bIsInTargetFolder (setup.attempt ulFolderId lstObjectIDs id) criteria lpFolders ulType ulFolderId
        setParents).1 = setup.InTarget ulFolderId ulType criteria lpFolders ∧
      (bIsInTargetFolder (setup.attempt ulFolderId lstObjectIDs id) criteria lpFolders ulType ulFolderId
        setParents).2 ⊆ ulFolderId :: setup.lstParents ulFolderId := by
  unfold bIsInTargetFolder Setup.InTarget Setup.attempt
  dsimp only
  by_cases hdelete : ulType = .TABLE_ROW_DELETE
  · rw [if_pos hdelete]
    exact ⟨by rw [hdelete]; rfl, hparents⟩
  rw [if_neg hdelete, decide_eq_true hdelete, Bool.true_and]
  by_cases hfolder : IsTarget setup.GetObjectFromEntryId lpFolders [ulFolderId] = true
  · rw [if_pos hfolder, hfolder]
    exact ⟨rfl, hparents⟩
  rw [if_neg hfolder, Bool.eq_false_of_not_eq_true hfolder, Bool.false_or]
  by_cases hrecursive : Has criteria.ulFlags RECURSIVE_SEARCH
  · rw [if_pos hrecursive, decide_eq_true hrecursive, Bool.true_and]
    refine ⟨IsTarget_congr fun id => ?_, List.append_subset.mpr ⟨List.Subset.refl _, hparents⟩⟩
    rw [List.mem_append]
    exact or_iff_left_of_imp fun hid => hparents hid
  · rw [if_neg hrecursive, decide_eq_false hrecursive, Bool.false_and]
    exact ⟨rfl, hparents⟩

/-- What a change makes of a search folder, and whether it goes on. -/
structure Setup.Follows (setup : Setup) (ulFolderId : ObjId) (ulType : UpdateType) (lstObjectIDs : List ObjId)
    (id : ObjId) (criteria : SearchCriteria) (folder changed : SearchFolder) (goesOn : Bool) : Prop where
  goesOn : goesOn = !setup.endsAt ulFolderId ulType id criteria
  lookup : ∀ ulObjId, changed.searchresults.lookup ulObjId =
    if ulObjId ∈ lstObjectIDs then
      (setup.folderWrites ulFolderId ulType id criteria ulObjId).getD (folder.searchresults.lookup ulObjId)
    else folder.searchresults.lookup ulObjId

variable {lstObjectIDs : List ObjId} {id : ObjId} {criteria : SearchCriteria}

variable (setup ulFolderId ulType lstObjectIDs id) in
/-- What `collectChanges` makes of the results, nothing where the change ends. -/
theorem collectChanges_eq {lpFolders : List (List UInt8)} (hfolders : criteria.lpFolders = some lpFolders)
    (hrestrict : criteria.fRestrict = true) (folder : SearchFolder) :
    match collectChanges (setup.attempt ulFolderId lstObjectIDs id) lstObjectIDs ulType
      (setup.InTarget ulFolderId ulType criteria lpFolders) folder.searchresults with
    | none => setup.Follows ulFolderId ulType lstObjectIDs id criteria folder folder false
    | some changes =>
      ∀ changed : SearchFolder, changed.searchresults = changes.searchresults →
        setup.Follows ulFolderId ulType lstObjectIDs id criteria folder changed true := by
  have hends : setup.endsAt ulFolderId ulType id criteria =
      (setup.InTarget ulFolderId ulType criteria lpFolders &&
        decide (ulType = .TABLE_ROW_ADD ∨ ulType = .TABLE_ROW_MODIFY) && (setup.lpRowSet id).isNone) := by
    unfold Setup.endsAt
    rw [hfolders, hrestrict]
    rfl
  have hwrites : ∀ ulObjId, setup.folderWrites ulFolderId ulType id criteria ulObjId =
      if setup.InTarget ulFolderId ulType criteria lpFolders then
        if ulType = .TABLE_ROW_ADD ∨ ulType = .TABLE_ROW_MODIFY then
          (setup.lpRowSet id).bind fun row => (row ulObjId).writes ulType
        else some none
      else some none := by
    intro ulObjId
    unfold Setup.folderWrites
    rw [hfolders, hrestrict]
    rfl
  have hcollect : ∀ inTarget,
      collectChanges (setup.attempt ulFolderId lstObjectIDs id) lstObjectIDs ulType inTarget folder.searchresults =
        if inTarget then
          if ulType = .TABLE_ROW_ADD ∨ ulType = .TABLE_ROW_MODIFY then
            ((setup.lpRowSet id).map fun row => lstObjectIDs.map row).map fun lpRowSet =>
              Changes.matchRows (fun _ => false) ulType 0 (lstObjectIDs.zip lpRowSet) ⟨folder.searchresults, 0, 0⟩
          else some (Changes.removeAll (fun _ => false) 0 lstObjectIDs ⟨folder.searchresults, 0, 0⟩)
        else some (Changes.removeAll (fun _ => false) 0 lstObjectIDs ⟨folder.searchresults, 0, 0⟩) := fun _ => rfl
  rw [hcollect]
  -- outside the target, and for a deletion, every object of the list is removed
  by_cases htarget : setup.InTarget ulFolderId ulType criteria lpFolders = true
  · rw [if_pos htarget]
    by_cases htype : ulType = .TABLE_ROW_ADD ∨ ulType = .TABLE_ROW_MODIFY
    · rw [if_pos htype]
      cases hrows : setup.lpRowSet id with
      | none =>
        refine ⟨by rw [hends, htarget, decide_eq_true htype, hrows]; rfl, fun ulObjId => ?_⟩
        rw [hwrites, if_pos htarget, if_pos htype, hrows]
        exact (ite_self _).symm
      | some row =>
        refine fun changed hchanged => ⟨by rw [hends, hrows, Option.isNone_some, Bool.and_false]; rfl, fun ulObjId => ?_⟩
        rw [hwrites, if_pos htarget, if_pos htype, hrows, hchanged, matchRows_lookup]
        rfl
    · rw [if_neg htype]
      refine fun changed hchanged => ⟨by rw [hends, decide_eq_false htype, Bool.and_false]; rfl, fun ulObjId => ?_⟩
      rw [hwrites, if_pos htarget, if_neg htype, hchanged, removeAll_lookup]
      rfl
  · rw [if_neg htarget]
    refine fun changed hchanged =>
      ⟨by rw [hends, Bool.eq_false_of_not_eq_true htarget, Bool.false_and]; rfl, fun ulObjId => ?_⟩
    rw [hwrites, if_neg htarget, hchanged, removeAll_lookup]
    rfl

variable (ulType lstObjectIDs id criteria) in
/-- One attempt is enough, or there is nothing to do. -/
theorem changeFolder_follows {setParents : List ObjId}
    (hparents : setParents ⊆ ulFolderId :: setup.lstParents ulFolderId) (folder : SearchFolder) :
    ∃ changed setParents' goesOn,
      changeFolder (fun _ => setup.attempt ulFolderId lstObjectIDs id) criteria ulFolderId lstObjectIDs ulType 4
          setParents folder = (changed, setParents', goesOn) ∧
        setParents' ⊆ ulFolderId :: setup.lstParents ulFolderId ∧
        setup.Follows ulFolderId ulType lstObjectIDs id criteria folder changed goesOn := by
  -- attempts that ask to go again leave the folder as it was
  have hagain : (∀ setParents, attemptChange (setup.attempt ulFolderId lstObjectIDs id) criteria ulFolderId
      lstObjectIDs ulType setParents folder = (.again, setParents)) → ∀ ulAttempts,
      changeFolder (fun _ => setup.attempt ulFolderId lstObjectIDs id) criteria ulFolderId lstObjectIDs ulType
        ulAttempts setParents folder = (folder, setParents, true) := by
    intro hagain ulAttempts
    induction ulAttempts with
    | zero => rfl
    | succ ulAttempts ih =>
      unfold changeFolder
      rw [hagain]
      exact ih
  cases hfolders : criteria.lpFolders with
  | none =>
    refine ⟨folder, setParents, true, hagain (fun setParents => ?_) 4, hparents, ?_, fun ulObjId => ?_⟩
    · unfold attemptChange
      rw [hfolders]
    · unfold Setup.endsAt
      rw [hfolders]
      rfl
    · unfold Setup.folderWrites
      rw [hfolders]
      exact (ite_self _).symm
  | some lpFolders =>
    cases hrestrict : criteria.fRestrict with
    | false =>
      refine ⟨folder, setParents, true, hagain (fun setParents => ?_) 4, hparents, ?_, fun ulObjId => ?_⟩
      · unfold attemptChange
        rw [hfolders]
        exact if_pos hrestrict
      · unfold Setup.endsAt
        rw [hfolders, hrestrict]
        rfl
      · unfold Setup.folderWrites
        rw [hfolders, hrestrict]
        exact (ite_self _).symm
    | true =>
      -- the target test adds parents of the folder only
      obtain ⟨htarget, hsub⟩ := bIsInTargetFolder_eq ulType criteria lpFolders lstObjectIDs id hparents
      have hcollected := collectChanges_eq setup ulFolderId ulType lstObjectIDs id hfolders hrestrict folder
      cases hchanges : collectChanges (setup.attempt ulFolderId lstObjectIDs id) lstObjectIDs ulType
          (setup.InTarget ulFolderId ulType criteria lpFolders) folder.searchresults with
      | none =>
        rw [hchanges] at hcollected
        refine ⟨folder, _, false, ?_, hsub, hcollected⟩
        unfold changeFolder attemptChange
        rw [hfolders]
        simp only [hrestrict, htarget, hchanges]
        rfl
      | some changes =>
        rw [hchanges] at hcollected
        obtain ⟨changed, hcommitted, hrows⟩ := commitChanges_eq folder changes
        have hcommit : commitChanges (setup.attempt ulFolderId lstObjectIDs id).fails folder changes =
          .committed changed := hcommitted
        refine ⟨changed, _, true, ?_, hsub, hcollected changed hrows⟩
        unfold changeFolder attemptChange
        rw [hfolders]
        simp only [hrestrict, htarget, hchanges, hcommit]
        rfl

theorem folderWrites_of_endsAt (h : setup.endsAt ulFolderId ulType id criteria = true) (ulObjId : ObjId) :
    setup.folderWrites ulFolderId ulType id criteria ulObjId = none := by
  unfold Setup.endsAt at h
  unfold Setup.folderWrites
  cases hfolders : criteria.lpFolders with
  | none => rfl
  | some lpFolders =>
    simp only [hfolders, Bool.and_eq_true, decide_eq_true_eq, Option.isNone_iff_eq_none] at h
    obtain ⟨⟨⟨hrestrict, htarget⟩, htype⟩, hrows⟩ := h
    simp only [hrestrict, htarget, htype, hrows, if_true]
    rfl

theorem storeWrites_of_notMem {ulObjId : ObjId} {searchFolders : List (ObjId × SearchCriteria)}
    (h : id ∉ searchFolders.map Prod.fst) : setup.storeWrites ulFolderId ulType id ulObjId searchFolders = none := by
  induction searchFolders with
  | nil => rfl
  | cons entry rest ih =>
    rw [List.map_cons, List.mem_cons, not_or] at h
    unfold Setup.storeWrites
    rw [if_neg (Ne.symm h.1), ih h.2, ite_self]

/-- The search folders of a store are followed one by one, each with its own criteria. -/
theorem changeFolders_lookup {searchFolders : List (ObjId × SearchCriteria)}
    (hnodup : (searchFolders.map Prod.fst).Nodup) {setParents : List ObjId}
    (hparents : setParents ⊆ ulFolderId :: setup.lstParents ulFolderId) (tables : Tables) (ulObjId : ObjId) :
    (changeFolders (fun id _ => setup.attempt ulFolderId lstObjectIDs id) ulFolderId lstObjectIDs ulType
        searchFolders setParents tables id).searchresults.lookup ulObjId =
      if ulObjId ∈ lstObjectIDs then
        (setup.storeWrites ulFolderId ulType id ulObjId searchFolders).getD ((tables id).searchresults.lookup ulObjId)
      else (tables id).searchresults.lookup ulObjId := by
  induction searchFolders generalizing setParents tables with
  | nil => exact (ite_self _).symm
  | cons entry rest ih =>
    obtain ⟨id', criteria⟩ := entry
    obtain ⟨hnotMem, hnodup⟩ := List.nodup_cons.mp hnodup
    obtain ⟨changed, setParents', goesOn, hfolder, hparents', hgoesOn, hlookup⟩ :=
      changeFolder_follows ulType lstObjectIDs id' criteria hparents (tables id')
    -- the first search folder of the list, after it has been followed
    have hchanged : (Function.update tables id' changed id).searchresults.lookup ulObjId =
        if id' = id ∧ ulObjId ∈ lstObjectIDs then
          (setup.folderWrites ulFolderId ulType id criteria ulObjId).getD ((tables id).searchresults.lookup ulObjId)
        else (tables id).searchresults.lookup ulObjId := by
      by_cases hid : id' = id
      · subst hid
        rw [Function.update_self, hlookup]
        simp only [true_and]
      · rw [Function.update_of_ne (Ne.symm hid), if_neg fun h => hid h.1]
    unfold changeFolders Setup.storeWrites
    rw [hfolder]
    dsimp only
    cases hends : setup.endsAt ulFolderId ulType id' criteria with
    | true =>
      rw [hends] at hgoesOn
      subst hgoesOn
      refine hchanged.trans ?_
      rw [if_pos rfl]
      by_cases hid : id' = id
      · subst hid
        rw [folderWrites_of_endsAt hends, Option.getD_none, ite_self, ite_self]
      · rw [if_neg fun h => hid h.1]
        exact (ite_self _).symm
    | false =>
      rw [hends] at hgoesOn
      subst hgoesOn
      refine (ih hnodup hparents' _).trans ?_
      rw [hchanged, if_neg Bool.false_ne_true]
      by_cases hid : id' = id
      · subst hid
        rw [storeWrites_of_notMem hnotMem, if_pos rfl, Option.getD_none, ite_self]
        simp only [true_and]
      · simp only [hid, false_and, if_false]

theorem nodup_m_mapSearchFolders (ulStoreId : ObjId) : ((setup.m_mapSearchFolders ulStoreId).map Prod.fst).Nodup :=
  (setup.ascending ulStoreId).imp fun hlt heq => absurd (heq ▸ hlt) (UInt32.lt_irrefl _)

theorem ProcessMessageChange_lookup (ulStoreId : ObjId) (tables : Tables) (ulObjId : ObjId) :
    (setup.ProcessMessageChange ulStoreId ulFolderId lstObjectIDs ulType tables id).searchresults.lookup ulObjId =
      if ulObjId ∈ lstObjectIDs then
        (setup.storeWrites ulFolderId ulType id ulObjId (setup.m_mapSearchFolders ulStoreId)).getD
          ((tables id).searchresults.lookup ulObjId)
      else (tables id).searchresults.lookup ulObjId := by
  unfold Setup.ProcessMessageChange ECSearchFolders.ProcessMessageChange
  rw [if_neg (by simp)]
  exact changeFolders_lookup (nodup_m_mapSearchFolders ulStoreId) (List.nil_subset _) tables ulObjId

end

/-! ## Runs -/

/-- The events of a sequence. -/
def Sequence.events (sequence : Sequence) : List EVENT :=
  sequence.lstObjectIDs.map fun ulObjectId =>
    ⟨sequence.ulStoreId, sequence.ulFolderId, ulObjectId, sequence.ulType⟩

section

variable {setup : Setup} {id ulObjId : ObjId}

/-- The row of a message after a run. Each event decides for itself. -/
theorem processEach_lookup (lstEvents : List EVENT) (tables : Tables) :
    (setup.processEach lstEvents tables id).searchresults.lookup ulObjId =
      written (setup.writes id ulObjId) lstEvents ((tables id).searchresults.lookup ulObjId) := by
  induction lstEvents generalizing tables with
  | nil => rfl
  | cons event rest ih =>
    refine (ih _).trans (congrArg (written _ rest) ?_)
    rw [ProcessMessageChange_lookup]
    unfold Setup.writes
    dsimp only
    by_cases heq : event.ulObjectId = ulObjId
    · rw [if_pos (List.mem_singleton.mpr heq.symm), if_pos heq]
    · rw [if_neg fun hmem => heq (List.mem_singleton.mp hmem).symm, if_neg heq]
      rfl

theorem written_events (sequence : Sequence) (flags : Option UInt32) :
    written (setup.writes id ulObjId) sequence.events flags =
      if ulObjId ∈ sequence.lstObjectIDs then
        (setup.storeWrites sequence.ulFolderId sequence.ulType id ulObjId
          (setup.m_mapSearchFolders sequence.ulStoreId)).getD flags
      else flags := by
  obtain ⟨ulStoreId, ulFolderId, ulType, lstObjectIDs⟩ := sequence
  induction lstObjectIDs generalizing flags with
  | nil => rfl
  | cons ulObjectId rest ih =>
    refine (ih _).trans ?_
    dsimp only
    by_cases heq : ulObjId = ulObjectId
    · subst heq
      rw [Setup.writes, if_pos rfl, if_pos List.mem_cons_self]
      cases setup.storeWrites ulFolderId ulType id ulObjId (setup.m_mapSearchFolders ulStoreId) <;> exact ite_self _
    · rw [Setup.writes, if_neg (Ne.symm heq)]
      simp only [List.mem_cons, heq, false_or]
      rfl

theorem flush_lookup (sequence : Sequence) (tables : Tables) :
    (setup.flush sequence tables id).searchresults.lookup ulObjId =
      written (setup.writes id ulObjId) sequence.events ((tables id).searchresults.lookup ulObjId) := by
  rw [written_events]
  unfold Setup.flush
  by_cases hempty : sequence.lstObjectIDs = []
  · rw [if_pos hempty, hempty]
    rfl
  · rw [if_neg hempty, ProcessMessageChange_lookup]
    simp only [mem_unique, mem_stableSort]

/-- The loop writes what the sequence that is left and the events that follow write one by one. -/
theorem flushLoop_lookup {lstEvents : List EVENT}
    (hstores : ∀ event ∈ lstEvents, event.ulStoreId = setup.GetStore event.ulFolderId) {sequence : Sequence}
    (hstore : sequence.lstObjectIDs ≠ [] → sequence.ulStoreId = setup.GetStore sequence.ulFolderId)
    (tables : Tables) : (setup.flushLoop lstEvents sequence tables id).searchresults.lookup ulObjId =
      written (setup.writes id ulObjId) (sequence.events ++ lstEvents)
        ((tables id).searchresults.lookup ulObjId) := by
  induction lstEvents generalizing sequence tables with
  | nil => rw [Setup.flushLoop, flush_lookup, List.append_nil]
  | cons event rest ih =>
    obtain ⟨hevent, hrest⟩ := List.forall_mem_cons.mp hstores
    rw [Setup.flushLoop]
    by_cases hchange : event.ulFolderId ≠ sequence.ulFolderId ∨ event.ulType ≠ sequence.ulType
    · rw [if_pos hchange, ih hrest fun _ => hevent, flush_lookup, ← written_append]
      rfl
    · rw [if_neg hchange, ih hrest fun _ => hevent]
      rw [not_or, not_not, not_not] at hchange
      -- the store of the sequence is that of the event, since the folder is
      have hevents : Sequence.events ⟨event.ulStoreId, event.ulFolderId, event.ulType,
          sequence.lstObjectIDs ++ [event.ulObjectId]⟩ = sequence.events ++ [event] := by
        unfold Sequence.events
        rw [List.map_append]
        refine congrArg (· ++ [event]) (List.map_congr_left fun ulObjectId hmem => ?_)
        dsimp only
        rw [hevent, hchange.1, hchange.2, hstore (List.ne_nil_of_mem hmem)]
      rw [hevents, List.append_assoc]
      rfl

theorem FlushEvents_lookup (queue : setup.Queue) (tables : Tables) :
    ((setup.FlushEvents queue.m_lstEvents tables).2 id).searchresults.lookup ulObjId =
      written (setup.writes id ulObjId)
        (stableSort (fun event => event.ulFolderId.toNat) (queue.m_lstEvents.take 500))
        ((tables id).searchresults.lookup ulObjId) :=
  flushLoop_lookup (fun event hevent => queue.stores event (List.mem_of_mem_take (mem_stableSort.mp hevent)))
    (fun hne => absurd rfl hne) tables

end

/-- A run of `FlushEvents` leaves the results as one call for each of its events does exactly when, for each result,
the folder with the greatest id has the last word. -/
theorem flushEvents_iff (setup : Setup) (queue : setup.Queue) (tables : Tables) :
    SameResults (setup.FlushEvents queue.m_lstEvents tables).2
        (setup.processEach (queue.m_lstEvents.take 500) tables) ↔ setup.LastDecides (queue.m_lstEvents.take 500) := by
  unfold SameResults Setup.LastDecides
  refine forall_congr' fun id => forall_congr' fun ulObjId => ?_
  rw [FlushEvents_lookup, processEach_lookup]
  exact written_stableSort_eq_iff _ _ _

/-- Store 1 with the search folder 5 over the folder 10, where all messages match. -/
def oneTarget : Setup where
  m_mapSearchFolders ulStoreId := if ulStoreId = 1 then [(5, ⟨some [[10]], true, 0⟩)] else []
  ascending ulStoreId := by split_ifs <;> simp
  GetStore _ := 1
  GetObjectFromEntryId entryid := if entryid = [10] then some 10 else none
  lstParents _ := [1]
  lpRowSet _ := some fun _ => ⟨some true, some 0⟩

/-- The message 7 has changed in the folder 20, and after that it has been moved to the folder 10. -/
def movedMessage : oneTarget.Queue where
  m_lstEvents := [⟨1, 20, 7, .TABLE_ROW_MODIFY⟩, ⟨1, 10, 7, .TABLE_ROW_MODIFY⟩]
  stores := by decide

/-- One by one the events leave the message in the search folder, and the batch takes it out. -/
theorem not_flushEvents_moved : ¬ SameResults (oneTarget.FlushEvents movedMessage.m_lstEvents fun _ => .new).2
      (oneTarget.processEach (movedMessage.m_lstEvents.take 500) fun _ => .new) := by
  intro hsame
  have hrow := hsame 5 7
  rw [FlushEvents_lookup, processEach_lookup] at hrow
  revert hrow
  decide

end Zcp.Libserver.ECSearchFolders
