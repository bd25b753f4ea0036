import Zcp.Libserver.ECSearchFolders

/-!
# The counters of a search folder

A search folder has one counter for its results and one for those that are unread. Each function keeps both, with
differences that it collects from the statements on the results. The second counter is lost when its statement fails
in `ProcessCandidateRows` with `bNotify`, which commits the results all the same.
-/

namespace Zcp.Libserver.ECSearchFolders

open Common Lib ZarafaCmdUtil

/-! ## Exact counters -/

/-- The flags of a row, of which there are two. -/
def IsReadFlag (flags : UInt32) : Prop := flags = 0 ∨ flags = MSGFLAG_READ

/-- The number of unread results. -/
def unread (searchresults : SearchResults) : ℕ := searchresults.count fun flags => flags = 0

/-- Both counters are those of the results. -/
structure SearchFolder.Exact (folder : SearchFolder) : Prop where
  flags : folder.searchresults.All IsReadFlag
  count : folder.contentCount = folder.searchresults.size
  unread : folder.contentUnread = unread folder.searchresults

/-- The counters of all search folders are exact. -/
def Tables.Exact (tables : Tables) : Prop := ∀ ulFolderId, (tables ulFolderId).Exact

/-- A folder without results has exact counters, both of them 0. -/
theorem new_exact : SearchFolder.new.Exact :=
  ⟨KeyedTable.all_empty _, KeyedTable.size_empty.symm, (KeyedTable.count_empty _).symm⟩

/-- What is left of the flags of a message by the mask is a value of the column of read flags. -/
theorem isReadFlag_and (ulMessageFlags : UInt32) : IsReadFlag (ulMessageFlags &&& MSGFLAG_READ) := by
  have hmod : (ulMessageFlags &&& MSGFLAG_READ).toNat = ulMessageFlags.toNat % 2 := by
    rw [UInt32.toNat_and]
    exact Nat.and_one_is_mod _
  rcases Nat.mod_two_eq_zero_or_one ulMessageFlags.toNat with h | h
  · exact Or.inl (UInt32.toNat_inj.mp (hmod.trans h))
  · exact Or.inr (UInt32.toNat_inj.mp (hmod.trans h))

section

variable {searchresults : SearchResults} {k : ObjId}

/-- An entry that is taken out takes one unread message with it if its flag is 0. -/
theorem unread_erase {v : UInt32} (h : searchresults.lookup k = some v) :
    unread (searchresults.erase k) + (if v = 0 then 1 else 0) = unread searchresults := by
  unfold unread
  simpa only [decide_eq_true_eq] using KeyedTable.count_erase (fun flags => decide (flags = 0)) h

/-- A new entry adds an unread message if its flag is 0. -/
theorem unread_insert_new (v : UInt32) (h : searchresults.lookup k = none) :
    unread (searchresults.insert k v) = unread searchresults + (if v = 0 then 1 else 0) := by
  unfold unread
  simpa only [decide_eq_true_eq] using KeyedTable.count_insert_new (fun flags => decide (flags = 0)) v h

/-- An entry that is written over changes the unread messages by the difference of the two flags. -/
theorem unread_insert_over (v : UInt32) {w : UInt32} (h : searchresults.lookup k = some w) :
    unread (searchresults.insert k v) + (if w = 0 then 1 else 0) =
      unread searchresults + (if v = 0 then 1 else 0) := by
  unfold unread
  simpa only [decide_eq_true_eq] using KeyedTable.count_insert_over (fun flags => decide (flags = 0)) v h

end

/-- Results that have changed, with counts that say by how many. -/
structure Changes.Sound (old : SearchResults) (changes : Changes) : Prop where
  flags : changes.searchresults.All IsReadFlag
  count : (changes.searchresults.size : ℤ) = old.size + changes.lCount
  unread : (unread changes.searchresults : ℤ) = unread old + changes.lUnreadCount

/-- Before the first message the collected numbers are 0 and the results are those of the folder. -/
theorem sound_start {searchresults : SearchResults} (hflags : searchresults.All IsReadFlag) :
    Changes.Sound searchresults ⟨searchresults, 0, 0⟩ :=
  ⟨hflags, (add_zero _).symm, (add_zero _).symm⟩

/-- The counters with the changes added are exact. -/
theorem SearchFolder.Exact.addCounts {folder : SearchFolder} (hexact : folder.Exact) {changes : Changes}
    (hsound : changes.Sound folder.searchresults) :
    SearchFolder.Exact ⟨changes.searchresults, addDelta folder.contentCount changes.lCount,
      addDelta folder.contentUnread changes.lUnreadCount⟩ where
  flags := hsound.flags
  count := by
    show addDelta folder.contentCount changes.lCount = changes.searchresults.size
    rw [addDelta_eq, hexact.count, ← hsound.count, Int.toNat_natCast]
  unread := by
    show addDelta folder.contentUnread changes.lUnreadCount = ECSearchFolders.unread changes.searchresults
    rw [addDelta_eq, hexact.unread, ← hsound.unread, Int.toNat_natCast]

/-! ## Changes of messages -/

variable {ulObjId : ObjId}

section

variable {fails : Call → Bool} {old : SearchResults} {changes : Changes}

variable {ulFlags : UInt32}

/-- An `INSERT` that succeeds has changed the flags of one entry, or has added it; it says which. -/
theorem AddResults_eq {i : ℕ} {searchresults searchresults' : SearchResults} {fInserted : Bool}
    (h : AddResults fails i searchresults ulObjId ulFlags = some (searchresults', fInserted)) :
    searchresults.lookup ulObjId ≠ some ulFlags ∧ searchresults' = searchresults.insert ulObjId ulFlags ∧
      fInserted = (searchresults.lookup ulObjId).isNone := by
  unfold AddResults at h
  split_ifs at h with hselect hsame hinsert
  obtain ⟨h₁, h₂⟩ := Prod.mk.inj (Option.some.inj h)
  exact ⟨hsame, h₁.symm, h₂.symm⟩

/-- A `DELETE` that succeeds has taken out an entry that was there, and returns its flags. -/
theorem DeleteResults_eq {i : ℕ} {searchresults searchresults' : SearchResults}
    (h : DeleteResults fails i searchresults ulObjId = some (searchresults', ulFlags)) :
    searchresults.lookup ulObjId = some ulFlags ∧ searchresults' = searchresults.erase ulObjId := by
  unfold DeleteResults at h
  by_cases hselect : fails (.SelectFlags i)
  · rw [if_pos hselect] at h
    cases h
  · rw [if_neg hselect] at h
    split at h
    · cases h
    · next ulOldFlags hlookup =>
      by_cases hdelete : fails (.DeleteResult i)
      · rw [if_pos hdelete] at h
        cases h
      · rw [if_neg hdelete] at h
        obtain ⟨h₁, h₂⟩ := Prod.mk.inj (Option.some.inj h)
        exact ⟨h₂ ▸ hlookup, h₁.symm⟩

/-- One message that matches: the collected numbers keep up with the results, whether the `INSERT` succeeds or not. -/
theorem add_sound (hsound : changes.Sound old) (i : ℕ) (ulObjId : ObjId)
    (hflags : IsReadFlag ulFlags) : (changes.add fails i ulObjId ulFlags).Sound old := by
  obtain ⟨hall, hcount, hunread⟩ := hsound
  unfold Changes.add
  split
  · next searchresults h =>
    obtain ⟨-, rfl, hnone⟩ := AddResults_eq h
    have hlookup : changes.searchresults.lookup ulObjId = none := Option.isNone_iff_eq_none.mp hnone.symm
    have hsize := KeyedTable.size_insert_new ulFlags hlookup
    have hzero := unread_insert_new ulFlags hlookup
    refine ⟨hall.insert _ hflags, ?_, ?_⟩ <;> dsimp only
    · omega
    · split_ifs at hzero ⊢ <;> omega
  · next searchresults h =>
    obtain ⟨hne, rfl, hsome⟩ := AddResults_eq h
    obtain ⟨w, hw⟩ : ∃ w, changes.searchresults.lookup ulObjId = some w :=
      Option.ne_none_iff_exists'.mp fun hnone => by rw [hnone] at hsome; cases hsome
    have hsize := KeyedTable.size_insert_over ulFlags hw
    have hzero := unread_insert_over ulFlags hw
    -- there are two flags only, so the row had the other one
    have hother : w = 0 ↔ ulFlags ≠ 0 := by
      have hwne : w ≠ ulFlags := fun h => hne (h ▸ hw)
      rcases hall _ _ hw with rfl | rfl <;> rcases hflags with rfl | rfl <;> simp_all [MSGFLAG_READ]
    refine ⟨hall.insert _ hflags, ?_, ?_⟩ <;> dsimp only
    · omega
    · by_cases hread : ulFlags = 0
      · rw [if_neg (fun h => hother.mp h hread), if_pos hread] at hzero
        rw [if_pos hread]
        omega
      · rw [if_pos (hother.mpr hread), if_neg hread] at hzero
        rw [if_neg hread]
        omega
  · exact ⟨hall, hcount, hunread⟩

/-- One message that does not match any more: the collected numbers keep up with the results. -/
theorem remove_sound (hsound : changes.Sound old) (i : ℕ) (ulObjId : ObjId) :
    (changes.remove fails i ulObjId).Sound old := by
  obtain ⟨hall, hcount, hunread⟩ := hsound
  unfold Changes.remove
  split
  · next searchresults ulFlags h =>
    obtain ⟨hlookup, rfl⟩ := DeleteResults_eq h
    have hsize := KeyedTable.size_erase hlookup
    have hzero := unread_erase hlookup
    refine ⟨hall.erase _, ?_, ?_⟩ <;> dsimp only
    · omega
    · split_ifs at hzero ⊢ <;> omega
  · exact ⟨hall, hcount, hunread⟩

/-- One row of the table that is searched, which is added or removed according to the kind of the event. -/
theorem matchRow_sound (hsound : changes.Sound old) (ulType : UpdateType) (i : ℕ) (ulObjId : ObjId) (row : RowData) :
    (changes.matchRow fails ulType i ulObjId row).Sound old := by
  unfold Changes.matchRow
  split
  · exact hsound
  · split
    · exact hsound
    · exact add_sound hsound i ulObjId (isReadFlag_and _)
  · split_ifs
    · exact remove_sound hsound i ulObjId
    · exact hsound

/-- All rows of an event. The induction is on the rows, with the numbers collected so far. -/
theorem matchRows_sound (ulType : UpdateType) (rows : List (ObjId × RowData)) (i : ℕ)
    (hsound : changes.Sound old) : (changes.matchRows fails ulType i rows).Sound old := by
  induction rows generalizing i changes with
  | nil => exact hsound
  | cons row rest ih => exact ih (i + 1) (matchRow_sound hsound ulType i row.1 row.2)

/-- The messages of an event that were deleted, or are outside of the searched folders. -/
theorem removeAll_sound (lstObjectIDs : List ObjId) (i : ℕ) (hsound : changes.Sound old) :
    (changes.removeAll fails i lstObjectIDs).Sound old := by
  induction lstObjectIDs generalizing i changes with
  | nil => exact hsound
  | cons ulObjId rest ih => exact ih (i + 1) (remove_sound hsound i ulObjId)

/-- What one attempt has collected before it writes the counters, whichever way it took. -/
theorem collectChanges_sound {attempt : Attempt} {lstObjectIDs : List ObjId} {ulType : UpdateType} {inTarget : Bool}
    (hflags : old.All IsReadFlag) (h : collectChanges attempt lstObjectIDs ulType inTarget old = some changes) :
    changes.Sound old := by
  have hstart := sound_start hflags
  unfold collectChanges at h
  split_ifs at h with htarget hsession htype
  · obtain ⟨lpRowSet, -, rfl⟩ := Option.map_eq_some_iff.mp h
    exact matchRows_sound ulType _ 0 hstart
  · exact Option.some.inj h ▸ removeAll_sound lstObjectIDs 0 hstart
  · exact Option.some.inj h ▸ removeAll_sound lstObjectIDs 0 hstart

end

/-! ## The counters of a transaction -/

section

variable {fails : Call → Bool} {folder : SearchFolder}

theorem addCount_zero (ulPropTag : Counter) : folder.addCount ulPropTag 0 = folder := by
  have hzero : ∀ n : ℕ, addDelta n 0 = n := fun n => by rw [addDelta_eq, add_zero, Int.toNat_natCast]
  unfold SearchFolder.addCount
  split <;> simp only [hzero]

variable {ulPropTag : Counter} {lDelta : ℤ}

/-- Without an error of the first statement the counter is that with the difference. -/
theorem UpdateFolderCount_fst (hran : lDelta = 0 ∨ fails (.UpdateCounter ulPropTag) = false) :
    (UpdateFolderCount fails folder ulPropTag lDelta).1 = folder.addCount ulPropTag lDelta := by
  unfold UpdateFolderCount
  by_cases hzero : lDelta = 0
  · rw [if_pos hzero, hzero, addCount_zero]
  · rw [if_neg hzero, if_neg (by rw [hran.resolve_left hzero]; decide)]

/-- The counter is written successfully if there is nothing to add, or if neither of its two statements fails. -/
theorem UpdateFolderCount_succeeds : (UpdateFolderCount fails folder ulPropTag lDelta).2 = .erSuccess ↔
      lDelta = 0 ∨ fails (.UpdateCounter ulPropTag) = false ∧ fails (.UpdateTProp ulPropTag) = false := by
  unfold UpdateFolderCount
  by_cases hzero : lDelta = 0 <;> by_cases hcounter : fails (.UpdateCounter ulPropTag) <;>
    by_cases htprop : fails (.UpdateTProp ulPropTag) <;> simp [hzero, hcounter, htprop]

/-- A success means that the counter has been changed by the difference. -/
theorem UpdateFolderCount_eq (h : (UpdateFolderCount fails folder ulPropTag lDelta).2 = .erSuccess) :
    (UpdateFolderCount fails folder ulPropTag lDelta).1 = folder.addCount ulPropTag lDelta :=
  UpdateFolderCount_fst ((UpdateFolderCount_succeeds.mp h).imp_right And.left)

/-- A transaction that is committed leaves exact counters: both were changed by what was collected. -/
theorem commitChanges_exact (hexact : folder.Exact) {changes : Changes} (hsound : changes.Sound folder.searchresults)
    {changed : SearchFolder} (h : commitChanges fails folder changes = .committed changed) : changed.Exact := by
  have hadded := hexact.addCounts hsound
  unfold commitChanges at h
  dsimp only at h
  by_cases hcommit : fails .Commit
  · simp only [hcommit, if_true, ite_self, reduceCtorEq] at h
  rw [if_neg hcommit, if_neg hcommit] at h
  by_cases hcounts : changes.lCount ≠ 0 ∨ changes.lUnreadCount ≠ 0
  · rw [if_pos hcounts] at h
    split_ifs at h with hcount hunread
    obtain rfl := Ending.committed.inj h
    rw [UpdateFolderCount_eq hunread, UpdateFolderCount_eq hcount]
    exact hadded
  · rw [if_neg hcounts] at h
    rw [not_or, not_not, not_not] at hcounts
    obtain rfl := Ending.committed.inj h
    rw [hcounts.1, hcounts.2, addDelta_eq, addDelta_eq, add_zero, add_zero, Int.toNat_natCast,
      Int.toNat_natCast] at hadded
    exact hadded

end

/-! ## `ProcessMessageChange` -/

variable {tables : Tables}

section

variable {criteria : SearchCriteria} {ulFolderId : ObjId} {lstObjectIDs : List ObjId} {ulType : UpdateType}

/-- One attempt at an event ends with exact counters if it commits, since all of it is one transaction. -/
theorem attemptChange_exact {attempt : Attempt} {setParents : List ObjId} {folder changed : SearchFolder}
    (hexact : folder.Exact)
    (h : (attemptChange attempt criteria ulFolderId lstObjectIDs ulType setParents folder).1 = .committed changed) :
    changed.Exact := by
  unfold attemptChange at h
  split at h
  · cases h
  · split_ifs at h
    dsimp only at h
    split at h
    · cases h
    · next changes hchanges => exact commitChanges_exact hexact (collectChanges_sound hexact.flags hchanges) h

/-- However many attempts are rolled back, the folder has exact counters after the last one. -/
theorem changeFolder_exact (attempts : ℕ → Attempt) (ulAttempts : ℕ) (setParents : List ObjId)
    {folder : SearchFolder} (hexact : folder.Exact) :
    (changeFolder attempts criteria ulFolderId lstObjectIDs ulType ulAttempts setParents folder).1.Exact := by
  induction ulAttempts generalizing setParents with
  | zero => exact hexact
  | succ ulAttempts ih =>
    unfold changeFolder
    split
    · next changed setParents' h => exact attemptChange_exact hexact (congrArg Prod.fst h)
    · next setParents' h => exact ih setParents'
    · exact hexact

/-- The other search folders are not touched when one of them changes. -/
theorem Tables.Exact.update (hexact : tables.Exact) (id : ObjId) {folder : SearchFolder}
    (hfolder : folder.Exact) : Tables.Exact (Function.update tables id folder) := by
  intro id'
  by_cases hid : id' = id
  · rw [hid, Function.update_self]
    exact hfolder
  · rw [Function.update_of_ne hid]
    exact hexact id'

/-- An event goes through all search folders of the store, and each of them keeps exact counters. -/
theorem changeFolders_exact (attempts : ObjId → ℕ → Attempt) (searchFolders : List (ObjId × SearchCriteria))
    (setParents : List ObjId) (hexact : tables.Exact) :
    (changeFolders attempts ulFolderId lstObjectIDs ulType searchFolders setParents tables).Exact := by
  induction searchFolders generalizing setParents tables with
  | nil => exact hexact
  | cons entry rest ih =>
    obtain ⟨id, criteria⟩ := entry
    have hchanged : Tables.Exact (Function.update tables id
        (changeFolder (attempts id) criteria ulFolderId lstObjectIDs ulType 4 setParents (tables id)).1) :=
      hexact.update id (changeFolder_exact (attempts id) 4 setParents (hexact id))
    unfold changeFolders
    dsimp only
    split_ifs
    · exact ih _ hchanged
    · exact hchanged

end

/-! ## The rows of a search

All found messages are inserted as read, and those that are unread are changed after that. -/

section

variable {fails : Call → Bool}

/-- A message that is in the results already is ignored, and not counted. -/
theorem insertIgnore_old {inserted : SearchResults × ℕ} (h : ulObjId ∈ inserted.1) :
    insertIgnore inserted ulObjId = inserted := if_pos h

/-- A message that is not in the results is added as read, and counted. -/
theorem insertIgnore_new {inserted : SearchResults × ℕ} (h : ulObjId ∉ inserted.1) :
    insertIgnore inserted ulObjId = (inserted.1.insert ulObjId MSGFLAG_READ, inserted.2 + 1) := if_neg h

/-- What an `INSERT IGNORE` of some objects makes of the results. -/
structure Inserted (lstObjId : List ObjId) (before after : SearchResults × ℕ) : Prop where
  flags : before.1.All IsReadFlag → after.1.All IsReadFlag
  count : after.1.size + before.2 = before.1.size + after.2
  unread : unread after.1 = unread before.1
  grows : before.2 ≤ after.2
  none_new : after.2 = before.2 ↔ ∀ ulObjId ∈ lstObjId, ulObjId ∈ before.1
  mem : ∀ ulObjId ∈ lstObjId, ulObjId ∈ after.1
  keeps : ∀ ulObjId ∈ before.1, ulObjId ∈ after.1
  lookup_unread : ∀ ulObjId, after.1.lookup ulObjId = some 0 ↔ before.1.lookup ulObjId = some 0

/-- What `INSERT IGNORE` of a list has done: the list is in the results, and the old entries keep their flags. -/
theorem foldl_insertIgnore (lstObjId : List ObjId) (inserted : SearchResults × ℕ) :
    Inserted lstObjId inserted (lstObjId.foldl insertIgnore inserted) := by
  induction lstObjId generalizing inserted with
  | nil => exact ⟨id, rfl, rfl, le_refl _, by simp, by simp, fun _ => id, fun _ => Iff.rfl⟩
  | cons ulObjId rest ih =>
    rw [List.foldl_cons]
    by_cases hmem : ulObjId ∈ inserted.1
    · rw [insertIgnore_old hmem]
      obtain ⟨hflags, hcount, hunread, hgrows, hnone, hall, hkeeps, hlookup⟩ := ih inserted
      refine ⟨hflags, hcount, hunread, hgrows, ?_, ?_, hkeeps, hlookup⟩
      · rw [hnone, List.forall_mem_cons]
        exact (and_iff_right hmem).symm
      · exact List.forall_mem_cons.mpr ⟨hkeeps _ hmem, hall⟩
    · have hlookupNone : inserted.1.lookup ulObjId = none := AList.lookup_eq_none.mpr hmem
      have hsize := KeyedTable.size_insert_new MSGFLAG_READ hlookupNone
      have hzero := unread_insert_new MSGFLAG_READ hlookupNone
      rw [if_neg (by decide), add_zero] at hzero
      rw [insertIgnore_new hmem]
      obtain ⟨hflags, hcount, hunread, hgrows, hnone, hall, hkeeps, hlookup⟩ :=
        ih (inserted.1.insert ulObjId MSGFLAG_READ, inserted.2 + 1)
      dsimp only at hflags hcount hunread hgrows hkeeps hlookup
      refine ⟨fun h => hflags (h.insert _ (Or.inr rfl)), by omega, hunread.trans hzero, by omega, ?_, ?_, ?_, ?_⟩
      · refine ⟨fun h => by omega, fun h => ?_⟩
        exact absurd (h ulObjId List.mem_cons_self) hmem
      · exact List.forall_mem_cons.mpr ⟨hkeeps _ ((AList.mem_insert _).mpr (Or.inl rfl)), hall⟩
      · exact fun id hid => hkeeps id ((AList.mem_insert _).mpr (Or.inr hid))
      · intro id
        rw [hlookup id]
        by_cases hid : id = ulObjId
        · rw [hid, AList.lookup_insert, hlookupNone]
          decide
        · rw [AList.lookup_insert_ne hid]

/-- What the updates of the flags make of the results. -/
structure Updated (lstObjId : List ObjId) (before after : SearchResults × ℕ) : Prop where
  flags : before.1.All IsReadFlag → after.1.All IsReadFlag
  count : after.1.size = before.1.size
  unread : unread after.1 + before.2 = unread before.1 + after.2
  grows : before.2 ≤ after.2
  none_changed : after.2 = before.2 ↔ ∀ ulObjId ∈ lstObjId, ulObjId ∈ before.1 → before.1.lookup ulObjId = some 0

/-- What the updates of a list have done: its messages are unread, and each that was read has been counted once. -/
theorem foldl_updateFlags (lstObjId : List ObjId) (modified : SearchResults × ℕ) :
    Updated lstObjId modified (lstObjId.foldl updateFlags modified) := by
  induction lstObjId generalizing modified with
  | nil => exact ⟨id, rfl, rfl, le_refl _, by simp⟩
  | cons ulObjId rest ih =>
    rw [List.foldl_cons]
    by_cases hsame : ulObjId ∈ modified.1 → modified.1.lookup ulObjId = some 0
    · have hstep : updateFlags modified ulObjId = modified := by
        unfold updateFlags
        split
        · rfl
        · next flags hflags =>
          have hzero := hsame (AList.lookup_isSome.mp (by rw [hflags]; rfl))
          rw [hflags] at hzero
          rw [if_pos (Option.some.inj hzero)]
      rw [hstep]
      obtain ⟨hflags, hcount, hunread, hgrows, hnone⟩ := ih modified
      refine ⟨hflags, hcount, hunread, hgrows, ?_⟩
      rw [hnone, List.forall_mem_cons]
      exact (and_iff_right hsame).symm
    · obtain ⟨hmem, hne⟩ := Classical.not_imp.mp hsame
      obtain ⟨flags, hflags⟩ := Option.isSome_iff_exists.mp (AList.lookup_isSome.mpr hmem)
      have hflagsne : flags ≠ 0 := fun h => hne (h ▸ hflags)
      have hstep : updateFlags modified ulObjId = (modified.1.insert ulObjId 0, modified.2 + 1) := by
        unfold updateFlags
        rw [hflags]
        exact if_neg hflagsne
      have hsize := KeyedTable.size_insert_over 0 hflags
      have hzero := unread_insert_over 0 hflags
      rw [if_neg hflagsne, if_pos rfl, add_zero] at hzero
      rw [hstep]
      obtain ⟨hall, hcount, hunread, hgrows, -⟩ := ih (modified.1.insert ulObjId 0, modified.2 + 1)
      dsimp only at hall hcount hunread hgrows
      refine ⟨fun h => hall (h.insert _ (Or.inl rfl)), hcount.trans hsize, by omega, by omega, ?_⟩
      exact ⟨fun h => by omega, fun h => absurd (h ulObjId List.mem_cons_self) hsame⟩

/-- The unread ones of the messages that are found. -/
def unreadMatches (lstMatches : List (ObjId × UInt32)) : List ObjId :=
  (lstMatches.filter fun found => found.2 = 0).map Prod.fst

/-- The messages that are updated are those found with the flag 0. -/
theorem mem_unreadMatches {lstMatches : List (ObjId × UInt32)} :
    ulObjId ∈ unreadMatches lstMatches ↔ (ulObjId, 0) ∈ lstMatches := by
  simp [unreadMatches]

/-- Updates that all succeed have changed the unread matches one after the other. -/
theorem updateUnread_eq (lstMatches : List (ObjId × UInt32)) (i : ℕ) {modified modified' : SearchResults × ℕ}
    (h : updateUnread fails i lstMatches modified = some modified') :
    modified' = (unreadMatches lstMatches).foldl updateFlags modified := by
  induction lstMatches generalizing i modified with
  | nil => exact (Option.some.inj h).symm
  | cons found rest ih =>
    obtain ⟨ulObjId, ulFlags⟩ := found
    unfold updateUnread at h
    by_cases hzero : ulFlags = 0
    · rw [if_pos hzero] at h
      by_cases hfails : fails (.UpdateFlags i)
      · rw [if_pos hfails] at h
        cases h
      · rw [if_neg hfails] at h
        have hcons : unreadMatches ((ulObjId, ulFlags) :: rest) = ulObjId :: unreadMatches rest := by
          simp [unreadMatches, hzero]
        rw [hcons, List.foldl_cons]
        exact ih (i + 1) h
    · rw [if_neg hzero] at h
      have hcons : unreadMatches ((ulObjId, ulFlags) :: rest) = unreadMatches rest := by
        simp [unreadMatches, hzero]
      rw [hcons]
      exact ih (i + 1) h

/-- The updates succeed if the statement of none of the unread matches fails. -/
theorem updateUnread_isSome (lstMatches : List (ObjId × UInt32)) (i : ℕ) (modified : SearchResults × ℕ) :
    (updateUnread fails i lstMatches modified).isSome ↔
      ∀ j ulObjId, lstMatches[j]? = some (ulObjId, 0) → fails (.UpdateFlags (i + j)) = false := by
  induction lstMatches generalizing i modified with
  | nil => simp [updateUnread]
  | cons found rest ih =>
    obtain ⟨ulObjId, ulFlags⟩ := found
    have hsplit : (∀ j id, ((ulObjId, ulFlags) :: rest)[j]? = some (id, 0) → fails (.UpdateFlags (i + j)) = false) ↔
        (ulFlags = 0 → fails (.UpdateFlags i) = false) ∧
          ∀ j id, rest[j]? = some (id, 0) → fails (.UpdateFlags (i + 1 + j)) = false := by
      constructor
      · refine fun h => ⟨fun hzero => h 0 ulObjId (by rw [hzero]; rfl), fun j id hj => ?_⟩
        have hnext := h (j + 1) id hj
        rwa [Nat.add_comm j 1, ← Nat.add_assoc] at hnext
      · rintro ⟨hhead, htail⟩ (_ | j) id hj
        · exact hhead (Prod.mk.inj (Option.some.inj hj)).2
        · rw [Nat.add_comm j 1, ← Nat.add_assoc]
          exact htail j id hj
    rw [hsplit]
    unfold updateUnread
    by_cases hzero : ulFlags = 0
    · by_cases hfails : fails (.UpdateFlags i)
      · simp [hzero, hfails]
      · rw [if_pos hzero, if_neg hfails, ih]
        simp [hzero, hfails]
    · rw [if_neg hzero, ih]
      simp [hzero]

/-- What `AddResults` for a list makes of the results. -/
structure Added (lstMatches : List (ObjId × UInt32)) (searchresults : SearchResults)
    (added : SearchResults × ℕ × ℕ) : Prop where
  sound : searchresults.All IsReadFlag → Changes.Sound searchresults ⟨added.1, added.2.1, added.2.2⟩
  inserted : added.2.1 = 0 ↔ ∀ ulObjId ulFlags, (ulObjId, ulFlags) ∈ lstMatches → ulObjId ∈ searchresults
  modified : added.2.2 = 0 ↔ ∀ ulObjId, (ulObjId, 0) ∈ lstMatches → searchresults.lookup ulObjId = some 0

/-- What a batch does to the results, with the two numbers that it returns for the counters. -/
theorem AddResultList_spec {lstMatches : List (ObjId × UInt32)} {searchresults : SearchResults}
    {added : SearchResults × ℕ × ℕ} (h : AddResultList fails searchresults lstMatches = some added) :
    Added lstMatches searchresults added := by
  unfold AddResultList at h
  by_cases hnil : lstMatches = []
  · rw [if_pos hnil] at h
    obtain rfl := Option.some.inj h
    exact ⟨sound_start, by simp [hnil], by simp [hnil]⟩
  rw [if_neg hnil] at h
  by_cases hfails : fails .InsertIgnore
  · rw [if_pos hfails] at h
    cases h
  rw [if_neg hfails] at h
  dsimp only at h
  obtain ⟨modified, hmodified, rfl⟩ := Option.map_eq_some_iff.mp h
  have hinserted := foldl_insertIgnore (lstMatches.map Prod.fst) (searchresults, 0)
  have hupdated := updateUnread_eq lstMatches 0 hmodified ▸
    foldl_updateFlags (unreadMatches lstMatches)
      (((lstMatches.map Prod.fst).foldl insertIgnore (searchresults, 0)).1, 0)
  generalize (lstMatches.map Prod.fst).foldl insertIgnore (searchresults, 0) = inserted at hinserted hupdated
  refine ⟨fun hflags => ⟨hupdated.flags (hinserted.flags hflags), ?_, ?_⟩, ?_, ?_⟩
  · have hcount := hinserted.count
    have hcount' := hupdated.count
    dsimp only at hcount hcount' ⊢
    omega
  · have hunread := hinserted.unread
    have hunread' := hupdated.unread
    dsimp only at hunread hunread' ⊢
    omega
  · rw [hinserted.none_new]
    constructor
    · exact fun h id flags hmem => h id (List.mem_map_of_mem hmem)
    · intro h id hid
      obtain ⟨found, hmem, rfl⟩ := List.mem_map.mp hid
      exact h found.1 found.2 hmem
  · rw [hupdated.none_changed]
    constructor
    · intro h id hid
      have hmem : id ∈ inserted.1 := hinserted.mem id (List.mem_map_of_mem hid)
      exact (hinserted.lookup_unread id).mp (h id (mem_unreadMatches.mpr hid) hmem)
    · exact fun h id hid _ => (hinserted.lookup_unread id).mpr (h id (mem_unreadMatches.mp hid))

/-- A batch is added if the `INSERT IGNORE` does not fail, nor any of the updates behind it. -/
theorem AddResultList_isSome {lstMatches : List (ObjId × UInt32)} {searchresults : SearchResults} :
    (AddResultList fails searchresults lstMatches).isSome ↔ (lstMatches ≠ [] → fails .InsertIgnore = false) ∧
        ∀ i ulObjId, lstMatches[i]? = some (ulObjId, 0) → fails (.UpdateFlags i) = false := by
  unfold AddResultList
  by_cases hnil : lstMatches = []
  · simp [hnil]
  · by_cases hfails : fails .InsertIgnore
    · simp [hnil, hfails]
    · rw [if_neg hnil, if_neg hfails]
      dsimp only
      rw [Option.isSome_map, updateUnread_isSome]
      simp [hnil, hfails]

end

/-! ## `ProcessCandidateRows` -/

/-- The messages that a batch finds, with their flags. -/
def Batch.found (batch : Batch) : List (ObjId × UInt32) := lstMatches (batch.ecRows.zip (batch.lpRowSet.getD []))

/-- The calls up to the first counter are successful, as far as they are made. -/
structure Batch.Counted (batch : Batch) (searchresults : SearchResults) : Prop where
  rows : batch.lpRowSet.isSome
  insert : batch.found ≠ [] → batch.fails .InsertIgnore = false
  flags : ∀ i ulObjId, batch.found[i]? = some (ulObjId, 0) → batch.fails (.UpdateFlags i) = false
  count : (∃ ulObjId ulFlags, (ulObjId, ulFlags) ∈ batch.found ∧ ulObjId ∉ searchresults) →
    batch.fails (.UpdateCounter .PR_CONTENT_COUNT) = false ∧ batch.fails (.UpdateTProp .PR_CONTENT_COUNT) = false

/-- The batch finds an unread message that is not yet a result, or one that is read. -/
def Batch.FindsUnread (batch : Batch) (searchresults : SearchResults) : Prop :=
  ∃ ulObjId, (ulObjId, 0) ∈ batch.found ∧ searchresults.lookup ulObjId ≠ some 0

/-- The batch has unread messages to count, and the statement that counts them fails in a transaction that is
committed. -/
structure Batch.LosesUnread (batch : Batch) (searchresults : SearchResults) : Prop
    extends batch.Counted searchresults where
  opened : batch.fails .Begin = false
  locked : batch.fails .SelectForUpdate = false
  finds : batch.FindsUnread searchresults
  unread : batch.fails (.UpdateCounter .PR_CONTENT_UNREAD) = true
  committed : batch.fails .Commit = false

section

variable {batch : Batch} {folder : SearchFolder}

/-- The folder before its second counter. -/
def SearchFolder.counted (folder : SearchFolder) (searchresults : SearchResults) (lCount : ℤ) : SearchFolder :=
  ⟨searchresults, addDelta folder.contentCount lCount, folder.contentUnread⟩

variable {added : SearchFolder}

/-- A batch that comes through has added its results and written the first counter; only the second one may have
failed. -/
theorem addCandidates_eq {er : ECRESULT}
    (h : addCandidates batch.fails batch.ecRows batch.lpRowSet folder = some (added, er)) :
    ∃ results : SearchResults × ℕ × ℕ, AddResultList batch.fails folder.searchresults batch.found = some results ∧
      UpdateFolderCount batch.fails (folder.counted results.1 results.2.1) .PR_CONTENT_UNREAD results.2.2 =
        (added, er) := by
  unfold addCandidates at h
  split at h
  · cases h
  · next lpRowSet hrows =>
    have hfound : batch.found = lstMatches (batch.ecRows.zip lpRowSet) := by rw [Batch.found, hrows]; rfl
    split at h
    · cases h
    · next searchresults lCount lUnreadCount hresults =>
      refine ⟨(searchresults, lCount, lUnreadCount), hfound ▸ hresults, ?_⟩
      dsimp only at h ⊢
      by_cases hcounts : lCount ≠ 0 ∨ lUnreadCount ≠ 0
      · rw [if_pos hcounts] at h
        split_ifs at h with hcount
        rw [UpdateFolderCount_eq hcount] at h
        exact Option.some.inj h
      · rw [if_neg hcounts] at h
        rw [not_or, not_not, not_not] at hcounts
        rw [hcounts.1, hcounts.2, UpdateFolderCount, if_pos Nat.cast_zero]
        rw [← Option.some.inj h, SearchFolder.counted, Nat.cast_zero, addDelta_eq, add_zero, Int.toNat_natCast]

/-- The transaction gets to its commit when the calls up to the first counter are successful. -/
theorem addCandidates_isSome :
    (addCandidates batch.fails batch.ecRows batch.lpRowSet folder).isSome ↔ batch.Counted folder.searchresults := by
  unfold addCandidates
  split
  · next hrows => exact iff_of_false (by decide) fun h => absurd h.rows (by rw [hrows]; decide)
  · next lpRowSet hrows =>
    have hfound : lstMatches (batch.ecRows.zip lpRowSet) = batch.found := by rw [Batch.found, hrows]; rfl
    rw [hfound]
    have hsome : (AddResultList batch.fails folder.searchresults batch.found).isSome ↔ _ := AddResultList_isSome
    split
    · next hnone =>
      rw [hnone] at hsome
      exact iff_of_false (by decide) fun h => absurd (hsome.mpr ⟨h.insert, h.flags⟩) (by decide)
    · next searchresults lCount lUnreadCount hresults =>
      have hinserted := (AddResultList_spec hresults).inserted
      rw [hresults] at hsome
      obtain ⟨hinsert, hflags⟩ := hsome.mp rfl
      have hcounted : batch.Counted folder.searchresults ↔ lCount = 0 ∨
          batch.fails (.UpdateCounter .PR_CONTENT_COUNT) = false ∧
            batch.fails (.UpdateTProp .PR_CONTENT_COUNT) = false := by
        constructor
        · intro h
          by_cases hzero : lCount = 0
          · exact Or.inl hzero
          · refine Or.inr (h.count ?_)
            simpa only [hinserted, not_forall, exists_prop] using hzero
        · intro h
          refine ⟨by rw [hrows]; rfl, hinsert, hflags, fun ⟨ulObjId, ulFlags, hmem, hnew⟩ => ?_⟩
          exact h.resolve_left fun hzero => hnew (hinserted.mp hzero ulObjId ulFlags hmem)
      rw [hcounted]
      dsimp only
      by_cases hcounts : lCount ≠ 0 ∨ lUnreadCount ≠ 0
      · rw [if_pos hcounts, ← Nat.cast_eq_zero (R := ℤ), ← UpdateFolderCount_succeeds]
        split_ifs with hcount
        · exact iff_of_true rfl hcount
        · exact iff_of_false (by decide) hcount
      · rw [if_neg hcounts]
        rw [not_or, not_not] at hcounts
        exact iff_of_true rfl (Or.inl hcounts.1)

/-- The one way to wrong counters: the update of the unread counter fails after the results and the first counter
were written. -/
theorem addCandidates_exact_iff (hexact : folder.Exact) {er : ECRESULT}
    (h : addCandidates batch.fails batch.ecRows batch.lpRowSet folder = some (added, er)) :
    added.Exact ↔ ¬ (batch.FindsUnread folder.searchresults ∧
      batch.fails (.UpdateCounter .PR_CONTENT_UNREAD) = true) := by
  obtain ⟨results, hresults, hunread⟩ := addCandidates_eq h
  have hadded := AddResultList_spec hresults
  have hsound := hadded.sound hexact.flags
  have hfinds : batch.FindsUnread folder.searchresults ↔ results.2.2 ≠ 0 := by
    rw [Ne, hadded.modified]
    simp only [Batch.FindsUnread, not_forall, exists_prop, Ne]
  rw [hfinds]
  by_cases hran : results.2.2 = 0 ∨ batch.fails (.UpdateCounter .PR_CONTENT_UNREAD) = false
  · have heq : added = (folder.counted results.1 results.2.1).addCount .PR_CONTENT_UNREAD results.2.2 := by
      rw [← UpdateFolderCount_fst (hran.imp_left fun h => by rw [h, Nat.cast_zero]), hunread]
    refine iff_of_true ?_ ?_
    · rw [heq]
      exact hexact.addCounts hsound
    · rcases hran with hzero | hfails
      · exact fun h => h.1 hzero
      · exact fun h => by rw [hfails] at h; cases h.2
  · rw [not_or, Bool.not_eq_false] at hran
    refine iff_of_false (fun hexact' => hran.1 ?_) (not_not.mpr hran)
    have heq : added = folder.counted results.1 results.2.1 := by
      have hne : (results.2.2 : ℤ) ≠ 0 := Nat.cast_ne_zero.mpr hran.1
      rw [UpdateFolderCount, if_neg hne, if_pos hran.2] at hunread
      exact (Prod.mk.inj hunread).1.symm
    -- the results have more unread rows, and the counter has stayed
    have hcounter : folder.contentUnread = unread results.1 := by
      have hlast := hexact'.unread
      rwa [heq] at hlast
    have hmore := hsound.unread
    rw [← hcounter, ← hexact.unread] at hmore
    dsimp only at hmore
    omega

/-- A batch that succeeds keeps exact counters. -/
theorem addCandidates_exact (hexact : folder.Exact)
    (h : addCandidates batch.fails batch.ecRows batch.lpRowSet folder = some (added, .erSuccess)) : added.Exact := by
  rw [addCandidates_exact_iff hexact h]
  rintro ⟨⟨ulObjId, hfound, hne⟩, hfails⟩
  obtain ⟨results, hresults, hunread⟩ := addCandidates_eq h
  have hsucceeds := UpdateFolderCount_succeeds.mp (congrArg Prod.snd hunread)
  rcases hsucceeds with hzero | ⟨hcounter, -⟩
  · exact hne ((AddResultList_spec hresults).modified.mp (Nat.cast_eq_zero.mp hzero) ulObjId hfound)
  · rw [hfails] at hcounter
    cases hcounter

/-- `ProcessCandidateRows` with `bNotify` keeps the counters exact, unless it loses the second one. -/
theorem ProcessCandidateRows_exact_iff (hexact : folder.Exact) :
    (ProcessCandidateRows batch.fails batch.ecRows batch.lpRowSet folder).Exact ↔
      ¬ batch.LosesUnread folder.searchresults := by
  unfold ProcessCandidateRows
  by_cases hopen : batch.fails .Begin = true ∨ batch.fails .SelectForUpdate = true
  · rw [if_pos hopen]
    refine iff_of_true hexact fun h => ?_
    rw [h.opened, h.locked] at hopen
    simp at hopen
  rw [if_neg hopen]
  rw [not_or, Bool.not_eq_true, Bool.not_eq_true] at hopen
  split
  · next hnone =>
    refine iff_of_true hexact fun h => ?_
    have hsome := addCandidates_isSome.mpr h.toCounted
    rw [hnone] at hsome
    cases hsome
  · next added er hadded =>
    have hcounted : batch.Counted folder.searchresults := addCandidates_isSome.mp (by rw [hadded]; rfl)
    by_cases hcommit : batch.fails .Commit = true
    · rw [if_pos hcommit]
      exact iff_of_true hexact fun h => by rw [h.committed] at hcommit; cases hcommit
    · rw [if_neg hcommit, addCandidates_exact_iff hexact hadded]
      refine not_congr ⟨fun h => ?_, fun h => ⟨h.finds, h.unread⟩⟩
      exact ⟨hcounted, hopen.1, hopen.2, h.1, h.2, Bool.not_eq_true _ ▸ hcommit⟩

/-- Any number of batches keep exact counters as long as each of them succeeds. The induction is on the batches. -/
theorem processBatches_exact (batches : List Batch) (hexact : folder.Exact)
    (h : processBatches batches folder = some added) : added.Exact := by
  induction batches generalizing folder with
  | nil => exact Option.some.inj h ▸ hexact
  | cons batch rest ih =>
    unfold processBatches at h
    split at h
    · next added' hadded => exact ih (addCandidates_exact hexact hadded) h
    · cases h

end

/-! ## Runs -/

/-- The operation does not lose the unread results of its folder. -/
def Operation.CountsUnread (tables : Tables) : Operation → Prop
  | .ProcessCandidateRows ulFolderId batch => ¬ batch.LosesUnread (tables ulFolderId).searchresults
  | _ => True

/-- An operation keeps all counters exact if and only if it does not lose unread results. -/
theorem run_exact_iff (operation : Operation) (hexact : tables.Exact) :
    Tables.Exact (operation.run tables) ↔ operation.CountsUnread tables := by
  cases operation with
  | ProcessMessageChange fails attempts searchFolders ulFolderId lstObjectIDs ulType =>
    refine iff_of_true ?_ trivial
    show Tables.Exact (ECSearchFolders.ProcessMessageChange _ _ _ _ _ _ _)
    unfold ProcessMessageChange
    split_ifs
    · exact hexact
    · exact changeFolders_exact attempts searchFolders [] hexact
  | ProcessCandidateRows ulFolderId batch =>
    have hiff : _ ↔ ¬ batch.LosesUnread (tables ulFolderId).searchresults :=
      ProcessCandidateRows_exact_iff (hexact ulFolderId)
    refine Iff.trans ⟨fun h => ?_, fun h => hexact.update ulFolderId h⟩ hiff
    have hfolder := h ulFolderId
    rwa [Operation.run, Function.update_self] at hfolder
  | ProcessBatches ulFolderId fails batches =>
    refine iff_of_true (hexact.update ulFolderId ?_) trivial
    unfold ProcessBatches
    by_cases hopen : fails .Begin = true
    · rw [if_pos hopen]
      exact hexact ulFolderId
    · rw [if_neg hopen]
      split
      · exact hexact ulFolderId
      · next added hadded =>
        split_ifs
        · exact hexact ulFolderId
        · exact processBatches_exact batches (hexact ulFolderId) hadded
  | ResetResults ulFolderId fails =>
    refine iff_of_true (hexact.update ulFolderId ?_) trivial
    unfold ResetResults
    split_ifs
    · exact hexact ulFolderId
    · exact new_exact

/-- Along a run the counters of all search folders are exact if and only if no operation loses unread results. -/
theorem counters_exact_iff (operations : List Operation) (tables : Tables) : tables.Exact →
      ((∀ n, Tables.Exact (run (operations.take n) tables)) ↔
        ∀ n, ∀ operation : Operation, operations[n]? = some operation →
          operation.CountsUnread (run (operations.take n) tables)) := by
  intro hexact
  induction operations generalizing tables with
  | nil => exact iff_of_true (fun n => by rw [List.take_nil]; exact hexact) fun n operation h => by simp at h
  | cons operation rest ih =>
    have hrun : ∀ n, run ((operation :: rest).take (n + 1)) tables = run (rest.take n) (operation.run tables) :=
      fun n => rfl
    have hstep := run_exact_iff operation hexact
    constructor
    · rintro h (_ | n) operation' hoperation
      · obtain rfl : operation = operation' := by simpa using hoperation
        exact hstep.mp (h 1)
      · exact (ih _ (h 1)).mp (fun n => h (n + 1)) n operation' hoperation
    · rintro h (_ | n)
      · exact hexact
      · have hfirst := hstep.mpr (h 0 operation rfl)
        rw [hrun]
        exact (ih _ hfirst).mpr (fun n operation' hoperation => h (n + 1) operation' hoperation) n

/-! The search finds one unread message, and the second counter is locked by someone else. -/

/-- A search that finds message 1 unread. -/
def foundMessage (fails : Call → Bool) : Batch :=
  ⟨fails, [1], some [{ fMatch := some true, ulMessageFlags := some 0, lpbCancel := false }]⟩

/-- The folder gets a row that its counter of unread messages does not count. -/
theorem not_exact_foundMessage : ¬ ∀ (operations : List Operation) (tables : Tables), tables.Exact →
      ∀ n, Tables.Exact (run (operations.take n) tables) := by
  intro h
  have hexact := h [.ProcessCandidateRows 7 (foundMessage (· = .UpdateCounter .PR_CONTENT_UNREAD))]
    (fun _ => .new) (fun _ => new_exact) 1 7
  have hunread := hexact.unread
  revert hunread
  decide +kernel

theorem counters_exact_foundMessage :
    Tables.Exact (run [.ProcessCandidateRows 7 (foundMessage fun _ => false)] fun _ => .new) :=
  (counters_exact_iff [.ProcessCandidateRows 7 (foundMessage fun _ => false)] (fun _ => .new)
    (fun _ => new_exact)).mpr (by
      rintro (_ | n) operation h
      · obtain rfl := Option.some.inj h
        exact fun hloses => by cases hloses.unread
      · simp at h) 1

end Zcp.Libserver.ECSearchFolders
