import Zcp.Libserver.ZarafaCmd

/-!
# Permissions of `setReadFlags`

An error leaves everything as it was. A call for a list of messages asks for the permission on one folder only: that of
the last message of the list (`setReadFlags_checked_iff`).
-/

namespace Zcp.Libserver.ZarafaCmd

open Zcp.Lib
open ZarafaCmdUtil (HierarchyRow Has MAPI_MESSAGE MSGFLAG_READ)

variable {s : Session} {req : Request}

/-! ## Flags -/

/-- A call does not set what it clears. -/
theorem Request.remove_and_add (req : Request) : req.ulFlagsRemove &&& req.ulFlagsAdd = 0 := by
  by_cases hread : Has req.ulFlags CLEAR_READ_FLAG
  · have hadd : req.ulFlagsAdd = 0 := if_neg fun h => h.2 hread
    rw [hadd, UInt32.and_zero]
  · rw [ulFlagsRemove, ulFlagsAdd, if_neg (c := _ ∧ Has req.ulFlags CLEAR_READ_FLAG) fun h => hread h.2]
    split_ifs <;> decide

/-- The flags change exactly when the `SELECT`s say so. -/
theorem Request.newFlags_ne_iff (req : Request) (v : UInt32) : req.newFlags v ≠ v ↔ req.changes v = true := by
  have hremove : req.newFlags v &&& req.ulFlagsRemove = req.ulFlagsRemove &&& req.ulFlagsAdd := by
    rw [newFlags]
    apply UInt32.toBitVec_inj.mp
    ext i
    simp
    grind
  have hadd : req.newFlags v &&& req.ulFlagsAdd = req.ulFlagsAdd := by
    rw [newFlags]
    apply UInt32.toBitVec_inj.mp
    ext i
    simp
    grind
  rw [changes, decide_eq_true_eq]
  constructor
  · intro hne
    by_contra hkeep
    obtain ⟨hR, hA⟩ := not_or.mp hkeep
    rw [not_ne_iff] at hR hA
    apply hne
    have hkept : v &&& ~~~req.ulFlagsRemove = v := by
      have hsplit : v = (v &&& req.ulFlagsRemove) ||| (v &&& ~~~req.ulFlagsRemove) := by
        apply UInt32.toBitVec_inj.mp
        ext i
        simp
        grind
      rw [hR, UInt32.zero_or] at hsplit
      exact hsplit.symm
    rw [newFlags, hkept, ← hA]
    apply UInt32.toBitVec_inj.mp
    ext i
    simp
    grind
  · rintro hchange heq
    rw [heq] at hremove hadd
    rcases hchange with hR | hA
    · exact hR (hremove.trans req.remove_and_add)
    · exact hA hadd

/-! ## What the parts of a call leave alone -/

theorem bind_eq_ok {ε α β : Type} {x : Except ε α} {f : α → Except ε β} {b : β} (h : x >>= f = .ok b) :
    ∃ a, x = .ok a ∧ f a = .ok b := by
  cases x with
  | error e => cases h
  | ok a => exact ⟨a, rfl, h⟩

/-- The counters are updated, and nothing else. -/
structure CountsOnly (db db' : Database) : Prop where
  hierarchy : db'.hierarchy = db.hierarchy
  messageFlags : db'.messageFlags = db.messageFlags

theorem CountsOnly.refl (db : Database) : CountsOnly db db := ⟨rfl, rfl⟩

theorem CountsOnly.trans {db₁ db₂ db₃ : Database} (h : CountsOnly db₁ db₂) (h' : CountsOnly db₂ db₃) :
    CountsOnly db₁ db₃ :=
  ⟨h'.hierarchy.trans h.hierarchy, h'.messageFlags.trans h.messageFlags⟩

variable {db db' : Database}

theorem updateFolderCount_only {ulFolderId : ObjId} {lDelta : ℤ}
    (h : UpdateFolderCount s db ulFolderId lDelta = .ok db') : CountsOnly db db' := by
  rw [UpdateFolderCount] at h
  split_ifs at h
  · obtain rfl := Except.ok.inj h
    exact .refl db
  · obtain ⟨r, -, h⟩ := bind_eq_ok h
    split_ifs at h
    · obtain rfl := Except.ok.inj h
      exact .refl db
    · obtain ⟨-, -, h⟩ := bind_eq_ok h
      obtain ⟨-, -, h⟩ := bind_eq_ok h
      obtain rfl := Except.ok.inj h
      exact ⟨rfl, rfl⟩

theorem updateCounts_only {mapParents : List (ObjId × ℤ)}
    (h : updateCounts s db mapParents = .ok db') : CountsOnly db db' := by
  induction mapParents generalizing db with
  | nil =>
    obtain rfl := Except.ok.inj h
    exact .refl db
  | cons p mapParents ih =>
    rw [updateCounts] at h
    split_ifs at h
    · exact ih h
    · obtain ⟨r, -, h⟩ := bind_eq_ok h
      split_ifs at h
      obtain ⟨db₁, hcount, h⟩ := bind_eq_ok h
      exact (updateFolderCount_only hcount).trans (ih h)

/-- The database when the flags have been updated. -/
def Selection.flagged (req : Request) (sel : Selection) : Database :=
  { sel.db.updateFlags req (sel.lObjectIds.map Prod.fst) with
    messageFlags := UpdateTProp (sel.db.updateFlags req (sel.lObjectIds.map Prod.fst)).messageFlags sel.ulParent
      (sel.lObjectIds.map Prod.fst) }

variable {sel : Selection}

/-- After the flags, the counters. -/
theorem update_counts {mapParents : List (ObjId × ℤ)} (h : update s req sel = .ok (db, mapParents)) :
    countChanges s (sel.flagged req) req sel.lObjectIds [] = .ok mapParents ∧
      updateCounts s (sel.flagged req) mapParents = .ok db := by
  rw [update] at h
  obtain ⟨-, -, h⟩ := bind_eq_ok h
  obtain ⟨-, -, h⟩ := bind_eq_ok h
  obtain ⟨counted, hcounted, h⟩ := bind_eq_ok h
  obtain ⟨db', hcounts, h⟩ := bind_eq_ok h
  obtain ⟨rfl, rfl⟩ := Prod.mk.inj (Except.ok.inj h)
  exact ⟨hcounted, hcounts⟩

theorem update_only {mapParents : List (ObjId × ℤ)}
    (h : update s req sel = .ok (db, mapParents)) : CountsOnly (sel.flagged req) db :=
  updateCounts_only (update_counts h).2

/-! ## Selections -/

/-- The parents of the objects that the collecting loop finds. -/
def foundParents (s : Session) (db : Database) (ids : List ObjId) : List ObjId :=
  ids.filterMap fun id => (db.GetObject s (.collectParent id) id).toOption.map Database.parentOf

/-- The folder of the last message of a list. -/
def lastFolder (s : Session) (db : Database) (ids : List ObjId) : Option ObjId := (foundParents s db ids).getLast?

theorem collectParents_spec (db : Database) (ids setParents : List ObjId) (ulParent : ObjId) :
    collectParents s db ids (setParents, ulParent) =
      (setParents ++ foundParents s db ids, (lastFolder s db ids).getD ulParent) := by
  induction ids generalizing setParents ulParent with
  | nil => simp [collectParents, foundParents, lastFolder]
  | cons id ids ih =>
    rw [collectParents, lastFolder, foundParents]
    cases hfound : db.GetObject s (.collectParent id) id with
    | error er =>
      rw [List.filterMap_cons_none (by rw [hfound]; rfl)]
      exact ih setParents ulParent
    | ok r =>
      rw [List.filterMap_cons_some (b := Database.parentOf r) (by rw [hfound]; rfl)]
      simp only [ih, List.append_assoc, List.singleton_append, List.getLast?_cons, Option.getD_some, Prod.mk.injEq]
      exact ⟨rfl, rfl⟩

theorem checkPermission_ok {ulObjId : ObjId} {u : Unit} (h : s.CheckPermission ulObjId = .ok u) :
    s.sec.CheckPermission ulObjId ecSecurityRead = .erSuccess := by
  rw [Session.CheckPermission] at h
  split at h
  · assumption
  all_goals cases h

/-- The loop over the set of parents checks one folder, as often as there are parents. -/
theorem checkParents_spec {ulParent : ObjId} {iParents passed : List ObjId}
    (h : checkParents s ulParent iParents = .ok passed) : passed = (iParents.map fun _ => ulParent) ∧
      ∀ f ∈ passed, s.sec.CheckPermission f ecSecurityRead = .erSuccess := by
  induction iParents generalizing passed with
  | nil =>
    obtain rfl := Except.ok.inj h
    exact ⟨rfl, by simp⟩
  | cons p iParents ih =>
    obtain ⟨u, hcheck, h⟩ := bind_eq_ok h
    obtain ⟨rest, hrest, h⟩ := bind_eq_ok h
    obtain rfl := Except.ok.inj h
    obtain ⟨hmap, hpassed⟩ := ih hrest
    constructor
    · rw [hmap, List.map_cons]
    · intro f hf
      rcases List.mem_cons.mp hf with rfl | hf
      · exact checkPermission_ok hcheck
      · exact hpassed f hf

variable {ids : List ObjId}

/-- The messages of a list, and the folder that has been checked for them. -/
theorem selectList_spec (h : selectList s db req ids = .ok sel) : sel.db = db ∧
      sel.lObjectIds = db.selectMessages req (fun r => r.id ∈ ids) (fun r => db.messageFlags.properties r.id) ∧
      sel.ulParent = (lastFolder s db ids).getD 0 ∧ (∀ f, f ∈ sel.passed ↔ lastFolder s db ids = some f) ∧
      ∀ f ∈ sel.passed, s.sec.CheckPermission f ecSecurityRead = .erSuccess := by
  rw [selectList, collectParents_spec, List.nil_append] at h
  obtain ⟨-, -, h⟩ := bind_eq_ok h
  obtain ⟨passed, hpassed, h⟩ := bind_eq_ok h
  obtain ⟨-, -, h⟩ := bind_eq_ok h
  obtain rfl := Except.ok.inj h
  obtain ⟨hmap, hpermission⟩ := checkParents_spec hpassed
  refine ⟨rfl, rfl, rfl, fun f => ?_, hpermission⟩
  show f ∈ passed ↔ lastFolder s db ids = some f
  rw [hmap, List.mem_map]
  constructor
  · rintro ⟨p, hp, rfl⟩
    rw [List.mem_insertionSort, List.mem_dedup] at hp
    obtain ⟨g, hg⟩ := Option.ne_none_iff_exists'.mp (mt List.getLast?_eq_none_iff.mp (List.ne_nil_of_mem hp))
    rw [lastFolder, hg, Option.getD_some]
  · intro hf
    refine ⟨f, ?_, by rw [hf, Option.getD_some]⟩
    rw [List.mem_insertionSort, List.mem_dedup]
    exact List.mem_of_getLast? hf

/-- The messages of a folder, and the folder. -/
theorem selectFolder_spec {lpsEntryId : List UInt8} (h : selectFolder s db req lpsEntryId = .ok sel) :
    s.GetObjectFromEntryId lpsEntryId = .ok sel.ulParent ∧ sel.db = PurgeDeferredTableUpdates s db sel.ulParent ∧
      sel.lObjectIds = sel.db.selectMessages req (fun r => r.parent = some sel.ulParent)
        (fun r => sel.db.messageFlags.tproperties sel.ulParent r.id) ∧ sel.passed = [sel.ulParent] ∧
      s.sec.CheckPermission sel.ulParent ecSecurityRead = .erSuccess := by
  obtain ⟨ulFolderId, hid, h⟩ := bind_eq_ok h
  obtain ⟨-, -, h⟩ := bind_eq_ok h
  obtain ⟨u, hcheck, h⟩ := bind_eq_ok h
  obtain ⟨-, -, h⟩ := bind_eq_ok h
  obtain rfl := Except.ok.inj h
  refine ⟨?_, rfl, rfl, rfl, checkPermission_ok hcheck⟩
  cases hfound : s.GetObjectFromEntryId lpsEntryId with
  | error er =>
    rw [hfound] at hid
    cases hid
  | ok id =>
    rw [hfound] at hid
    exact congrArg Except.ok (Except.ok.inj hid)

variable {r : HierarchyRow}

/-- Every object has one row. -/
theorem Database.row_unique (db : Database) {r' : HierarchyRow} (hr : r ∈ db.hierarchy) (hr' : r' ∈ db.hierarchy)
    (hid : r.id = r'.id) : r = r' :=
  List.inj_on_of_nodup_map db.hierarchy_nodup hr hr' hid

theorem Database.mem_selectMessages {among : HierarchyRow → Bool}
    {val_ulong : HierarchyRow → Option UInt32} {id : ObjId} {v : UInt32} :
    (id, v) ∈ db.selectMessages req among val_ulong ↔
      ∃ r ∈ db.hierarchy, r.id = id ∧ val_ulong r = some v ∧ r.type = MAPI_MESSAGE ∧ r.flags = 0 ∧ among r = true ∧
        req.changes v = true := by
  rw [selectMessages, List.mem_filterMap]
  apply exists_congr
  intro r
  apply and_congr_right
  intro hr
  cases hval : val_ulong r with
  | none => simp
  | some w =>
    by_cases hsel : r.type = MAPI_MESSAGE ∧ r.flags = 0 ∧ among r = true ∧ req.changes w = true
    · simp only [if_pos hsel, Option.some_inj, Prod.mk.injEq]
      grind
    · simp only [if_neg hsel, reduceCtorEq, Option.some_inj, false_iff, not_and]
      grind

/-- The rows of the selected messages. -/
theorem Database.row_selected (db : Database) {among : HierarchyRow → Bool}
    {val_ulong : HierarchyRow → Option UInt32} (hr : r ∈ db.hierarchy) :
    r.id ∈ (db.selectMessages req among val_ulong).map Prod.fst ↔
      r.type = MAPI_MESSAGE ∧ r.flags = 0 ∧ among r = true ∧ ∃ v, val_ulong r = some v ∧ req.changes v = true := by
  rw [List.mem_map]
  constructor
  · rintro ⟨⟨id, v⟩, hsel, rfl⟩
    obtain ⟨r', hr', hid, hval, htype, hflags, hamong, hchanges⟩ := mem_selectMessages.mp hsel
    obtain rfl := db.row_unique hr' hr hid
    exact ⟨htype, hflags, hamong, v, hval, hchanges⟩
  · rintro ⟨htype, hflags, hamong, v, hval, hchanges⟩
    exact ⟨(r.id, v), mem_selectMessages.mpr ⟨r, hr, rfl, hval, htype, hflags, hamong, hchanges⟩, rfl⟩

/-- The purge leaves `properties` alone. -/
theorem purge_properties (db : Database) (ulFolderId : ObjId) :
    (PurgeDeferredTableUpdates s db ulFolderId).hierarchy = db.hierarchy ∧
      (PurgeDeferredTableUpdates s db ulFolderId).messageFlags.properties = db.messageFlags.properties ∧
      (PurgeDeferredTableUpdates s db ulFolderId).contentUnread.properties = db.contentUnread.properties := by
  rw [PurgeDeferredTableUpdates]
  by_cases hfails : (s.fails .selectDeferred).isSome ∨
      (db.deferredupdate.filter fun d => d.1 = ulFolderId).map Prod.snd = [] ∨ (s.fails .lockDeferred).isSome ∨
      (s.fails .replaceDeferred).isSome
  · rw [if_pos hfails]
    exact ⟨rfl, rfl, rfl⟩
  · rw [if_neg hfails]
    exact ⟨rfl, rfl, rfl⟩

/-! ## Whole calls -/

/-- What a call can do. -/
inductive Ran (s : Session) (w : World) (req : Request) : Outcome → Prop
  | failed (er : ReadFlagsError) (passed : List ObjId) : Ran s w req ⟨some er, w, passed⟩
  /-- There are no flags to change. -/
  | idle (h : Has req.ulFlags GENERATE_RECEIPT_ONLY ∨ req.ulFlagsRemove = 0 ∧ req.ulFlagsAdd = 0) :
      Ran s w req ⟨none, w, []⟩
  /-- There is no message to change. -/
  | nothing (sel : Selection) (hsel : select s w.db req = .ok sel) (hempty : sel.lObjectIds = []) (db : Database)
      (hdb : db = w.db ∨ db = sel.db) : Ran s w req ⟨none, { w with db }, sel.passed⟩
  | done (sel : Selection) (hsel : select s w.db req = .ok sel) (hempty : sel.lObjectIds ≠ []) (db : Database)
      (mapParents : List (ObjId × ℤ)) (hupdate : update s req sel = .ok (db, mapParents))
      (hflags : ¬ Has req.ulFlags GENERATE_RECEIPT_ONLY) :
      Ran s w req ⟨none, ⟨db, w.cells.followUp req sel.lObjectIds mapParents⟩, sel.passed⟩

theorem setReadFlags_ran (s : Session) (w : World) (req : Request) : Ran s w req (setReadFlags s w req) := by
  by_cases hreceipt : Has req.ulFlags GENERATE_RECEIPT_ONLY
  · rw [setReadFlags, if_pos hreceipt]
    exact .idle (.inl hreceipt)
  rw [setReadFlags, if_neg hreceipt]
  by_cases hparam : req.lpMessageList = none ∧ req.lpsEntryId = none
  · rw [if_pos hparam]
    exact .failed _ _
  rw [if_neg hparam]
  by_cases hzero : req.ulFlagsRemove = 0 ∧ req.ulFlagsAdd = 0
  · rw [if_pos hzero]
    exact .idle (.inr hzero)
  rw [if_neg hzero]
  cases s.fails .Begin with
  | some er => exact .failed _ _
  | none =>
    cases hsel : select s w.db req with
    | error er => exact .failed _ _
    | ok sel =>
      show Ran s w req (if sel.lObjectIds = [] then _ else _)
      by_cases hempty : sel.lObjectIds = []
      · rw [if_pos hempty]
        by_cases hcommit : (s.fails .Commit).isSome
        · rw [if_pos hcommit]
          exact .nothing sel hsel hempty w.db (.inl rfl)
        · rw [if_neg hcommit]
          exact .nothing sel hsel hempty sel.db (.inr rfl)
      · rw [if_neg hempty]
        cases hupdate : update s req sel with
        | error er => exact .failed _ _
        | ok res =>
          cases s.fails .Commit with
          | some er => exact .failed _ _
          | none => exact .done sel hsel hempty res.1 res.2 hupdate hreceipt

/-- The three ways of a call to its messages. -/
inductive Selects (s : Session) (db : Database) (req : Request) (sel : Selection) : Prop
  | folder (lpsEntryId : List UInt8) (hlist : req.lpMessageList = none) (hentry : req.lpsEntryId = some lpsEntryId)
      (h : selectFolder s db req lpsEntryId = .ok sel)
  | noObjects (lpMessageList : List (List UInt8)) (hlist : req.lpMessageList = some lpMessageList)
      (hids : s.GetEntryListToObjectList lpMessageList = []) (h : sel = ⟨db, [], 0, []⟩)
  | list (lpMessageList : List (List UInt8)) (hlist : req.lpMessageList = some lpMessageList)
      (h : selectList s db req (s.GetEntryListToObjectList lpMessageList) = .ok sel)

theorem select_selects (h : select s db req = .ok sel) : Selects s db req sel := by
  rw [select] at h
  split at h
  · cases h
  case h_2 lpsEntryId hlist hentry => exact .folder lpsEntryId hlist hentry h
  case h_3 lpMessageList hlist =>
    by_cases hids : s.GetEntryListToObjectList lpMessageList = []
    · rw [if_pos hids] at h
      exact .noObjects lpMessageList hlist hids (Except.ok.inj h).symm
    · rw [if_neg hids] at h
      exact .list lpMessageList hlist h

/-- Selecting leaves `properties` alone. -/
theorem select_properties (h : select s db req = .ok sel) :
    sel.db.hierarchy = db.hierarchy ∧ sel.db.messageFlags.properties = db.messageFlags.properties ∧
      sel.db.contentUnread.properties = db.contentUnread.properties := by
  rcases select_selects h with ⟨lpsEntryId, -, -, hfolder⟩ | ⟨lpMessageList, -, -, rfl⟩ | ⟨lpMessageList, -, hlist⟩
  · obtain ⟨-, hdb, -⟩ := selectFolder_spec hfolder
    rw [hdb]
    exact purge_properties db sel.ulParent
  · exact ⟨rfl, rfl, rfl⟩
  · obtain ⟨hdb, -⟩ := selectList_spec hlist
    rw [hdb]
    exact ⟨rfl, rfl, rfl⟩

/-! ## The permission of the last folder -/

/-- The call changes the flags of a message that it gets at. -/
def Request.Alters (req : Request) (db : Database) (r : HierarchyRow) : Prop :=
  r.type = MAPI_MESSAGE ∧ r.flags = 0 ∧ ∃ v, db.messageFlags.properties r.id = some v ∧ req.changes v = true

/-- All messages of a list that the call changes are in the folder of the last one. -/
def LastFolderOnly (s : Session) (db : Database) (req : Request) : Prop :=
  Has req.ulFlags GENERATE_RECEIPT_ONLY ∨ ∀ lpMessageList, req.lpMessageList = some lpMessageList →
    ∀ r ∈ db.hierarchy, r.id ∈ s.GetEntryListToObjectList lpMessageList → req.Alters db r →
      lastFolder s db (s.GetEntryListToObjectList lpMessageList) = some (Database.parentOf r)

/-- The flags change in `properties` for the selected messages. -/
theorem update_properties {mapParents : List (ObjId × ℤ)} (h : update s req sel = .ok (db, mapParents)) (id : ObjId) :
    db.messageFlags.properties id = if id ∈ sel.lObjectIds.map Prod.fst then
      (sel.db.messageFlags.properties id).map req.newFlags else sel.db.messageFlags.properties id := by
  rw [(update_only h).messageFlags]
  rfl

/-- A message of a list changes when it is selected. -/
theorem list_selected_iff (hsel : selectList s db req ids = .ok sel) (hr : r ∈ db.hierarchy) :
    r.id ∈ sel.lObjectIds.map Prod.fst ↔ r.id ∈ ids ∧ req.Alters db r := by
  obtain ⟨-, hids, -⟩ := selectList_spec hsel
  rw [hids, db.row_selected hr, decide_eq_true_eq, Request.Alters]
  constructor
  · rintro ⟨htype, hflags, hid, hv⟩
    exact ⟨hid, htype, hflags, hv⟩
  · rintro ⟨hid, htype, hflags, hv⟩
    exact ⟨htype, hflags, hid, hv⟩

/-- Nothing of a list changes that the cache does not know, or when there are no flags to change. -/
theorem Request.not_alters (hzero : req.ulFlagsRemove = 0 ∧ req.ulFlagsAdd = 0) (db : Database) (r : HierarchyRow) :
    ¬ req.Alters db r := by
  rintro ⟨-, -, v, -, hchanges⟩
  rw [Request.changes, hzero.1, hzero.2, decide_eq_true_eq, UInt32.and_zero] at hchanges
  simp at hchanges

/-- What an update changes has been selected. -/
theorem selected_of_changed {mapParents : List (ObjId × ℤ)}
    (hsel : select s db req = .ok sel) (hupdate : update s req sel = .ok (db', mapParents)) {id : ObjId}
    (hchanged : db'.messageFlags.properties id ≠ db.messageFlags.properties id) : id ∈ sel.lObjectIds.map Prod.fst := by
  by_contra hid
  apply hchanged
  rw [update_properties hupdate, if_neg hid, (select_properties hsel).2.1]

/-- The messages of a list that an update changes. -/
theorem list_changed_iff {mapParents : List (ObjId × ℤ)}
    (hsel : selectList s db req ids = .ok sel) (hupdate : update s req sel = .ok (db', mapParents))
    (hr : r ∈ db.hierarchy) :
    db'.messageFlags.properties r.id ≠ db.messageFlags.properties r.id ↔ r.id ∈ ids ∧ req.Alters db r := by
  obtain ⟨hdb, -⟩ := selectList_spec hsel
  rw [← list_selected_iff hsel hr, update_properties hupdate, hdb]
  constructor
  · intro hchanged
    by_contra hid
    exact hchanged (if_neg hid)
  · intro hid
    obtain ⟨-, -, -, v, hv, hchanges⟩ := (list_selected_iff hsel hr).mp hid
    rw [if_pos hid, hv, Option.map_some]
    intro heq
    exact (req.newFlags_ne_iff v).mpr hchanges (Option.some.inj heq)

/-- A call that fails changes nothing. One that succeeds has asked for the permission on the folders of all messages it
changed exactly when these are in the folder of the last message of the list. -/
theorem setReadFlags_checked_iff (s : Session) (w : World) (req : Request) :
    ((setReadFlags s w req).er ≠ none → (setReadFlags s w req).world = w) ∧ ((setReadFlags s w req).er = none →
        ((∀ r ∈ w.db.hierarchy, (setReadFlags s w req).world.db.messageFlags.properties r.id ≠
            w.db.messageFlags.properties r.id → Database.parentOf r ∈ (setReadFlags s w req).passed) ↔
          LastFolderOnly s w.db req)) := by
  have hran := setReadFlags_ran s w req
  generalize setReadFlags s w req = out at hran ⊢
  cases hran with
  | failed er passed =>
    constructor
    · intro _
      rfl
    · intro h
      cases h
  | idle h =>
    refine ⟨fun herr => absurd rfl herr, fun _ => iff_of_true (fun r _ hchanged => absurd rfl hchanged) ?_⟩
    rcases h with hreceipt | hzero
    · exact .inl hreceipt
    · exact .inr fun lpMessageList _ r _ _ halters => absurd halters (Request.not_alters hzero w.db r)
  -- nothing was selected: no message of the list would have changed
  | nothing sel hsel hempty db hdb =>
    refine ⟨fun herr => absurd rfl herr, fun _ => iff_of_true (fun r _ hchanged => ?_) (.inr ?_)⟩
    · have hsame : db.messageFlags.properties = w.db.messageFlags.properties := by
        rcases hdb with rfl | rfl
        · rfl
        · exact (select_properties hsel).2.1
      exact absurd (congrFun hsame r.id) hchanged
    · intro lpMessageList hlist r hr hid halters
      rcases select_selects hsel with
        ⟨_, hnone, -, -⟩ | ⟨lpMessageList', hlist', hids, -⟩ | ⟨lpMessageList', hlist', hselected⟩
      · rw [hlist] at hnone
        cases hnone
      · obtain rfl := Option.some.inj (hlist.symm.trans hlist')
        rw [hids] at hid
        cases hid
      · obtain rfl := Option.some.inj (hlist.symm.trans hlist')
        have hmem := (list_selected_iff hselected hr).mpr ⟨hid, halters⟩
        rw [hempty] at hmem
        cases hmem
  | done sel hsel hempty db mapParents hupdate hreceipt =>
    refine ⟨fun herr => absurd rfl herr, fun _ => ?_⟩
    show (∀ r ∈ w.db.hierarchy, db.messageFlags.properties r.id ≠ w.db.messageFlags.properties r.id →
      Database.parentOf r ∈ sel.passed) ↔ _
    rcases select_selects hsel with
      ⟨lpsEntryId, hnone, -, hfolder⟩ | ⟨lpMessageList, -, -, hsel'⟩ | ⟨lpMessageList, hlist, hselected⟩
    · -- all messages are in the folder that has been checked
      refine iff_of_true (fun r hr hchanged => ?_) (.inr fun lpMessageList hlist => ?_)
      · obtain ⟨-, hdb, hids, hpassed, -⟩ := selectFolder_spec hfolder
        have hmem := selected_of_changed hsel hupdate hchanged
        rw [hids, sel.db.row_selected (by rwa [(select_properties hsel).1]), decide_eq_true_eq] at hmem
        rw [hpassed, Database.parentOf, hmem.2.2.1, Option.getD_some]
        exact List.mem_singleton_self sel.ulParent
      · rw [hlist] at hnone
        cases hnone
    · rw [hsel'] at hempty
      exact absurd rfl hempty
    · -- the loop asks the folder of the last entry for every entry
      obtain ⟨-, -, -, hpassed, -⟩ := selectList_spec hselected
      constructor
      · intro hchecked
        refine .inr fun lpMessageList' hlist' r hr hid halters => ?_
        obtain rfl := Option.some.inj (hlist.symm.trans hlist')
        exact (hpassed _).mp (hchecked r hr ((list_changed_iff hselected hupdate hr).mpr ⟨hid, halters⟩))
      · intro hlast r hr hchanged
        obtain ⟨hid, halters⟩ := (list_changed_iff hselected hupdate hr).mp hchanged
        exact (hpassed _).mpr ((hlast.resolve_left hreceipt) lpMessageList hlist r hr hid halters)

/-- A store of user 5 with two folders, 10 and 11, that have a message each. -/
def twoFolders : Database where
  hierarchy := [⟨1, none, MAPI_STORE, 0⟩, ⟨2, some 1, MAPI_FOLDER, 0⟩, ⟨10, some 2, MAPI_FOLDER, 0⟩,
    ⟨11, some 2, MAPI_FOLDER, 0⟩, ⟨20, some 10, MAPI_MESSAGE, 0⟩, ⟨21, some 11, MAPI_MESSAGE, 0⟩]
  hierarchy_nodup := by decide
  messageFlags :=
    { properties := fun id => if id = 20 ∨ id = 21 then some 0 else none
      tproperties := fun folderid id => if folderid = 10 ∧ id = 20 ∨ folderid = 11 ∧ id = 21 then some 0 else none }
  contentUnread :=
    { properties := fun id => if id = 10 ∨ id = 11 then some 1 else if id = 2 then some 0 else none
      tproperties := fun folderid id => if folderid = 2 ∧ (id = 10 ∨ id = 11) then some 1 else none }
  deferredupdate := []

/-- User 7 may read folder 11 only. -/
def readerOfOne : Session where
  sec :=
    { m_ulUserID := 7
      m_ulCompanyID := 0
      m_bRestrictedAdmin := false
      m_bOwnerAutoFullAccess := true
      groups := some []
      GetObject := fun ulObjId =>
        match twoFolders.row ulObjId with
        | some r => .ok ⟨Database.parentOf r, 5, r.flags, r.type⟩
        | none => .error notFound
      GetStoreAndType := fun _ => .ok (1, 0)
      GetACLs := fun ulObjId => .ok (if ulObjId = 11 then [⟨7, ACCESS_TYPE_GRANT, ecRightsReadAny⟩] else [])
      IsAdminOverUserObject := fun _ => .ZARAFA_E_NO_ACCESS }
  GetObjectFromEntryId := fun entryId => match entryId with
    | [id] => .ok (UInt32.ofNat id.toNat)
    | _ => .error notFound
  fails := fun _ => none

/-- A call of user 7 for the messages of both folders, that of folder 11 last. -/
def readBoth : Request := ⟨0, none, some [[20], [21]]⟩

/-- The message of folder 10 is marked read without a check. User 7 would not have passed it. -/
theorem not_setReadFlags_checked : (¬ ∀ (s : Session) (w : World) (req : Request),
      ((setReadFlags s w req).er ≠ none → (setReadFlags s w req).world = w) ∧
        ((setReadFlags s w req).er = none → ∀ r ∈ w.db.hierarchy,
          (setReadFlags s w req).world.db.messageFlags.properties r.id ≠ w.db.messageFlags.properties r.id →
            Database.parentOf r ∈ (setReadFlags s w req).passed)) ∧
      readerOfOne.sec.CheckPermission 10 ecSecurityRead = .ZARAFA_E_NO_ACCESS := by
  constructor
  · intro h
    have hchecked := (h readerOfOne ⟨twoFolders, fun _ => none⟩ readBoth).2 (by decide +kernel)
      ⟨20, some 10, MAPI_MESSAGE, 0⟩ (by decide +kernel) (by decide +kernel)
    have hunchecked : (10 : ObjId) ∉ (setReadFlags readerOfOne ⟨twoFolders, fun _ => none⟩ readBoth).passed := by
      decide +kernel
    exact hunchecked hchecked
  · decide +kernel

end Zcp.Libserver.ZarafaCmd
