import Mathlib.Tactic.Ring
import Zcp.Libserver.ZarafaCmd.Permissions

/-!
# The copies of the read state

The flags of a message are in `properties`, in the tables of folders and in the cache of cells, and each folder counts
its unread messages. `setReadFlags` keeps the counters (`setReadFlags_inStep_iff`). A table is updated for one folder
only, and a cell for the read flag only.
-/

namespace Zcp.Libserver.ZarafaCmd

open Zcp.Lib
open ZarafaCmdUtil (HierarchyRow Has MAPI_MESSAGE MAPI_ASSOCIATED MSGFLAG_READ)

variable {s : Session} {req : Request} {w : World}

/-! ## Unread messages -/

/-- A message that its folder counts. -/
def Database.IsUnread (db : Database) (r : HierarchyRow) : Bool :=
  r.type = MAPI_MESSAGE ∧ ¬ Has r.flags MAPI_ASSOCIATED ∧ ¬ Has r.flags MSGFLAG_DELETED ∧
    ¬ Has ((db.messageFlags.properties r.id).getD 0) MSGFLAG_READ

def Database.unreadCount (db : Database) (ulFolderId : ObjId) : ℕ :=
  db.hierarchy.countP fun r => Database.parentOf r = ulFolderId ∧ db.IsUnread r

/-- The cell of a property. -/
def CachedProp.of : Option UInt32 → CachedProp
  | some ul => .PT_LONG ul
  | none => .other

/-- All copies of the read state agree. -/
structure InStep (w : World) : Prop where
  tproperties : ∀ folderid id v,
    w.db.messageFlags.tproperties folderid id = some v → w.db.messageFlags.properties id = some v
  contentUnread : ∀ r ∈ w.db.hierarchy, r.type = MAPI_FOLDER →
    w.db.contentUnread.properties r.id = some (w.db.unreadCount r.id)
  cells : ∀ id cells prop, w.cells id = some cells → cells PR_MESSAGE_FLAGS = some prop →
    prop = .of (w.db.messageFlags.properties id)

/-! ## Flags -/

theorem read_bit (i : ℕ) (hi : i < 32) : MSGFLAG_READ.toBitVec[i] = decide (i = 0) := by
  simp [MSGFLAG_READ]

/-- A message is read if the lowest bit of its flags is set. -/
theorem has_read (v : UInt32) : Has v MSGFLAG_READ ↔ v.toBitVec[0] = true := by
  have hzero : v &&& MSGFLAG_READ = 0 ↔ v.toBitVec[0] = false := by
    rw [← UInt32.toBitVec_inj, UInt32.toBitVec_and, BitVec.eq_of_getElem_eq_iff]
    constructor
    · intro h
      have hbit := h 0 (by decide)
      simpa [read_bit] using hbit
    · intro h i hi
      by_cases h0 : i = 0
      · subst h0
        simp [h]
      · simp [read_bit i hi, h0]
  rw [Has, ne_eq, hzero, Bool.not_eq_false]

/-- The mask leaves `MSGFLAG_READ` exactly of the flags of a read message. -/
theorem and_read (v : UInt32) : v &&& MSGFLAG_READ = MSGFLAG_READ ↔ Has v MSGFLAG_READ := by
  constructor
  · intro h
    rw [Has, h]
    decide
  · intro h
    have hbit := (has_read v).mp h
    apply UInt32.toBitVec_inj.mp
    ext i hi
    by_cases h0 : i = 0
    · subst h0
      simp [hbit]
    · simp [read_bit i hi, h0]

theorem Request.not_both (req : Request) : ¬ (Has req.ulFlagsAdd MSGFLAG_READ ∧ Has req.ulFlagsRemove MSGFLAG_READ) := by
  rw [has_read, has_read]
  have hbit := congrArg (fun flags : UInt32 => flags.toBitVec[0]) req.remove_and_add
  simp only [UInt32.toBitVec_and, BitVec.getElem_and, UInt32.toBitVec_zero, BitVec.getElem_zero] at hbit
  rintro ⟨hadd, hremove⟩
  rw [hadd, hremove] at hbit
  cases hbit

theorem Request.has_newFlags (req : Request) (v : UInt32) : Has (req.newFlags v) MSGFLAG_READ ↔
      Has v MSGFLAG_READ ∧ ¬ Has req.ulFlagsRemove MSGFLAG_READ ∨ Has req.ulFlagsAdd MSGFLAG_READ := by
  rw [has_read, has_read, has_read, has_read, newFlags]
  simp

/-- What is counted for a message is the difference it makes. -/
theorem Request.delta_eq (req : Request) (v : UInt32) :
    (if Has (req.newFlags v) MSGFLAG_READ then 0 else 1 : ℤ) = (if Has v MSGFLAG_READ then 0 else 1) + req.delta v := by
  have hboth := req.not_both
  have hnew := req.has_newFlags v
  have hread := and_read v
  rw [delta]
  by_cases hv : Has v MSGFLAG_READ
  · have hset : v &&& MSGFLAG_READ ≠ 0 := hv
    grind
  · have hunset : v &&& MSGFLAG_READ = 0 := not_not.mp hv
    grind

/-- A call adds the read flag only. -/
theorem Request.add_bit (req : Request) (i : ℕ) (hi : i < 32) (h0 : i ≠ 0) : req.ulFlagsAdd.toBitVec[i] = false := by
  rw [ulFlagsAdd]
  split_ifs
  · rw [read_bit i hi]
    simpa using h0
  · simp

/-- The update of a cell gives the new flags when no other flag is removed. -/
theorem Request.cell_eq_iff (req : Request) (v : UInt32) :
    (v &&& ~~~((req.ulFlagsAdd ||| req.ulFlagsRemove) &&& MSGFLAG_READ)) |||
        (req.ulFlagsAdd &&& MSGFLAG_READ &&& ((req.ulFlagsAdd ||| req.ulFlagsRemove) &&& MSGFLAG_READ)) =
      req.newFlags v ↔ v &&& req.ulFlagsRemove &&& ~~~MSGFLAG_READ = 0 := by
  rw [newFlags, ← UInt32.toBitVec_inj, ← UInt32.toBitVec_inj, BitVec.eq_of_getElem_eq_iff,
    BitVec.eq_of_getElem_eq_iff]
  apply forall_congr'
  intro i
  apply forall_congr'
  intro hi
  simp only [UInt32.toBitVec_or, UInt32.toBitVec_and, UInt32.toBitVec_not, BitVec.getElem_or, BitVec.getElem_and,
    BitVec.getElem_not, read_bit i hi, UInt32.toBitVec_zero, BitVec.getElem_zero]
  by_cases h0 : i = 0
  · subst h0
    simp
    grind
  · simp [h0, req.add_bit i hi h0]

/-! ## Counters -/

/-- The change that `mapParents` has for a folder. -/
def changeOf (mapParents : List (ObjId × ℤ)) (ulFolderId : ObjId) : ℤ :=
  ((OrderedMap.get folderKey ulFolderId.toNat mapParents).map Prod.snd).getD 0

/-- What the messages change in a folder. -/
def Database.folderDelta (db : Database) (req : Request) (ulFolderId : ObjId) (o : ObjId × UInt32) : ℤ :=
  if (db.row o.1).map Database.parentOf = some ulFolderId then req.delta o.2 else 0

theorem folderKey_iff (p : ObjId × ℤ) (ulFolderId : ObjId) : folderKey p = ulFolderId.toNat ↔ p.1 = ulFolderId :=
  UInt32.toNat_inj

theorem changeOf_cons (p : ObjId × ℤ) (mapParents : List (ObjId × ℤ)) (f : ObjId) :
    changeOf (p :: mapParents) f = if p.1 = f then p.2 else changeOf mapParents f := by
  rw [changeOf, OrderedMap.get]
  by_cases hf : p.1 = f
  · rw [if_pos hf, List.find?_cons_of_pos (by simpa using (folderKey_iff p f).mpr hf)]
    rfl
  · rw [if_neg hf, List.find?_cons_of_neg (by simpa using mt (folderKey_iff p f).mp hf)]
    rfl

/-- Writing the change of one folder leaves those of the others, in the ordered map of the parents. -/
theorem changeOf_set {mapParents : List (ObjId × ℤ)} (hsorted : OrderedMap.Sorted folderKey mapParents)
    (ulParent : ObjId) (change : ℤ) (f : ObjId) :
    changeOf (OrderedMap.set folderKey (ulParent, change) mapParents) f =
      if ulParent = f then change else changeOf mapParents f := by
  rw [changeOf, OrderedMap.get_set hsorted]
  by_cases hf : ulParent = f
  · rw [if_pos ((folderKey_iff _ f).mpr hf), if_pos hf]
    rfl
  · rw [if_neg (mt (folderKey_iff _ f).mp hf), if_neg hf]
    rfl

/-- Writing the change of a folder adds this folder, and no other one. -/
theorem keys_set {mapParents : List (ObjId × ℤ)} (hsorted : OrderedMap.Sorted folderKey mapParents) (ulParent : ObjId)
    (change : ℤ) (f : ObjId) : f ∈ (OrderedMap.set folderKey (ulParent, change) mapParents).map Prod.fst ↔
      f ∈ mapParents.map Prod.fst ∨ ulParent = f := by
  simp only [List.mem_map, OrderedMap.mem_set hsorted]
  constructor
  · rintro ⟨p, rfl | ⟨hp, -⟩, rfl⟩
    · exact .inr rfl
    · exact .inl ⟨p, hp, rfl⟩
  · rintro (⟨p, hp, rfl⟩ | rfl)
    · by_cases hkey : folderKey p = folderKey (ulParent, change)
      · exact ⟨_, .inl rfl, ((folderKey_iff p ulParent).mp hkey).symm⟩
      · exact ⟨p, .inr ⟨hp, hkey⟩, rfl⟩
    · exact ⟨_, .inl rfl, rfl⟩

variable {db : Database} {r : HierarchyRow}

/-- An object that is found is a row of the table. -/
theorem getObject_ok {statement : Statement} {ulObjId : ObjId}
    (h : db.GetObject s statement ulObjId = .ok r) : db.row ulObjId = some r := by
  rw [Database.GetObject] at h
  split at h
  · cases h
  · cases h
  case h_3 r' _ hrow =>
    rw [hrow]
    exact congrArg some (Except.ok.inj h)

theorem row_some {ulObjId : ObjId} (h : db.row ulObjId = some r) : r ∈ db.hierarchy ∧ r.id = ulObjId :=
  ⟨List.mem_of_find?_eq_some h, by simpa using List.find?_some h⟩

theorem row_of_mem (db : Database) (hr : r ∈ db.hierarchy) : db.row r.id = some r := by
  cases hrow : db.row r.id with
  | none =>
    have habsent := List.find?_eq_none.mp hrow r hr
    simp at habsent
  | some r' =>
    obtain ⟨hr', hid⟩ := row_some hrow
    rw [db.row_unique hr' hr hid]

theorem folderDelta_of_row {o : ObjId × UInt32} (hrow : db.row o.1 = some r)
    (f : ObjId) : db.folderDelta req f o = if Database.parentOf r = f then req.delta o.2 else 0 := by
  rw [Database.folderDelta, hrow]
  simp only [Option.map_some, Option.some_inj]

/-- `mapParents` has the folders of all messages, each with the sum of their changes. -/
theorem countChanges_spec {l : List (ObjId × UInt32)} {mapParents mapParents' : List (ObjId × ℤ)}
    (h : countChanges s db req l mapParents = .ok mapParents') (hsorted : OrderedMap.Sorted folderKey mapParents) :
    OrderedMap.Sorted folderKey mapParents' ∧
      (∀ f, changeOf mapParents' f = changeOf mapParents f + (l.map (db.folderDelta req f)).sum) ∧
      ∀ f, f ∈ mapParents'.map Prod.fst ↔
        f ∈ mapParents.map Prod.fst ∨ ∃ o ∈ l, (db.row o.1).map Database.parentOf = some f := by
  induction l generalizing mapParents with
  | nil =>
    obtain rfl := Except.ok.inj h
    exact ⟨hsorted, by simp, by simp⟩
  | cons o l ih =>
    obtain ⟨r, hr, h⟩ := bind_eq_ok h
    have hrow := getObject_ok hr
    obtain ⟨hsorted', hchange, hkeys⟩ := ih h (hsorted.set _)
    refine ⟨hsorted', fun f => ?_, fun f => ?_⟩
    · rw [hchange, changeOf_set hsorted, List.map_cons, List.sum_cons, folderDelta_of_row hrow]
      by_cases hf : Database.parentOf r = f
      · rw [if_pos hf, if_pos hf, ← hf, changeOf]
        ring
      · rw [if_neg hf, if_neg hf, zero_add]
    · rw [hkeys, keys_set hsorted, or_assoc]
      apply or_congr_right
      simp only [List.mem_cons, exists_eq_or_imp, hrow, Option.map_some, Option.some_inj]

@[simp] theorem addDelta_zero (val_ulong : ℕ) : addDelta val_ulong 0 = val_ulong := by
  simp [addDelta]

/-- A counter that stays positive is not cut off. -/
theorem addDelta_eq {val_ulong val_ulong' : ℕ} {lDelta : ℤ} (h : (val_ulong' : ℤ) = val_ulong + lDelta) :
    addDelta val_ulong lDelta = val_ulong' := by
  rw [addDelta]
  split_ifs <;> omega

variable {db' : Database}

/-- A counter that is updated successfully changes by the difference, and no other counter changes. -/
theorem updateFolderCount_spec {ulFolderId : ObjId} {lDelta : ℤ}
    (h : UpdateFolderCount s db ulFolderId lDelta = .ok db') (hr : r ∈ db.hierarchy)
    (hfolder : r.type = MAPI_FOLDER) :
    db'.contentUnread.properties r.id = if ulFolderId = r.id then
      (db.contentUnread.properties r.id).map (addDelta · lDelta) else db.contentUnread.properties r.id := by
  rw [UpdateFolderCount] at h
  by_cases hzero : lDelta = 0
  · rw [if_pos hzero] at h
    obtain rfl := Except.ok.inj h
    simp [hzero]
  · rw [if_neg hzero] at h
    obtain ⟨r', hr', h⟩ := bind_eq_ok h
    obtain ⟨hmem, hid⟩ := row_some (getObject_ok hr')
    by_cases htype : r'.type ≠ MAPI_FOLDER
    · rw [if_pos htype] at h
      obtain rfl := Except.ok.inj h
      rw [if_neg]
      rintro heq
      obtain rfl := db.row_unique hmem hr (hid.trans heq)
      exact htype hfolder
    · rw [if_neg htype] at h
      obtain ⟨-, -, h⟩ := bind_eq_ok h
      obtain ⟨-, -, h⟩ := bind_eq_ok h
      obtain rfl := Except.ok.inj h
      simp only [eq_comm (a := ulFolderId)]
      rfl

/-- Every folder gets its change. -/
theorem updateCounts_spec {mapParents : List (ObjId × ℤ)}
    (h : updateCounts s db mapParents = .ok db') (hsorted : OrderedMap.Sorted folderKey mapParents)
    (hr : r ∈ db.hierarchy) (hfolder : r.type = MAPI_FOLDER) :
    db'.contentUnread.properties r.id = (db.contentUnread.properties r.id).map (addDelta · (changeOf mapParents r.id)) := by
  induction mapParents generalizing db with
  | nil =>
    obtain rfl := Except.ok.inj h
    simp [changeOf, OrderedMap.get]
  | cons p mapParents ih =>
    obtain ⟨hfirst, hsorted⟩ := List.pairwise_cons.mp hsorted
    have hrest : p.1 = r.id → changeOf mapParents r.id = 0 := by
      intro hid
      rw [changeOf, OrderedMap.get_eq_none.mpr]
      · rfl
      · intro q hq hkey
        exact (hfirst q hq).ne (((folderKey_iff p r.id).mpr hid).trans hkey.symm)
    rw [updateCounts] at h
    rw [changeOf_cons]
    by_cases hzero : p.2 = 0
    · rw [if_pos hzero] at h
      rw [ih h hsorted hr]
      split_ifs with hid
      · rw [hrest hid, hzero]
      · rfl
    · rw [if_neg hzero] at h
      obtain ⟨r', -, h⟩ := bind_eq_ok h
      by_cases hparent : r'.parent = none
      · rw [if_pos hparent] at h
        cases h
      · rw [if_neg hparent] at h
        obtain ⟨db₁, hcount, h⟩ := bind_eq_ok h
        rw [ih h hsorted (by rwa [(updateFolderCount_only hcount).hierarchy]),
          updateFolderCount_spec hcount hr hfolder]
        split_ifs with hid
        · simp only [hrest hid, addDelta_zero, Option.map_id_fun', id_eq]
        · rfl

/-! ## Counting again -/

/-- A sum over the entries that are selected is the sum over all, with 0 for the others. -/
theorem sum_filterMap {α β : Type} (select : α → Option β) (g : β → ℤ) (l : List α) :
    ((l.filterMap select).map g).sum = (l.map fun a => ((select a).map g).getD 0).sum := by
  induction l with
  | nil => rfl
  | cons a l ih =>
    cases hselect : select a with
    | none => rw [List.filterMap_cons_none hselect, ih, List.map_cons, List.sum_cons, hselect, Option.map_none,
        Option.getD_none, zero_add]
    | some b => rw [List.filterMap_cons_some hselect, List.map_cons, List.sum_cons, ih, List.map_cons, List.sum_cons,
        hselect, Option.map_some, Option.getD_some]

/-- A count changes by the sum of what the elements change. -/
theorem countP_add {α : Type} {p q : α → Bool} {d : α → ℤ} {l : List α}
    (h : ∀ a ∈ l, (if q a then 1 else 0 : ℤ) = (if p a then 1 else 0) + d a) :
    (l.countP q : ℤ) = l.countP p + (l.map d).sum := by
  induction l with
  | nil => rfl
  | cons a l ih =>
    have hhead := h a List.mem_cons_self
    have htail := ih fun b hb => h b (List.mem_cons_of_mem a hb)
    rw [List.countP_cons, List.countP_cons, List.map_cons, List.sum_cons]
    push_cast
    omega

theorem isUnread_congr
    (h : db'.messageFlags.properties r.id = db.messageFlags.properties r.id) : db'.IsUnread r = db.IsUnread r := by
  apply decide_eq_decide.mpr
  rw [h]

theorem unreadCount_congr (hhierarchy : db'.hierarchy = db.hierarchy)
    (hproperties : db'.messageFlags.properties = db.messageFlags.properties) (f : ObjId) :
    db'.unreadCount f = db.unreadCount f := by
  rw [Database.unreadCount, Database.unreadCount, hhierarchy]
  apply List.countP_congr
  intro r _
  rw [isUnread_congr (congrFun hproperties r.id)]

/-- Messages that change, taken from their rows. -/
structure Picks (db : Database) (l : List (ObjId × UInt32)) (pick : HierarchyRow → Option (ObjId × UInt32)) : Prop where
  eq : l = db.hierarchy.filterMap pick
  id : ∀ r o, pick r = some o → o.1 = r.id
  message : ∀ r o, pick r = some o → r.type = MAPI_MESSAGE ∧ r.flags = 0
  flags : ∀ o ∈ l, db.messageFlags.properties o.1 = some o.2

/-- The selection by `SELECT` picks each message at most once, with the flags of its property. -/
theorem Picks.of_selectMessages {among : HierarchyRow → Bool} {val_ulong : HierarchyRow → Option UInt32}
    (hval : ∀ r v, val_ulong r = some v → db.messageFlags.properties r.id = some v) :
    ∃ pick, Picks db (db.selectMessages req among val_ulong) pick := by
  refine ⟨_, rfl, ?_, ?_, ?_⟩
  · intro r o hpick
    split at hpick
    · split_ifs at hpick
      obtain rfl := Option.some.inj hpick
      rfl
    · cases hpick
  · intro r o hpick
    split at hpick
    · split_ifs at hpick with hsel
      exact ⟨hsel.1, hsel.2.1⟩
    · cases hpick
  · rintro ⟨id, v⟩ ho
    obtain ⟨r, -, rfl, hv, -⟩ := Database.mem_selectMessages.mp ho
    exact hval r v hv

/-- A row that is not picked is not in the list. -/
theorem Picks.not_mem {l : List (ObjId × UInt32)} {pick : HierarchyRow → Option (ObjId × UInt32)}
    (hpicks : Picks db l pick) (hr : r ∈ db.hierarchy) (hnone : pick r = none) : r.id ∉ l.map Prod.fst := by
  intro hid
  obtain ⟨o, ho, hid⟩ := List.mem_map.mp hid
  rw [hpicks.eq] at ho
  obtain ⟨r', hr', hpick⟩ := List.mem_filterMap.mp ho
  obtain rfl := db.row_unique hr' hr ((hpicks.id r' o hpick).symm.trans hid)
  rw [hnone] at hpick
  cases hpick

/-- The number of unread messages of a folder changes by what has been counted for it. -/
theorem Picks.unreadCount {l : List (ObjId × UInt32)}
    {pick : HierarchyRow → Option (ObjId × UInt32)} (hpicks : Picks db l pick)
    (hhierarchy : db'.hierarchy = db.hierarchy)
    (hflags : ∀ id, db'.messageFlags.properties id = if id ∈ l.map Prod.fst then
      (db.messageFlags.properties id).map req.newFlags else db.messageFlags.properties id) (f : ObjId) :
    (db'.unreadCount f : ℤ) = db.unreadCount f + (l.map (db.folderDelta req f)).sum := by
  rw [hpicks.eq, sum_filterMap, Database.unreadCount, Database.unreadCount, hhierarchy]
  apply countP_add
  intro r hr
  cases hpick : pick r with
  | none =>
    have hsame : db'.messageFlags.properties r.id = db.messageFlags.properties r.id := by
      rw [hflags, if_neg (hpicks.not_mem hr hpick)]
    rw [isUnread_congr hsame, Option.map_none, Option.getD_none, add_zero]
  | some o =>
    obtain ⟨id, v⟩ := o
    obtain rfl : id = r.id := hpicks.id r _ hpick
    obtain ⟨htype, hrflags⟩ := hpicks.message r _ hpick
    have ho : (r.id, v) ∈ l := by
      rw [hpicks.eq]
      exact List.mem_filterMap.mpr ⟨r, hr, hpick⟩
    have hv : db.messageFlags.properties r.id = some v := hpicks.flags _ ho
    have hv' : db'.messageFlags.properties r.id = some (req.newFlags v) := by
      rw [hflags, if_pos (List.mem_map_of_mem (f := Prod.fst) ho), hv, Option.map_some]
    have hunread : db.IsUnread r = decide (¬ Has v MSGFLAG_READ) := by
      simp [Database.IsUnread, htype, hrflags, hv]
    have hunread' : db'.IsUnread r = decide (¬ Has (req.newFlags v) MSGFLAG_READ) := by
      simp [Database.IsUnread, htype, hrflags, hv']
    have hdelta := req.delta_eq v
    rw [hunread, hunread', Option.map_some, Option.getD_some, folderDelta_of_row (row_of_mem db hr)]
    by_cases hf : Database.parentOf r = f
    · simp only [hf, true_and, decide_eq_true_eq, ite_not, if_true]
      simpa only [ne_eq, ite_not] using hdelta
    · simp only [hf, false_and, decide_false, Bool.false_eq_true, if_false, add_zero]

/-! ## The messages of a call -/

/-- The purge of deferred updates gets through. -/
def Session.Purges (s : Session) : Prop :=
  s.fails .selectDeferred = none ∧ s.fails .lockDeferred = none ∧ s.fails .replaceDeferred = none

instance : Decidable s.Purges :=
  inferInstanceAs (Decidable (s.fails .selectDeferred = none ∧ s.fails .lockDeferred = none ∧
    s.fails .replaceDeferred = none))

/-- A message that the call gets at: one of its list, or one that is in the table of its folder. -/
def Reaches (s : Session) (db : Database) (req : Request) (r : HierarchyRow) : Prop :=
  match req.lpMessageList, req.lpsEntryId with
  | some lpMessageList, _ => r.id ∈ s.GetEntryListToObjectList lpMessageList
  | none, some lpsEntryId => ∃ ulFolderId, s.GetObjectFromEntryId lpsEntryId = .ok ulFolderId ∧
      r.parent = some ulFolderId ∧ (db.messageFlags.tproperties ulFolderId r.id ≠ none ∨
        (ulFolderId, r.id) ∈ db.deferredupdate ∧ s.Purges)
  | none, none => False

/-- A message whose flags the call changes. -/
def Changes (s : Session) (db : Database) (req : Request) (r : HierarchyRow) : Prop :=
  ¬ Has req.ulFlags GENERATE_RECEIPT_ONLY ∧ Reaches s db req r ∧ req.Alters db r

/-- The folder whose table is updated. -/
def tableFolder (s : Session) (db : Database) (req : Request) : ObjId :=
  match req.lpMessageList, req.lpsEntryId with
  | some lpMessageList, _ => (lastFolder s db (s.GetEntryListToObjectList lpMessageList)).getD 0
  | none, some lpsEntryId => (s.GetObjectFromEntryId lpsEntryId).toOption.getD 0
  | none, none => 0

/-- The purge writes the deferred rows of its folder. -/
theorem purge_tproperties (db : Database) (ulFolderId folderid id : ObjId) :
    (PurgeDeferredTableUpdates s db ulFolderId).messageFlags.tproperties folderid id =
      if folderid = ulFolderId ∧ (ulFolderId, id) ∈ db.deferredupdate ∧ s.Purges then
        (db.messageFlags.properties id).or (db.messageFlags.tproperties folderid id)
      else db.messageFlags.tproperties folderid id := by
  have hmem : id ∈ (db.deferredupdate.filter fun d => d.1 = ulFolderId).map Prod.snd ↔
      (ulFolderId, id) ∈ db.deferredupdate := by
    simp only [List.mem_map, List.mem_filter, decide_eq_true_eq, Prod.exists, exists_eq_right]
  rw [PurgeDeferredTableUpdates]
  by_cases hfails : (s.fails .selectDeferred).isSome ∨
      (db.deferredupdate.filter fun d => d.1 = ulFolderId).map Prod.snd = [] ∨ (s.fails .lockDeferred).isSome ∨
      (s.fails .replaceDeferred).isSome
  · rw [if_pos hfails, if_neg]
    rintro ⟨-, hdeferred, hselect, hlock, hreplace⟩
    rcases hfails with h | h | h | h
    · rw [hselect] at h
      cases h
    · exact absurd (hmem.mpr hdeferred) (by rw [h]; exact List.not_mem_nil)
    · rw [hlock] at h
      cases h
    · rw [hreplace] at h
      cases h
  · have hpurges : s.Purges := by
      simp only [not_or, Bool.not_eq_true, Option.isSome_eq_false_iff, Option.isNone_iff_eq_none] at hfails
      exact ⟨hfails.1, hfails.2.2.1, hfails.2.2.2⟩
    rw [if_neg hfails]
    show (if folderid = ulFolderId ∧ id ∈ (db.deferredupdate.filter fun d => d.1 = ulFolderId).map Prod.snd then _
      else _) = _
    simp only [hmem, hpurges, and_true]

/-- What is in a table is in `properties`. -/
abbrev TablesInStep (t : PropTables UInt32) : Prop :=
  ∀ folderid id v, t.tproperties folderid id = some v → t.properties id = some v

/-- A purged table has the rows it had and the deferred ones. -/
theorem purge_inTable (htables : TablesInStep db.messageFlags) (folderid id : ObjId) (v : UInt32) :
    (PurgeDeferredTableUpdates s db folderid).messageFlags.tproperties folderid id = some v ↔
      db.messageFlags.properties id = some v ∧
        (db.messageFlags.tproperties folderid id ≠ none ∨ (folderid, id) ∈ db.deferredupdate ∧ s.Purges) := by
  rw [purge_tproperties]
  cases hold : db.messageFlags.tproperties folderid id with
  | none =>
    by_cases hdeferred : (folderid, id) ∈ db.deferredupdate ∧ s.Purges
    · simp [hdeferred]
    · rw [if_neg fun h => hdeferred h.2]
      simp [hdeferred]
  | some u =>
    have hu := htables folderid id u hold
    simp [hu]

variable {sel : Selection}

/-- Selecting leaves both tables of the flags in step, and touches no table but that of the folder. -/
theorem select_tables (htables : TablesInStep db.messageFlags) (hsel : select s db req = .ok sel) :
    TablesInStep sel.db.messageFlags ∧ ∀ folderid id, folderid ≠ sel.ulParent →
        sel.db.messageFlags.tproperties folderid id = db.messageFlags.tproperties folderid id := by
  rcases select_selects hsel with ⟨lpsEntryId, -, -, hfolder⟩ | ⟨lpMessageList, -, -, rfl⟩ | ⟨lpMessageList, -, hlist⟩
  · obtain ⟨-, hdb, -⟩ := selectFolder_spec hfolder
    rw [hdb]
    constructor
    · intro folderid id v hv
      rw [(purge_properties db sel.ulParent).2.1]
      by_cases hparent : folderid = sel.ulParent
      · subst hparent
        exact ((purge_inTable htables _ id v).mp hv).1
      · rw [purge_tproperties, if_neg fun h => hparent h.1] at hv
        exact htables folderid id v hv
    · intro folderid id hparent
      rw [purge_tproperties, if_neg fun h => hparent h.1]
  · exact ⟨htables, fun folderid id _ => rfl⟩
  · obtain ⟨hdb, -⟩ := selectList_spec hlist
    rw [hdb]
    exact ⟨htables, fun folderid id _ => rfl⟩

/-- The folder whose table is updated afterwards is the one the request names, or the parent of the last message. -/
theorem select_ulParent (hsel : select s db req = .ok sel) : sel.ulParent = tableFolder s db req := by
  rcases select_selects hsel with
    ⟨lpsEntryId, hnone, hentry, hfolder⟩ | ⟨lpMessageList, hlist, hids, rfl⟩ | ⟨lpMessageList, hlist, hselected⟩
  · obtain ⟨hid, -⟩ := selectFolder_spec hfolder
    simp only [tableFolder, hnone, hentry, hid]
    rfl
  · simp only [tableFolder, hlist, hids]
    rfl
  · obtain ⟨-, -, hparent, -⟩ := selectList_spec hselected
    simp only [tableFolder, hlist, hparent]

/-- The selected messages are those that change. -/
theorem selected_iff (htables : TablesInStep db.messageFlags)
    (hsel : select s db req = .ok sel) (hr : r ∈ db.hierarchy) :
    r.id ∈ sel.lObjectIds.map Prod.fst ↔ Reaches s db req r ∧ req.Alters db r := by
  rcases select_selects hsel with
    ⟨lpsEntryId, hnone, hentry, hfolder⟩ | ⟨lpMessageList, hlist, hids, rfl⟩ | ⟨lpMessageList, hlist, hselected⟩
  · obtain ⟨hid, hdb, hids, -⟩ := selectFolder_spec hfolder
    have hrow : r ∈ sel.db.hierarchy := by rwa [(select_properties hsel).1]
    rw [hids, sel.db.row_selected hrow, hdb]
    simp only [purge_inTable htables, Reaches, hnone, hentry, hid, decide_eq_true_eq, Request.Alters, Except.ok.injEq]
    constructor
    · rintro ⟨htype, hflags, hparent, v, ⟨hv, htable⟩, hchanges⟩
      exact ⟨⟨sel.ulParent, rfl, hparent, htable⟩, htype, hflags, v, hv, hchanges⟩
    · rintro ⟨⟨ulFolderId, rfl, hparent, htable⟩, htype, hflags, v, hv, hchanges⟩
      exact ⟨htype, hflags, hparent, v, ⟨hv, htable⟩, hchanges⟩
  · simp only [Reaches, hlist, hids, List.map_nil, List.not_mem_nil, false_and]
  · rw [list_selected_iff hselected hr]
    simp only [Reaches, hlist]

/-- Whichever way the messages are selected, each of them is picked at most once. -/
theorem select_picks (htables : TablesInStep db.messageFlags)
    (hsel : select s db req = .ok sel) : ∃ pick, Picks sel.db sel.lObjectIds pick := by
  have hselTables := (select_tables htables hsel).1
  rcases select_selects hsel with
    ⟨lpsEntryId, -, -, hfolder⟩ | ⟨lpMessageList, -, -, rfl⟩ | ⟨lpMessageList, -, hselected⟩
  · obtain ⟨-, -, hids, -⟩ := selectFolder_spec hfolder
    rw [hids]
    exact Picks.of_selectMessages fun r v hv => hselTables _ _ _ hv
  · exact ⟨fun _ => none, by simp, by simp, by simp, by simp⟩
  · obtain ⟨hdb, hids, -⟩ := selectList_spec hselected
    rw [hids, hdb]
    exact Picks.of_selectMessages fun r v hv => hv

/-! ## Tables -/

/-- The messages that change are in no table but the one that is updated. -/
def OneTable (s : Session) (db : Database) (req : Request) : Prop :=
  ∀ r ∈ db.hierarchy, Changes s db req r →
    ∀ folderid, db.messageFlags.tproperties folderid r.id ≠ none → folderid = tableFolder s db req

/-- The new flags of a message that changes. -/
theorem update_flags {mapParents : List (ObjId × ℤ)}
    (hsel : select s db req = .ok sel) (hupdate : update s req sel = .ok (db', mapParents)) (id : ObjId) :
    db'.messageFlags.properties id = if id ∈ sel.lObjectIds.map Prod.fst then
      (db.messageFlags.properties id).map req.newFlags else db.messageFlags.properties id := by
  rw [update_properties hupdate, (select_properties hsel).2.1]

variable {id : ObjId}

/-- The copies of one folder are replaced. -/
theorem updateTProp_of_mem {ν : Type} {t : PropTables ν} {ids : List ObjId} {folderid : ObjId} {v : ν}
    (hid : id ∈ ids) (hv : (UpdateTProp t folderid ids).properties id = some v) :
    (UpdateTProp t folderid ids).tproperties folderid id = (t.tproperties folderid id).map fun _ => v := by
  replace hv : t.properties id = some v := hv
  rw [UpdateTProp]
  simp only [hid, hv, and_true, if_true]
  cases t.tproperties folderid id with
  | none => rfl
  | some _ => rfl

theorem updateTProp_of_not {ν : Type} {t : PropTables ν} {ids : List ObjId} {ulFolderId folderid : ObjId}
    (h : ¬ (folderid = ulFolderId ∧ id ∈ ids)) :
    (UpdateTProp t ulFolderId ids).tproperties folderid id = t.tproperties folderid id :=
  if_neg h

/-- The row of a selected message. -/
theorem exists_row (htables : TablesInStep db.messageFlags)
    (hsel : select s db req = .ok sel) (hid : id ∈ sel.lObjectIds.map Prod.fst) :
    ∃ r ∈ db.hierarchy, r.id = id ∧ Reaches s db req r ∧ req.Alters db r := by
  obtain ⟨pick, hpicks⟩ := select_picks htables hsel
  obtain ⟨o, ho, rfl⟩ := List.mem_map.mp hid
  have hpicked := ho
  rw [hpicks.eq] at hpicked
  obtain ⟨r, hr, hpick⟩ := List.mem_filterMap.mp hpicked
  rw [(select_properties hsel).1] at hr
  have hrow : r.id = o.1 := (hpicks.id r o hpick).symm
  rw [← hrow] at hid
  exact ⟨r, hr, hrow, (selected_iff htables hsel hr).mp hid⟩

/-- Both tables are in step after the update exactly if all messages are in the one table that is updated. -/
theorem update_tables_iff {mapParents : List (ObjId × ℤ)}
    (htables : TablesInStep db.messageFlags) (hreceipt : ¬ Has req.ulFlags GENERATE_RECEIPT_ONLY)
    (hsel : select s db req = .ok sel) (hupdate : update s req sel = .ok (db', mapParents)) :
    TablesInStep db'.messageFlags ↔ OneTable s db req := by
  obtain ⟨hselTables, hother⟩ := select_tables htables hsel
  have hflagged : db'.messageFlags = UpdateTProp (sel.db.updateFlags req (sel.lObjectIds.map Prod.fst)).messageFlags
      sel.ulParent (sel.lObjectIds.map Prod.fst) := (update_only hupdate).messageFlags
  constructor
  · -- a copy in another table keeps the old flags
    rintro htables' r hr ⟨-, hreaches, halters⟩ folderid htable
    rw [← select_ulParent hsel]
    by_contra hparent
    obtain ⟨-, -, v, hv, hchanges⟩ := id halters
    obtain ⟨u, hu⟩ := Option.ne_none_iff_exists'.mp htable
    obtain rfl : v = u := Option.some.inj (hv.symm.trans (htables folderid r.id u hu))
    have hold : db'.messageFlags.tproperties folderid r.id = some v := by
      rw [hflagged, updateTProp_of_not fun h => hparent h.1]
      exact (hother folderid r.id hparent).trans hu
    have hnew := htables' folderid r.id v hold
    rw [update_flags hsel hupdate, if_pos ((selected_iff htables hsel hr).mpr ⟨hreaches, halters⟩), hv,
      Option.map_some] at hnew
    exact (req.newFlags_ne_iff v).mpr hchanges (Option.some.inj hnew)
  · intro honly folderid id v hv
    by_cases hid : id ∈ sel.lObjectIds.map Prod.fst
    · obtain ⟨r, hr, rfl, hreaches, halters⟩ := exists_row htables hsel hid
      obtain ⟨-, -, u, hu, -⟩ := id halters
      have hnew : db'.messageFlags.properties r.id = some (req.newFlags u) := by
        rw [update_flags hsel hupdate, if_pos hid, hu, Option.map_some]
      by_cases hparent : folderid = sel.ulParent
      · subst hparent
        rw [hflagged] at hnew hv
        rw [updateTProp_of_mem hid hnew, Option.map_eq_some_iff] at hv
        obtain ⟨-, -, rfl⟩ := hv
        rw [hflagged]
        exact hnew
      · rw [hflagged, updateTProp_of_not fun h => hparent h.1] at hv
        have htable : db.messageFlags.tproperties folderid r.id ≠ none := by
          rw [← hother folderid r.id hparent]
          exact ne_of_eq_of_ne hv (Option.some_ne_none v)
        rw [select_ulParent hsel] at hparent
        exact absurd (honly r hr ⟨hreceipt, hreaches, halters⟩ folderid htable) hparent
    · rw [hflagged, updateTProp_of_not fun h => hid h.2] at hv
      rw [update_flags hsel hupdate, if_neg hid, ← (select_properties hsel).2.1]
      exact hselTables folderid id v hv

/-! ## Folders -/

/-- The counters of folders keep counting. -/
theorem update_contentUnread {mapParents : List (ObjId × ℤ)}
    (htables : TablesInStep db.messageFlags) (hsel : select s db req = .ok sel)
    (hupdate : update s req sel = .ok (db', mapParents)) (hr : r ∈ db.hierarchy)
    (hfolder : r.type = MAPI_FOLDER) (hcount : db.contentUnread.properties r.id = some (db.unreadCount r.id)) :
    db'.contentUnread.properties r.id = some (db'.unreadCount r.id) := by
  obtain ⟨hhierarchy, hproperties, hunread⟩ := select_properties hsel
  obtain ⟨hcounted, hcounts⟩ := update_counts hupdate
  obtain ⟨hsorted, hchange, -⟩ := countChanges_spec hcounted List.Pairwise.nil
  obtain ⟨pick, hpicks⟩ := select_picks htables hsel
  have hhierarchy' : db'.hierarchy = sel.db.hierarchy := (update_only hupdate).hierarchy
  have hnew := hpicks.unreadCount hhierarchy' (update_properties hupdate) r.id
  have hrow : r ∈ (sel.flagged req).hierarchy := hhierarchy ▸ hr
  rw [updateCounts_spec hcounts hsorted hrow hfolder]
  show (sel.db.contentUnread.properties r.id).map (addDelta · (changeOf mapParents r.id)) = _
  rw [hunread, hcount, Option.map_some]
  apply congrArg some
  apply addDelta_eq
  rw [hnew, hchange, unreadCount_congr hhierarchy hproperties]
  show _ = (db.unreadCount r.id : ℤ) + (0 + _)
  rw [zero_add]
  rfl

/-- The counted folders are those of the messages that change. -/
theorem update_keys {mapParents : List (ObjId × ℤ)}
    (htables : TablesInStep db.messageFlags) (hsel : select s db req = .ok sel)
    (hupdate : update s req sel = .ok (db', mapParents)) (f : ObjId) : f ∈ mapParents.map Prod.fst ↔
      ∃ r ∈ db.hierarchy, (Reaches s db req r ∧ req.Alters db r) ∧ Database.parentOf r = f := by
  obtain ⟨hcounted, -⟩ := update_counts hupdate
  obtain ⟨-, -, hkeys⟩ := countChanges_spec hcounted List.Pairwise.nil
  have hrow (id : ObjId) : (sel.flagged req).row id = db.row id := by
    show sel.db.row id = db.row id
    rw [Database.row, (select_properties hsel).1]
    rfl
  rw [hkeys]
  simp only [List.map_nil, List.not_mem_nil, false_or, hrow, Option.map_eq_some_iff]
  constructor
  · rintro ⟨o, ho, r, hr, rfl⟩
    obtain ⟨hmem, hid⟩ := row_some hr
    refine ⟨r, hmem, (selected_iff htables hsel hmem).mp ?_, rfl⟩
    rw [hid]
    exact List.mem_map_of_mem ho
  · rintro ⟨r, hr, hselected, rfl⟩
    obtain ⟨o, ho, hid⟩ := List.mem_map.mp ((selected_iff htables hsel hr).mpr hselected)
    refine ⟨o, ho, r, ?_, rfl⟩
    rw [hid]
    exact row_of_mem db hr

/-! ## Cells -/

theorem foldl_updateCell (ulPropTag ulMask ulValue : UInt32) {l : List (ObjId × UInt32)}
    (hnodup : (l.map Prod.fst).Nodup) (cache : CellCache) (id : ObjId) :
    l.foldl (fun cache o => cache.UpdateCell o.1 ulPropTag ulMask ulValue) cache id =
      if id ∈ l.map Prod.fst then (cache id).map fun cells => cells.UpdatePropVal ulPropTag ulMask ulValue
      else cache id := by
  induction l generalizing cache with
  | nil => rfl
  | cons o l ih =>
    obtain ⟨hnew, hnodup⟩ := List.nodup_cons.mp hnodup
    rw [List.foldl_cons, ih hnodup, CellCache.UpdateCell]
    by_cases hid : id = o.1
    · rw [hid, if_neg hnew, if_pos rfl, List.map_cons, if_pos List.mem_cons_self]
    · simp only [hid, if_false, List.map_cons, List.mem_cons, false_or]

theorem foldl_delCell (mapParents : List (ObjId × ℤ)) (cache : CellCache) (id : ObjId) :
    mapParents.foldl (fun cache p => cache.DelCell p.1) cache id =
      if id ∈ mapParents.map Prod.fst then none else cache id := by
  induction mapParents generalizing cache with
  | nil => rfl
  | cons p mapParents ih =>
    rw [List.foldl_cons, ih, CellCache.DelCell]
    by_cases hid : id = p.1
    · simp [hid]
    · simp only [hid, if_false, List.map_cons, List.mem_cons, false_or]

/-- The flags of a cell after the update. -/
theorem updatePropVal_flags (cells : ECsCells) (ulMask ulValue : UInt32) :
    cells.UpdatePropVal PR_MESSAGE_FLAGS ulMask ulValue PR_MESSAGE_FLAGS = (cells PR_MESSAGE_FLAGS).map fun
      | .PT_LONG ul => .PT_LONG ((ul &&& ~~~ulMask) ||| (ulValue &&& ulMask))
      | .other => .other := by
  have hlong : isLong PR_MESSAGE_FLAGS = true := by decide
  rw [ECsCells.UpdatePropVal, hlong]
  cases hcell : cells PR_MESSAGE_FLAGS with
  | none => simp [hcell]
  | some prop =>
    cases prop with
    | PT_LONG ul => simp
    | other => simp [hcell]

theorem Picks.nodup {l : List (ObjId × UInt32)} {pick : HierarchyRow → Option (ObjId × UInt32)}
    (hpicks : Picks db l pick) : (l.map Prod.fst).Nodup := by
  have hsublist (rows : List HierarchyRow) :
      ((rows.filterMap pick).map Prod.fst).Sublist (rows.map HierarchyRow.id) := by
    induction rows with
    | nil => exact List.Sublist.slnil
    | cons r rows ih =>
      cases hpick : pick r with
      | none =>
        rw [List.filterMap_cons_none hpick]
        exact ih.cons r.id
      | some o =>
        rw [List.filterMap_cons_some hpick, List.map_cons, List.map_cons, hpicks.id r o hpick]
        exact ih.cons_cons r.id
  rw [hpicks.eq]
  exact (hsublist db.hierarchy).nodup db.hierarchy_nodup

/-- No cached message loses another flag than the read flag, but for messages that are folders of such. -/
def ReadFlagOnly (s : Session) (w : World) (req : Request) : Prop :=
  ∀ r ∈ w.db.hierarchy, Changes s w.db req r → ∀ cells, w.cells r.id = some cells → cells PR_MESSAGE_FLAGS ≠ none →
    (∃ r' ∈ w.db.hierarchy, Changes s w.db req r' ∧ Database.parentOf r' = r.id) ∨
      ∀ v, w.db.messageFlags.properties r.id = some v → v &&& req.ulFlagsRemove &&& ~~~MSGFLAG_READ = 0

/-- The cells have the flags. -/
abbrev CellsInStep (db : Database) (cache : CellCache) : Prop :=
  ∀ id cells prop, cache id = some cells → cells PR_MESSAGE_FLAGS = some prop →
    prop = .of (db.messageFlags.properties id)

theorem update_cells_iff {w : World} {mapParents : List (ObjId × ℤ)}
    (hstep : InStep w) (hreceipt : ¬ Has req.ulFlags GENERATE_RECEIPT_ONLY) (hsel : select s w.db req = .ok sel)
    (hupdate : update s req sel = .ok (db', mapParents)) :
    CellsInStep db' (w.cells.followUp req sel.lObjectIds mapParents) ↔ ReadFlagOnly s w req := by
  have hkeys := update_keys hstep.tproperties hsel hupdate
  obtain ⟨pick, hpicks⟩ := select_picks hstep.tproperties hsel
  -- a folder's row is dropped, a message's flags are changed in place
  have hcache (id : ObjId) : w.cells.followUp req sel.lObjectIds mapParents id =
      if id ∈ mapParents.map Prod.fst then none
      else if id ∈ sel.lObjectIds.map Prod.fst then (w.cells id).map fun cells => cells.UpdatePropVal PR_MESSAGE_FLAGS
        ((req.ulFlagsAdd ||| req.ulFlagsRemove) &&& MSGFLAG_READ) (req.ulFlagsAdd &&& MSGFLAG_READ)
      else w.cells id := by
    rw [CellCache.followUp, foldl_delCell, foldl_updateCell _ _ _ hpicks.nodup]
  constructor
  · rintro hcells r hr ⟨-, hselected⟩ cells hcached hcell
    by_cases hparent : r.id ∈ mapParents.map Prod.fst
    · obtain ⟨r', hr', hselected', hid⟩ := (hkeys r.id).mp hparent
      exact .inl ⟨r', hr', ⟨hreceipt, hselected'⟩, hid⟩
    · refine .inr fun v hv => ?_
      have hid := (selected_iff hstep.tproperties hsel hr).mpr hselected
      obtain ⟨prop, hprop⟩ := Option.ne_none_iff_exists'.mp hcell
      have hlong : prop = .PT_LONG v := by
        rw [hstep.cells r.id cells prop hcached hprop, hv]
        rfl
      have hnew := hcache r.id
      rw [if_neg hparent, if_pos hid, hcached, Option.map_some] at hnew
      have hflags := hcells r.id _ _ hnew (by rw [updatePropVal_flags, hprop, hlong, Option.map_some])
      rw [update_flags hsel hupdate, if_pos hid, hv, Option.map_some, CachedProp.of] at hflags
      exact (req.cell_eq_iff v).mp (CachedProp.PT_LONG.inj hflags)
  · -- a row still cached is of no folder that was counted again
    intro honly id cells prop hcached hprop
    rw [hcache] at hcached
    by_cases hparent : id ∈ mapParents.map Prod.fst
    · rw [if_pos hparent] at hcached
      cases hcached
    rw [if_neg hparent] at hcached
    by_cases hid : id ∈ sel.lObjectIds.map Prod.fst
    · obtain ⟨r, hr, rfl, hselected⟩ := exists_row hstep.tproperties hsel hid
      obtain ⟨-, -, -, v, hv, -⟩ := id hselected
      rw [if_pos hid, Option.map_eq_some_iff] at hcached
      obtain ⟨old, hold, rfl⟩ := hcached
      rw [updatePropVal_flags, Option.map_eq_some_iff] at hprop
      obtain ⟨oldProp, holdProp, rfl⟩ := hprop
      have hlong : oldProp = .PT_LONG v := by
        rw [hstep.cells r.id old oldProp hold holdProp, hv]
        rfl
      have hexact := honly r hr ⟨hreceipt, hselected⟩ old hold (by rw [holdProp]; exact Option.some_ne_none _)
      rcases hexact with ⟨r', hr', ⟨-, hselected'⟩, hfolder⟩ | hkept
      · exact absurd ((hkeys r.id).mpr ⟨r', hr', hselected', hfolder⟩) hparent
      · rw [update_flags hsel hupdate, if_pos hid, hv, hlong, Option.map_some, CachedProp.of]
        exact congrArg CachedProp.PT_LONG ((req.cell_eq_iff v).mpr (hkept v hv))
    · rw [if_neg hid] at hcached
      rw [update_flags hsel hupdate, if_neg hid]
      exact hstep.cells id cells prop hcached hprop

/-! ## Calls -/

/-- A call keeps the copies of the read state in step exactly when the messages it changes are in one table and their
cells lose no other flag. -/
theorem setReadFlags_inStep_iff (s : Session) (w : World) (req : Request) (hstep : InStep w)
    (hsuccess : (setReadFlags s w req).er = none) :
    InStep (setReadFlags s w req).world ↔ OneTable s w.db req ∧ ReadFlagOnly s w req := by
  have hran := setReadFlags_ran s w req
  generalize setReadFlags s w req = out at hran hsuccess ⊢
  cases hran with
  | failed er passed => cases hsuccess
  | idle h =>
    have hnone (r : HierarchyRow) : ¬ Changes s w.db req r := by
      rintro ⟨hreceipt, -, halters⟩
      exact Request.not_alters (h.resolve_left hreceipt) w.db r halters
    exact iff_of_true hstep
      ⟨fun r _ hchanges => absurd hchanges (hnone r), fun r _ hchanges => absurd hchanges (hnone r)⟩
  | nothing sel hsel hempty db hdb =>
    have hnone (r : HierarchyRow) (hr : r ∈ w.db.hierarchy) : ¬ Changes s w.db req r := by
      rintro ⟨-, hselected⟩
      have hmem := (selected_iff hstep.tproperties hsel hr).mpr hselected
      rw [hempty] at hmem
      cases hmem
    refine iff_of_true ?_ ⟨fun r hr hchanges => absurd hchanges (hnone r hr),
      fun r hr hchanges => absurd hchanges (hnone r hr)⟩
    rcases hdb with rfl | rfl
    · exact hstep
    · obtain ⟨hhierarchy, hproperties, hunread⟩ := select_properties hsel
      constructor
      · exact (select_tables hstep.tproperties hsel).1
      · intro r hr hfolder
        show sel.db.contentUnread.properties r.id = some (sel.db.unreadCount r.id)
        rw [hunread, unreadCount_congr hhierarchy hproperties]
        exact hstep.contentUnread r (hhierarchy ▸ hr) hfolder
      · intro id cells prop hcached hprop
        show prop = .of (sel.db.messageFlags.properties id)
        rw [hproperties]
        exact hstep.cells id cells prop hcached hprop
  | done sel hsel hempty db mapParents hupdate hreceipt =>
    have htables := update_tables_iff hstep.tproperties hreceipt hsel hupdate
    have hcells := update_cells_iff hstep hreceipt hsel hupdate
    constructor
    · intro h
      exact ⟨htables.mp h.tproperties, hcells.mp h.cells⟩
    · rintro ⟨hone, hread⟩
      refine ⟨htables.mpr hone, fun r hr hfolder => ?_, hcells.mpr hread⟩
      have hrow : r ∈ w.db.hierarchy := by
        rw [← (select_properties hsel).1]
        exact (update_only hupdate).hierarchy ▸ hr
      exact update_contentUnread hstep.tproperties hsel hupdate hrow hfolder (hstep.contentUnread r hrow hfolder)

theorem twoFolders_inStep : InStep ⟨twoFolders, fun _ => none⟩ where
  tproperties := by
    intro folderid id v hv
    simp only [twoFolders] at hv ⊢
    grind
  contentUnread := by decide +kernel
  cells := by
    intro id cells prop hcached
    cases hcached

/-- User 7 marks the message of folder 11 read. -/
theorem setReadFlags_inStep_single :
    InStep (setReadFlags readerOfOne ⟨twoFolders, fun _ => none⟩ ⟨0, none, some [[21]]⟩).world ↔
      OneTable readerOfOne twoFolders ⟨0, none, some [[21]]⟩ ∧
        ReadFlagOnly readerOfOne ⟨twoFolders, fun _ => none⟩ ⟨0, none, some [[21]]⟩ :=
  setReadFlags_inStep_iff readerOfOne ⟨twoFolders, fun _ => none⟩ ⟨0, none, some [[21]]⟩ twoFolders_inStep
    (by decide +kernel)

/-- User 5, who may read both folders. -/
def owner : Session := { readerOfOne with sec := { readerOfOne.sec with m_ulUserID := 5 } }

/-- When the messages of both folders are marked read, the table of folder 10 still has its message as unread. -/
theorem not_setReadFlags_inStep :
    ¬ ∀ (s : Session) (w : World) (req : Request), InStep w → (setReadFlags s w req).er = none →
      InStep (setReadFlags s w req).world := by
  intro h
  have hstep := h owner ⟨twoFolders, fun _ => none⟩ readBoth twoFolders_inStep (by decide +kernel)
  have hflags := hstep.tproperties 10 20 0 (by decide +kernel)
  have hread : (setReadFlags owner ⟨twoFolders, fun _ => none⟩ readBoth).world.db.messageFlags.properties 20 =
      some MSGFLAG_READ := by decide +kernel
  rw [hread] at hflags
  exact absurd hflags (by decide)

end Zcp.Libserver.ZarafaCmd
