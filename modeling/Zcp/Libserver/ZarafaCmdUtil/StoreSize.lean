import Zcp.Libserver.ZarafaCmdUtil.FolderCounts

/-!
# The size of a store

The size of a store is that of the messages that are not deleted, neither themselves nor with a folder above them.
A soft delete marks its roots only, and a later delete inherits the mark to what lies below an item. It does not see
a mark that is above its roots.
-/

namespace Zcp.Libserver.ZarafaCmdUtil

open Lib

/-! ## Deleted objects and their stores -/

/-- The object has the mark, or a folder above it has. -/
inductive Deleted (hierarchy : List HierarchyRow) : ObjId → Prop
  | self {r : HierarchyRow} : r ∈ hierarchy → Has r.flags MSGFLAG_DELETED → Deleted hierarchy r.id
  | above {r p : HierarchyRow} : r ∈ hierarchy → p ∈ hierarchy → r.parent = some p.id →
      p.type = MAPI_FOLDER → Deleted hierarchy p.id → Deleted hierarchy r.id

/-- An object without a parent. -/
def IsTop (hierarchy : List HierarchyRow) (id : ObjId) : Prop :=
  ∃ r ∈ hierarchy, r.id = id ∧ r.parent = none

/-- The object lies below the store, or is the store. -/
inductive InStore (hierarchy : List HierarchyRow) (ulStoreId : ObjId) : ObjId → Prop
  | store : IsTop hierarchy ulStoreId → InStore hierarchy ulStoreId ulStoreId
  | child {r p : HierarchyRow} : r ∈ hierarchy → p ∈ hierarchy → r.parent = some p.id →
      InStore hierarchy ulStoreId p.id → InStore hierarchy ulStoreId r.id

/-- A message in a folder of the store that counts for its size. -/
structure StoredMessage (hierarchy : List HierarchyRow) (ulStoreId : ObjId) (r : HierarchyRow) : Prop where
  message : r.type = MAPI_MESSAGE
  folder : ∃ p ∈ hierarchy, r.parent = some p.id ∧ p.type = MAPI_FOLDER
  store : InStore hierarchy ulStoreId r.id
  left : ¬ Deleted hierarchy r.id

namespace Database

variable (db : Database)

/-- The size of a message, or nothing when it does not count for the store. -/
noncomputable def sizeIn (ulStoreId : ObjId) (r : HierarchyRow) : ℕ :=
  open Classical in
  if StoredMessage db.hierarchy ulStoreId r then ((db.objectSize r.id).getD 0).toNat else 0

/-- The size that a store should have. -/
noncomputable def totalSize (ulStoreId : ObjId) : ℕ := (db.hierarchy.map (db.sizeIn ulStoreId)).sum

/-- A store, with its row. -/
def IsStore (ulStoreId : ObjId) : Prop := ulStoreId ∈ db.stores ∧ IsTop db.hierarchy ulStoreId

/-- Every store has the size of its messages. -/
def SizesExact : Prop := ∀ ulStoreId, db.IsStore ulStoreId → db.storeSize ulStoreId = some (db.totalSize ulStoreId)

/-- The hierarchy is one of stores, folders in stores or folders, and other objects. -/
structure WellFormed : Prop extends db.WellKeyed where
  folder_parent : ∀ r ∈ db.hierarchy, ∀ p ∈ db.hierarchy, r.type = MAPI_FOLDER → r.parent = some p.id →
    p.type = MAPI_FOLDER ∨ p.type = MAPI_STORE
  store_top : ∀ r ∈ db.hierarchy, r.type = MAPI_STORE → r.parent = none

end Database

variable {id : ObjId}

section Facts

variable {db : Database} {ulFlags : UInt32} {objects : List ObjId} {items : List DELETEITEM} {ulStoreId : ObjId}

variable {r : HierarchyRow}

theorem sizeIn_congr {db' : Database} {r' : HierarchyRow}
    (hiff : StoredMessage db'.hierarchy ulStoreId r' ↔ StoredMessage db.hierarchy ulStoreId r)
    (hsize : db'.objectSize r'.id = db.objectSize r.id) : db'.sizeIn ulStoreId r' = db.sizeIn ulStoreId r := by
  unfold Database.sizeIn
  rw [hsize]
  by_cases hcounts : StoredMessage db.hierarchy ulStoreId r
  · rw [if_pos hcounts, if_pos (hiff.mpr hcounts)]
  · rw [if_neg hcounts, if_neg (hiff.not.mpr hcounts)]

theorem sizeIn_eq_zero (hnot : ¬ StoredMessage db.hierarchy ulStoreId r) : db.sizeIn ulStoreId r = 0 :=
  if_neg hnot

/-- A row counts as deleted if it is marked itself, or lies in a folder that counts as deleted. -/
theorem deleted_iff (keyed : db.WellKeyed) (hr : r ∈ db.hierarchy) :
    Deleted db.hierarchy r.id ↔ Has r.flags MSGFLAG_DELETED ∨
      ∃ p ∈ db.hierarchy, r.parent = some p.id ∧ p.type = MAPI_FOLDER ∧ Deleted db.hierarchy p.id := by
  constructor
  · intro hdeleted
    generalize hid : r.id = id at hdeleted
    cases hdeleted with
    | self hr' hflag =>
      obtain rfl := keyed.eq_of_id hr hr' hid
      exact .inl hflag
    | above hr' hp hparent htype hdeleted =>
      obtain rfl := keyed.eq_of_id hr hr' hid
      exact .inr ⟨_, hp, hparent, htype, hdeleted⟩
  · rintro (hflag | ⟨p, hp, hparent, htype, hdeleted⟩)
    · exact .self hr hflag
    · exact .above hr hp hparent htype hdeleted

theorem GetParent_some {ulSubObjId : ObjId} (hparent : db.GetParent id = some ulSubObjId) :
    ∃ r ∈ db.hierarchy, r.id = id ∧ r.parent = some ulSubObjId := by
  obtain ⟨r, hrow, hparent⟩ := Option.bind_eq_some_iff.mp hparent
  exact ⟨r, (Database.row_some hrow).1, (Database.row_some hrow).2, hparent⟩

/-- The walk of `GetStore` only goes through rows, and ends at the top. -/
theorem inStore_of_GetStoreAndType (htop : IsTop db.hierarchy ulStoreId) {maxdepth : ℕ}
    (hstore : db.GetStoreAndType maxdepth id = some ulStoreId) :
    (∃ r ∈ db.hierarchy, r.id = id) ∧ InStore db.hierarchy ulStoreId id := by
  induction maxdepth generalizing id with
  | zero => exact nomatch hstore
  | succ maxdepth ih =>
    unfold Database.GetStoreAndType at hstore
    split at hstore
    · split_ifs at hstore
      obtain rfl := Option.some.inj hstore
      have ⟨r, hr, hid, _⟩ := htop
      exact ⟨⟨r, hr, hid⟩, .store htop⟩
    · rename_i ulSubObjId hparent
      obtain ⟨⟨p, hp, rfl⟩, hbelow⟩ := ih hstore
      obtain ⟨r, hr, rfl, hrparent⟩ := GetParent_some hparent
      exact ⟨⟨r, hr, rfl⟩, .child hr hp hrparent hbelow⟩

/-- The mark of an item that its parent has handed down. -/
theorem has_inherited (ulFlags ulParentFlags : UInt32) :
    Has (ulFlags ||| (ulParentFlags &&& MSGFLAG_DELETED)) MSGFLAG_DELETED ↔
      Has ulFlags MSGFLAG_DELETED ∨ Has ulParentFlags MSGFLAG_DELETED := by
  have hsplit : (ulFlags ||| (ulParentFlags &&& MSGFLAG_DELETED)) &&& MSGFLAG_DELETED =
      (ulFlags &&& MSGFLAG_DELETED) ||| (ulParentFlags &&& MSGFLAG_DELETED) := by
    apply UInt32.toBitVec_inj.mp
    ext i
    simp
    grind
  unfold Has
  rw [hsplit, ← not_and_or, not_iff_not]
  constructor
  · intro hzero
    have hbits := congrArg UInt32.toBitVec hzero
    rw [UInt32.toBitVec_or] at hbits
    obtain ⟨h₁, h₂⟩ := BitVec.or_eq_zero_iff.mp hbits
    exact ⟨UInt32.toBitVec_inj.mp h₁, UInt32.toBitVec_inj.mp h₂⟩
  · rintro ⟨h₁, h₂⟩
    rw [h₁, h₂]
    rfl

/-- The requested objects do not lie below a mark, and a store is deleted only when it is left without its
objects. -/
structure ClearRoots (db : Database) (ulFlags : UInt32) (objects : List ObjId) : Prop where
  above : ∀ r, Selected db ulFlags objects r → ¬ Has r.flags MSGFLAG_DELETED → ¬ Deleted db.hierarchy r.id
  store : ∀ r, Selected db ulFlags objects r → r.type = MAPI_STORE →
    Has ulFlags EC_DELETE_HARD_DELETE ∧ ¬ Has r.flags MSGFLAG_DELETED

variable {x : DELETEITEM}

/-- A store has no parent, so that it is a root, and has no mark. -/
theorem ClearRoots.store_item (clear : ClearRoots db ulFlags objects) (wf : db.WellFormed)
    (hitems : IsExpansion db ulFlags objects items) (hx : x ∈ items) (htype : x.ulObjType = MAPI_STORE) :
    Has ulFlags EC_DELETE_HARD_DELETE ∧ ¬ Has x.ulFlags MSGFLAG_DELETED := by
  obtain ⟨j, hj⟩ := List.mem_iff_getElem?.mp hx
  obtain ⟨r, hr, -, ⟨hroot, hselected⟩ | ⟨i, -, y, -, hparent, hchild⟩⟩ := hitems.origin j x hj
  · rw [hroot.ulFlags]
    exact clear.store r hselected (hroot.ulObjType.symm.trans htype)
  · have hnone := wf.store_top r hr (hchild.ulObjType.symm.trans htype)
    exact nomatch hnone.symm.trans hparent

/-- The marks that the items inherit are all there are. -/
theorem ClearRoots.flags_iff (clear : ClearRoots db ulFlags objects) (wf : db.WellFormed)
    (hitems : IsExpansion db ulFlags objects items) {j : ℕ} (hj : items[j]? = some x)
    (htype : x.IsMessage ∨ x.ulObjType = MAPI_FOLDER) :
    Has x.ulFlags MSGFLAG_DELETED ↔ Deleted db.hierarchy x.ulId := by
  induction j using Nat.strong_induction_on generalizing x with
  | _ j ih =>
    obtain ⟨r, hr, -, ⟨hroot, hselected⟩ | ⟨i, hlt, y, hy, hparent, hchild⟩⟩ := hitems.origin j x hj
    · rw [hroot.ulFlags, hroot.ulId]
      exact ⟨.self hr, fun hdeleted => not_not.mp fun hflag => clear.above r hselected hflag hdeleted⟩
    · obtain ⟨p, hp, -, hpid, hptype⟩ := hitems.exists_row (List.mem_of_getElem? hy)
      rw [← hpid] at hparent
      have hunique : ∀ p' ∈ db.hierarchy, r.parent = some p'.id → p' = p := fun p' hp' hparent' =>
        wf.eq_of_id hp' hp (Option.some.inj (hparent'.symm.trans hparent))
      rw [hchild.ulFlags, has_inherited, hchild.ulId, deleted_iff wf.toWellKeyed hr]
      refine or_congr_right ?_
      by_cases hfolder : p.type = MAPI_FOLDER
      · rw [ih i hlt hy (.inr (hptype.symm.trans hfolder)), ← hpid]
        constructor
        · exact fun hdeleted => ⟨p, hp, hparent, hfolder, hdeleted⟩
        · rintro ⟨p', hp', hparent', -, hdeleted⟩
          exact hunique p' hp' hparent' ▸ hdeleted
      · -- only a folder lies in a store, and the store has no mark
        have hstore : p.type = MAPI_STORE := by
          rcases htype with hmessage | htype
          · exact absurd (hptype.trans (hchild.ulParentType.symm.trans hmessage.2)) hfolder
          · exact (wf.folder_parent r hr p hp (hchild.ulObjType.symm.trans htype)
              hparent).resolve_left hfolder
        have hunmarked := (clear.store_item wf hitems (List.mem_of_getElem? hy)
          (hptype.symm.trans hstore)).2
        refine iff_of_false hunmarked ?_
        rintro ⟨p', hp', hparent', htype', -⟩
        exact hfolder (hunique p' hp' hparent' ▸ htype')

/-! ## Hierarchies without some rows -/

/-- Rows that are left with all that is above them. -/
structure UpperPart (hierarchy hierarchy' : List HierarchyRow) : Prop where
  subset : ∀ r ∈ hierarchy', r ∈ hierarchy
  parent : ∀ r ∈ hierarchy', ∀ p ∈ hierarchy, r.parent = some p.id → p ∈ hierarchy'

section UpperPart

variable {hierarchy' : List HierarchyRow}

/-- Where only the lower part of a tree has gone, what is left counts as deleted as it did before. -/
theorem UpperPart.deleted_iff (part : UpperPart db.hierarchy hierarchy') (keyed : db.WellKeyed)
    (hr : r ∈ hierarchy') : Deleted hierarchy' r.id ↔ Deleted db.hierarchy r.id := by
  constructor
  · intro hdeleted
    generalize r.id = id at hdeleted
    clear hr
    induction hdeleted with
    | self hr hflag => exact .self (part.subset _ hr) hflag
    | above hr hp hparent htype _ ih => exact .above (part.subset _ hr) (part.subset _ hp) hparent htype ih
  · intro hdeleted
    generalize hid : r.id = id at hdeleted
    induction hdeleted generalizing r with
    | self hr' hflag =>
      obtain rfl := keyed.eq_of_id (part.subset _ hr) hr' hid
      exact .self hr hflag
    | above hr' hp hparent htype _ ih =>
      obtain rfl := keyed.eq_of_id (part.subset _ hr) hr' hid
      have hp' := part.parent _ hr _ hp hparent
      exact .above hr hp' hparent htype (ih hp' rfl)

/-- Where only the lower part of a tree has gone, what is left is in the same store. -/
theorem UpperPart.inStore_iff (part : UpperPart db.hierarchy hierarchy') (keyed : db.WellKeyed)
    (htop : IsTop hierarchy' ulStoreId) (hr : r ∈ hierarchy') :
    InStore hierarchy' ulStoreId r.id ↔ InStore db.hierarchy ulStoreId r.id := by
  have htop' : IsTop db.hierarchy ulStoreId := by
    obtain ⟨p, hp, hid, hnone⟩ := htop
    exact ⟨p, part.subset p hp, hid, hnone⟩
  constructor
  · intro hstore
    generalize r.id = id at hstore
    clear hr
    induction hstore with
    | store => exact .store htop'
    | child hr hp hparent _ ih => exact .child (part.subset _ hr) (part.subset _ hp) hparent ih
  · intro hstore
    generalize hid : r.id = id at hstore
    induction hstore generalizing r with
    | store => exact .store htop
    | child hr' hp hparent _ ih =>
      obtain rfl := keyed.eq_of_id (part.subset _ hr) hr' hid
      have hp' := part.parent _ hr _ hp hparent
      exact .child hr hp' hparent (ih hp' rfl)

/-- Where only the lower part of a tree has gone, the messages that are left are stored as before. -/
theorem UpperPart.storedMessage_iff (part : UpperPart db.hierarchy hierarchy') (keyed : db.WellKeyed)
    (htop : IsTop hierarchy' ulStoreId) (hr : r ∈ hierarchy') :
    StoredMessage hierarchy' ulStoreId r ↔ StoredMessage db.hierarchy ulStoreId r := by
  constructor
  · rintro ⟨hmessage, ⟨p, hp, hparent, htype⟩, hstore, hleft⟩
    exact ⟨hmessage, ⟨p, part.subset p hp, hparent, htype⟩,
      (part.inStore_iff keyed htop hr).mp hstore, (part.deleted_iff keyed hr).not.mp hleft⟩
  · rintro ⟨hmessage, ⟨p, hp, hparent, htype⟩, hstore, hleft⟩
    exact ⟨hmessage, ⟨p, part.parent r hr p hp hparent, hparent, htype⟩,
      (part.inStore_iff keyed htop hr).mpr hstore, (part.deleted_iff keyed hr).not.mpr hleft⟩

end UpperPart

/-! ## What a delete takes off -/

/-- The walk of `GetStore` reaches the stores of the messages. -/
def Reached (db : Database) (items : List DELETEITEM) : Prop :=
  ∀ x ∈ items, x.IsMessage → ∀ ulStoreId ∈ db.stores, InStore db.hierarchy ulStoreId x.ulId →
    db.GetStore x.ulId = some ulStoreId

variable {expanded : List DELETEITEM}

/-- The size that a delete subtracts is that of the messages in its list which count for the store. -/
theorem sizeOfDeleted_eq (clear : ClearRoots db ulFlags objects) (wf : db.WellFormed)
    (hexpanded : IsExpansion db ulFlags objects expanded)
    (hsub : items.Sublist expanded) (hreached : Reached db items) (hstore : db.IsStore ulStoreId) :
    sizeOfDeleted items ulStoreId = (items.map fun x => db.sizeIn ulStoreId (db.rowOf x)).sum := by
  have hlist := (hexpanded.itemList wf.toWellKeyed).sublist hsub
  have hzero : ulStoreId ≠ 0 := by
    obtain ⟨r, hr, rfl, -⟩ := hstore.2
    exact wf.ne_zero r hr
  -- the conditions of the source are those of a message that counts
  have hiff : ∀ x ∈ items, StoredMessage db.hierarchy ulStoreId (db.rowOf x) ↔
      x.IsMessage ∧ ¬ Has x.ulFlags MSGFLAG_DELETED ∧ x.ulStoreId = ulStoreId := fun x hx => by
    have hitem := hlist.itemOf x hx
    obtain ⟨j, hj⟩ := List.mem_iff_getElem?.mp (hsub.subset hx)
    constructor
    · rintro ⟨hmessage, hfolder, hin, hleft⟩
      have hIsMessage : x.IsMessage :=
        ⟨hitem.ulObjType.trans hmessage, (hitem.parentType_iff wf.toWellKeyed).mpr hfolder⟩
      rw [← hitem.ulId] at hin hleft
      refine ⟨hIsMessage, (clear.flags_iff wf hexpanded hj (.inl hIsMessage)).not.mpr hleft, ?_⟩
      rw [(hitem.extended hIsMessage).ulStoreId, hreached x hx hIsMessage _ hstore.1 hin,
        Option.getD_some]
    · rintro ⟨hIsMessage, hflag, hid⟩
      have hleft := (clear.flags_iff wf hexpanded hj (.inl hIsMessage)).not.mp hflag
      have hGetStore : db.GetStore x.ulId = some ulStoreId := by
        rw [(hitem.extended hIsMessage).ulStoreId] at hid
        cases hget : db.GetStore x.ulId with
        | none => exact absurd (hid.symm.trans (by rw [hget]; rfl)) hzero
        | some id => rw [← hid, hget, Option.getD_some]
      have hin := (inStore_of_GetStoreAndType hstore.2 hGetStore).2
      rw [hitem.ulId] at hin hleft
      exact ⟨hitem.ulObjType.symm.trans hIsMessage.1,
        (hitem.parentType_iff wf.toWellKeyed).mp hIsMessage.2, hin, hleft⟩
  unfold sizeOfDeleted
  rw [List.map_congr_left (g := fun x => db.sizeIn ulStoreId (db.rowOf x)) fun x hx => ?_]
  · refine sum_filter fun x hx hnot => ?_
    exact if_neg fun h => hnot ((hiff x hx).mp h)
  · obtain ⟨hx, hcounts⟩ := List.mem_filter.mp hx
    have hitem := hlist.itemOf x hx
    have hcounts := of_decide_eq_true hcounts
    rw [(hitem.extended hcounts.1).ulObjSize, if_neg hcounts.2.1, Database.sizeIn,
      if_pos ((hiff x hx).mpr hcounts), hitem.ulId]

/-- When the messages of the list no longer count, the size is right again. -/
theorem sizesExact_of_balance (sizes : db.SizesExact) {db' : Database} (hstoreSize : ∀ ulStoreId,
      db'.IsStore ulStoreId → db.IsStore ulStoreId ∧ db'.storeSize ulStoreId = db.storeSize ulStoreId)
    (hrefers : Refers HierarchyRow.id DELETEITEM.ulId db.rowOf db.hierarchy items)
    (hsize : ∀ ulStoreId, db.IsStore ulStoreId →
      sizeOfDeleted items ulStoreId = (items.map fun x => db.sizeIn ulStoreId (db.rowOf x)).sum)
    (htotal : ∀ ulStoreId, db'.IsStore ulStoreId → db'.totalSize ulStoreId =
      ((db.hierarchy.filter fun r => r.id ∉ items.map DELETEITEM.ulId).map (db.sizeIn ulStoreId)).sum) :
    (DeleteObjectStoreSize db' items).SizesExact := by
  intro ulStoreId hstore
  obtain ⟨hold, hvalue⟩ := hstoreSize ulStoreId hstore
  have hbalance := hrefers.sum_removed (db.sizeIn ulStoreId)
  rw [← htotal ulStoreId hstore, ← hsize ulStoreId hold] at hbalance
  show (db'.storeSize ulStoreId).map _ = some (db'.totalSize ulStoreId)
  rw [hvalue, sizes ulStoreId hold, Option.map_some]
  have hsum : db.totalSize ulStoreId = db'.totalSize ulStoreId + sizeOfDeleted items ulStoreId :=
    hbalance.symm
  rw [if_pos (by omega), hsum, Nat.add_sub_cancel]

/-! ## Hard deletes -/

section Hard

variable {k : ℕ}

theorem wellFormed_after (wf : db.WellFormed) : (afterTransactions ulFlags db items k).WellFormed where
  toWellKeyed := ItemList.keyed_after wf.toWellKeyed k
  folder_parent r hr p hp := wf.folder_parent r (ItemList.mem_after hr).1 p (ItemList.mem_after hp).1
  store_top r hr := wf.store_top r (ItemList.mem_after hr).1

/-- What is left has all that is above it, when all that lies below the items goes. -/
theorem upperPart_after (hhard : Has ulFlags EC_DELETE_HARD_DELETE) (hall : items.length ≤ 32 * k)
    (hclosed : ∀ y ∈ items, ClosedAt db ulFlags items y) :
    UpperPart db.hierarchy (afterTransactions ulFlags db items k).hierarchy where
  subset r hr := (ItemList.mem_after hr).1
  parent r hr p hp hparent := by
    obtain ⟨hr, hleft⟩ := ItemList.mem_after hr
    rw [committed_all hall] at hleft
    rw [(afterTransactions_leftOf k).hierarchy, List.mem_filter, decide_eq_true_eq, committed_all hall]
    refine ⟨hp, fun hgone => hleft ?_⟩
    obtain ⟨y, hy, hyid⟩ := List.mem_map.mp hgone
    exact hclosed y hy r (mem_childRows.mpr ⟨hr, hyid ▸ hparent, fun hskipped => hskipped.1 hhard⟩)

/-- After all transactions the messages of a store are those that were not deleted: their total is less by the
deleted ones. -/
theorem totalSize_after (keyed : db.WellKeyed) (hhard : Has ulFlags EC_DELETE_HARD_DELETE)
    (hall : items.length ≤ 32 * k) (hclosed : ∀ y ∈ items, ClosedAt db ulFlags items y)
    (hstore : (afterTransactions ulFlags db items k).IsStore ulStoreId) :
    (afterTransactions ulFlags db items k).totalSize ulStoreId =
      ((db.hierarchy.filter fun r => r.id ∉ items.map DELETEITEM.ulId).map (db.sizeIn ulStoreId)).sum := by
  have hpart := upperPart_after hhard hall hclosed
  have heach : ∀ r ∈ (afterTransactions ulFlags db items k).hierarchy,
      (afterTransactions ulFlags db items k).sizeIn ulStoreId r = db.sizeIn ulStoreId r := fun r hr => by
    have hvalue : (afterTransactions ulFlags db items k).objectSize r.id = db.objectSize r.id := by
      rw [(afterTransactions_leftOf k).objectSize, without, if_neg (ItemList.mem_after hr).2]
    exact sizeIn_congr (hpart.storedMessage_iff keyed hstore.2 hr) hvalue
  rw [Database.totalSize, List.map_congr_left heach, (afterTransactions_leftOf k).hierarchy,
    committed_all hall]

theorem isStore_after (hstore : (afterTransactions ulFlags db items k).IsStore ulStoreId) : db.IsStore ulStoreId ∧
      (afterTransactions ulFlags db items k).storeSize ulStoreId = db.storeSize ulStoreId := by
  obtain ⟨hstore, r, hr, rfl, hnone⟩ := hstore
  rw [(afterTransactions_leftOf k).stores] at hstore
  refine ⟨⟨hstore, r, (ItemList.mem_after hr).1, rfl, hnone⟩, ?_⟩
  rw [(afterTransactions_leftOf k).storeSize, without, if_neg (ItemList.mem_after hr).2]

end Hard

/-! ## Soft deletes -/

section Soft

/-- The row after a soft delete. -/
def markIn (items : List DELETEITEM) (r : HierarchyRow) : HierarchyRow :=
  if r.id ∈ (items.filter (·.IsMarked)).map DELETEITEM.ulId then r.mark else r

theorem hierarchy_soft : (DeleteObjectSoft db items).hierarchy = db.hierarchy.map (markIn items) := rfl

@[simp] theorem markIn_id (r : HierarchyRow) : (markIn items r).id = r.id := by
  unfold markIn
  split_ifs <;> rfl

@[simp] theorem markIn_parent (r : HierarchyRow) : (markIn items r).parent = r.parent := by
  unfold markIn
  split_ifs <;> rfl

@[simp] theorem markIn_type (r : HierarchyRow) : (markIn items r).type = r.type := by
  unfold markIn
  split_ifs <;> rfl

theorem mem_soft_iff {r' : HierarchyRow} :
    r' ∈ (DeleteObjectSoft db items).hierarchy ↔ ∃ r ∈ db.hierarchy, r' = markIn items r := by
  rw [hierarchy_soft, List.mem_map]
  exact ⟨fun ⟨r, hr, h⟩ => ⟨r, hr, h.symm⟩, fun ⟨r, hr, h⟩ => ⟨r, hr, h.symm⟩⟩

/-- The marks of before are still there. -/
theorem has_markIn (hflag : Has r.flags MSGFLAG_DELETED) : Has (markIn items r).flags MSGFLAG_DELETED := by
  unfold markIn
  split_ifs
  · exact has_or_deleted r.flags
  · exact hflag

/-- A soft delete leaves a well-formed table. -/
theorem wellFormed_soft (wf : db.WellFormed) : (DeleteObjectSoft db items).WellFormed := by
  refine ⟨⟨?_, fun r' hr' => ?_⟩, fun r' hr' p' hp' htype hparent => ?_, fun r' hr' htype => ?_⟩
  · have hids : (db.hierarchy.map (markIn items)).map HierarchyRow.id = db.hierarchy.map HierarchyRow.id := by
      rw [List.map_map]
      exact List.map_congr_left fun r _ => markIn_id r
    rw [hierarchy_soft, hids]
    exact wf.nodup
  · obtain ⟨r, hr, rfl⟩ := mem_soft_iff.mp hr'
    rw [markIn_id]
    exact wf.ne_zero r hr
  · obtain ⟨r, hr, rfl⟩ := mem_soft_iff.mp hr'
    obtain ⟨p, hp, rfl⟩ := mem_soft_iff.mp hp'
    rw [markIn_type] at htype ⊢
    rw [markIn_parent, markIn_id] at hparent
    exact wf.folder_parent r hr p hp htype hparent
  · obtain ⟨r, hr, rfl⟩ := mem_soft_iff.mp hr'
    rw [markIn_type] at htype
    rw [markIn_parent]
    exact wf.store_top r hr htype

theorem isTop_soft_iff : IsTop (DeleteObjectSoft db items).hierarchy ulStoreId ↔ IsTop db.hierarchy ulStoreId := by
  constructor
  · rintro ⟨r', hr', hid, hnone⟩
    obtain ⟨r, hr, rfl⟩ := mem_soft_iff.mp hr'
    exact ⟨r, hr, markIn_id r ▸ hid, markIn_parent r ▸ hnone⟩
  · rintro ⟨r, hr, hid, hnone⟩
    exact ⟨_, mem_soft_iff.mpr ⟨r, hr, rfl⟩, (markIn_id r).trans hid, (markIn_parent r).trans hnone⟩

/-- A soft delete moves no row to another store. -/
theorem inStore_soft_iff : InStore (DeleteObjectSoft db items).hierarchy ulStoreId id ↔
    InStore db.hierarchy ulStoreId id := by
  constructor
  · intro hstore
    induction hstore with
    | store htop => exact .store (isTop_soft_iff.mp htop)
    | child hr' hp' hparent _ ih =>
      obtain ⟨r, hr, rfl⟩ := mem_soft_iff.mp hr'
      obtain ⟨p, hp, rfl⟩ := mem_soft_iff.mp hp'
      rw [markIn_parent, markIn_id] at hparent
      rw [markIn_id] at ih ⊢
      exact .child hr hp hparent ih
  · intro hstore
    induction hstore with
    | store htop => exact .store (isTop_soft_iff.mpr htop)
    | @child r p hr hp hparent _ ih =>
      have hchild : InStore (DeleteObjectSoft db items).hierarchy ulStoreId (markIn items r).id :=
        .child (mem_soft_iff.mpr ⟨r, hr, rfl⟩) (mem_soft_iff.mpr ⟨p, hp, rfl⟩)
          (by rw [markIn_parent, markIn_id, hparent]) (by rwa [markIn_id])
      rwa [markIn_id] at hchild

/-- What counted as deleted before a soft delete still does. -/
theorem deleted_soft_of (hdeleted : Deleted db.hierarchy id) : Deleted (DeleteObjectSoft db items).hierarchy id := by
  induction hdeleted with
  | @self r hr hflag =>
    have hself : Deleted (DeleteObjectSoft db items).hierarchy (markIn items r).id :=
      .self (mem_soft_iff.mpr ⟨r, hr, rfl⟩) (has_markIn hflag)
    rwa [markIn_id] at hself
  | @above r p hr hp hparent htype _ ih =>
    have habove : Deleted (DeleteObjectSoft db items).hierarchy (markIn items r).id :=
      .above (mem_soft_iff.mpr ⟨r, hr, rfl⟩) (mem_soft_iff.mpr ⟨p, hp, rfl⟩)
        (by rw [markIn_parent, markIn_id, hparent]) ((markIn_type p).trans htype) (by rwa [markIn_id])
    rwa [markIn_id] at habove

/-- What a soft delete hides is in its list. -/
theorem mem_of_deleted_soft (hclosed : ∀ y ∈ items, ClosedAt db ulFlags items y)
    (hdeleted : Deleted (DeleteObjectSoft db items).hierarchy id) :
    Deleted db.hierarchy id ∨ id ∈ items.map DELETEITEM.ulId := by
  induction hdeleted with
  | self hr' hflag =>
    obtain ⟨r, hr, rfl⟩ := mem_soft_iff.mp hr'
    rw [markIn_id]
    unfold markIn at hflag
    split_ifs at hflag with hmarked
    · exact .inr ((List.filter_sublist.map DELETEITEM.ulId).subset hmarked)
    · exact .inl (.self hr hflag)
  | above hr' hp' hparent htype _ ih =>
    obtain ⟨r, hr, rfl⟩ := mem_soft_iff.mp hr'
    obtain ⟨p, hp, rfl⟩ := mem_soft_iff.mp hp'
    rw [markIn_parent, markIn_id] at hparent
    rw [markIn_type] at htype
    rw [markIn_id] at ih ⊢
    rcases ih with hdeleted | hin
    · exact .inl (.above hr hp hparent htype hdeleted)
    · by_cases hflag : Has r.flags MSGFLAG_DELETED
      · exact .inl (.self hr hflag)
      · obtain ⟨y, hy, hyid⟩ := List.mem_map.mp hin
        exact .inr (hclosed y hy r (mem_childRows.mpr ⟨hr, hyid ▸ hparent, fun h => hflag h.2⟩))

/-- What is in the list of a soft delete is hidden by it, by the mark of a root. -/
theorem deleted_soft_of_mem (clear : ClearRoots db ulFlags objects) (wf : db.WellFormed)
    (hsoft : ¬ Has ulFlags EC_DELETE_HARD_DELETE)
    (hexpanded : IsExpansion db ulFlags objects expanded) (hsub : items.Sublist expanded)
    (habove : ∀ x ∈ items, ¬ x.fRoot → ∃ y ∈ items, y.ulId = x.ulParent) {j : ℕ}
    (hj : expanded[j]? = some x) (hx : x ∈ items) (htype : x.IsMessage ∨ x.ulObjType = MAPI_FOLDER) :
    Deleted (DeleteObjectSoft db items).hierarchy x.ulId := by
  induction j using Nat.strong_induction_on generalizing x with
  | _ j ih =>
    obtain ⟨r, hr, -, ⟨hroot, -⟩ | ⟨i, hlt, y, hy, hparent, hchild⟩⟩ := hexpanded.origin j x hj
    · have hmarked : r.id ∈ (items.filter (·.IsMarked)).map DELETEITEM.ulId := by
        refine List.mem_map.mpr ⟨x, List.mem_filter.mpr ⟨hx, decide_eq_true ⟨?_, hroot.fRoot⟩⟩, hroot.ulId⟩
        exact htype.imp_right .inl
      have hflag : Has (markIn items r).flags MSGFLAG_DELETED := by
        rw [markIn, if_pos hmarked]
        exact has_or_deleted r.flags
      have hself : Deleted (DeleteObjectSoft db items).hierarchy (markIn items r).id :=
        .self (mem_soft_iff.mpr ⟨r, hr, rfl⟩) hflag
      rwa [markIn_id, ← hroot.ulId] at hself
    · obtain ⟨y', hy', hyid⟩ := habove x hx (by simp [hchild.fRoot])
      obtain ⟨i', hi'⟩ := List.mem_iff_getElem?.mp (hsub.subset hy')
      obtain rfl := hexpanded.index_eq hi' hy (hyid.trans hchild.ulParent)
      obtain rfl : y' = y := Option.some.inj (hi'.symm.trans hy)
      obtain ⟨p, hp, -, hpid, hptype⟩ := hexpanded.exists_row (List.mem_of_getElem? hy)
      have hfolder : p.type = MAPI_FOLDER := by
        rcases htype with hmessage | htype
        · exact hptype.trans (hchild.ulParentType.symm.trans hmessage.2)
        · refine (wf.folder_parent r hr p hp (hchild.ulObjType.symm.trans htype)
            (hpid ▸ hparent)).resolve_right fun hstore => hsoft ?_
          exact (clear.store_item wf hexpanded (List.mem_of_getElem? hy) (hptype.symm.trans hstore)).1
      have hdeleted := ih i' hlt hy hy' (.inr (hptype.symm.trans hfolder))
      have habove : Deleted (DeleteObjectSoft db items).hierarchy (markIn items r).id :=
        .above (mem_soft_iff.mpr ⟨r, hr, rfl⟩) (mem_soft_iff.mpr ⟨p, hp, rfl⟩)
          (by rw [markIn_parent, markIn_id, hparent, hpid]) ((markIn_type p).trans hfolder)
          (by rwa [markIn_id, hpid])
      rwa [markIn_id, ← hchild.ulId] at habove

/-- After a soft delete, the messages of a store are those that were stored there and are not among the deleted
items. -/
theorem storedMessage_soft_iff (clear : ClearRoots db ulFlags objects) (wf : db.WellFormed)
    (hsoft : ¬ Has ulFlags EC_DELETE_HARD_DELETE)
    (hexpanded : IsExpansion db ulFlags objects expanded) (hsub : items.Sublist expanded)
    (habove : ∀ x ∈ items, ¬ x.fRoot → ∃ y ∈ items, y.ulId = x.ulParent)
    (hclosed : ∀ y ∈ items, ClosedAt db ulFlags items y) (hr : r ∈ db.hierarchy) :
    StoredMessage (DeleteObjectSoft db items).hierarchy ulStoreId (markIn items r) ↔
      StoredMessage db.hierarchy ulStoreId r ∧ r.id ∉ items.map DELETEITEM.ulId := by
  have hlist := (hexpanded.itemList wf.toWellKeyed).sublist hsub
  constructor
  · rintro ⟨hmessage, ⟨p', hp', hparent, hfolder⟩, hstore, hleft⟩
    obtain ⟨p, hp, rfl⟩ := mem_soft_iff.mp hp'
    rw [markIn_type] at hmessage hfolder
    rw [markIn_parent, markIn_id] at hparent
    rw [markIn_id] at hstore hleft
    refine ⟨⟨hmessage, ⟨p, hp, hparent, hfolder⟩, inStore_soft_iff.mp hstore,
      fun hdeleted => hleft (deleted_soft_of hdeleted)⟩, fun hin => hleft ?_⟩
    obtain ⟨x, hx, hid⟩ := List.mem_map.mp hin
    obtain ⟨j, hj⟩ := List.mem_iff_getElem?.mp (hsub.subset hx)
    have hitem := hlist.itemOf x hx
    have hrow : db.rowOf x = r :=
      wf.eq_of_id (hlist.refers.row_mem x hx) hr (hitem.ulId.symm.trans hid)
    rw [hrow] at hitem
    have hIsMessage : x.IsMessage := ⟨hitem.ulObjType.trans hmessage,
      (hitem.parentType_iff wf.toWellKeyed).mpr ⟨p, hp, hparent, hfolder⟩⟩
    rw [← hid]
    exact deleted_soft_of_mem clear wf hsoft hexpanded hsub habove hj hx (.inl hIsMessage)
  · rintro ⟨⟨hmessage, ⟨p, hp, hparent, hfolder⟩, hstore, hleft⟩, hout⟩
    refine ⟨(markIn_type r).trans hmessage, ⟨markIn items p, mem_soft_iff.mpr ⟨p, hp, rfl⟩, ?_,
      (markIn_type p).trans hfolder⟩, ?_, ?_⟩
    · rw [markIn_parent, markIn_id, hparent]
    · rw [markIn_id]
      exact inStore_soft_iff.mpr hstore
    · rw [markIn_id]
      exact fun hdeleted => (mem_of_deleted_soft hclosed hdeleted).elim hleft hout

/-- After a soft delete, the total of a store is less by the messages among the deleted items. -/
theorem totalSize_soft (clear : ClearRoots db ulFlags objects) (wf : db.WellFormed)
    (hsoft : ¬ Has ulFlags EC_DELETE_HARD_DELETE)
    (hexpanded : IsExpansion db ulFlags objects expanded) (hsub : items.Sublist expanded)
    (habove : ∀ x ∈ items, ¬ x.fRoot → ∃ y ∈ items, y.ulId = x.ulParent)
    (hclosed : ∀ y ∈ items, ClosedAt db ulFlags items y) : (DeleteObjectSoft db items).totalSize ulStoreId =
      ((db.hierarchy.filter fun r => r.id ∉ items.map DELETEITEM.ulId).map (db.sizeIn ulStoreId)).sum := by
  have hiff : ∀ r ∈ db.hierarchy,
      StoredMessage (DeleteObjectSoft db items).hierarchy ulStoreId (markIn items r) ↔
        StoredMessage db.hierarchy ulStoreId r ∧ r.id ∉ items.map DELETEITEM.ulId :=
    fun r hr => storedMessage_soft_iff clear wf hsoft hexpanded hsub habove hclosed hr
  have hout : ∀ r ∈ db.hierarchy, ¬ r.id ∉ items.map DELETEITEM.ulId →
      (DeleteObjectSoft db items).sizeIn ulStoreId (markIn items r) = 0 := fun r hr hin =>
    sizeIn_eq_zero fun h => hin ((hiff r hr).mp h).2
  rw [Database.totalSize, hierarchy_soft, List.map_map]
  refine (sum_filter (f := (DeleteObjectSoft db items).sizeIn ulStoreId ∘ markIn items) hout).symm.trans ?_
  refine congrArg List.sum (List.map_congr_left fun r hr => ?_)
  rw [List.mem_filter, decide_eq_true_eq] at hr
  rw [Function.comp_apply]
  exact sizeIn_congr ((hiff r hr.1).trans (and_iff_left hr.2))
    (congrArg db.objectSize (markIn_id r))

end Soft

end Facts

/-! ## Requests -/

namespace Request

variable {req : Request} {w : World} {db : Database} {items : List DELETEITEM}

/-- The objects of a request do not lie below a mark, the stores of its messages are found, and the scope of the
sync does not cut through what is deleted. -/
structure Clear (req : Request) (db : Database) (items : List DELETEITEM) : Prop where
  roots : ClearRoots db req.ulFlags req.objects
  reached : Reached db items
  below : ∀ y ∈ items, ClosedAt db req.ulFlags items y
  above : ¬ Has req.ulFlags EC_DELETE_HARD_DELETE →
    ∀ x ∈ items, ¬ x.fRoot → ∃ y ∈ items, y.ulId = x.ulParent

/-- Without a scope nothing is cut. -/
theorem clear_of_roots (hscope : req.scope = none) (hitems : req.items db = .ok items)
    (roots : ClearRoots db req.ulFlags req.objects) (reached : Reached db items) : req.Clear db items := by
  obtain ⟨expanded, hexpand, hitems⟩ := bind_ok hitems
  rw [hscope] at hitems
  obtain rfl : expanded = items := Except.ok.inj hitems
  obtain ⟨hexpansion, hclosed⟩ := ExpandDeletedItems_ok hexpand
  refine ⟨roots, reached, hclosed, fun _ x hx hroot => ?_⟩
  obtain ⟨j, hj⟩ := List.mem_iff_getElem?.mp hx
  obtain ⟨r, -, -, ⟨hr, -⟩ | ⟨i, -, y, hy, -, hchild⟩⟩ := hexpansion.origin j x hj
  · exact absurd hr.fRoot hroot
  · exact ⟨y, List.mem_of_getElem? hy, hchild.ulParent.symm⟩

/-- A successful request deletes all its items. -/
theorem DeleteObjects_succeeded (hok : (req.DeleteObjects w).1 = none) : ∃ items, req.items w.db = .ok items ∧
      (Has req.ulFlags EC_DELETE_HARD_DELETE ∧ (∃ k, items.length ≤ 32 * k ∧ (req.DeleteObjects w).2 =
        req.follow { w with db := afterTransactions req.ulFlags w.db items k } items) ∨
      ¬ Has req.ulFlags EC_DELETE_HARD_DELETE ∧ (req.DeleteObjects w).2 =
        req.follow { w with db := DeleteObjectSoft w.db items } items) := by
  unfold DeleteObjects at hok ⊢
  split_ifs at hok ⊢ with hown hdelete
  · cases hitems : req.items w.db with
    | error er =>
      rw [hitems] at hok
      exact nomatch hok
    | ok items =>
      rw [hitems] at hok
      obtain ⟨k, hdeleted, -, herror⟩ := DeleteObjectHard_outcome req.hardFails w.db items hdelete
      refine ⟨items, rfl, .inl ⟨hdelete, k, ?_⟩⟩
      have hres : (DeleteObjectHard req.ulFlags req.hardFails w.db items).1 = none := by
        cases hres : (DeleteObjectHard req.ulFlags req.hardFails w.db items).1 with
        | none => rfl
        | some er =>
          simp only at hok
          split at hok
          · exact nomatch hok
          · rename_i heq
            rw [heq] at hres
            exact nomatch hres
      -- without an error every batch was committed
      have hall : items.length ≤ 32 * k := by
        rcases herror with ⟨-, hall⟩ | ⟨-, er, -, hsome⟩
        · exact hall
        · exact nomatch hres.symm.trans hsome
      refine ⟨hall, ?_⟩
      have hboth : DeleteObjectHard req.ulFlags req.hardFails w.db items =
          (none, afterTransactions req.ulFlags w.db items k, items) :=
        Prod.ext hres (by rw [hdeleted, committed_all hall])
      simp only [hboth] at hok ⊢
      cases hsize : req.sizeFails with
      | none => rfl
      | some er =>
        rw [hsize] at hok
        exact nomatch hok
  · cases hitems : req.items w.db with
    | error er =>
      rw [hitems] at hok
      exact nomatch hok
    | ok items =>
      rw [hitems] at hok
      refine ⟨items, rfl, .inr ⟨hdelete, ?_⟩⟩
      simp only at hok ⊢
      cases hsoft : req.softFails with
      | some er =>
        rw [hsoft] at hok
        exact nomatch hok
      | none =>
        cases hsize : req.sizeFails with
        | none => rfl
        | some er =>
          rw [hsoft, hsize] at hok
          exact nomatch hok

/-- One request keeps the sizes right, and the hierarchy well formed. -/
theorem sizesExact_step (wf : w.db.WellFormed) (sizes : w.db.SizesExact)
    (hstore : ¬ Has req.ulFlags EC_DELETE_STORE) (hok : (req.DeleteObjects w).1 = none)
    (hclear : ∀ items, req.items w.db = .ok items → req.Clear w.db items) :
    (req.DeleteObjects w).2.db.WellFormed ∧ (req.DeleteObjects w).2.db.SizesExact := by
  have hfollow : ∀ db items, (req.follow { w with db } items).db = DeleteObjectStoreSize db items :=
    fun db items => by
      unfold follow
      rw [if_neg hstore]
  have hkept : ∀ (db : Database) items, db.WellFormed → (DeleteObjectStoreSize db items).WellFormed :=
    fun db items h => ⟨⟨h.nodup, h.ne_zero⟩, h.folder_parent, h.store_top⟩
  obtain ⟨items, hitems, hcase⟩ := DeleteObjects_succeeded hok
  obtain ⟨roots, reached, hclosed, habove⟩ := hclear items hitems
  obtain ⟨expanded, hexpanded, -, hsub⟩ := items_ok hitems
  have hrefers := (itemList wf.toWellKeyed hitems).refers
  have hsize := fun (ulStoreId : ObjId) (h : w.db.IsStore ulStoreId) =>
    sizeOfDeleted_eq roots wf hexpanded hsub reached h
  rcases hcase with ⟨hhard, k, hall, hres⟩ | ⟨hsoft, hres⟩
  · rw [hres, hfollow]
    exact ⟨hkept _ _ (wellFormed_after wf), sizesExact_of_balance sizes (fun _ => isStore_after)
      hrefers hsize fun _ => totalSize_after wf.toWellKeyed hhard hall hclosed⟩
  · rw [hres, hfollow]
    refine ⟨hkept _ _ (wellFormed_soft wf), sizesExact_of_balance sizes (fun ulStoreId h => ?_)
      hrefers hsize fun _ _ => totalSize_soft roots wf hsoft hexpanded hsub (habove hsoft) hclosed⟩
    exact ⟨⟨h.1, isTop_soft_iff.mp h.2⟩, rfl⟩

/-- Requests, one after the other. -/
def run (reqs : List Request) (w : World) : World := reqs.foldl (fun w req => (req.DeleteObjects w).2) w

/-- All requests succeed, without `EC_DELETE_STORE`, and their objects are clear when they are made. -/
def AllClear : List Request → World → Prop
  | [], _ => True
  | req :: reqs, w => (req.DeleteObjects w).1 = none ∧ ¬ Has req.ulFlags EC_DELETE_STORE ∧
      (∀ items, req.items w.db = .ok items → req.Clear w.db items) ∧ AllClear reqs (req.DeleteObjects w).2

/-- In a run of such requests the size of every store is right after each of them. -/
theorem run_sizesExact {reqs : List Request} (wf : w.db.WellFormed) (sizes : w.db.SizesExact)
    (hclear : AllClear reqs w) (n : ℕ) : (run (reqs.take n) w).db.SizesExact := by
  induction reqs generalizing w n with
  | nil => rwa [List.take_nil]
  | cons req reqs ih =>
    cases n with
    | zero => exact sizes
    | succ n =>
      obtain ⟨hok, hstore, hreq, hreqs⟩ := hclear
      obtain ⟨wf', sizes'⟩ := sizesExact_step wf sizes hstore hok hreq
      exact ih wf' sizes' hreqs n

/-! ### Two folders with a message each -/

def twoFolders : World := ⟨{
    hierarchy := [⟨1, none, MAPI_STORE, 0⟩, ⟨10, some 1, MAPI_FOLDER, 0⟩, ⟨20, some 1, MAPI_FOLDER, 0⟩,
      ⟨11, some 10, MAPI_MESSAGE, 0⟩, ⟨21, some 20, MAPI_MESSAGE, 0⟩]
    stores := [1]
    messageFlags := fun _ => none
    objectSize := fun id => if id = 11 then some 5 else if id = 21 then some 7 else none
    folderCount := fun _ _ => none
    storeSize := fun id => if id = 1 then some 12 else none
    outgoingqueue := [] }, [], [], []⟩

def softDelete (id : ObjId) : Request :=
  ⟨anySession, [id], EC_DELETE_CONTAINER ||| EC_DELETE_MESSAGES ||| EC_DELETE_FOLDERS, none, false, true,
    fun _ => none, none, none⟩

def hardDelete (id : ObjId) : Request :=
  ⟨anySession, [id], hardFlags, none, false, true, fun _ => none, none, none⟩

theorem not_deleted_of_unmarked {hierarchy : List HierarchyRow}
    (hunmarked : ∀ r ∈ hierarchy, ¬ Has r.flags MSGFLAG_DELETED) (id : ObjId) : ¬ Deleted hierarchy id := by
  intro hdeleted
  induction hdeleted with
  | self hr hflag => exact hunmarked _ hr hflag
  | above _ _ _ _ _ ih => exact ih

/-- Both messages count. -/
theorem twoFolders_stored {folder : ObjId} (hmessage : ⟨id, some folder, MAPI_MESSAGE, 0⟩ ∈ twoFolders.db.hierarchy)
    (hfolder : ⟨folder, some 1, MAPI_FOLDER, 0⟩ ∈ twoFolders.db.hierarchy) :
    StoredMessage twoFolders.db.hierarchy 1 ⟨id, some folder, MAPI_MESSAGE, 0⟩ := by
  have hstore : (⟨1, none, MAPI_STORE, 0⟩ : HierarchyRow) ∈ twoFolders.db.hierarchy := by decide
  refine ⟨rfl, ⟨_, hfolder, rfl, rfl⟩, ?_, not_deleted_of_unmarked (by decide) _⟩
  exact .child hmessage hfolder rfl (.child hfolder hstore rfl (.store ⟨_, hstore, rfl, rfl⟩))

/-- The sizes of the stores in the example are exact. -/
theorem twoFolders_sizesExact : twoFolders.db.SizesExact := by
  rintro ulStoreId ⟨hstore, -⟩
  obtain rfl : ulStoreId = 1 := List.mem_singleton.mp hstore
  have hother : ∀ r : HierarchyRow, r.type ≠ MAPI_MESSAGE → twoFolders.db.sizeIn 1 r = 0 :=
    fun r htype => sizeIn_eq_zero fun h => htype h.message
  have hsize : ∀ id folder, ⟨id, some folder, MAPI_MESSAGE, 0⟩ ∈ twoFolders.db.hierarchy →
      ⟨folder, some 1, MAPI_FOLDER, 0⟩ ∈ twoFolders.db.hierarchy →
        twoFolders.db.sizeIn 1 ⟨id, some folder, MAPI_MESSAGE, 0⟩ =
          ((twoFolders.db.objectSize id).getD 0).toNat :=
    fun id folder hmessage hfolder => if_pos (twoFolders_stored hmessage hfolder)
  have htotal : twoFolders.db.totalSize 1 = 12 := by
    show ([_, _, _, _, _] : List ℕ).sum = 12
    rw [hother _ (by decide), hother _ (by decide), hother _ (by decide),
      hsize 11 10 (by decide) (by decide), hsize 21 20 (by decide) (by decide)]
    rfl
  rw [htotal]
  rfl

theorem twoFolders_wellFormed : twoFolders.db.WellFormed :=
  ⟨⟨by decide, by decide⟩, by decide, by decide⟩

/-- What has to be checked for a request without a scope, given its list. -/
theorem clear_of_rows (hscope : req.scope = none) (hok : (req.items db).toOption.isSome)
    (habove : ∀ id ∈ req.objects, ∀ r ∈ rootRows db req.ulFlags id,
      ¬ Has r.flags MSGFLAG_DELETED → ¬ Deleted db.hierarchy r.id)
    (hroots : ∀ id ∈ req.objects, ∀ r ∈ rootRows db req.ulFlags id, r.type ≠ MAPI_STORE)
    (hreached : ∀ x ∈ (req.items db).toOption.getD [], ∀ ulStoreId ∈ db.stores,
      db.GetStore x.ulId = some ulStoreId) (hitems : req.items db = .ok items) : req.Clear db items := by
  refine clear_of_roots hscope hitems ⟨?_, ?_⟩ ?_
  · rintro r ⟨id, hid, hr⟩
    exact habove id hid r hr
  · rintro r ⟨id, hid, hr⟩ htype
    exact absurd htype (hroots id hid r hr)
  · obtain rfl := Except.ok.inj (hitems.symm.trans (ok_of_isSome hok))
    exact fun x hx _ ulStoreId hstore _ => hreached x hx ulStoreId hstore

/-- A folder is deleted softly, and then for good. -/
theorem run_sizesExact_folder : (run [softDelete 10, hardDelete 10] twoFolders).db.SizesExact := by
  have hmarked : ∀ id ∈ (hardDelete 10).objects,
      ∀ r ∈ rootRows ((softDelete 10).DeleteObjects twoFolders).2.db (hardDelete 10).ulFlags id,
        Has r.flags MSGFLAG_DELETED := by decide +kernel
  have hclear : AllClear [softDelete 10, hardDelete 10] twoFolders := by
    refine ⟨Option.isNone_iff_eq_none.mp (by decide +kernel), by decide, fun items => ?_,
      Option.isNone_iff_eq_none.mp (by decide +kernel), by decide, fun items => ?_, trivial⟩
    · exact clear_of_rows rfl (by decide +kernel)
        (fun _ _ _ _ _ => not_deleted_of_unmarked (by decide) _) (by decide +kernel) (by decide +kernel)
    · exact clear_of_rows rfl (by decide +kernel)
        (fun id hid r hr hflag => absurd (hmarked id hid r hr) hflag) (by decide +kernel)
        (by decide +kernel)
  exact run_sizesExact twoFolders_wellFormed twoFolders_sizesExact hclear 2

/-- A message of a folder that has been deleted softly is taken off once more when it is deleted for good. -/
theorem not_sizesExact_message : twoFolders.db.WellFormed ∧ twoFolders.db.SizesExact ∧
      ((softDelete 10).DeleteObjects twoFolders).1 = none ∧
      ((hardDelete 11).DeleteObjects ((softDelete 10).DeleteObjects twoFolders).2).1 = none ∧
      ¬ (run [softDelete 10, hardDelete 11] twoFolders).db.SizesExact := by
  refine ⟨twoFolders_wellFormed, twoFolders_sizesExact, Option.isNone_iff_eq_none.mp (by decide +kernel),
    Option.isNone_iff_eq_none.mp (by decide +kernel), fun exact => ?_⟩
  obtain ⟨db, hdb⟩ : ∃ db, db = (run [softDelete 10, hardDelete 11] twoFolders).db := ⟨_, rfl⟩
  have hrows : db.hierarchy = [⟨1, none, MAPI_STORE, 0⟩, ⟨10, some 1, MAPI_FOLDER, MSGFLAG_DELETED⟩,
      ⟨20, some 1, MAPI_FOLDER, 0⟩, ⟨21, some 20, MAPI_MESSAGE, 0⟩] := by
    rw [hdb]
    decide +kernel
  have hvalues : db.stores = [1] ∧ db.objectSize 21 = some 7 ∧ db.storeSize 1 = some 2 := by
    rw [hdb]
    decide +kernel
  rw [← hdb] at exact
  clear hdb
  -- the message of the other folder still counts, and is larger than what is left of the size
  have hkeyed : db.WellKeyed := ⟨by rw [hrows]; decide, by rw [hrows]; decide⟩
  have hstore : (⟨1, none, MAPI_STORE, 0⟩ : HierarchyRow) ∈ db.hierarchy := by rw [hrows]; decide
  have hfolder : (⟨20, some 1, MAPI_FOLDER, 0⟩ : HierarchyRow) ∈ db.hierarchy := by rw [hrows]; decide
  have hmessage : (⟨21, some 20, MAPI_MESSAGE, 0⟩ : HierarchyRow) ∈ db.hierarchy := by
    rw [hrows]; decide
  have htop : IsTop db.hierarchy 1 := ⟨_, hstore, rfl, rfl⟩
  have hfolderLeft : ¬ Deleted db.hierarchy 20 := by
    refine (deleted_iff hkeyed hfolder).not.mpr ?_
    rintro (hflag | ⟨p, hp, hparent, htype, -⟩)
    · exact absurd hflag (by decide)
    · obtain rfl := hkeyed.eq_of_id hstore hp (Option.some.inj hparent)
      exact absurd htype (by decide)
  have hleft : ¬ Deleted db.hierarchy 21 := by
    refine (deleted_iff hkeyed hmessage).not.mpr ?_
    rintro (hflag | ⟨p, -, hparent, -, hdeleted⟩)
    · exact absurd hflag (by decide)
    · exact hfolderLeft (Option.some.inj hparent ▸ hdeleted)
  have hstored : StoredMessage db.hierarchy 1 ⟨21, some 20, MAPI_MESSAGE, 0⟩ :=
    ⟨rfl, ⟨_, hfolder, rfl, rfl⟩,
      .child hmessage hfolder rfl (.child hfolder hstore rfl (.store htop)), hleft⟩
  have hseven : db.sizeIn 1 ⟨21, some 20, MAPI_MESSAGE, 0⟩ = 7 := by
    rw [Database.sizeIn, if_pos hstored, hvalues.2.1]
    rfl
  have hle : db.sizeIn 1 ⟨21, some 20, MAPI_MESSAGE, 0⟩ ≤ db.totalSize 1 :=
    List.single_le_sum (by simp) _ (List.mem_map_of_mem hmessage)
  have htotal := exact 1 ⟨by rw [hvalues.1]; decide, htop⟩
  rw [hvalues.2.2, Option.some.injEq] at htotal
  omega

end Request

end Zcp.Libserver.ZarafaCmdUtil
