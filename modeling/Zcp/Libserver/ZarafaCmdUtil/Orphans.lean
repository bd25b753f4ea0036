import Zcp.Libserver.ZarafaCmdUtil.Transactions

/-!
# Orphans of a hard delete

The loop of `DeleteObjectHard` runs from the bottom of the list to its roots. A root can lie below an item that
stands behind it, because the roots are in the order of their ids; such a root is removed after its parent. The
tree is well formed after every transaction when both always go in the same one.
-/

namespace Zcp.Libserver.ZarafaCmdUtil

/-- Every row that has a parent has its parent row. -/
def Database.NoOrphans (db : Database) : Prop :=
  ∀ r ∈ db.hierarchy, ∀ id ∈ r.parent, ∃ p ∈ db.hierarchy, p.id = id

instance (db : Database) : Decidable db.NoOrphans :=
  inferInstanceAs (Decidable (∀ r ∈ db.hierarchy, ∀ id ∈ r.parent, ∃ p ∈ db.hierarchy, p.id = id))

/-- A root that lies below a later item is removed in the transaction of that item: as many whole transactions
fit behind the one as behind the other. -/
def RootsBesideParents (items : List DELETEITEM) : Prop :=
  ∀ (i j : ℕ) (x y : DELETEITEM), items[i]? = some x → items[j]? = some y → x.fRoot → i < j →
    x.ulParent = y.ulId → (items.length - 1 - i) / 32 = (items.length - 1 - j) / 32

section Orphans

variable {lpSession : ECSession} {db : Database} {ulFlags : UInt32} {bCheckPermission : Bool}
  {objects : List ObjId} {items : List DELETEITEM}

theorem IsExpansion.nodup_items (hitems : IsExpansion db ulFlags objects items) : items.Nodup :=
  List.Nodup.of_map _ hitems.nodup

theorem IsExpansion.index_eq (hitems : IsExpansion db ulFlags objects items) {i j : ℕ} {x y : DELETEITEM}
    (hi : items[i]? = some x) (hj : items[j]? = some y) (hid : x.ulId = y.ulId) : i = j := by
  obtain ⟨hlt, -⟩ := List.getElem?_eq_some_iff.mp hi
  have hmap : (items.map DELETEITEM.ulId)[i]? = (items.map DELETEITEM.ulId)[j]? := by
    rw [List.getElem?_map, List.getElem?_map, hi, hj, Option.map_some, Option.map_some, hid]
  exact (List.getElem?_inj (by simpa using hlt) hitems.nodup).mp hmap

/-- The row of an item has the item's parent. -/
theorem IsExpansion.row_parent (hitems : IsExpansion db ulFlags objects items) (keyed : db.WellKeyed) {i : ℕ}
    {x : DELETEITEM} (hi : items[i]? = some x) {r : HierarchyRow} (hr : r ∈ db.hierarchy)
    (hid : r.id = x.ulId) : x.ulParent = r.parent.getD 0 := by
  obtain ⟨r', hr', -, hitem⟩ := hitems.itemOf keyed (List.mem_of_getElem? hi)
  obtain rfl := keyed.eq_of_id hr hr' (hid.trans hitem.ulId)
  exact hitem.ulParent

/-- An item that is no root stands behind its parent, so that the parent is not removed before it. -/
theorem IsExpansion.before_parent (hitems : IsExpansion db ulFlags objects items)
    (hbeside : RootsBesideParents items) {i j k : ℕ} {x y : DELETEITEM} (hi : items[i]? = some x)
    (hj : items[j]? = some y) (hparent : x.ulParent = y.ulId) (hy : y ∈ committed items k) :
    x ∈ committed items k := by
  rw [mem_committed hitems.nodup_items hi]
  rw [mem_committed hitems.nodup_items hj] at hy
  have hilt := (List.getElem?_eq_some_iff.mp hi).1
  have hjlt := (List.getElem?_eq_some_iff.mp hj).1
  obtain ⟨r, -, -, ⟨hroot, -⟩ | ⟨j', hlt, y', hj', -, hchild⟩⟩ := hitems.origin i x hi
  · by_cases hij : i < j
    · have hsame := hbeside i j x y hi hj hroot.fRoot hij hparent
      have hbound : (items.length - 1 - j) / 32 < k := by
        rw [Nat.div_lt_iff_lt_mul (by omega)]
        omega
      rw [← hsame, Nat.div_lt_iff_lt_mul (by omega)] at hbound
      omega
    · omega
  · obtain rfl := hitems.index_eq hj' hj (hchild.ulParent.symm.trans hparent)
    omega

/-- Whatever the transactions that have been committed, no row is left without its parent. -/
theorem noOrphans_of_beside (hitems : IsExpansion db ulFlags objects items)
    (hclosed : ∀ y ∈ items, ClosedAt db ulFlags items y) (hhard : Has ulFlags EC_DELETE_HARD_DELETE)
    (keyed : db.WellKeyed) (horphans : db.NoOrphans) (hbeside : RootsBesideParents items) (k : ℕ) :
    (afterTransactions ulFlags db items k).NoOrphans := by
  intro r hr id hparent
  rw [(afterTransactions_leftOf k).hierarchy, List.mem_filter, decide_eq_true_eq] at hr
  obtain ⟨hr, hleft⟩ := hr
  obtain ⟨p, hp, rfl⟩ := horphans r hr id hparent
  refine ⟨p, ?_, rfl⟩
  rw [(afterTransactions_leftOf k).hierarchy, List.mem_filter, decide_eq_true_eq]
  refine ⟨hp, fun hgone => hleft ?_⟩
  -- the parent is an item that has been removed; what lies below it is in the list, and goes before it
  obtain ⟨y, hy, hyid⟩ := List.mem_map.mp hgone
  have hchild : r ∈ childRows db ulFlags y.ulId := by
    rw [mem_childRows, hyid]
    exact ⟨hr, hparent, fun hskipped => hskipped.1 hhard⟩
  obtain ⟨x, hx, hxid⟩ := List.mem_map.mp (hclosed y (committed_subset k hy) r hchild)
  obtain ⟨i, hi⟩ := List.mem_iff_getElem?.mp hx
  obtain ⟨j, hj⟩ := List.mem_iff_getElem?.mp (committed_subset k hy)
  have hxparent : x.ulParent = y.ulId := by
    rw [hitems.row_parent keyed hi hr hxid.symm, hparent, hyid, Option.getD_some]
  exact List.mem_map.mpr ⟨x, hitems.before_parent hbeside hi hj hxparent hy, hxid⟩

/-- A root that is removed in a later transaction than its parent is an orphan in between. -/
theorem beside_of_noOrphans (hitems : IsExpansion db ulFlags objects items) (keyed : db.WellKeyed)
    (hall : ∀ k, 32 * k < items.length → (afterTransactions ulFlags db items k).NoOrphans) :
    RootsBesideParents items := by
  intro i j x y hi hj hroot hij hparent
  by_contra hne
  have hilt := (List.getElem?_eq_some_iff.mp hi).1
  have hjlt := (List.getElem?_eq_some_iff.mp hj).1
  -- the transactions before the one of the root have removed the parent
  obtain ⟨k, hk⟩ : ∃ k, k = (items.length - 1 - i) / 32 := ⟨_, rfl⟩
  have hlt : (items.length - 1 - j) / 32 < k := by
    have hle : (items.length - 1 - j) / 32 ≤ (items.length - 1 - i) / 32 :=
      Nat.div_le_div_right (by omega)
    omega
  rw [Nat.div_lt_iff_lt_mul (by omega)] at hlt
  have hmul : 32 * k ≤ items.length - 1 - i := hk ▸ Nat.mul_div_le _ _
  have hx : x ∉ committed items k := by
    rw [mem_committed hitems.nodup_items hi]
    omega
  have hy : y ∈ committed items k := by
    rw [mem_committed hitems.nodup_items hj]
    omega
  obtain ⟨r, hr, -, hid, -⟩ := hitems.exists_row (List.mem_of_getElem? hi)
  obtain ⟨p, hp, -, hpid, -⟩ := hitems.exists_row (List.mem_of_getElem? hj)
  have hrparent : r.parent = some y.ulId := by
    have hgetD := (hitems.row_parent keyed hi hr hid).symm.trans hparent
    cases hpar : r.parent with
    | none => exact absurd (hpid.trans (hgetD.symm.trans (by rw [hpar]; rfl))) (keyed.ne_zero p hp)
    | some id => rw [← hgetD, hpar, Option.getD_some]
  have hleft : r ∈ (afterTransactions ulFlags db items k).hierarchy := by
    rw [(afterTransactions_leftOf k).hierarchy, List.mem_filter, decide_eq_true_eq]
    refine ⟨hr, fun hgone => hx ?_⟩
    obtain ⟨z, hz, hzid⟩ := List.mem_map.mp hgone
    obtain ⟨l, hl⟩ := List.mem_iff_getElem?.mp (committed_subset k hz)
    obtain rfl := hitems.index_eq hl hi (hzid.trans hid)
    rwa [Option.some.inj (hi.symm.trans hl)]
  obtain ⟨q, hq, hqid⟩ := hall k (by omega) r hleft y.ulId hrparent
  rw [(afterTransactions_leftOf k).hierarchy, List.mem_filter, decide_eq_true_eq] at hq
  exact hq.2 (List.mem_map.mpr ⟨y, hy, hqid.symm⟩)

/-- A hard delete never leaves an orphan, whichever of its transactions fails, exactly when every root that lies
below a later item of the list is removed together with that item. -/
theorem DeleteObjectHard_noOrphans_iff (hhard : Has ulFlags EC_DELETE_HARD_DELETE)
    (keyed : db.WellKeyed) (horphans : db.NoOrphans)
    (hok : ExpandDeletedItems lpSession db ulFlags bCheckPermission objects = .ok items) :
    (∀ fails, (DeleteObjectHard ulFlags fails db items).2.1.NoOrphans) ↔ RootsBesideParents items := by
  obtain ⟨hitems, hclosed⟩ := ExpandDeletedItems_ok hok
  constructor
  · intro hall
    refine beside_of_noOrphans hitems keyed fun k hk => ?_
    have hfail := hall fun t => if t = k then some .ZARAFA_E_NOT_FOUND else none
    rwa [DeleteObjectHard_failAt hhard _ hk] at hfail
  · intro hbeside fails
    obtain ⟨k, hdeleted, -⟩ := DeleteObjectHard_outcome fails db items hhard
    rw [hdeleted]
    exact noOrphans_of_beside hitems hclosed hhard keyed horphans hbeside k

/-- What fits in one transaction is removed together. -/
theorem beside_of_length_le (hlen : items.length ≤ 32) : RootsBesideParents items := by
  intro i j x y _ _ _ _ _
  rw [Nat.div_eq_of_lt (by omega), Nat.div_eq_of_lt (by omega)]

/-- A store with a folder, a folder in it, and messages in the first one. -/
def nestedFolders (count : ℕ) : Database where
  hierarchy := [⟨1, none, MAPI_STORE, 0⟩, ⟨20, some 1, MAPI_FOLDER, 0⟩, ⟨10, some 20, MAPI_FOLDER, 0⟩] ++
    (List.range count).map fun i => ⟨100 + UInt32.ofNat i, some 20, MAPI_MESSAGE, 0⟩
  stores := [1]
  messageFlags := fun _ => none
  objectSize := fun _ => none
  folderCount := fun _ _ => none
  storeSize := fun _ => none
  outgoingqueue := []

/-- A session that may do everything. -/
def anySession : ECSession := ⟨fun _ => .ok (), fun id => some [id.toUInt8]⟩

def hardFlags : UInt32 :=
  EC_DELETE_HARD_DELETE ||| EC_DELETE_CONTAINER ||| EC_DELETE_MESSAGES ||| EC_DELETE_FOLDERS

theorem ok_of_isSome {res : Except DeleteError (List DELETEITEM)} (hsome : res.toOption.isSome) :
    res = .ok (res.toOption.getD []) := by
  cases res with
  | error er => exact nomatch hsome
  | ok items => rfl

/-- The list for both folders. -/
def nestedItems (count : ℕ) : Except DeleteError (List DELETEITEM) :=
  ExpandDeletedItems anySession (nestedFolders count) hardFlags true [10, 20]

/-- Both folders are listed, and go in one transaction. -/
theorem DeleteObjectHard_noOrphans_nested : ∃ items, nestedItems 0 = .ok items ∧
    ∀ fails, (DeleteObjectHard hardFlags fails (nestedFolders 0) items).2.1.NoOrphans :=
  have hok := ok_of_isSome (show (nestedItems 0).toOption.isSome by decide +kernel)
  ⟨_, hok, (DeleteObjectHard_noOrphans_iff (by decide) ⟨by decide, by decide⟩ (by decide) hok).mpr
    (beside_of_length_le (by decide +kernel))⟩

/-- With 31 messages in the outer folder, the transaction of the messages has room for this folder, but not for
the inner one. -/
theorem not_noOrphans_nested : ∃ items,
    (nestedFolders 31).WellKeyed ∧ (nestedFolders 31).NoOrphans ∧ nestedItems 31 = .ok items ∧
      ¬ (DeleteObjectHard hardFlags (fun t => if t = 1 then some .ZARAFA_E_NOT_FOUND else none)
        (nestedFolders 31) items).2.1.NoOrphans :=
  ⟨_, ⟨by decide +kernel, by decide +kernel⟩, by decide +kernel, ok_of_isSome (by decide +kernel),
    by decide +kernel⟩

end Orphans

end Zcp.Libserver.ZarafaCmdUtil
