import Mathlib.Tactic
import Zcp.Libserver.ZarafaCmdUtil

/-!
# The items of an expansion

What `ExpandDeletedItems` gives: items without duplicates, each the data of a row, that are roots or stand
behind the item above them, and all that lies below an item is in the list too.
-/

namespace Zcp.Libserver.ZarafaCmdUtil

/-! ## Rows -/

variable {r : HierarchyRow} {id : ObjId}

namespace Database

/-- No two rows have the same id, and no row the id that stands for no parent. -/
structure WellKeyed (db : Database) : Prop where
  nodup : (db.hierarchy.map HierarchyRow.id).Nodup
  ne_zero : ∀ r ∈ db.hierarchy, r.id ≠ 0

variable {db : Database}

theorem WellKeyed.eq_of_id (keyed : db.WellKeyed) {r' : HierarchyRow} (hr : r ∈ db.hierarchy)
    (hr' : r' ∈ db.hierarchy) (hid : r.id = r'.id) : r = r' :=
  List.inj_on_of_nodup_map keyed.nodup hr hr' hid

theorem row_some (hrow : db.row id = some r) : r ∈ db.hierarchy ∧ r.id = id := by
  refine ⟨List.mem_of_find?_eq_some hrow, ?_⟩
  simpa using List.find?_some hrow

theorem WellKeyed.row_eq (keyed : db.WellKeyed) (hr : r ∈ db.hierarchy) : db.row r.id = some r := by
  obtain ⟨r', hrow⟩ : ∃ r', db.row r.id = some r' := by
    rw [← Option.isSome_iff_exists, row, List.find?_isSome]
    exact ⟨r, hr, by simp⟩
  rw [hrow, keyed.eq_of_id (row_some hrow).1 hr (row_some hrow).2]

end Database

/-! ## Items and their rows -/

section Expand

variable (lpSession : ECSession) (db : Database) (ulFlags : UInt32) (bCheckPermission : Bool)

/-- Store and size have been read for an item. -/
structure IsExtended (x : DELETEITEM) : Prop where
  ulStoreId : x.ulStoreId = (db.GetStore x.ulId).getD 0
  ulObjSize : x.ulObjSize = if Has x.ulFlags MSGFLAG_DELETED then 0 else (db.objectSize x.ulId).getD 0

/-- The item of a row that is a root. -/
structure RootOf (r : HierarchyRow) (x : DELETEITEM) : Prop where
  fRoot : x.fRoot = true
  ulId : x.ulId = r.id
  ulParent : x.ulParent = r.parent.getD 0
  ulObjType : x.ulObjType = r.type
  ulFlags : x.ulFlags = r.flags
  ulParentType : x.ulParentType = ((r.parent.bind db.row).map HierarchyRow.type).getD 0
  ulMessageFlags : x.ulMessageFlags = (db.messageFlags r.id).getD 0
  top : r.parent = none → r.type = MAPI_STORE
  extended : x.IsMessage → IsExtended db x

/-- The item of a row that lies below another item. -/
structure ChildOf (parent : DELETEITEM) (r : HierarchyRow) (x : DELETEITEM) : Prop where
  fRoot : x.fRoot = false
  ulId : x.ulId = r.id
  ulParent : x.ulParent = parent.ulId
  ulObjType : x.ulObjType = r.type
  ulFlags : x.ulFlags = r.flags ||| (parent.ulFlags &&& MSGFLAG_DELETED)
  ulParentType : x.ulParentType = parent.ulObjType
  extended : x.IsMessage → IsExtended db x

/-- A row that is selected for one of the objects. -/
def Selected (objects : List ObjId) (r : HierarchyRow) : Prop := ∃ id ∈ objects, r ∈ rootRows db ulFlags id

/-- The list of items up to now, with the place of each. -/
structure IsExpansion (objects : List ObjId) (items : List DELETEITEM) : Prop where
  nodup : (items.map DELETEITEM.ulId).Nodup
  origin : ∀ (j : ℕ) (x : DELETEITEM), items[j]? = some x → ∃ r ∈ db.hierarchy,
    ¬ r.Skipped ulFlags ∧ (RootOf db r x ∧ Selected db ulFlags objects r ∨
      ∃ i < j, ∃ y : DELETEITEM, items[i]? = some y ∧ r.parent = some y.ulId ∧ ChildOf db y r x)

/-- What lies below an item is in the list. -/
def ClosedAt (items : List DELETEITEM) (y : DELETEITEM) : Prop :=
  ∀ r ∈ childRows db ulFlags y.ulId, r.id ∈ items.map DELETEITEM.ulId

variable {lpSession db ulFlags bCheckPermission} {objects : List ObjId}

theorem mem_childRows :
    r ∈ childRows db ulFlags id ↔ r ∈ db.hierarchy ∧ r.parent = some id ∧ ¬ r.Skipped ulFlags := by
  simp [childRows]

theorem mem_rootRows (hr : r ∈ rootRows db ulFlags id) : r ∈ db.hierarchy ∧ ¬ r.Skipped ulFlags := by
  rw [rootRows, List.mem_filter, decide_eq_true_eq] at hr
  exact ⟨hr.1, hr.2.2.1⟩

/-! ## One row -/

theorem bind_ok {α β : Type} {x : Except DeleteError α} {f : α → Except DeleteError β} {b : β}
    (hok : (x >>= f) = .ok b) : ∃ a, x = .ok a ∧ f a = .ok b := by
  cases x with
  | error er => exact nomatch hok
  | ok a => exact ⟨a, rfl, hok⟩

variable {st st' : Expansion}

/-- An item is appended, possibly with its data. -/
theorem pushItem_ok {sItem : DELETEITEM} {extended : Bool}
    (hok : pushItem lpSession db ulFlags bCheckPermission st sItem extended = .ok st') :
    ∃ x, x = (if extended then extendedData lpSession db sItem else sItem) ∧
      st' = ⟨x.ulId :: st.setIDs, x, st.lstDeleteItems ++ [x]⟩ := by
  obtain ⟨_, -, hrest⟩ := bind_ok hok
  exact ⟨_, rfl, (Except.ok.inj hrest).symm⟩

/-- The rows of the query for the roots become roots, unless they are in the list already or have no
parent though they need one. -/
theorem addRoot_ok (hok : addRoot lpSession db ulFlags bCheckPermission st r = .ok st') :
    st' = st ∨ r.id ∉ st.setIDs ∧ ∃ x, RootOf db r x ∧ st' = ⟨x.ulId :: st.setIDs, x, st.lstDeleteItems ++ [x]⟩ := by
  unfold addRoot at hok
  split_ifs at hok with htop hold
  · exact .inl (Except.ok.inj hok).symm
  · exact .inl (Except.ok.inj hok).symm
  · obtain ⟨x, hx, hst⟩ := pushItem_ok hok
    refine .inr ⟨hold, x, ?_, hst⟩
    have hstore : r.parent = none → r.type = MAPI_STORE := fun hnone => by
      by_contra htype
      exact htop ⟨hnone, htype⟩
    split_ifs at hx with hext
    · subst hx
      exact ⟨rfl, rfl, rfl, rfl, rfl, rfl, rfl, hstore, fun _ => ⟨rfl, rfl⟩⟩
    · subst hx
      refine ⟨rfl, rfl, rfl, rfl, rfl, rfl, rfl, hstore, fun hmessage => absurd ?_ hext⟩
      rw [decide_eq_true_eq]
      exact .inr (.inr hmessage.1)

/-- The same for the rows below an item. -/
theorem addChild_ok {parent : DELETEITEM}
    (hok : addChild lpSession db ulFlags bCheckPermission parent st r = .ok st') :
    st' = st ∧ r.id ∈ st.setIDs ∨ r.id ∉ st.setIDs ∧
      ∃ x, ChildOf db parent r x ∧ st' = ⟨x.ulId :: st.setIDs, x, st.lstDeleteItems ++ [x]⟩ := by
  unfold addChild at hok
  split_ifs at hok with hold
  · exact .inl ⟨(Except.ok.inj hok).symm, hold⟩
  · obtain ⟨x, hx, hst⟩ := pushItem_ok hok
    refine .inr ⟨hold, x, ?_, hst⟩
    split_ifs at hx with hext
    · subst hx
      exact ⟨rfl, rfl, rfl, rfl, rfl, rfl, fun _ => ⟨rfl, rfl⟩⟩
    · subst hx
      refine ⟨rfl, rfl, rfl, rfl, rfl, rfl, fun hmessage => absurd ?_ hext⟩
      rw [decide_eq_true_eq]
      exact .inr (.inr hmessage)

/-! ## The invariant of the loops -/

variable {items : List DELETEITEM}

/-- What has been appended does not move the items before it. -/
theorem getElem?_appended {items' : List DELETEITEM} (hpre : items <+: items') {k : ℕ}
    (hk : k < items.length) : items'[k]? = items[k]? := by
  obtain ⟨t, rfl⟩ := hpre
  exact List.getElem?_append_left hk

/-- The list up to now, with `setIDs` for its ids. -/
structure Expanded (db : Database) (ulFlags : UInt32) (objects : List ObjId) (st : Expansion) : Prop where
  expansion : IsExpansion db ulFlags objects st.lstDeleteItems
  setIDs : ∀ id, id ∈ st.setIDs ↔ id ∈ st.lstDeleteItems.map DELETEITEM.ulId

variable {x : DELETEITEM}

/-- An item that is appended has to be a root, or to lie below an item of the list. -/
theorem Expanded.append (hst : Expanded db ulFlags objects st)
    (hr : r ∈ db.hierarchy) (hleft : ¬ r.Skipped ulFlags) (hnew : r.id ∉ st.setIDs) (hid : x.ulId = r.id)
    (horigin : RootOf db r x ∧ Selected db ulFlags objects r ∨
      ∃ (i : ℕ) (y : DELETEITEM), st.lstDeleteItems[i]? = some y ∧ r.parent = some y.ulId ∧ ChildOf db y r x) :
    Expanded db ulFlags objects ⟨x.ulId :: st.setIDs, x, st.lstDeleteItems ++ [x]⟩ := by
  have hsome : ∀ {i : ℕ} {y : DELETEITEM}, st.lstDeleteItems[i]? = some y →
      (st.lstDeleteItems ++ [x])[i]? = some y := fun hy => by
    rw [List.getElem?_append_left (List.getElem?_eq_some_iff.mp hy).1, hy]
  refine ⟨⟨?_, fun j z hz => ?_⟩, fun id => ?_⟩
  · rw [List.map_append, List.nodup_append]
    refine ⟨hst.expansion.nodup, List.nodup_singleton _, fun a ha b hb => ?_⟩
    rw [List.map_singleton, List.mem_singleton] at hb
    rintro rfl
    exact hnew ((hst.setIDs r.id).mpr (hid ▸ hb ▸ ha))
  · by_cases hj : j < st.lstDeleteItems.length
    · rw [List.getElem?_append_left hj] at hz
      obtain ⟨r', hr', hleft', hroot | ⟨i, hij, y, hy, hpar, hchild⟩⟩ := hst.expansion.origin j z hz
      · exact ⟨r', hr', hleft', .inl hroot⟩
      · exact ⟨r', hr', hleft', .inr ⟨i, hij, y, hsome hy, hpar, hchild⟩⟩
    · obtain ⟨hlt, hzx⟩ := List.getElem?_eq_some_iff.mp hz
      obtain rfl : j = st.lstDeleteItems.length := by
        rw [List.length_append, List.length_singleton] at hlt
        omega
      obtain rfl : x = z := by simpa using hzx
      refine ⟨r, hr, hleft, horigin.imp_right ?_⟩
      rintro ⟨i, y, hy, hpar, hchild⟩
      exact ⟨i, (List.getElem?_eq_some_iff.mp hy).1, y, hsome hy, hpar, hchild⟩
  · rw [List.mem_cons, hst.setIDs, List.map_append, List.mem_append, List.map_singleton,
      List.mem_singleton, or_comm]

theorem Expanded.addRoot (hst : Expanded db ulFlags objects st) (hselected : Selected db ulFlags objects r)
    (hok : addRoot lpSession db ulFlags bCheckPermission st r = .ok st') : Expanded db ulFlags objects st' := by
  obtain rfl | ⟨hnew, x, hroot, rfl⟩ := addRoot_ok hok
  · exact hst
  · have ⟨_, _, hrow⟩ := hselected
    obtain ⟨hr, hleft⟩ := mem_rootRows hrow
    exact hst.append hr hleft hnew hroot.ulId (.inl ⟨hroot, hselected⟩)

theorem Expanded.addRootRows {rows : List HierarchyRow}
    (hst : Expanded db ulFlags objects st) (hrows : ∀ r ∈ rows, Selected db ulFlags objects r)
    (hok : rows.foldlM (ZarafaCmdUtil.addRoot lpSession db ulFlags bCheckPermission) st = .ok st') :
    Expanded db ulFlags objects st' := by
  induction rows generalizing st with
  | nil =>
    obtain rfl : st = st' := Except.ok.inj hok
    exact hst
  | cons r rows ih =>
    rw [List.foldlM_cons] at hok
    obtain ⟨st₁, hr, hrest⟩ := bind_ok hok
    exact ih (hst.addRoot (hrows r List.mem_cons_self) hr)
      (fun r' hr' => hrows r' (List.mem_cons_of_mem _ hr')) hrest

theorem Expanded.addRoots {ids : List ObjId} (hst : Expanded db ulFlags objects st)
    (hids : ids ⊆ objects) (hok : addRoots lpSession db ulFlags bCheckPermission st ids = .ok st') :
    Expanded db ulFlags objects st' := by
  induction ids generalizing st with
  | nil =>
    obtain rfl : st = st' := Except.ok.inj hok
    exact hst
  | cons id ids ih =>
    unfold ZarafaCmdUtil.addRoots at hok
    split_ifs at hok with hnone
    · exact nomatch hok
    · obtain ⟨st₁, hrows, hrest⟩ := bind_ok hok
      obtain ⟨hid, hids⟩ := List.cons_subset.mp hids
      exact ih (hst.addRootRows (fun r hr => ⟨id, hid, hr⟩) hrows) hids hrest

/-- The rows below the item at `i` are in the list when they have been gone through. -/
theorem Expanded.addChildRows {rows : List HierarchyRow}
    (hst : Expanded db ulFlags objects st) {i : ℕ} {y : DELETEITEM} (hy : st.lstDeleteItems[i]? = some y)
    (hrows : ∀ r ∈ rows, r ∈ childRows db ulFlags y.ulId)
    (hok : rows.foldlM (addChild lpSession db ulFlags bCheckPermission y) st = .ok st') :
    Expanded db ulFlags objects st' ∧ st.lstDeleteItems <+: st'.lstDeleteItems ∧
      ∀ r ∈ rows, r.id ∈ st'.lstDeleteItems.map DELETEITEM.ulId := by
  induction rows generalizing st with
  | nil =>
    obtain rfl : st = st' := Except.ok.inj hok
    exact ⟨hst, List.prefix_rfl, by simp⟩
  | cons r rows ih =>
    rw [List.foldlM_cons] at hok
    obtain ⟨st₁, hr, hrest⟩ := bind_ok hok
    have hrows' : ∀ r' ∈ rows, r' ∈ childRows db ulFlags y.ulId :=
      fun r' hr' => hrows r' (List.mem_cons_of_mem _ hr')
    obtain ⟨hmem, hparent, hleft⟩ := mem_childRows.mp (hrows r List.mem_cons_self)
    -- the state after the row itself
    obtain ⟨hst₁, hpre, hin⟩ : Expanded db ulFlags objects st₁ ∧ st.lstDeleteItems <+: st₁.lstDeleteItems ∧
        r.id ∈ st₁.lstDeleteItems.map DELETEITEM.ulId := by
      obtain ⟨rfl, hold⟩ | ⟨hnew, x, hchild, rfl⟩ := addChild_ok hr
      · exact ⟨hst, List.prefix_rfl, (hst.setIDs r.id).mp hold⟩
      · refine ⟨hst.append hmem hleft hnew hchild.ulId (.inr ⟨i, y, hy, hparent, hchild⟩),
          List.prefix_append _ _, ?_⟩
        simp [hchild.ulId]
    have hi := (List.getElem?_eq_some_iff.mp hy).1
    have hy₁ : st₁.lstDeleteItems[i]? = some y := by rw [getElem?_appended hpre hi, hy]
    obtain ⟨hst', hpre', hall⟩ := ih hst₁ hy₁ hrows' hrest
    refine ⟨hst', hpre.trans hpre', fun r' hr' => ?_⟩
    rcases List.mem_cons.mp hr' with rfl | hr'
    · exact (hpre'.map DELETEITEM.ulId).subset hin
    · exact hall r' hr'

/-- The loop through the items, with the items below `i` done. -/
theorem Expanded.addChildren {fuel i : ℕ} (hst : Expanded db ulFlags objects st)
    (hdone : ∀ k < i, ∀ y, st.lstDeleteItems[k]? = some y → ClosedAt db ulFlags st.lstDeleteItems y)
    (hok : addChildren lpSession db ulFlags bCheckPermission fuel i st = .ok st') :
    Expanded db ulFlags objects st' ∧ ∀ k < i + fuel, ∀ y, st'.lstDeleteItems[k]? = some y →
      ClosedAt db ulFlags st'.lstDeleteItems y := by
  induction fuel generalizing i st with
  | zero =>
    obtain rfl : st = st' := Except.ok.inj hok
    exact ⟨hst, hdone⟩
  | succ fuel ih =>
    unfold ZarafaCmdUtil.addChildren at hok
    split at hok
    · rename_i hnone
      obtain rfl : st = st' := Except.ok.inj hok
      refine ⟨hst, fun k _ y hy => hdone k ?_ y hy⟩
      have hlen := List.getElem?_eq_none_iff.mp hnone
      exact (List.getElem?_eq_some_iff.mp hy).1.trans_le hlen
    · rename_i y hy
      obtain ⟨st₁, hrows, hrest⟩ := bind_ok hok
      obtain ⟨hst₁, hpre, hin⟩ := hst.addChildRows hy (fun r hr => hr) hrows
      have hi := (List.getElem?_eq_some_iff.mp hy).1
      have hdone₁ : ∀ k < i + 1, ∀ z, st₁.lstDeleteItems[k]? = some z →
          ClosedAt db ulFlags st₁.lstDeleteItems z := fun k hk z hz => by
        rw [getElem?_appended hpre (by omega)] at hz
        rcases Nat.lt_succ_iff_lt_or_eq.mp hk with hk | rfl
        · exact fun r hr => (hpre.map DELETEITEM.ulId).subset (hdone k hk z hz r hr)
        · obtain rfl : y = z := Option.some.inj (hy.symm.trans hz)
          exact hin
      have hclosed := ih hst₁ hdone₁ hrest
      rwa [Nat.add_right_comm, Nat.add_assoc] at hclosed

/-- Every item is the one of a row. -/
theorem IsExpansion.exists_row (hitems : IsExpansion db ulFlags objects items) (hx : x ∈ items) :
    ∃ r ∈ db.hierarchy, ¬ r.Skipped ulFlags ∧ r.id = x.ulId ∧ r.type = x.ulObjType := by
  obtain ⟨j, hj⟩ := List.mem_iff_getElem?.mp hx
  obtain ⟨r, hr, hleft, ⟨hroot, -⟩ | ⟨_, -, _, -, -, hchild⟩⟩ := hitems.origin j x hj
  · exact ⟨r, hr, hleft, hroot.ulId.symm, hroot.ulObjType.symm⟩
  · exact ⟨r, hr, hleft, hchild.ulId.symm, hchild.ulObjType.symm⟩

/-- What an item has from its row. Only a root has the flags of the row itself. -/
structure ItemOf (db : Database) (r : HierarchyRow) (x : DELETEITEM) : Prop where
  ulId : x.ulId = r.id
  ulParent : x.ulParent = r.parent.getD 0
  ulObjType : x.ulObjType = r.type
  ulParentType : x.ulParentType = ((r.parent.bind db.row).map HierarchyRow.type).getD 0
  ulFlags : x.fRoot → x.ulFlags = r.flags
  ulMessageFlags : x.fRoot → x.ulMessageFlags = (db.messageFlags r.id).getD 0
  extended : x.IsMessage → IsExtended db x

theorem IsExpansion.itemOf (hitems : IsExpansion db ulFlags objects items) (keyed : db.WellKeyed) (hx : x ∈ items) :
    ∃ r ∈ db.hierarchy, ¬ r.Skipped ulFlags ∧ ItemOf db r x := by
  obtain ⟨j, hj⟩ := List.mem_iff_getElem?.mp hx
  obtain ⟨r, hr, hleft, ⟨hroot, -⟩ | ⟨i, -, y, hy, hparent, hchild⟩⟩ := hitems.origin j x hj
  · exact ⟨r, hr, hleft, hroot.ulId, hroot.ulParent, hroot.ulObjType, hroot.ulParentType,
      fun _ => hroot.ulFlags, fun _ => hroot.ulMessageFlags, hroot.extended⟩
  · obtain ⟨p, hp, -, hpid, hptype⟩ := hitems.exists_row (List.mem_of_getElem? hy)
    have hnot : ¬ x.fRoot := by simp [hchild.fRoot]
    refine ⟨r, hr, hleft, hchild.ulId, ?_, hchild.ulObjType, ?_, fun h => absurd h hnot,
      fun h => absurd h hnot, hchild.extended⟩
    · rw [hchild.ulParent, hparent, Option.getD_some]
    · rw [hchild.ulParentType, hparent, Option.bind_some, ← hpid, keyed.row_eq hp, Option.map_some,
        Option.getD_some, hptype]

/-- There are not more items than rows. -/
theorem IsExpansion.length_le (hitems : IsExpansion db ulFlags objects items) :
    items.length ≤ db.hierarchy.length := by
  have hsub : items.map DELETEITEM.ulId ⊆ db.hierarchy.map HierarchyRow.id := fun id hid => by
    obtain ⟨x, hx, rfl⟩ := List.mem_map.mp hid
    obtain ⟨r, hr, -, hrid, -⟩ := hitems.exists_row hx
    exact List.mem_map.mpr ⟨r, hr, hrid⟩
  simpa using (List.subperm_of_subset hitems.nodup hsub).length_le

/-- What a successful `ExpandDeletedItems` gives. The fuel is enough for all that lies below the roots. -/
theorem ExpandDeletedItems_ok (hok : ExpandDeletedItems lpSession db ulFlags bCheckPermission objects = .ok items) :
    IsExpansion db ulFlags objects items ∧ ∀ y ∈ items, ClosedAt db ulFlags items y := by
  obtain ⟨st₁, hroots, hrest⟩ := bind_ok hok
  obtain ⟨st, hchildren, hitems⟩ := bind_ok hrest
  obtain rfl : st.lstDeleteItems = items := Except.ok.inj hitems
  have hnew : Expanded db ulFlags objects ⟨[], .new, []⟩ := ⟨⟨by simp, by simp⟩, by simp⟩
  obtain ⟨hst, hclosed⟩ :=
    (hnew.addRoots (List.Subset.refl _) hroots).addChildren (fun k hk => absurd hk (Nat.not_lt_zero k)) hchildren
  refine ⟨hst.expansion, fun y hy => ?_⟩
  obtain ⟨k, hk⟩ := List.mem_iff_getElem?.mp hy
  have hlt := (List.getElem?_eq_some_iff.mp hk).1
  have hle := hst.expansion.length_le
  exact hclosed k (by omega) y hk

end Expand

end Zcp.Libserver.ZarafaCmdUtil
