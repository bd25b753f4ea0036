import Mathlib.Logic.Relation
import Zcp.Libserver.ZarafaCmdUtil.Orphans

/-!
# What an expansion reaches

`ExpandDeletedItems` goes through the rows below the roots, every row once. The items it gives are those of the rows
that are reached from the roots, in whatever way the parents are linked, and all of them have been validated. It
succeeds whenever all that is reached is valid.
-/

namespace Zcp.Libserver.ZarafaCmdUtil

/-! ## Validation -/

/-- An object of a type that the flags of a delete include. Other types are deleted anyway. -/
@[mk_iff]
structure Allowed (ulFlags type : UInt32) : Prop where
  message : type = MAPI_MESSAGE → Has ulFlags EC_DELETE_MESSAGES
  folder : type = MAPI_FOLDER → Has ulFlags EC_DELETE_FOLDERS
  recipient : type = MAPI_MAILUSER ∨ type = MAPI_DISTLIST → Has ulFlags EC_DELETE_RECIPIENTS
  attachment : type = MAPI_ATTACH → Has ulFlags EC_DELETE_ATTACHMENTS
  store : type = MAPI_STORE → Has ulFlags EC_DELETE_STORE

theorem needs_ok_iff {ulFlags bits : UInt32} {er : DeleteError} : needs ulFlags bits er = .ok () ↔ Has ulFlags bits := by
  unfold needs
  split_ifs with h <;> simp [h]

variable {sItem : DELETEITEM}

/-- An item is valid when the user may delete it and, unless it is a root, the flags allow its type. -/
theorem ValidateDeleteObject_ok_iff {lpSession : ECSession} {bCheckPermission : Bool} {ulFlags : UInt32}
    : ValidateDeleteObject lpSession bCheckPermission ulFlags sItem = .ok () ↔
      (bCheckPermission → sItem.IsMessage ∨ sItem.ulObjType = MAPI_FOLDER →
        lpSession.CheckPermission sItem.ulId = .ok ()) ∧
      (sItem.fRoot = false → Allowed ulFlags (RealObjType sItem.ulObjType sItem.ulParentType)) := by
  unfold ValidateDeleteObject
  -- what follows on the permissions
  extract_lets type checkType
  have htype : checkType () = .ok () ↔ (sItem.fRoot = false → Allowed ulFlags type) := by
    simp only [checkType]
    generalize type = type
    by_cases hroot : sItem.fRoot
    · simp [hroot]
    · rw [if_neg hroot, Bool.eq_false_of_not_eq_true hroot, allowed_iff]
      split_ifs with hmessage hfolder hrecipient hattach hstore
      · simp [hmessage, needs_ok_iff, MAPI_MESSAGE, MAPI_FOLDER, MAPI_MAILUSER, MAPI_DISTLIST, MAPI_ATTACH, MAPI_STORE]
      · simp [hfolder, needs_ok_iff, MAPI_MESSAGE, MAPI_FOLDER, MAPI_MAILUSER, MAPI_DISTLIST, MAPI_ATTACH, MAPI_STORE]
      · rcases hrecipient with hrecipient | hrecipient <;>
          simp [hrecipient, needs_ok_iff, MAPI_MESSAGE, MAPI_FOLDER, MAPI_MAILUSER, MAPI_DISTLIST, MAPI_ATTACH, MAPI_STORE]
      · simp [hattach, needs_ok_iff, MAPI_MESSAGE, MAPI_FOLDER, MAPI_MAILUSER, MAPI_DISTLIST, MAPI_ATTACH, MAPI_STORE]
      · simp [hstore, needs_ok_iff, MAPI_MESSAGE, MAPI_FOLDER, MAPI_MAILUSER, MAPI_DISTLIST, MAPI_ATTACH, MAPI_STORE]
      · simp [hmessage, hfolder, hrecipient, hattach, hstore]
  split_ifs with hcheck
  · cases hper : lpSession.CheckPermission sItem.ulId with
    | error er => simp [Except.mapError, hcheck, bind, Except.bind]
    | ok => simpa [Except.mapError, hcheck, bind, Except.bind] using htype
  · rw [htype]
    simp only [not_and] at hcheck
    exact ⟨fun h => ⟨fun hb hm => absurd hm (hcheck hb), h⟩, fun h => h.2⟩
/-! ## Rows that are reached -/

/-- The type of the row above, as the query for the roots joins it. -/
def Database.parentType (db : Database) (r : HierarchyRow) : UInt32 :=
  ((r.parent.bind db.row).map HierarchyRow.type).getD 0

section Descendants

variable (lpSession : ECSession) (db : Database) (ulFlags : UInt32) (bCheckPermission : Bool)
  (objects : List ObjId)

/-- A row that becomes a root: it is selected, and without a parent it has to be a store. -/
structure IsRoot (r : HierarchyRow) : Prop where
  selected : Selected db ulFlags objects r
  top : r.parent = none → r.type = MAPI_STORE

/-- The rows of `start` and all that lies below them. -/
def Descends (start : HierarchyRow → Prop) (r : HierarchyRow) : Prop :=
  ∃ s, start s ∧ Relation.ReflTransGen (fun p c => c ∈ childRows db ulFlags p.id) s r

/-- Folders, and messages in them, may be deleted when the user has the permission for them. -/
def Permitted (r : HierarchyRow) : Prop :=
  bCheckPermission → r.type = MAPI_MESSAGE ∧ db.parentType r = MAPI_FOLDER ∨ r.type = MAPI_FOLDER →
    lpSession.CheckPermission r.id = .ok ()

/-- The type of a row is one that the flags allow. -/
def TypeAllowed (r : HierarchyRow) : Prop := Allowed ulFlags (RealObjType r.type (db.parentType r))

/-- The items are those of `start` and of all that lies below, each once. All are permitted, and those that are not
`exempt` have a type that the flags allow. -/
structure IsCompleteExpansion (start exempt : HierarchyRow → Prop) (items : List DELETEITEM) : Prop where
  nodup : (items.map DELETEITEM.ulId).Nodup
  mem_iff : ∀ id, id ∈ items.map DELETEITEM.ulId ↔ ∃ r, Descends db ulFlags start r ∧ r.id = id
  permitted : ∀ r, Descends db ulFlags start r → Permitted lpSession db bCheckPermission r
  allowed : ∀ r, Descends db ulFlags start r → ¬ exempt r → TypeAllowed db ulFlags r

/-- `ExpandDeletedItems` with a bound on the turns of its second loop. -/
def expandWithin (fuel : ℕ) : Except DeleteError (List DELETEITEM) := do
  let st ← addRoots lpSession db ulFlags bCheckPermission ⟨[], .new, []⟩ objects
  let st ← addChildren lpSession db ulFlags bCheckPermission fuel 0 st
  .ok st.lstDeleteItems

variable {lpSession db ulFlags bCheckPermission objects}

/-! ## What the loops keep -/

variable {I : Expansion → Prop} {st st' : Expansion}

theorem foldlM_keeps {α : Type} {f : Expansion → α → Except DeleteError Expansion}
    {rows : List α} (hstep : ∀ r ∈ rows, ∀ st st', I st → f st r = .ok st' → I st') (hst : I st)
    (hok : rows.foldlM f st = .ok st') : I st' := by
  induction rows generalizing st with
  | nil =>
    obtain rfl : st = st' := Except.ok.inj hok
    exact hst
  | cons r rows ih =>
    rw [List.foldlM_cons] at hok
    obtain ⟨st₁, hr, hrest⟩ := bind_ok hok
    exact ih (fun r' hr' => hstep r' (List.mem_cons_of_mem _ hr')) (hstep r List.mem_cons_self st st₁ hst hr) hrest

variable {ids : List ObjId}

theorem addRoots_keeps
    (hstep : ∀ r st st', I st → addRoot lpSession db ulFlags bCheckPermission st r = .ok st' → I st') (hst : I st)
    (hok : addRoots lpSession db ulFlags bCheckPermission st ids = .ok st') : I st' := by
  induction ids generalizing st with
  | nil =>
    obtain rfl : st = st' := Except.ok.inj hok
    exact hst
  | cons id ids ih =>
    unfold addRoots at hok
    split_ifs at hok with hnone
    · cases hok
    · obtain ⟨st₁, hrows, hrest⟩ := bind_ok hok
      exact ih (foldlM_keeps (fun r _ => hstep r) hst hrows) hrest

variable {y : DELETEITEM} {r : HierarchyRow}

theorem addChild_items (hok : addChild lpSession db ulFlags bCheckPermission y st r = .ok st') :
    st.lstDeleteItems <+: st'.lstDeleteItems := by
  obtain ⟨rfl, -⟩ | ⟨-, x, -, rfl⟩ := addChild_ok hok
  · exact List.prefix_rfl
  · exact List.prefix_append _ _

variable {i fuel : ℕ}

/-- A row below an item of the list is what every turn is about. -/
theorem addChildren_keeps (hstep : ∀ y r st st', y ∈ st.lstDeleteItems → r ∈ childRows db ulFlags y.ulId → I st →
      addChild lpSession db ulFlags bCheckPermission y st r = .ok st' → I st') (hst : I st)
    (hok : addChildren lpSession db ulFlags bCheckPermission fuel i st = .ok st') : I st' := by
  induction fuel generalizing i st with
  | zero =>
    obtain rfl : st = st' := Except.ok.inj hok
    exact hst
  | succ fuel ih =>
    unfold addChildren at hok
    split at hok
    · obtain rfl : st = st' := Except.ok.inj hok
      exact hst
    · rename_i y hy
      obtain ⟨st₁, hrows, hrest⟩ := bind_ok hok
      have hst₁ := foldlM_keeps (I := fun st => y ∈ st.lstDeleteItems ∧ I st)
        (fun r hr st st' h hok => ⟨(addChild_items hok).subset h.1, hstep y r st st' h.1 hr h.2 hok⟩)
        ⟨List.mem_of_getElem? hy, hst⟩ hrows
      exact ih hst₁.2 hrest

/-! ## Validated items -/

/-- An item that has been validated. -/
def Validated (lpSession : ECSession) (ulFlags : UInt32) (bCheckPermission : Bool) (x : DELETEITEM) : Prop :=
  ValidateDeleteObject lpSession bCheckPermission ulFlags x = .ok ()

/-- The data that are read after the validation do not matter for it. -/
theorem pushItem_validated {extended : Bool}
    (hst : ∀ x ∈ st.lstDeleteItems, Validated lpSession ulFlags bCheckPermission x)
    (hok : pushItem lpSession db ulFlags bCheckPermission st sItem extended = .ok st') :
    ∀ x ∈ st'.lstDeleteItems, Validated lpSession ulFlags bCheckPermission x := by
  obtain ⟨_, hvalid, hrest⟩ := bind_ok hok
  obtain rfl := Except.ok.inj hrest
  intro x hx
  rcases List.mem_append.mp hx with hx | hx
  · exact hst x hx
  · obtain rfl := List.mem_singleton.mp hx
    cases extended <;> exact hvalid

variable {items : List DELETEITEM}

theorem ExpandDeletedItems_validated
    (hok : ExpandDeletedItems lpSession db ulFlags bCheckPermission objects = .ok items) :
    ∀ x ∈ items, Validated lpSession ulFlags bCheckPermission x := by
  obtain ⟨st₁, hroots, hrest⟩ := bind_ok hok
  obtain ⟨st, hchildren, hitems⟩ := bind_ok hrest
  obtain rfl : st.lstDeleteItems = items := Except.ok.inj hitems
  have hroots' := addRoots_keeps (I := fun st => ∀ x ∈ st.lstDeleteItems, Validated lpSession ulFlags bCheckPermission x)
    (fun r st st' hst hok => ?_) (by simp) hroots
  · refine addChildren_keeps (I := fun st => ∀ x ∈ st.lstDeleteItems, Validated lpSession ulFlags bCheckPermission x)
      (fun y r st st' _ _ hst hok => ?_) hroots' hchildren
    unfold addChild at hok
    split_ifs at hok with hold
    · exact Except.ok.inj hok ▸ hst
    · exact pushItem_validated hst hok
  · unfold addRoot at hok
    split_ifs at hok with htop hold
    · exact Except.ok.inj hok ▸ hst
    · exact Except.ok.inj hok ▸ hst
    · exact pushItem_validated hst hok

/-! ## All that is reached -/

theorem expanded_new : Expanded db ulFlags objects ⟨[], .new, []⟩ := ⟨⟨by simp, by simp⟩, by simp⟩

theorem addRoot_setIDs (hok : addRoot lpSession db ulFlags bCheckPermission st r = .ok st') :
    st.setIDs ⊆ st'.setIDs ∧ ((r.parent = none → r.type = MAPI_STORE) → r.id ∈ st'.setIDs) := by
  by_cases htop : r.parent = none ∧ r.type ≠ MAPI_STORE
  · rw [addRoot, if_pos htop] at hok
    obtain rfl := Except.ok.inj hok
    exact ⟨List.Subset.refl _, fun h => absurd (h htop.1) htop.2⟩
  · by_cases hold : r.id ∈ st.setIDs
    · rw [addRoot, if_neg htop, if_pos hold] at hok
      obtain rfl := Except.ok.inj hok
      exact ⟨List.Subset.refl _, fun _ => hold⟩
    · obtain rfl | ⟨-, x, hroot, rfl⟩ := addRoot_ok hok
      · rw [addRoot, if_neg htop, if_neg hold] at hok
        obtain ⟨x, hx, hst⟩ := pushItem_ok hok
        have hlen := congrArg (fun st => st.lstDeleteItems.length) hst
        simp at hlen
      · exact ⟨List.subset_cons_self _ _, fun _ => hroot.ulId ▸ List.mem_cons_self⟩

theorem addRootRows_setIDs {rows : List HierarchyRow}
    (hok : rows.foldlM (addRoot lpSession db ulFlags bCheckPermission) st = .ok st') :
    st.setIDs ⊆ st'.setIDs ∧ ∀ r ∈ rows, (r.parent = none → r.type = MAPI_STORE) → r.id ∈ st'.setIDs := by
  induction rows generalizing st with
  | nil =>
    obtain rfl : st = st' := Except.ok.inj hok
    exact ⟨List.Subset.refl _, by simp⟩
  | cons r rows ih =>
    rw [List.foldlM_cons] at hok
    obtain ⟨st₁, hr, hrest⟩ := bind_ok hok
    obtain ⟨hsub, hrow⟩ := addRoot_setIDs hr
    obtain ⟨hsub', hrows⟩ := ih hrest
    refine ⟨List.Subset.trans hsub hsub', fun r' hr' htop => ?_⟩
    rcases List.mem_cons.mp hr' with rfl | hr'
    · exact hsub' (hrow htop)
    · exact hrows r' hr' htop

/-- The first loop takes in all roots. -/
theorem addRoots_setIDs (hok : addRoots lpSession db ulFlags bCheckPermission st ids = .ok st') :
    st.setIDs ⊆ st'.setIDs ∧ ∀ r, IsRoot db ulFlags ids r → r.id ∈ st'.setIDs := by
  induction ids generalizing st with
  | nil =>
    obtain rfl : st = st' := Except.ok.inj hok
    refine ⟨List.Subset.refl _, ?_⟩
    rintro r ⟨⟨id, hid, -⟩, -⟩
    exact absurd hid List.not_mem_nil
  | cons id ids ih =>
    unfold addRoots at hok
    split_ifs at hok with hnone
    · cases hok
    obtain ⟨st₁, hrows, hrest⟩ := bind_ok hok
    obtain ⟨hsub, hroots⟩ := addRootRows_setIDs hrows
    obtain ⟨hsub', hmore⟩ := ih hrest
    refine ⟨List.Subset.trans hsub hsub', ?_⟩
    rintro r ⟨⟨id', hid', hr⟩, htop⟩
    rcases List.mem_cons.mp hid' with rfl | hid'
    · exact hsub' (hroots r hr htop)
    · exact hmore r ⟨⟨id', hid', hr⟩, htop⟩

/-- Every item is the one of a row that is reached. -/
theorem IsExpansion.exists_descends (hitems : IsExpansion db ulFlags objects items)
    {x : DELETEITEM} (hx : x ∈ items) : ∃ r, Descends db ulFlags (IsRoot db ulFlags objects) r ∧ r.id = x.ulId := by
  obtain ⟨j, hj⟩ := List.mem_iff_getElem?.mp hx
  clear hx
  -- the item above stands in front of its child
  induction j using Nat.strong_induction_on generalizing x with
  | _ j ih =>
    obtain ⟨r, hr, hleft, ⟨hroot, hselected⟩ | ⟨i, hij, y, hy, hparent, hchild⟩⟩ := hitems.origin j x hj
    · exact ⟨r, ⟨r, ⟨hselected, hroot.top⟩, .refl⟩, hroot.ulId.symm⟩
    · obtain ⟨p, ⟨s, hs, hsp⟩, hpid⟩ := ih i hij hy
      refine ⟨r, ⟨s, hs, hsp.tail (mem_childRows.mpr ⟨hr, ?_, hleft⟩)⟩, hchild.ulId.symm⟩
      rw [hparent, hpid]

/-- The ids of the items are those of the rows that are reached. -/
theorem ExpandDeletedItems_mem_iff
    (hok : ExpandDeletedItems lpSession db ulFlags bCheckPermission objects = .ok items) (id : ObjId) :
    id ∈ items.map DELETEITEM.ulId ↔ ∃ r, Descends db ulFlags (IsRoot db ulFlags objects) r ∧ r.id = id := by
  obtain ⟨hitems, hclosed⟩ := ExpandDeletedItems_ok hok
  constructor
  · intro hid
    obtain ⟨x, hx, rfl⟩ := List.mem_map.mp hid
    exact hitems.exists_descends hx
  · rintro ⟨r, ⟨s, hs, hsr⟩, rfl⟩
    induction hsr with
    | refl =>
      obtain ⟨st₁, hroots, hrest⟩ := bind_ok hok
      obtain ⟨st, hchildren, hlist⟩ := bind_ok hrest
      obtain rfl : st.lstDeleteItems = items := Except.ok.inj hlist
      have hst₁ := expanded_new.addRoots (List.Subset.refl objects) hroots
      have hpre := addChildren_keeps (I := fun st => st₁.lstDeleteItems <+: st.lstDeleteItems)
        (fun y r st st' _ _ h hok => h.trans (addChild_items hok)) List.prefix_rfl hchildren
      exact (hpre.map DELETEITEM.ulId).subset ((hst₁.setIDs _).mp ((addRoots_setIDs hroots).2 s hs))
    | @tail p c _ hpc ih =>
      obtain ⟨y, hy, hyid⟩ := List.mem_map.mp ih
      exact hclosed y hy c (hyid ▸ hpc)

theorem Descends.mem (hr : Descends db ulFlags (IsRoot db ulFlags objects) r) : r ∈ db.hierarchy := by
  obtain ⟨s, ⟨⟨id, _, hs⟩, _⟩, hsr⟩ := hr
  induction hsr with
  | refl => exact (mem_rootRows hs).1
  | tail _ hpc _ => exact (mem_childRows.mp hpc).1

/-- A successful `ExpandDeletedItems` gives all that lies below the roots, and only they are not checked. -/
theorem ExpandDeletedItems_isComplete (keyed : db.WellKeyed)
    (hok : ExpandDeletedItems lpSession db ulFlags bCheckPermission objects = .ok items) :
    IsCompleteExpansion lpSession db ulFlags bCheckPermission (IsRoot db ulFlags objects) (IsRoot db ulFlags objects)
      items := by
  have hitems := (ExpandDeletedItems_ok hok).1
  have hmem := ExpandDeletedItems_mem_iff hok
  -- the item of a row that is reached
  have hitem : ∀ r, Descends db ulFlags (IsRoot db ulFlags objects) r →
      ∃ (j : ℕ) (x : DELETEITEM), items[j]? = some x ∧ ItemOf db r x := by
    intro r hr
    obtain ⟨x, hx, hid⟩ := List.mem_map.mp ((hmem r.id).mpr ⟨r, hr, rfl⟩)
    obtain ⟨r', hr', -, hof⟩ := hitems.itemOf keyed hx
    obtain ⟨j, hj⟩ := List.mem_iff_getElem?.mp hx
    obtain rfl := keyed.eq_of_id hr' hr.mem (hof.ulId.symm.trans hid)
    exact ⟨j, x, hj, hof⟩
  refine ⟨hitems.nodup, hmem, fun r hr => ?_, fun r hr hexempt => ?_⟩
  · obtain ⟨j, x, hj, hof⟩ := hitem r hr
    have hvalid := ValidateDeleteObject_ok_iff.mp (ExpandDeletedItems_validated hok x (List.mem_of_getElem? hj))
    rw [DELETEITEM.IsMessage, hof.ulObjType, hof.ulParentType, hof.ulId] at hvalid
    exact hvalid.1
  · obtain ⟨j, x, hj, hof⟩ := hitem r hr
    have hvalid := ValidateDeleteObject_ok_iff.mp (ExpandDeletedItems_validated hok x (List.mem_of_getElem? hj))
    have hchild : x.fRoot = false := by
      obtain ⟨r', hr', -, ⟨hroot, hselected⟩ | ⟨_, _, _, _, _, hchild⟩⟩ := hitems.origin j x hj
      · obtain rfl := keyed.eq_of_id hr' hr.mem (hroot.ulId.symm.trans hof.ulId)
        exact absurd ⟨hselected, hroot.top⟩ hexempt
      · exact hchild.fRoot
    have hallowed := hvalid.2 hchild
    rwa [hof.ulObjType, hof.ulParentType] at hallowed

/-! ## Success -/

theorem foldlM_exists {α : Type} {f : Expansion → α → Except DeleteError Expansion}
    {rows : List α} (hstep : ∀ r ∈ rows, ∀ st, I st → ∃ st', f st r = .ok st' ∧ I st') (hst : I st) :
    ∃ st', rows.foldlM f st = .ok st' ∧ I st' := by
  induction rows generalizing st with
  | nil => exact ⟨st, rfl, hst⟩
  | cons r rows ih =>
    obtain ⟨st₁, hr, hst₁⟩ := hstep r List.mem_cons_self st hst
    obtain ⟨st', hrest, hst'⟩ := ih (fun r' hr' => hstep r' (List.mem_cons_of_mem _ hr')) hst₁
    exact ⟨st', by rw [List.foldlM_cons, hr]; exact hrest, hst'⟩

theorem pushItem_exists (extended : Bool) (hvalid : Validated lpSession ulFlags bCheckPermission sItem) :
    ∃ st', pushItem lpSession db ulFlags bCheckPermission st sItem extended = .ok st' := by
  rw [pushItem, hvalid]
  exact ⟨_, rfl⟩

theorem addRoot_exists
    (hpermitted : (r.parent = none → r.type = MAPI_STORE) → Permitted lpSession db bCheckPermission r) :
    ∃ st', addRoot lpSession db ulFlags bCheckPermission st r = .ok st' := by
  unfold addRoot
  split_ifs with htop hold
  · exact ⟨st, rfl⟩
  · exact ⟨st, rfl⟩
  · refine pushItem_exists _ (ValidateDeleteObject_ok_iff.mpr ⟨hpermitted fun hnone => ?_, nofun⟩)
    by_contra htype
    exact htop ⟨hnone, htype⟩

theorem addChild_exists (htype : db.parentType r = y.ulObjType)
    (hpermitted : Permitted lpSession db bCheckPermission r)
    (hallowed : r.id ∉ st.setIDs → TypeAllowed db ulFlags r) :
    ∃ st', addChild lpSession db ulFlags bCheckPermission y st r = .ok st' := by
  unfold addChild
  split_ifs with hold
  · exact ⟨st, rfl⟩
  · refine pushItem_exists _ (ValidateDeleteObject_ok_iff.mpr ⟨?_, fun _ => ?_⟩)
    · rwa [Permitted, htype] at hpermitted
    · rw [← htype]
      exact hallowed hold

theorem Expanded.addRoots_exists (hst : Expanded db ulFlags objects st)
    (hids : ids ⊆ objects) (hrows : ∀ id ∈ ids, (db.row id).isSome)
    (hpermitted : ∀ r, IsRoot db ulFlags objects r → Permitted lpSession db bCheckPermission r) :
    ∃ st', ZarafaCmdUtil.addRoots lpSession db ulFlags bCheckPermission st ids = .ok st' := by
  induction ids generalizing st with
  | nil => exact ⟨st, rfl⟩
  | cons id ids ih =>
    obtain ⟨hid, hids⟩ := List.cons_subset.mp hids
    have hstep : ∀ r ∈ rootRows db ulFlags id, ∀ st, Expanded db ulFlags objects st →
        ∃ st', ZarafaCmdUtil.addRoot lpSession db ulFlags bCheckPermission st r = .ok st' ∧
          Expanded db ulFlags objects st' := by
      intro r hr st hst
      have hselected : Selected db ulFlags objects r := ⟨id, hid, hr⟩
      obtain ⟨st', hok⟩ : ∃ st', ZarafaCmdUtil.addRoot lpSession db ulFlags bCheckPermission st r = .ok st' :=
        addRoot_exists fun htop => hpermitted r ⟨hselected, htop⟩
      exact ⟨st', hok, hst.addRoot hselected hok⟩
    obtain ⟨st₁, hok, hst₁⟩ := foldlM_exists hstep hst
    obtain ⟨st', hrest⟩ := ih hst₁ hids fun id' hid' => hrows id' (List.mem_cons_of_mem _ hid')
    refine ⟨st', ?_⟩
    have hrow : (db.row id).isNone = false := by simpa using hrows id List.mem_cons_self
    rw [ZarafaCmdUtil.addRoots, hrow, hok]
    exact hrest

/-- The rows below the item at `i`, when all that is reached is valid and the roots have been taken in. -/
theorem Expanded.addChildRows_exists (keyed : db.WellKeyed) (hst : Expanded db ulFlags objects st)
    (hroots : ∀ r, IsRoot db ulFlags objects r → r.id ∈ st.setIDs)
    (hpermitted : ∀ r, Descends db ulFlags (IsRoot db ulFlags objects) r → Permitted lpSession db bCheckPermission r)
    (hallowed : ∀ r, Descends db ulFlags (IsRoot db ulFlags objects) r → ¬ IsRoot db ulFlags objects r →
      TypeAllowed db ulFlags r) (hy : st.lstDeleteItems[i]? = some y) :
    ∃ st', (childRows db ulFlags y.ulId).foldlM (addChild lpSession db ulFlags bCheckPermission y) st = .ok st' ∧
      ∀ r, IsRoot db ulFlags objects r → r.id ∈ st'.setIDs := by
  obtain ⟨p, hp, -, hpid, hptype⟩ := hst.expansion.exists_row (List.mem_of_getElem? hy)
  obtain ⟨q, ⟨s, hs, hsq⟩, hqid⟩ := hst.expansion.exists_descends (List.mem_of_getElem? hy)
  refine foldlM_exists (I := fun st => ∀ r, IsRoot db ulFlags objects r → r.id ∈ st.setIDs) ?_ hroots
  intro r hr st hroots
  have hdescends : Descends db ulFlags (IsRoot db ulFlags objects) r := ⟨s, hs, hsq.tail (hqid ▸ hr)⟩
  have htype : db.parentType r = y.ulObjType := by
    rw [Database.parentType, (mem_childRows.mp hr).2.1, Option.bind_some, ← hpid, keyed.row_eq hp, Option.map_some,
      Option.getD_some, hptype]
  obtain ⟨st', hok⟩ := addChild_exists htype (hpermitted r hdescends) fun hnew =>
    hallowed r hdescends fun hroot => hnew (hroots r hroot)
  refine ⟨st', hok, fun r' hr' => ?_⟩
  obtain ⟨rfl, -⟩ | ⟨-, x, -, rfl⟩ := addChild_ok hok
  · exact hroots r' hr'
  · exact List.mem_cons_of_mem _ (hroots r' hr')

theorem Expanded.addChildren_exists (keyed : db.WellKeyed)
    (hst : Expanded db ulFlags objects st) (hroots : ∀ r, IsRoot db ulFlags objects r → r.id ∈ st.setIDs)
    (hpermitted : ∀ r, Descends db ulFlags (IsRoot db ulFlags objects) r → Permitted lpSession db bCheckPermission r)
    (hallowed : ∀ r, Descends db ulFlags (IsRoot db ulFlags objects) r → ¬ IsRoot db ulFlags objects r →
      TypeAllowed db ulFlags r) :
    ∃ st', ZarafaCmdUtil.addChildren lpSession db ulFlags bCheckPermission fuel i st = .ok st' := by
  induction fuel generalizing i st with
  | zero => exact ⟨st, rfl⟩
  | succ fuel ih =>
    unfold ZarafaCmdUtil.addChildren
    split
    · exact ⟨st, rfl⟩
    · rename_i y hy
      obtain ⟨st₁, hok, hroots₁⟩ := hst.addChildRows_exists keyed hroots hpermitted hallowed hy
      obtain ⟨st', hrest⟩ := ih (hst.addChildRows hy (fun r hr => hr) hok).1 hroots₁
      exact ⟨st', by rw [hok]; exact hrest⟩

/-- What is valid is not refused. -/
theorem ExpandDeletedItems_exists (keyed : db.WellKeyed) (hrows : ∀ id ∈ objects, (db.row id).isSome)
    (hpermitted : ∀ r, Descends db ulFlags (IsRoot db ulFlags objects) r → Permitted lpSession db bCheckPermission r)
    (hallowed : ∀ r, Descends db ulFlags (IsRoot db ulFlags objects) r → ¬ IsRoot db ulFlags objects r →
      TypeAllowed db ulFlags r) :
    ∃ items, ExpandDeletedItems lpSession db ulFlags bCheckPermission objects = .ok items := by
  obtain ⟨st₁, hroots⟩ :
      ∃ st₁, addRoots lpSession db ulFlags bCheckPermission ⟨[], .new, []⟩ objects = .ok st₁ :=
    expanded_new.addRoots_exists (List.Subset.refl objects) hrows fun r hr => hpermitted r ⟨r, hr, .refl⟩
  have hst₁ := expanded_new.addRoots (List.Subset.refl objects) hroots
  obtain ⟨st, hchildren⟩ :
      ∃ st, addChildren lpSession db ulFlags bCheckPermission (db.hierarchy.length + 1) 0 st₁ = .ok st :=
    hst₁.addChildren_exists keyed (addRoots_setIDs hroots).2 hpermitted hallowed
  refine ⟨st.lstDeleteItems, ?_⟩
  rw [ExpandDeletedItems, hroots]
  show (addChildren lpSession db ulFlags bCheckPermission (db.hierarchy.length + 1) 0 st₁ >>= _) = _
  rw [hchildren]
  rfl

/-! ## The end of the loop -/

theorem addChildren_add (hst : Expanded db ulFlags objects st) (hfuel : db.hierarchy.length < i + fuel) (k : ℕ) :
    addChildren lpSession db ulFlags bCheckPermission (fuel + k) i st =
      addChildren lpSession db ulFlags bCheckPermission fuel i st := by
  induction fuel generalizing i st with
  | zero =>
    -- all items have been gone through
    have hnone : st.lstDeleteItems[i]? = none := by
      have hle := hst.expansion.length_le
      rw [List.getElem?_eq_none_iff]
      omega
    cases k with
    | zero => rfl
    | succ k =>
      show addChildren lpSession db ulFlags bCheckPermission (0 + k + 1) i st = .ok st
      rw [addChildren, hnone]
  | succ fuel ih =>
    rw [Nat.add_right_comm]
    unfold addChildren
    split
    · rfl
    · rename_i y hy
      cases hrows : (childRows db ulFlags y.ulId).foldlM (addChild lpSession db ulFlags bCheckPermission y) st with
      | error er => rfl
      | ok st₁ => exact ih (hst.addChildRows hy (fun r hr => hr) hrows).1 (by omega)

/-- The loop has come to its end when it has turned once more than there are rows. -/
theorem expandWithin_eq (hfuel : db.hierarchy.length < fuel) :
    expandWithin lpSession db ulFlags bCheckPermission objects fuel =
      ExpandDeletedItems lpSession db ulFlags bCheckPermission objects := by
  obtain ⟨k, rfl⟩ := Nat.exists_eq_add_of_lt hfuel
  rw [expandWithin, ExpandDeletedItems, Nat.add_right_comm]
  cases hroots : addRoots lpSession db ulFlags bCheckPermission ⟨[], .new, []⟩ objects with
  | error er => rfl
  | ok st₁ =>
    have hst₁ := expanded_new.addRoots (List.Subset.refl objects) hroots
    have hend : addChildren lpSession db ulFlags bCheckPermission (db.hierarchy.length + 1 + k) 0 st₁ =
        addChildren lpSession db ulFlags bCheckPermission (db.hierarchy.length + 1) 0 st₁ :=
      addChildren_add hst₁ (by omega) k
    show (addChildren lpSession db ulFlags bCheckPermission (db.hierarchy.length + 1 + k) 0 st₁ >>= _) = _
    rw [hend]
    rfl

/-- **Expanding a list ends**, whatever way the parents are linked. On success it gives all that is reached, permitted
and, below the roots, of an allowed type. It succeeds when all that is reached is permitted and all of it, but the roots
that are listed themselves, is of an allowed type. -/
theorem ExpandDeletedItems_descendants (keyed : db.WellKeyed) :
    (∀ fuel, db.hierarchy.length < fuel → expandWithin lpSession db ulFlags bCheckPermission objects fuel =
      ExpandDeletedItems lpSession db ulFlags bCheckPermission objects) ∧
    (∀ items, ExpandDeletedItems lpSession db ulFlags bCheckPermission objects = .ok items →
      IsCompleteExpansion lpSession db ulFlags bCheckPermission (IsRoot db ulFlags objects) (IsRoot db ulFlags objects)
        items) ∧ ((∀ id ∈ objects, (db.row id).isSome) →
      (∀ r, Descends db ulFlags (IsRoot db ulFlags objects) r → Permitted lpSession db bCheckPermission r) →
      (∀ r, Descends db ulFlags (IsRoot db ulFlags objects) r → ¬ (r.id ∈ objects ∧ IsRoot db ulFlags objects r) →
        TypeAllowed db ulFlags r) →
      ∃ items, ExpandDeletedItems lpSession db ulFlags bCheckPermission objects = .ok items) := by
  refine ⟨fun _ => expandWithin_eq, fun _ => ExpandDeletedItems_isComplete keyed, fun hrows hpermitted hallowed => ?_⟩
  exact ExpandDeletedItems_exists keyed hrows hpermitted fun r hr hroot => hallowed r hr fun h => hroot h.2

/-- A folder with an associated message and another one, a folder without a parent, and two folders that are each
other's parent. -/
def tangledFolders : Database where
  hierarchy := [⟨1, none, MAPI_STORE, 0⟩, ⟨2, some 1, MAPI_FOLDER, 0⟩, ⟨3, some 2, MAPI_MESSAGE, MAPI_ASSOCIATED⟩,
    ⟨4, some 2, MAPI_MESSAGE, 0⟩, ⟨5, none, MAPI_FOLDER, 0⟩, ⟨6, some 7, MAPI_FOLDER, 0⟩, ⟨7, some 6, MAPI_FOLDER, 0⟩]
  stores := [1]
  messageFlags := fun _ => none
  objectSize := fun _ => none
  folderCount := fun _ _ => none
  storeSize := fun _ => none
  outgoingqueue := []

/-- Each of the two folders is taken once, and nothing is refused. -/
theorem ExpandDeletedItems_descendants_tangled :
    ∃ items, ExpandDeletedItems anySession tangledFolders (hardFlags ||| EC_DELETE_STORE) true [6] = .ok items ∧
      IsCompleteExpansion anySession tangledFolders (hardFlags ||| EC_DELETE_STORE) true
        (IsRoot tangledFolders (hardFlags ||| EC_DELETE_STORE) [6])
        (IsRoot tangledFolders (hardFlags ||| EC_DELETE_STORE) [6]) items := by
  have keyed : tangledFolders.WellKeyed := ⟨by decide, by decide⟩
  have htypes : ∀ r ∈ tangledFolders.hierarchy, TypeAllowed tangledFolders (hardFlags ||| EC_DELETE_STORE) r := by
    simp only [TypeAllowed, allowed_iff]
    decide +kernel
  obtain ⟨-, hcomplete, hsuccess⟩ := @ExpandDeletedItems_descendants anySession tangledFolders
    (hardFlags ||| EC_DELETE_STORE) true [6] keyed
  obtain ⟨items, hok⟩ := hsuccess (by decide) (fun _ _ _ _ => rfl) fun r hr _ => htypes r hr.mem
  exact ⟨items, hok, hcomplete items hok⟩

/-- A row that the list asks for: one of the objects, or what lies in one of them. -/
def Listed (db : Database) (ulFlags : UInt32) (objects : List ObjId) (r : HierarchyRow) : Prop :=
  r ∈ db.hierarchy ∧ ¬ r.Skipped ulFlags ∧
    ∃ id ∈ objects, if Has ulFlags EC_DELETE_CONTAINER then r.id = id else r.parent = some id

instance (db : Database) (ulFlags : UInt32) (objects : List ObjId) (r : HierarchyRow) :
    Decidable (Listed db ulFlags objects r) :=
  inferInstanceAs (Decidable (r ∈ db.hierarchy ∧ ¬ r.Skipped ulFlags ∧
    ∃ id ∈ objects, if Has ulFlags EC_DELETE_CONTAINER then r.id = id else r.parent = some id))

/-- The items for a list of the tangled folders. -/
def tangledItems (ulFlags : UInt32) (objects : List ObjId) : Except DeleteError (List DELETEITEM) :=
  ExpandDeletedItems anySession tangledFolders ulFlags true objects

/-- The items are all that is listed and what lies below it, checked unless it is listed itself. -/
def tangledComplete (ulFlags : UInt32) (objects : List ObjId) (items : List DELETEITEM) : Prop :=
  IsCompleteExpansion anySession tangledFolders ulFlags true (Listed tangledFolders ulFlags objects)
    (fun r => r.id ∈ objects) items

/-- Associated messages may be left out of a folder, a folder without a parent always is, and what lies in a folder
that is only emptied is not checked. -/
theorem not_complete_tangled :
    (∃ items, tangledItems (EC_DELETE_MESSAGES ||| EC_DELETE_NOT_ASSOCIATED_MSG) [2] = .ok items ∧
      ¬ tangledComplete (EC_DELETE_MESSAGES ||| EC_DELETE_NOT_ASSOCIATED_MSG) [2] items) ∧
    (∃ items, tangledItems hardFlags [5] = .ok items ∧ ¬ tangledComplete hardFlags [5] items) ∧
    ∃ items, tangledItems 0 [2] = .ok items ∧ ¬ tangledComplete 0 [2] items := by
  refine ⟨⟨_, ok_of_isSome (by decide +kernel), fun h => ?_⟩, ⟨_, ok_of_isSome (by decide +kernel), fun h => ?_⟩,
    ⟨_, ok_of_isSome (by decide +kernel), fun h => ?_⟩⟩
  · have hleft : 3 ∉ ((tangledItems (EC_DELETE_MESSAGES ||| EC_DELETE_NOT_ASSOCIATED_MSG) [2]).toOption.getD []).map
        DELETEITEM.ulId := by decide +kernel
    exact hleft ((h.mem_iff 3).mpr ⟨⟨3, some 2, MAPI_MESSAGE, MAPI_ASSOCIATED⟩, ⟨_, by decide, .refl⟩, rfl⟩)
  · have hleft : 5 ∉ ((tangledItems hardFlags [5]).toOption.getD []).map DELETEITEM.ulId := by decide +kernel
    exact hleft ((h.mem_iff 5).mpr ⟨⟨5, none, MAPI_FOLDER, 0⟩, ⟨_, by decide, .refl⟩, rfl⟩)
  · have hallowed := h.allowed ⟨4, some 2, MAPI_MESSAGE, 0⟩ ⟨_, by decide, .refl⟩ (by decide)
    exact absurd (hallowed.message (by decide)) (by decide)

end Descendants

end Zcp.Libserver.ZarafaCmdUtil
