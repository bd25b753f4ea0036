import Zcp.Libserver.ZarafaCmdUtil.Descendants
import Zcp.Libserver.ZarafaCmdUtil.StoreSize

/-!
# The sync scope of a delete

`CheckICSDeleteScope` looks at the source key of every item. `ExpandDeletedItems` reads source keys for the messages
of the list only, and what lies below them has the key that was read last: an attachment stays or goes with the last
message of the list, not with its own.
-/

namespace Zcp.Libserver.ZarafaCmdUtil

/-- `CheckWithinLastSyncedMessagesSet`, for the source keys with the highest change of a sync id. Without any, all is
within. -/
def CheckWithinLastSyncedMessagesSet (syncedmessages : Option (List (List UInt8))) (sSourceKey : List UInt8) :
    ScopeAnswer :=
  match syncedmessages with
  | none => .erSuccess
  | some keys => if sSourceKey ∈ keys then .erSuccess else .ZARAFA_E_NOT_FOUND

/-- The source key is in scope. -/
abbrev InScope (syncedmessages : Option (List (List UInt8))) (sSourceKey : List UInt8) : Prop :=
  CheckWithinLastSyncedMessagesSet syncedmessages sSourceKey = .erSuccess

variable {x : DELETEITEM}

theorem mem_CheckICSDeleteScope {syncedmessages : Option (List (List UInt8))} {items : List DELETEITEM} :
    x ∈ CheckICSDeleteScope (CheckWithinLastSyncedMessagesSet syncedmessages) items ↔
      x ∈ items ∧ InScope syncedmessages x.sSourceKey := by
  induction items with
  | nil => simp [CheckICSDeleteScope]
  | cons item items ih =>
    unfold CheckICSDeleteScope
    cases hscope : CheckWithinLastSyncedMessagesSet syncedmessages item.sSourceKey with
    | erSuccess =>
      simp only [List.mem_cons, ih]
      constructor
      · rintro (rfl | ⟨hx, hin⟩)
        · exact ⟨.inl rfl, hscope⟩
        · exact ⟨.inr hx, hin⟩
      · rintro ⟨rfl | hx, hin⟩
        · exact .inl rfl
        · exact .inr ⟨hx, hin⟩
    | ZARAFA_E_NOT_FOUND =>
      simp only [List.mem_cons, ih]
      constructor
      · exact fun ⟨hx, hin⟩ => ⟨.inr hx, hin⟩
      · rintro ⟨rfl | hx, hin⟩
        · exact nomatch hscope.symm.trans hin
        · exact ⟨hx, hin⟩
    | failure =>
      unfold CheckWithinLastSyncedMessagesSet at hscope
      split at hscope
      · exact nomatch hscope
      · split_ifs at hscope

/-! ## Messages and what belongs to them -/

variable {m r : HierarchyRow}

namespace Database

variable (db : Database)

/-- A message that lies in a folder. -/
structure IsTopLevel (m : HierarchyRow) : Prop where
  mem : m ∈ db.hierarchy
  message : m.type = MAPI_MESSAGE
  folder : db.parentType m = MAPI_FOLDER

/-- The message itself, or what lies below it. -/
def BelongsTo (r m : HierarchyRow) : Prop :=
  Relation.ReflTransGen (fun c p => p ∈ db.hierarchy ∧ c.parent = some p.id) r m

variable {db}

theorem IsTopLevel.parent (top : db.IsTopLevel m) :
    ∃ p ∈ db.hierarchy, m.parent = some p.id ∧ p.type = MAPI_FOLDER := by
  have hfolder := top.folder
  have hzero : (0 : UInt32) ≠ MAPI_FOLDER := by decide
  rw [parentType] at hfolder
  cases hparent : m.parent with
  | none =>
    rw [hparent] at hfolder
    exact absurd hfolder hzero
  | some id =>
    rw [hparent, Option.bind_some] at hfolder
    cases hrow : db.row id with
    | none =>
      rw [hrow] at hfolder
      exact absurd hfolder hzero
    | some p =>
      rw [hrow] at hfolder
      obtain ⟨hp, rfl⟩ := row_some hrow
      exact ⟨p, hp, rfl, hfolder⟩

/-- Below a message there are no folders and no stores. -/
theorem BelongsTo.type_ne (wf : db.WellFormed) (hbelongs : db.BelongsTo r m)
    (hr : r ∈ db.hierarchy) (htype : m.type = MAPI_MESSAGE) : r.type ≠ MAPI_FOLDER ∧ r.type ≠ MAPI_STORE := by
  induction hbelongs using Relation.ReflTransGen.head_induction_on with
  | refl => rw [htype]; decide
  | @head c p hcp _ ih =>
    obtain ⟨hp, hparent⟩ := hcp
    obtain ⟨hfolder, hstore⟩ := ih hp
    refine ⟨fun h => ?_, fun h => ?_⟩
    · exact (wf.folder_parent c hr p hp h hparent).elim hfolder hstore
    · exact nomatch hparent.symm.trans (wf.store_top c hr h)

/-- What belongs to a message belongs to no other one. -/
theorem BelongsTo.unique (wf : db.WellFormed) {m' : HierarchyRow} (hm : db.BelongsTo r m) (hm' : db.BelongsTo r m')
    (top : db.IsTopLevel m) (top' : db.IsTopLevel m') : m = m' := by
  -- a message below another one would lie in a folder below a message
  have hsame : ∀ m m', db.IsTopLevel m → db.IsTopLevel m' → db.BelongsTo m m' → m = m' := by
    intro m m' top top' h
    rcases h.cases_head with rfl | ⟨p, ⟨hp, hparent⟩, hbelongs⟩
    · rfl
    · obtain ⟨q, hq, hparent', hfolder⟩ := top.parent
      obtain rfl := wf.eq_of_id hp hq (Option.some.inj (hparent.symm.trans hparent'))
      exact absurd hfolder (BelongsTo.type_ne wf hbelongs hp top'.message).1
  have hunique : Relator.RightUnique fun c p : HierarchyRow => p ∈ db.hierarchy ∧ c.parent = some p.id := by
    rintro c p q ⟨hp, hcp⟩ ⟨hq, hcq⟩
    exact wf.eq_of_id hp hq (Option.some.inj (hcp.symm.trans hcq))
  rcases hm.total_of_right_unique hunique hm' with h | h
  · exact hsame m m' top top' h
  · exact (hsame m' m top' top h).symm

end Database

/-! ## A delete of messages -/

section MessageDelete

/-- A delete of messages, as `ns__deleteObjects` asks for it: the objects themselves go, they are messages in folders,
and each has a source key. -/
structure MessageDelete (lpSession : ECSession) (db : Database) (ulFlags : UInt32) (keys : ObjId → List UInt8)
    (objects : List ObjId) : Prop where
  container : Has ulFlags EC_DELETE_CONTAINER
  listed : ∀ id ∈ objects, ∃ m, db.IsTopLevel m ∧ m.id = id
  sourceKey : ∀ id ∈ objects, lpSession.GetSourceKey id = some (keys id)

variable {lpSession : ECSession} {db : Database} {ulFlags : UInt32} {bCheckPermission : Bool}
  {keys : ObjId → List UInt8} {objects : List ObjId} {items : List DELETEITEM}

/-- The objects that are expanded. A soft delete passes over those that are deleted already. -/
def expandedObjects (db : Database) (ulFlags : UInt32) (objects : List ObjId) : List ObjId :=
  objects.filter fun id => rootRows db ulFlags id ≠ []

/-- The source key that has been read last. -/
def lastKey (db : Database) (ulFlags : UInt32) (keys : ObjId → List UInt8) (objects : List ObjId) : Option (List UInt8) :=
  (expandedObjects db ulFlags objects).getLast?.map keys

theorem rootRows_container (hcontainer : Has ulFlags EC_DELETE_CONTAINER) {id : ObjId} :
    r ∈ rootRows db ulFlags id ↔ r ∈ db.hierarchy ∧ r.id = id ∧ ¬ r.Skipped ulFlags := by
  simp [rootRows, hcontainer]

/-- The query for an object gives its row, if any. -/
theorem rootRows_cases (keyed : db.WellKeyed) (hcontainer : Has ulFlags EC_DELETE_CONTAINER) (id : ObjId) :
    rootRows db ulFlags id = [] ∨ ∃ r, rootRows db ulFlags id = [r] ∧ r ∈ db.hierarchy ∧ r.id = id := by
  cases hrows : rootRows db ulFlags id with
  | nil => exact .inl rfl
  | cons r rows =>
    have hmem : ∀ r' ∈ r :: rows, r' ∈ db.hierarchy ∧ r'.id = id := fun r' hr' => by
      obtain ⟨h, hid, -⟩ := (rootRows_container hcontainer).mp (hrows ▸ hr')
      exact ⟨h, hid⟩
    have hnodup : (r :: rows).Nodup := hrows ▸ (List.Nodup.of_map _ keyed.nodup).filter _
    obtain ⟨hr, hid⟩ := hmem r List.mem_cons_self
    have hnil : rows = [] := by
      refine List.eq_nil_iff_forall_not_mem.mpr fun r' hr' => ?_
      obtain ⟨h', hid'⟩ := hmem r' (List.mem_cons_of_mem _ hr')
      exact (List.nodup_cons.mp hnodup).1 (keyed.eq_of_id hr h' (hid.trans hid'.symm) ▸ hr')
    exact .inr ⟨r, by rw [hnil], hr, hid⟩

/-- An item of the first loop: a message with its own source key. -/
structure MessageRoot (db : Database) (keys : ObjId → List UInt8) (x : DELETEITEM) : Prop where
  row : ∃ m, db.IsTopLevel m ∧ m.id = x.ulId ∧ m.type = x.ulObjType
  sSourceKey : x.sSourceKey = keys x.ulId

variable {st st' : Expansion}

theorem addRoot_message (top : db.IsTopLevel m) (hkey : lpSession.GetSourceKey m.id = some (keys m.id))
    (hnew : m.id ∉ st.setIDs) (hok : addRoot lpSession db ulFlags bCheckPermission st m = .ok st') :
    ∃ x, x.ulId = m.id ∧ x.fRoot = true ∧ MessageRoot db keys x ∧
      st' = ⟨x.ulId :: st.setIDs, x, st.lstDeleteItems ++ [x]⟩ := by
  obtain ⟨p, _, hparent, _⟩ := top.parent
  have htop : ¬ (m.parent = none ∧ m.type ≠ MAPI_STORE) := fun h => nomatch hparent.symm.trans h.1
  rw [addRoot, if_neg htop, if_neg hnew] at hok
  obtain ⟨x, hx, hst⟩ := pushItem_ok hok
  rw [if_pos (decide_eq_true (.inr (.inr top.message)))] at hx
  have hid : x.ulId = m.id := by rw [hx]; rfl
  have htype : m.type = x.ulObjType := by rw [hx]; rfl
  have hsource : x.sSourceKey = keys x.ulId := by
    rw [hid, hx]
    show (lpSession.GetSourceKey m.id).getD _ = _
    rw [hkey, Option.getD_some]
  exact ⟨x, hid, by rw [hx]; rfl, ⟨⟨m, top, hid.symm, htype⟩, hsource⟩, hst⟩

/-- The first loop over different objects. -/
theorem addRoots_messages (keyed : db.WellKeyed) (hcontainer : Has ulFlags EC_DELETE_CONTAINER) {ids : List ObjId}
    (hlisted : ∀ id ∈ ids, ∃ m, db.IsTopLevel m ∧ m.id = id)
    (hkeys : ∀ id ∈ ids, lpSession.GetSourceKey id = some (keys id)) (hnodup : ids.Nodup)
    (hnew : ∀ id ∈ ids, id ∉ st.setIDs) (hst : ∀ x ∈ st.lstDeleteItems, x.fRoot = true ∧ MessageRoot db keys x)
    (hok : addRoots lpSession db ulFlags bCheckPermission st ids = .ok st') :
    (∀ x ∈ st'.lstDeleteItems, x.fRoot = true ∧ MessageRoot db keys x) ∧
      st'.sItem.sSourceKey = (lastKey db ulFlags keys ids).getD st.sItem.sSourceKey := by
  induction ids generalizing st with
  | nil =>
    obtain rfl : st = st' := Except.ok.inj hok
    exact ⟨hst, rfl⟩
  | cons id ids ih =>
    unfold addRoots at hok
    split_ifs at hok with hnone
    · cases hok
    obtain ⟨st₁, hrows, hrest⟩ := bind_ok hok
    obtain ⟨hid, hdiffer⟩ := List.nodup_cons.mp hnodup
    have hlisted' := fun id' hid' => hlisted id' (List.mem_cons_of_mem id hid')
    have hkeys' := fun id' hid' => hkeys id' (List.mem_cons_of_mem id hid')
    have hnew' := fun id' hid' => hnew id' (List.mem_cons_of_mem id hid')
    rcases rootRows_cases keyed hcontainer id with hnil | ⟨r, hrow, hr, rfl⟩
    · rw [hnil] at hrows
      obtain rfl : st = st₁ := Except.ok.inj hrows
      have hlast : lastKey db ulFlags keys (id :: ids) = lastKey db ulFlags keys ids := by
        simp [lastKey, expandedObjects, hnil]
      rw [hlast]
      exact ih hlisted' hkeys' hdiffer hnew' hst hrest
    · obtain ⟨m, top, hm⟩ := hlisted r.id List.mem_cons_self
      obtain rfl := keyed.eq_of_id top.mem hr hm
      rw [hrow, List.foldlM_cons] at hrows
      obtain ⟨st₂, hok, hend⟩ := bind_ok hrows
      obtain rfl : st₂ = st₁ := Except.ok.inj hend
      obtain ⟨x, hxid, hxroot, hx, rfl⟩ :=
        addRoot_message top (hkeys m.id List.mem_cons_self) (hnew m.id List.mem_cons_self) hok
      have hlast : lastKey db ulFlags keys (m.id :: ids) =
          some ((lastKey db ulFlags keys ids).getD (keys m.id)) := by
        have hcons : expandedObjects db ulFlags (m.id :: ids) = m.id :: expandedObjects db ulFlags ids :=
          List.filter_cons_of_pos (by simp [hrow])
        rw [lastKey, hcons, List.getLast?_cons, Option.map_some, lastKey]
        cases (expandedObjects db ulFlags ids).getLast? <;> rfl
      rw [hlast, Option.getD_some, ← hxid, ← hx.sSourceKey]
      refine ih hlisted' hkeys' hdiffer (fun id' hid' => ?_) (fun y hy => ?_) hrest
      · rw [List.mem_cons, not_or]
        exact ⟨fun h => hid (hxid ▸ h ▸ hid'), hnew' id' hid'⟩
      · rcases List.mem_append.mp hy with hy | hy
        · exact hst y hy
        · obtain rfl := List.mem_singleton.mp hy
          exact ⟨hxroot, hx⟩

/-- An item of the second loop: a part of a message, with the source key that has been read last. -/
structure PartOf (db : Database) (key : List UInt8) (x : DELETEITEM) : Prop where
  row : ∃ r ∈ db.hierarchy, r.id = x.ulId ∧ r.type = x.ulObjType
  type_ne : x.ulObjType ≠ MAPI_FOLDER ∧ x.ulObjType ≠ MAPI_STORE
  sSourceKey : x.fRoot = false → x.sSourceKey = key

theorem MessageRoot.part (hx : MessageRoot db keys x) (hroot : x.fRoot = true) (key : List UInt8) :
    PartOf db key x := by
  obtain ⟨m, top, hid, htype⟩ := hx.row
  refine ⟨⟨m, top.mem, hid, htype⟩, ?_, fun h => nomatch hroot.symm.trans h⟩
  rw [← htype, top.message]
  decide

/-- No source key is read for what lies below a message. -/
theorem addChild_part (wf : db.WellFormed) {key : List UInt8} {y : DELETEITEM}
    (hy : PartOf db key y) (hr : r ∈ childRows db ulFlags y.ulId) (hkey : st.sItem.sSourceKey = key)
    (hok : addChild lpSession db ulFlags bCheckPermission y st r = .ok st') :
    st' = st ∨ ∃ x, PartOf db key x ∧ x.fRoot = false ∧ x.sSourceKey = key ∧
      st' = ⟨x.ulId :: st.setIDs, x, st.lstDeleteItems ++ [x]⟩ := by
  obtain ⟨hmem, hparent, -⟩ := mem_childRows.mp hr
  obtain ⟨p, hp, hpid, hptype⟩ := hy.row
  rw [← hpid] at hparent
  obtain ⟨hfolder, hstore⟩ := hy.type_ne
  have htype : r.type ≠ MAPI_FOLDER ∧ r.type ≠ MAPI_STORE := by
    refine ⟨fun h => ?_, fun h => nomatch hparent.symm.trans (wf.store_top r hmem h)⟩
    exact (wf.folder_parent r hmem p hp h hparent).elim (hptype ▸ hfolder) (hptype ▸ hstore)
  unfold addChild at hok
  split_ifs at hok with hold
  · exact .inl (Except.ok.inj hok).symm
  · obtain ⟨x, hx, hst⟩ := pushItem_ok hok
    rw [if_neg] at hx
    · refine .inr ⟨x, ⟨⟨r, hmem, by rw [hx], by rw [hx]⟩, by rw [hx]; exact htype, fun _ => ?_⟩, by rw [hx], ?_, hst⟩
      · rw [hx]
        exact hkey
      · rw [hx]
        exact hkey
    · rw [decide_eq_true_eq]
      rintro (h | h | ⟨-, h⟩)
      · exact htype.2 h
      · exact htype.1 h
      · exact hfolder h

/-- What the items of an expansion have for their source keys. -/
theorem ExpandDeletedItems_keys (wf : db.WellFormed)
    (hdelete : MessageDelete lpSession db ulFlags keys objects) (hnodup : objects.Nodup)
    (hok : ExpandDeletedItems lpSession db ulFlags bCheckPermission objects = .ok items) (hx : x ∈ items) :
    PartOf db ((lastKey db ulFlags keys objects).getD []) x ∧ (x.fRoot = true → MessageRoot db keys x) := by
  obtain ⟨st₁, hroots, hrest⟩ := bind_ok hok
  obtain ⟨st, hchildren, hlist⟩ := bind_ok hrest
  obtain rfl : st.lstDeleteItems = items := Except.ok.inj hlist
  obtain ⟨hmessages, hlast⟩ := addRoots_messages wf.toWellKeyed hdelete.container hdelete.listed hdelete.sourceKey hnodup
    (by simp) (by simp) hroots
  have hlast : st₁.sItem.sSourceKey = (lastKey db ulFlags keys objects).getD [] := hlast
  generalize (lastKey db ulFlags keys objects).getD [] = key at hlast ⊢
  have hkept := addChildren_keeps (I := fun st => st.sItem.sSourceKey = key ∧
    ∀ x ∈ st.lstDeleteItems, PartOf db key x ∧ (x.fRoot = true → MessageRoot db keys x)) ?_ ?_ hchildren
  · exact hkept.2 x hx
  · rintro y r st st' hy hr ⟨hkey, hitems⟩ hok
    obtain rfl | ⟨z, hz, hroot, hzkey, rfl⟩ := addChild_part wf (hitems y hy).1 hr hkey hok
    · exact ⟨hkey, hitems⟩
    · refine ⟨hzkey, fun x hx => ?_⟩
      rcases List.mem_append.mp hx with hx | hx
      · exact hitems x hx
      · obtain rfl := List.mem_singleton.mp hx
        exact ⟨hz, fun h => nomatch hroot.symm.trans h⟩
  · exact ⟨hlast, fun x hx => ⟨(hmessages x hx).2.part (hmessages x hx).1 key, fun _ => (hmessages x hx).2⟩⟩

/-- A root is a message of the list. -/
theorem MessageDelete.root (hdelete : MessageDelete lpSession db ulFlags keys objects) (keyed : db.WellKeyed)
    (hroot : IsRoot db ulFlags objects m) : m.id ∈ expandedObjects db ulFlags objects ∧ db.IsTopLevel m := by
  obtain ⟨⟨id, hid, hm⟩, -⟩ := hroot
  obtain ⟨hmem, rfl, -⟩ := (rootRows_container hdelete.container).mp hm
  obtain ⟨m', top, hid'⟩ := hdelete.listed m.id hid
  obtain rfl := keyed.eq_of_id hmem top.mem hid'.symm
  exact ⟨List.mem_filter.mpr ⟨hid, decide_eq_true (List.ne_nil_of_mem hm)⟩, top⟩

theorem MessageDelete.exists_root (hdelete : MessageDelete lpSession db ulFlags keys objects) (keyed : db.WellKeyed)
    {id : ObjId} (hid : id ∈ expandedObjects db ulFlags objects) : ∃ m, m.id = id ∧ IsRoot db ulFlags objects m := by
  obtain ⟨hid, hrows⟩ := List.mem_filter.mp hid
  obtain ⟨m, hm⟩ := List.exists_mem_of_ne_nil _ (of_decide_eq_true hrows)
  obtain ⟨hmem, hmid, -⟩ := (rootRows_container hdelete.container).mp hm
  obtain ⟨m', top, hid'⟩ := hdelete.listed id hid
  obtain rfl := keyed.eq_of_id hmem top.mem (hmid.trans hid'.symm)
  obtain ⟨p, _, hparent, _⟩ := top.parent
  exact ⟨m, hmid, ⟨id, hid, hm⟩, fun hnone => nomatch hparent.symm.trans hnone⟩

/-- What is reached from a message belongs to it. -/
theorem belongsTo_of_reached (hm : m ∈ db.hierarchy)
    (hmr : Relation.ReflTransGen (fun p c => c ∈ childRows db ulFlags p.id) m r) :
    r ∈ db.hierarchy ∧ db.BelongsTo r m := by
  induction hmr with
  | refl => exact ⟨hm, .refl⟩
  | tail _ hpc ih =>
    obtain ⟨hp, hbelongs⟩ := ih
    obtain ⟨hc, hparent, -⟩ := mem_childRows.mp hpc
    exact ⟨hc, .head ⟨hp, hparent⟩ hbelongs⟩

/-- The parts of a message are no roots. -/
theorem MessageDelete.part_fRoot (hdelete : MessageDelete lpSession db ulFlags keys objects) (wf : db.WellFormed)
    (hitems : IsExpansion db ulFlags objects items) (hx : x ∈ items) {c : HierarchyRow}
    (hm : db.IsTopLevel m) (hc : c ∈ childRows db ulFlags m.id) (hcid : c.id = x.ulId) : x.fRoot = false := by
  obtain ⟨hmem, hparent, -⟩ := mem_childRows.mp hc
  obtain ⟨j, hj⟩ := List.mem_iff_getElem?.mp hx
  obtain ⟨r, hr, -, ⟨hroot, hselected⟩ | ⟨_, _, _, _, _, hchild⟩⟩ := hitems.origin j x hj
  · obtain rfl := wf.eq_of_id hmem hr (hcid.trans hroot.ulId)
    -- a message of the list lies in a folder
    obtain ⟨p, hp, hparent', hfolder⟩ := (hdelete.root wf.toWellKeyed ⟨hselected, hroot.top⟩).2.parent
    obtain rfl := wf.eq_of_id hm.mem hp (Option.some.inj (hparent.symm.trans hparent'))
    exact absurd (hm.message.symm.trans hfolder) (by decide)
  · exact hchild.fRoot

/-- Messages of the list are roots. -/
theorem MessageDelete.message_fRoot (hdelete : MessageDelete lpSession db ulFlags keys objects) (wf : db.WellFormed)
    (hnodup : objects.Nodup) (hok : ExpandDeletedItems lpSession db ulFlags bCheckPermission objects = .ok items)
    (hx : x ∈ items) (top : db.IsTopLevel m) (hmid : m.id = x.ulId) : x.fRoot = true := by
  obtain ⟨j, hj⟩ := List.mem_iff_getElem?.mp hx
  obtain ⟨r, hr, -, ⟨hroot, -⟩ | ⟨_, _, y, hy, hparent, hchild⟩⟩ := (ExpandDeletedItems_ok hok).1.origin j x hj
  · exact hroot.fRoot
  · obtain rfl := wf.eq_of_id top.mem hr (hmid.trans hchild.ulId)
    -- what is above the other items is no folder
    obtain ⟨hpart, -⟩ := ExpandDeletedItems_keys wf hdelete hnodup hok (List.mem_of_getElem? hy)
    obtain ⟨q, hq, hqid, hqtype⟩ := hpart.row
    obtain ⟨p, hp, hparent', hfolder⟩ := top.parent
    obtain rfl := wf.eq_of_id hp hq ((Option.some.inj (hparent'.symm.trans hparent)).trans hqid.symm)
    exact absurd (hqtype.symm.trans hfolder) hpart.type_ne.1

/-- Every item goes or stays with the message that it belongs to. -/
def FollowsMessage (db : Database) (syncedmessages : Option (List (List UInt8))) (keys : ObjId → List UInt8)
    (items : List DELETEITEM) : Prop :=
  ∀ x ∈ items, ∀ r ∈ db.hierarchy, r.id = x.ulId → ∀ m, db.IsTopLevel m → db.BelongsTo r m →
    (x ∈ CheckICSDeleteScope (CheckWithinLastSyncedMessagesSet syncedmessages) items ↔
      InScope syncedmessages (keys m.id))

/-- Every item follows its message if and only if those messages of the list that have parts are in scope just as the
last message of the list is. -/
theorem FollowsMessage.iff_lastKey (wf : db.WellFormed) (hdelete : MessageDelete lpSession db ulFlags keys objects)
    (hnodup : objects.Nodup) (hok : ExpandDeletedItems lpSession db ulFlags bCheckPermission objects = .ok items)
    (syncedmessages : Option (List (List UInt8))) : FollowsMessage db syncedmessages keys items ↔
      ∀ key ∈ lastKey db ulFlags keys objects, ∀ id ∈ expandedObjects db ulFlags objects,
        childRows db ulFlags id ≠ [] → (InScope syncedmessages (keys id) ↔ InScope syncedmessages key) := by
  have hitems := (ExpandDeletedItems_ok hok).1
  have hmem := ExpandDeletedItems_mem_iff hok
  constructor
  · intro hfollows key hkey id hid hparts
    obtain ⟨m, rfl, hm⟩ := hdelete.exists_root wf.toWellKeyed hid
    obtain ⟨c, hc⟩ := List.exists_mem_of_ne_nil _ hparts
    obtain ⟨-, top⟩ := hdelete.root wf.toWellKeyed hm
    obtain ⟨x, hx, hxid⟩ := List.mem_map.mp ((hmem c.id).mpr ⟨c, ⟨m, hm, .single hc⟩, rfl⟩)
    obtain ⟨hpart, -⟩ := ExpandDeletedItems_keys wf hdelete hnodup hok hx
    have hxkey : x.sSourceKey = key := by
      rw [hpart.sSourceKey (hdelete.part_fRoot wf hitems hx top hc hxid.symm), Option.mem_def.mp hkey, Option.getD_some]
    obtain ⟨hcmem, hbelongs⟩ := belongsTo_of_reached top.mem (Relation.ReflTransGen.single hc)
    rw [← hfollows x hx c hcmem hxid.symm m top hbelongs, mem_CheckICSDeleteScope, hxkey]
    exact and_iff_right hx
  · intro hsame x hx r hr hrid m top hbelongs
    obtain ⟨hpart, hroot⟩ := ExpandDeletedItems_keys wf hdelete hnodup hok hx
    rw [mem_CheckICSDeleteScope, and_iff_right hx]
    obtain ⟨r', ⟨s, hs, hsr⟩, hr'id⟩ := hitems.exists_descends hx
    obtain ⟨hsid, stop⟩ := hdelete.root wf.toWellKeyed hs
    obtain ⟨hr', hbelongs'⟩ := belongsTo_of_reached stop.mem hsr
    obtain rfl := wf.eq_of_id hr hr' (hrid.trans hr'id.symm)
    obtain rfl := hbelongs.unique wf hbelongs' top stop
    cases hfRoot : x.fRoot with
    | true =>
      -- the message itself
      obtain ⟨m', top', hm', -⟩ := (hroot hfRoot).row
      obtain rfl := wf.eq_of_id top'.mem hr (hm'.trans hrid.symm)
      obtain rfl := hbelongs.unique wf .refl top top'
      rw [(hroot hfRoot).sSourceKey, hrid]
    | false =>
      rcases hsr.cases_head with rfl | ⟨c, hc, -⟩
      · exact nomatch hfRoot.symm.trans (hdelete.message_fRoot wf hnodup hok hx top hrid)
      · obtain ⟨key, hkey⟩ : ∃ key, lastKey db ulFlags keys objects = some key := by
          rw [← Option.isSome_iff_exists, lastKey, Option.isSome_map, List.getLast?_isSome]
          exact List.ne_nil_of_mem hsid
        rw [hpart.sSourceKey hfRoot, hkey, Option.getD_some]
        exact (hsame key hkey m.id hsid (List.ne_nil_of_mem hc)).symm

/-- **Deletes in the scope of a sync id** keep messages and their parts together if and only if those messages of the
list that have parts are in scope just as the last one is. -/
theorem DeleteObjects_followsMessage_iff (wf : db.WellFormed) {req : Request}
    (hdelete : MessageDelete req.lpSession db req.ulFlags keys req.lpsObjectList)
    (hok : ExpandDeletedItems req.lpSession db req.ulFlags req.bCheckPermission req.objects = .ok items)
    (syncedmessages : Option (List (List UInt8))) : FollowsMessage db syncedmessages keys items ↔
      ∀ key ∈ lastKey db req.ulFlags keys req.objects, ∀ id ∈ expandedObjects db req.ulFlags req.objects,
        childRows db req.ulFlags id ≠ [] → (InScope syncedmessages (keys id) ↔ InScope syncedmessages key) := by
  have hmem : ∀ id, id ∈ req.objects → id ∈ req.lpsObjectList := fun id hid => by
    simpa [Request.objects] using hid
  exact FollowsMessage.iff_lastKey wf ⟨hdelete.container, fun id hid => hdelete.listed id (hmem id hid),
    fun id hid => hdelete.sourceKey id (hmem id hid)⟩ (List.nodup_dedup _) hok syncedmessages

/-- Two messages in a folder, the first with an attachment. -/
def attachedMessages : Database where
  hierarchy := [⟨1, none, MAPI_STORE, 0⟩, ⟨10, some 1, MAPI_FOLDER, 0⟩, ⟨11, some 10, MAPI_MESSAGE, 0⟩,
    ⟨12, some 10, MAPI_MESSAGE, 0⟩, ⟨13, some 11, MAPI_ATTACH, 0⟩]
  stores := [1]
  messageFlags := fun _ => none
  objectSize := fun _ => none
  folderCount := fun _ _ => none
  storeSize := fun _ => none
  outgoingqueue := []

theorem attachedMessages_wellFormed : attachedMessages.WellFormed where
  nodup := by decide
  ne_zero := by decide
  folder_parent := by decide
  store_top := by decide

/-- Both messages are deleted. -/
def deleteBoth : Request :=
  ⟨anySession, [11, 12], EC_DELETE_ATTACHMENTS ||| EC_DELETE_RECIPIENTS ||| EC_DELETE_CONTAINER ||| EC_DELETE_MESSAGES,
    none, false, true, fun _ => none, none, none⟩

theorem deleteBoth_messages :
    MessageDelete deleteBoth.lpSession attachedMessages deleteBoth.ulFlags (fun id => [id.toUInt8]) deleteBoth.lpsObjectList where
  container := by decide
  listed := by
    intro id hid
    obtain rfl | rfl : id = 11 ∨ id = 12 := by simpa [deleteBoth] using hid
    · exact ⟨⟨11, some 10, MAPI_MESSAGE, 0⟩, ⟨by decide, rfl, by decide⟩, rfl⟩
    · exact ⟨⟨12, some 10, MAPI_MESSAGE, 0⟩, ⟨by decide, rfl, by decide⟩, rfl⟩
  sourceKey := fun _ _ => rfl

theorem deleteBoth_objects : deleteBoth.objects = [11, 12] := by
  rw [Request.objects, deleteBoth, List.mergeSort_of_pairwise (by decide)]
  decide

/-- The list for both messages. -/
def deleteBothItems : Except DeleteError (List DELETEITEM) :=
  ExpandDeletedItems deleteBoth.lpSession attachedMessages deleteBoth.ulFlags deleteBoth.bCheckPermission
    deleteBoth.objects

theorem deleteBothItems_ok : deleteBothItems = .ok (deleteBothItems.toOption.getD []) := by
  refine ok_of_isSome ?_
  rw [deleteBothItems, deleteBoth_objects]
  decide +kernel

/-- With both messages in scope the attachment goes with its message. -/
theorem DeleteObjects_followsMessage_both : ∃ items, deleteBothItems = .ok items ∧
    FollowsMessage attachedMessages (some [[11], [12]]) (fun id => [id.toUInt8]) items := by
  refine ⟨_, deleteBothItems_ok, ?_⟩
  refine (DeleteObjects_followsMessage_iff attachedMessages_wellFormed deleteBoth_messages deleteBothItems_ok _).mpr ?_
  rw [deleteBoth_objects]
  decide +kernel

/-- With only the second message in scope, the first one stays, and its attachment goes. -/
theorem not_followsMessage_first : ∃ items, deleteBothItems = .ok items ∧
    ¬ FollowsMessage attachedMessages (some [[12]]) (fun id => [id.toUInt8]) items := by
  refine ⟨_, deleteBothItems_ok, fun h => ?_⟩
  obtain ⟨x, hx, hid, hin⟩ : ∃ x ∈ deleteBothItems.toOption.getD [], x.ulId = 13 ∧ InScope (some [[12]]) x.sSourceKey := by
    rw [deleteBothItems, deleteBoth_objects]
    decide +kernel
  have hbelongs : attachedMessages.BelongsTo ⟨13, some 11, MAPI_ATTACH, 0⟩ ⟨11, some 10, MAPI_MESSAGE, 0⟩ :=
    .single (by decide)
  have hmessage := (h x hx _ (by decide) hid.symm _ ⟨by decide, rfl, by decide⟩ hbelongs).mp
    (mem_CheckICSDeleteScope.mpr ⟨hx, hin⟩)
  exact absurd hmessage (by decide)

end MessageDelete

end Zcp.Libserver.ZarafaCmdUtil
