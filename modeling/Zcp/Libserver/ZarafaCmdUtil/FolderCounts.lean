import Zcp.Lib.Tally
import Zcp.Libserver.ZarafaCmdUtil.Failures

/-!
# The counters of the folders

Deletes change the counters of a folder by the roots below it. That is exact for a soft delete. A hard delete
also removes what is below the roots, and counts none of it, because the folder it lies in goes as well. It does
not when a later transaction fails or when the folder is outside the scope of the sync.
-/

namespace Zcp.Libserver.ZarafaCmdUtil

open Lib

/-! ## Classes -/

/-- The objects a counter of a folder counts among its direct children. -/
def Counter.Counts (ulObjType ulFlags ulMessageFlags : UInt32) : Counter → Prop
  | .PR_CONTENT_COUNT =>
    ulObjType = MAPI_MESSAGE ∧ ¬ Has ulFlags MAPI_ASSOCIATED ∧ ¬ Has ulFlags MSGFLAG_DELETED
  | .PR_CONTENT_UNREAD =>
    ulObjType = MAPI_MESSAGE ∧ ¬ Has ulFlags MAPI_ASSOCIATED ∧ ¬ Has ulFlags MSGFLAG_DELETED ∧
      ¬ Has ulMessageFlags MSGFLAG_READ
  | .PR_ASSOC_CONTENT_COUNT =>
    ulObjType = MAPI_MESSAGE ∧ Has ulFlags MAPI_ASSOCIATED ∧ ¬ Has ulFlags MSGFLAG_DELETED
  | .PR_DELETED_MSG_COUNT =>
    ulObjType = MAPI_MESSAGE ∧ ¬ Has ulFlags MAPI_ASSOCIATED ∧ Has ulFlags MSGFLAG_DELETED
  | .PR_DELETED_ASSOC_MSG_COUNT =>
    ulObjType = MAPI_MESSAGE ∧ Has ulFlags MAPI_ASSOCIATED ∧ Has ulFlags MSGFLAG_DELETED
  | .PR_SUBFOLDERS => ulObjType = MAPI_FOLDER ∧ ¬ Has ulFlags MSGFLAG_DELETED
  | .PR_FOLDER_CHILD_COUNT => ulObjType = MAPI_FOLDER ∧ ¬ Has ulFlags MSGFLAG_DELETED
  | .PR_DELETED_FOLDER_COUNT => ulObjType = MAPI_FOLDER ∧ Has ulFlags MSGFLAG_DELETED

instance (ulObjType ulFlags ulMessageFlags : UInt32) :
    (counter : Counter) → Decidable (counter.Counts ulObjType ulFlags ulMessageFlags)
  | .PR_CONTENT_COUNT => inferInstanceAs (Decidable (_ ∧ _))
  | .PR_CONTENT_UNREAD => inferInstanceAs (Decidable (_ ∧ _))
  | .PR_ASSOC_CONTENT_COUNT => inferInstanceAs (Decidable (_ ∧ _))
  | .PR_DELETED_MSG_COUNT => inferInstanceAs (Decidable (_ ∧ _))
  | .PR_DELETED_ASSOC_MSG_COUNT => inferInstanceAs (Decidable (_ ∧ _))
  | .PR_SUBFOLDERS => inferInstanceAs (Decidable (_ ∧ _))
  | .PR_FOLDER_CHILD_COUNT => inferInstanceAs (Decidable (_ ∧ _))
  | .PR_DELETED_FOLDER_COUNT => inferInstanceAs (Decidable (_ ∧ _))

/-- The flags that a message has in its row: a subset of associated and deleted. -/
def MESSAGE_FLAGS : List UInt32 :=
  [0, MAPI_ASSOCIATED, MSGFLAG_DELETED, MAPI_ASSOCIATED ||| MSGFLAG_DELETED]

namespace Database

/-- A child of the folder that the counter counts. -/
def Counted (db : Database) (ulFolderId : ObjId) (counter : Counter) (r : HierarchyRow) : Prop :=
  r.parent = some ulFolderId ∧ counter.Counts r.type r.flags ((db.messageFlags r.id).getD 0)

instance (db : Database) (ulFolderId : ObjId) (counter : Counter) (r : HierarchyRow) :
    Decidable (db.Counted ulFolderId counter r) := inferInstanceAs (Decidable (_ ∧ _))

/-- The number a counter stands for. -/
def childCount (db : Database) (ulFolderId : ObjId) (counter : Counter) : ℕ :=
  db.hierarchy.countP fun r => db.Counted ulFolderId counter r

/-- All counters of all folders are right. -/
structure Exact (db : Database) : Prop where
  messageFlags : ∀ r ∈ db.hierarchy, r.type = MAPI_MESSAGE → r.flags ∈ MESSAGE_FLAGS
  counts : ∀ r ∈ db.hierarchy, r.type = MAPI_FOLDER → ∀ counter,
    db.folderCount r.id counter = some (db.childCount r.id counter)

end Database

/-! ## The changes of an item -/

/-- One for an object that the counter counts. -/
def Counter.weight (counter : Counter) (ulObjType ulFlags ulMessageFlags : UInt32) : ℕ :=
  if counter.Counts ulObjType ulFlags ulMessageFlags then 1 else 0

/-- The hard path compares whole words of flags, which is the same for the flags of a message. -/
theorem hardCounts_delta (item : DELETEITEM) (pi : PARENTINFO) (counter : Counter)
    (hflags : item.ulObjType = MAPI_MESSAGE → item.ulFlags ∈ MESSAGE_FLAGS) : (hardCounts item pi).delta counter =
      pi.delta counter - counter.weight item.ulObjType item.ulFlags item.ulMessageFlags := by
  by_cases hmessage : item.ulObjType = MAPI_MESSAGE
  · have hmem := hflags hmessage
    simp only [MESSAGE_FLAGS, List.mem_cons, List.not_mem_nil, or_false] at hmem
    rcases hmem with h | h | h | h <;>
      (by_cases hread : Has item.ulMessageFlags MSGFLAG_READ <;> cases counter <;>
        simp +decide [hardCounts, Counter.weight, Counter.Counts, PARENTINFO.delta, hmessage, h, hread])
  · by_cases hfolder : item.ulObjType = MAPI_FOLDER
    · by_cases hdeleted : Has item.ulFlags MSGFLAG_DELETED <;> cases counter <;>
        simp +decide [hardCounts, Counter.weight, Counter.Counts, PARENTINFO.delta, hfolder, hdeleted]
    · cases counter <;>
        simp +decide [hardCounts, Counter.weight, Counter.Counts, PARENTINFO.delta, hmessage, hfolder]

/-- The mark of a soft delete is set by it. -/
theorem has_or_deleted (ulFlags : UInt32) : Has (ulFlags ||| MSGFLAG_DELETED) MSGFLAG_DELETED := by
  have hself : (ulFlags ||| MSGFLAG_DELETED) &&& MSGFLAG_DELETED = MSGFLAG_DELETED := by
    apply UInt32.toBitVec_inj.mp
    ext i
    simp
    grind
  unfold Has
  rw [hself]
  decide

/-- The soft path moves an object from one class to the other. -/
theorem softCounts_delta (item : DELETEITEM) (pi : PARENTINFO) (counter : Counter)
    (hleft : ¬ Has item.ulFlags MSGFLAG_DELETED)
    (hflags : item.ulObjType = MAPI_MESSAGE → item.ulFlags ∈ MESSAGE_FLAGS) : (softCounts item pi).delta counter =
      pi.delta counter + (counter.weight item.ulObjType (item.ulFlags ||| MSGFLAG_DELETED) item.ulMessageFlags -
          counter.weight item.ulObjType item.ulFlags item.ulMessageFlags) := by
  by_cases hmessage : item.ulObjType = MAPI_MESSAGE
  · have hmem := hflags hmessage
    simp only [MESSAGE_FLAGS, List.mem_cons, List.not_mem_nil, or_false] at hmem
    rcases hmem with h | h | h | h
    · by_cases hread : Has item.ulMessageFlags MSGFLAG_READ <;> cases counter <;>
        simp +decide [softCounts, Counter.weight, Counter.Counts, PARENTINFO.delta, hmessage, h, hread]
      all_goals omega
    · cases counter <;>
        simp +decide [softCounts, Counter.weight, Counter.Counts, PARENTINFO.delta, hmessage, h]
      omega
    · exact absurd (by rw [h]; decide) hleft
    · exact absurd (by rw [h]; decide) hleft
  · by_cases hfolder : item.ulObjType = MAPI_FOLDER
    · have hmarked := has_or_deleted item.ulFlags
      cases counter <;>
        simp +decide [softCounts, Counter.weight, Counter.Counts, PARENTINFO.delta, hfolder, hleft,
          hmarked] <;>
        omega
    · cases counter <;>
        simp +decide [softCounts, Counter.weight, Counter.Counts, PARENTINFO.delta, hmessage, hfolder,
          hleft]

/-- A fold that adds the change of each item adds their sum. -/
theorem foldl_delta {step : FolderCounts → DELETEITEM → FolderCounts} {ulFolderId : ObjId}
    {counter : Counter} {change : DELETEITEM → ℤ} {items : List DELETEITEM} (hstep : ∀ counts, ∀ item ∈ items,
      (step counts item ulFolderId).delta counter = (counts ulFolderId).delta counter + change item)
    (counts : FolderCounts) : (items.foldl step counts ulFolderId).delta counter =
      (counts ulFolderId).delta counter + (items.map change).sum := by
  induction items generalizing counts with
  | nil => simp
  | cons item items ih =>
    have htail := ih (fun counts x hx => hstep counts x (List.mem_cons_of_mem _ hx)) (step counts item)
    rw [List.foldl_cons, htail, hstep counts item List.mem_cons_self, List.map_cons, List.sum_cons,
      add_assoc]

@[simp] theorem empty_delta (ulFolderId : ObjId) (counter : Counter) :
    (FolderCounts.empty ulFolderId).delta counter = 0 := by
  cases counter <;> rfl

theorem sum_sub (plus minus : DELETEITEM → ℕ) (items : List DELETEITEM) :
    (items.map fun x => (plus x - minus x : ℤ)).sum = ((items.map plus).sum : ℕ) - ((items.map minus).sum : ℕ) := by
  induction items with
  | nil => rfl
  | cons x items ih =>
    simp only [List.map_cons, List.sum_cons, ih]
    push_cast
    ring

theorem sum_neg (weight : DELETEITEM → ℕ) (items : List DELETEITEM) :
    (items.map fun x => -(weight x : ℤ)).sum = -((items.map weight).sum : ℕ) := by
  simpa using sum_sub (fun _ => 0) weight items

/-! ## Items of a database -/

/-- The row of an item. -/
def Database.rowOf (db : Database) (x : DELETEITEM) : HierarchyRow :=
  (db.row x.ulId).getD ⟨x.ulId, none, 0, 0⟩

/-- A list of items, each of a row of its own. -/
structure ItemList (db : Database) (ulFlags : UInt32) (items : List DELETEITEM) : Prop where
  refers : Refers HierarchyRow.id DELETEITEM.ulId db.rowOf db.hierarchy items
  left : ∀ x ∈ items, ¬ (db.rowOf x).Skipped ulFlags
  itemOf : ∀ x ∈ items, ItemOf db (db.rowOf x) x

variable {db : Database} {ulFlags : UInt32} {items : List DELETEITEM} {ulFolderId : ObjId}
  {counter : Counter}

theorem ItemList.sublist (hitems : ItemList db ulFlags items) {items' : List DELETEITEM}
    (hsub : items'.Sublist items) : ItemList db ulFlags items' where
  refers := hitems.refers.sublist hsub
  left x hx := hitems.left x (hsub.subset hx)
  itemOf x hx := hitems.itemOf x (hsub.subset hx)

theorem IsExpansion.itemList {objects : List ObjId} (hitems : IsExpansion db ulFlags objects items)
    (keyed : db.WellKeyed) : ItemList db ulFlags items := by
  have hrow : ∀ x ∈ items, db.rowOf x ∈ db.hierarchy ∧ ¬ (db.rowOf x).Skipped ulFlags ∧
      ItemOf db (db.rowOf x) x := fun x hx => by
    obtain ⟨r, hr, hleft, hitem⟩ := hitems.itemOf keyed hx
    have heq : db.rowOf x = r := by
      rw [Database.rowOf, hitem.ulId, keyed.row_eq hr, Option.getD_some]
    rw [heq]
    exact ⟨hr, hleft, hitem⟩
  exact ⟨⟨keyed.nodup, hitems.nodup, fun x hx => (hrow x hx).1,
    fun x hx => (hrow x hx).2.2.ulId.symm⟩, fun x hx => (hrow x hx).2.1, fun x hx => (hrow x hx).2.2⟩

variable {p : HierarchyRow} {x : DELETEITEM}

/-- A folder that is the parent of an item is the parent of its row, and the other way round. -/
theorem ItemOf.parent_iff {r : HierarchyRow} (hitem : ItemOf db r x)
    (keyed : db.WellKeyed) (hp : p ∈ db.hierarchy) (htype : p.type = MAPI_FOLDER) :
    x.ulParentType = MAPI_FOLDER ∧ x.ulParent = p.id ↔ r.parent = some p.id := by
  rw [hitem.ulParentType, hitem.ulParent]
  constructor
  · rintro ⟨-, hid⟩
    cases hparent : r.parent with
    | none => exact absurd (by rw [← hid, hparent]; rfl) (keyed.ne_zero p hp)
    | some id => rw [← hid, hparent, Option.getD_some]
  · intro hparent
    rw [hparent, Option.bind_some, keyed.row_eq hp, Option.map_some, Option.getD_some, Option.getD_some]
    exact ⟨htype, rfl⟩

/-- An item lies in a folder when its row has one as its parent. -/
theorem ItemOf.parentType_iff {r : HierarchyRow} (hitem : ItemOf db r x) (keyed : db.WellKeyed) :
    x.ulParentType = MAPI_FOLDER ↔ ∃ p ∈ db.hierarchy, r.parent = some p.id ∧ p.type = MAPI_FOLDER := by
  constructor
  · intro hparentType
    rw [hitem.ulParentType] at hparentType
    cases hparent : r.parent with
    | none => exact absurd hparentType (by simp [hparent, MAPI_FOLDER])
    | some id =>
      cases hrow : db.row id with
      | none => exact absurd hparentType (by simp [hparent, hrow, MAPI_FOLDER])
      | some p =>
        rw [hparent, Option.bind_some, hrow, Option.map_some, Option.getD_some] at hparentType
        exact ⟨p, (Database.row_some hrow).1, by rw [(Database.row_some hrow).2], hparentType⟩
  · rintro ⟨p, hp, hparent, htype⟩
    exact ((hitem.parent_iff keyed hp htype).mpr hparent).1

/-- `CheckICSDeleteScope` only takes items out. -/
theorem CheckICSDeleteScope_sublist (scope : List UInt8 → ScopeAnswer) (items : List DELETEITEM) :
    (CheckICSDeleteScope scope items).Sublist items := by
  induction items with
  | nil => exact List.Sublist.refl _
  | cons item items ih =>
    unfold CheckICSDeleteScope
    cases scope item.sSourceKey with
    | erSuccess => exact ih.cons_cons item
    | ZARAFA_E_NOT_FOUND => exact ih.cons item
    | failure => exact List.Sublist.refl _

/-! ## Hard deletes -/

/-- What an item takes off a counter of a folder. -/
def removedRoot (ulFolderId : ObjId) (counter : Counter) (x : DELETEITEM) : ℕ :=
  if x.ulParentType = MAPI_FOLDER ∧ x.fRoot ∧ x.ulParent = ulFolderId then
    counter.weight x.ulObjType x.ulFlags x.ulMessageFlags
  else 0

/-- Objects that a counter counts, and that are removed without being counted. -/
def lostChild (db : Database) (ulFolderId : ObjId) (counter : Counter) (x : DELETEITEM) : ℕ :=
  if ¬ x.fRoot ∧ db.Counted ulFolderId counter (db.rowOf x) then 1 else 0

theorem hardCount_delta (hstore : ¬ Has ulFlags EC_DELETE_STORE) (counts : FolderCounts) (x : DELETEITEM)
    (hflags : x.fRoot → x.ulObjType = MAPI_MESSAGE → x.ulFlags ∈ MESSAGE_FLAGS) :
    (hardCount ulFlags counts x ulFolderId).delta counter =
      (counts ulFolderId).delta counter + -(removedRoot ulFolderId counter x : ℤ) := by
  by_cases hroot : x.ulParentType = MAPI_FOLDER ∧ x.fRoot
  · unfold hardCount removedRoot FolderCounts.update
    rw [if_pos ⟨hstore, hroot⟩]
    by_cases hparent : x.ulParent = ulFolderId
    · rw [if_pos hparent.symm, if_pos ⟨hroot.1, hroot.2, hparent⟩, hardCounts_delta _ _ _ (hflags hroot.2),
        sub_eq_add_neg]
    · rw [if_neg (Ne.symm hparent), if_neg fun h => hparent h.2.2, Nat.cast_zero, neg_zero, add_zero]
  · unfold hardCount removedRoot
    rw [if_neg fun h => hroot h.2, if_neg fun h => hroot ⟨h.1, h.2.1⟩, Nat.cast_zero, neg_zero, add_zero]

/-- A transaction changes the counters of a folder that it leaves. -/
theorem deleteBatch_folderCount (hrow : db.row p.id = some p) (htype : p.type = MAPI_FOLDER) {batch : List DELETEITEM}
    (hleft : p.id ∉ batch.map DELETEITEM.ulId) : (deleteBatch ulFlags db batch).folderCount p.id counter =
      (db.folderCount p.id counter).map fun val_ulong =>
        addDelta val_ulong ((batch.foldl (hardCount ulFlags) .empty p.id).delta counter) := by
  unfold deleteBatch ApplyFolderCounts
  simp only [hrow, Option.map_some, htype, if_true, without, if_neg hleft]

namespace ItemList

theorem messageFlags (hitems : ItemList db ulFlags items) (exact : db.Exact)
    (hx : x ∈ items) (hroot : x.fRoot) (hmessage : x.ulObjType = MAPI_MESSAGE) : x.ulFlags ∈ MESSAGE_FLAGS := by
  have hitem := hitems.itemOf x hx
  rw [hitem.ulFlags hroot]
  exact exact.messageFlags _ (hitems.refers.row_mem x hx) (hitem.ulObjType.symm.trans hmessage)

variable {k : ℕ}

/-- The row of a folder that is left after some transactions. -/
theorem mem_after (hp : p ∈ (afterTransactions ulFlags db items k).hierarchy) :
    p ∈ db.hierarchy ∧ p.id ∉ (committed items k).map DELETEITEM.ulId := by
  rwa [(afterTransactions_leftOf k).hierarchy, List.mem_filter, decide_eq_true_eq] at hp

theorem keyed_after (keyed : db.WellKeyed) (k : ℕ) : (afterTransactions ulFlags db items k).WellKeyed where
  nodup := by
    rw [(afterTransactions_leftOf k).hierarchy]
    exact keyed.nodup.sublist (List.filter_sublist.map _)
  ne_zero p hp := keyed.ne_zero p (mem_after hp).1

/-- Every transaction takes its roots off the counters of the folders that are left. -/
theorem folderCount_after (hitems : ItemList db ulFlags items) (hstore : ¬ Has ulFlags EC_DELETE_STORE)
    (keyed : db.WellKeyed) (exact : db.Exact)
    (hp : p ∈ (afterTransactions ulFlags db items k).hierarchy) (htype : p.type = MAPI_FOLDER) :
    (afterTransactions ulFlags db items k).folderCount p.id counter = (db.folderCount p.id counter).map fun n =>
        n - ((committed items k).map (removedRoot p.id counter)).sum := by
  induction k with
  | zero => simp [afterTransactions]
  | succ k ih =>
    have hbatch : ∀ x ∈ batchAt items k, x ∈ items := fun x hx =>
      List.mem_reverse.mp (List.mem_of_mem_drop (List.mem_of_mem_take hx))
    rw [afterTransactions, (deleteBatch_leftOf _ _ _).hierarchy, List.mem_filter, decide_eq_true_eq] at hp
    obtain ⟨hp, hleft⟩ := hp
    have hrow := (keyed_after keyed k).row_eq hp
    have hdelta : ((batchAt items k).foldl (hardCount ulFlags) .empty p.id).delta counter =
        -(((batchAt items k).map (removedRoot p.id counter)).sum : ℕ) := by
      rw [foldl_delta fun counts x hx =>
        hardCount_delta hstore counts x fun hroot => hitems.messageFlags exact (hbatch x hx) hroot]
      rw [empty_delta, zero_add, sum_neg]
    rw [afterTransactions, deleteBatch_folderCount hrow htype hleft, ih hp, Option.map_map, hdelta,
      committed_succ, List.map_append, List.sum_append, List.map_reverse, List.sum_reverse]
    congr 1
    funext n
    rw [Function.comp_apply, addDelta_eq]
    omega

/-- The children of a folder that are left. -/
theorem childCount_after (hitems : ItemList db ulFlags items) (k : ℕ) (ulFolderId : ObjId) (counter : Counter) :
    (afterTransactions ulFlags db items k).childCount ulFolderId counter + ((committed items k).map fun x =>
        if db.Counted ulFolderId counter (db.rowOf x) then 1 else 0).sum =
      db.childCount ulFolderId counter := by
  have hsub : (committed items k).Sublist items := by
    rw [committed, List.take_reverse, List.reverse_reverse]
    exact List.drop_sublist _ _
  have hkept : ∀ r ∈ db.hierarchy.filter fun r => r.id ∉ (committed items k).map DELETEITEM.ulId,
      (afterTransactions ulFlags db items k).Counted ulFolderId counter r ↔
        db.Counted ulFolderId counter r := fun r hr => by
    rw [List.mem_filter, decide_eq_true_eq] at hr
    unfold Database.Counted
    rw [(afterTransactions_leftOf k).messageFlags, without, if_neg hr.2]
  have hcount : (afterTransactions ulFlags db items k).childCount ulFolderId counter =
      (db.hierarchy.filter fun r => r.id ∉ (committed items k).map DELETEITEM.ulId).countP
        fun r => db.Counted ulFolderId counter r := by
    rw [Database.childCount, (afterTransactions_leftOf k).hierarchy]
    exact List.countP_congr fun r hr => by simpa only [decide_eq_true_eq] using hkept r hr
  rw [hcount, Database.childCount, countP_eq_sum, countP_eq_sum]
  exact (hitems.refers.sublist hsub).sum_removed _

/-- An item is taken off the counter, or it is lost, when the counter counts it. -/
theorem removedRoot_add_lostChild (hitems : ItemList db ulFlags items) (keyed : db.WellKeyed)
    (hp : p ∈ db.hierarchy) (htype : p.type = MAPI_FOLDER) (hx : x ∈ items) :
    removedRoot p.id counter x + lostChild db p.id counter x =
      if db.Counted p.id counter (db.rowOf x) then 1 else 0 := by
  have hitem := hitems.itemOf x hx
  have hparent := hitem.parent_iff keyed hp htype
  by_cases hroot : x.fRoot
  · have hlost : lostChild db p.id counter x = 0 := if_neg fun h => h.1 hroot
    have hcounted : (x.ulParentType = MAPI_FOLDER ∧ x.fRoot ∧ x.ulParent = p.id) ∧
        counter.Counts x.ulObjType x.ulFlags x.ulMessageFlags ↔
          db.Counted p.id counter (db.rowOf x) := by
      unfold Database.Counted
      rw [← hparent, hitem.ulObjType, hitem.ulFlags hroot, hitem.ulMessageFlags hroot]
      exact and_congr_left' ⟨fun h => ⟨h.1, h.2.2⟩, fun h => ⟨h.1, hroot, h.2⟩⟩
    rw [hlost, add_zero, removedRoot, Counter.weight, ← ite_and]
    exact if_congr hcounted rfl rfl
  · rw [removedRoot, if_neg fun h => hroot h.2.1, zero_add, lostChild]
    exact if_congr (and_iff_right hroot) rfl rfl

/-- A counter is too high by what has been removed below the roots. -/
theorem folderCount_eq (hitems : ItemList db ulFlags items) (hstore : ¬ Has ulFlags EC_DELETE_STORE)
    (keyed : db.WellKeyed) (exact : db.Exact)
    (hp : p ∈ (afterTransactions ulFlags db items k).hierarchy) (htype : p.type = MAPI_FOLDER) :
    (afterTransactions ulFlags db items k).folderCount p.id counter =
      some ((afterTransactions ulFlags db items k).childCount p.id counter +
        ((committed items k).map (lostChild db p.id counter)).sum) := by
  have hpdb := (mem_after hp).1
  have hsum : ((committed items k).map (removedRoot p.id counter)).sum +
      ((committed items k).map (lostChild db p.id counter)).sum =
        ((committed items k).map fun x =>
          if db.Counted p.id counter (db.rowOf x) then 1 else 0).sum := by
    rw [← List.sum_map_add]
    exact congrArg List.sum (List.map_congr_left fun x hx =>
      hitems.removedRoot_add_lostChild keyed hpdb htype (committed_subset k hx))
  have hchildren := hitems.childCount_after k p.id counter
  rw [hitems.folderCount_after hstore keyed exact hp htype, exact.counts p hpdb htype, Option.map_some]
  congr 1
  omega

end ItemList

/-- A message or a folder that is no root, and that has been removed from a folder that is left. -/
def LeavesFolder (deleted : List DELETEITEM) : Prop :=
  ∃ x ∈ deleted, ¬ x.fRoot ∧ (x.ulObjType = MAPI_MESSAGE ∨ x.ulObjType = MAPI_FOLDER) ∧
    x.ulParentType = MAPI_FOLDER ∧ ∀ y ∈ deleted, y.ulId ≠ x.ulParent

instance (deleted : List DELETEITEM) : Decidable (LeavesFolder deleted) :=
  inferInstanceAs (Decidable (∃ x ∈ deleted, _ ∧ _ ∧ _ ∧ ∀ y ∈ deleted, y.ulId ≠ x.ulParent))

/-- Every message and every folder is counted by some counter. -/
theorem exists_counts {ulObjType : UInt32} (htype : ulObjType = MAPI_MESSAGE ∨ ulObjType = MAPI_FOLDER)
    (ulFlags ulMessageFlags : UInt32) : ∃ counter : Counter, counter.Counts ulObjType ulFlags ulMessageFlags := by
  by_cases hdeleted : Has ulFlags MSGFLAG_DELETED
  · rcases htype with hmessage | hfolder
    · by_cases hassoc : Has ulFlags MAPI_ASSOCIATED
      · exact ⟨.PR_DELETED_ASSOC_MSG_COUNT, hmessage, hassoc, hdeleted⟩
      · exact ⟨.PR_DELETED_MSG_COUNT, hmessage, hassoc, hdeleted⟩
    · exact ⟨.PR_DELETED_FOLDER_COUNT, hfolder, hdeleted⟩
  · rcases htype with hmessage | hfolder
    · by_cases hassoc : Has ulFlags MAPI_ASSOCIATED
      · exact ⟨.PR_ASSOC_CONTENT_COUNT, hmessage, hassoc, hdeleted⟩
      · exact ⟨.PR_CONTENT_COUNT, hmessage, hassoc, hdeleted⟩
    · exact ⟨.PR_SUBFOLDERS, hfolder, hdeleted⟩

/-- Only messages and folders are counted. -/
theorem type_of_counts {ulObjType ulFlags ulMessageFlags : UInt32}
    (h : counter.Counts ulObjType ulFlags ulMessageFlags) : ulObjType = MAPI_MESSAGE ∨ ulObjType = MAPI_FOLDER := by
  cases counter
  case PR_SUBFOLDERS => exact .inr h.1
  case PR_FOLDER_CHILD_COUNT => exact .inr h.1
  case PR_DELETED_FOLDER_COUNT => exact .inr h.1
  all_goals exact .inl h.1

/-- The counters are right after some transactions exactly when no folder is left that has lost something
below a root. -/
theorem ItemList.exact_after_iff (hitems : ItemList db ulFlags items)
    (hstore : ¬ Has ulFlags EC_DELETE_STORE) (keyed : db.WellKeyed) (exact : db.Exact) (k : ℕ) :
    (afterTransactions ulFlags db items k).Exact ↔ ¬ LeavesFolder (committed items k) := by
  constructor
  · rintro ⟨-, hcounts⟩ ⟨x, hx, hroot, htype, hparentType, hleft⟩
    have hxitems := committed_subset k hx
    have hitem := hitems.itemOf x hxitems
    obtain ⟨p, hp, hparent, hpfolder⟩ := (hitem.parentType_iff keyed).mp hparentType
    have hafter : p ∈ (afterTransactions ulFlags db items k).hierarchy := by
      rw [(afterTransactions_leftOf k).hierarchy, List.mem_filter, decide_eq_true_eq]
      refine ⟨hp, fun hgone => ?_⟩
      obtain ⟨y, hy, hyid⟩ := List.mem_map.mp hgone
      exact hleft y hy (hyid.trans ((hitem.parent_iff keyed hp hpfolder).mpr hparent).2.symm)
    obtain ⟨counter, hcounter⟩ := exists_counts (hitem.ulObjType ▸ htype) (db.rowOf x).flags
      ((db.messageFlags (db.rowOf x).id).getD 0)
    have hlost : lostChild db p.id counter x = 1 := if_pos ⟨hroot, hparent, hcounter⟩
    have hle : lostChild db p.id counter x ≤ ((committed items k).map (lostChild db p.id counter)).sum :=
      List.single_le_sum (by simp) _ (List.mem_map_of_mem hx)
    have hcount := hcounts p hafter hpfolder counter
    rw [hitems.folderCount_eq hstore keyed exact hafter hpfolder, Option.some.injEq] at hcount
    omega
  · intro hnone
    refine ⟨fun r hr => exact.messageFlags r (mem_after hr).1, fun p hp htype counter => ?_⟩
    have hzero : ((committed items k).map (lostChild db p.id counter)).sum = 0 := by
      refine List.sum_eq_zero fun n hn => ?_
      obtain ⟨x, hx, rfl⟩ := List.mem_map.mp hn
      refine if_neg fun h => hnone ⟨x, hx, h.1, ?_⟩
      have hitem := hitems.itemOf x (committed_subset k hx)
      obtain ⟨hparentType, hparent⟩ := (hitem.parent_iff keyed (mem_after hp).1 htype).mpr h.2.1
      refine ⟨hitem.ulObjType ▸ type_of_counts h.2.2, hparentType, fun y hy hid => ?_⟩
      exact (mem_after hp).2 (List.mem_map.mpr ⟨y, hy, hid.trans hparent⟩)
    rw [hitems.folderCount_eq hstore keyed exact hp htype, hzero, add_zero]

/-! ## Soft deletes -/

/-- An item that is marked. -/
def DELETEITEM.IsMarked (x : DELETEITEM) : Prop := x.IsMarkable ∧ x.fRoot

instance (x : DELETEITEM) : Decidable x.IsMarked := inferInstanceAs (Decidable (_ ∧ _))

def HierarchyRow.mark (r : HierarchyRow) : HierarchyRow := { r with flags := r.flags ||| MSGFLAG_DELETED }

/-- What an item changes in a counter of a folder when it is marked. -/
def markedRoot (ulFolderId : ObjId) (counter : Counter) (x : DELETEITEM) : ℤ :=
  if x.IsMarked ∧ x.ulParentType = MAPI_FOLDER ∧ x.ulParent = ulFolderId then
    counter.weight x.ulObjType (x.ulFlags ||| MSGFLAG_DELETED) x.ulMessageFlags -
      counter.weight x.ulObjType x.ulFlags x.ulMessageFlags
  else 0

theorem softCount_delta (counts : FolderCounts) (x : DELETEITEM) (hleft : x.fRoot → ¬ Has x.ulFlags MSGFLAG_DELETED)
    (hflags : x.fRoot → x.ulObjType = MAPI_MESSAGE → x.ulFlags ∈ MESSAGE_FLAGS) :
    (softCount counts x ulFolderId).delta counter =
      (counts ulFolderId).delta counter + markedRoot ulFolderId counter x := by
  by_cases hmarked : x.IsMarked ∧ x.ulParentType = MAPI_FOLDER
  · have hroot := hmarked.1.2
    unfold softCount markedRoot FolderCounts.update
    rw [if_pos ⟨hmarked.1.1, hroot, hmarked.2⟩]
    by_cases hparent : x.ulParent = ulFolderId
    · rw [if_pos hparent.symm, if_pos ⟨hmarked.1, hmarked.2, hparent⟩,
        softCounts_delta _ _ _ (hleft hroot) (hflags hroot)]
    · rw [if_neg (Ne.symm hparent), if_neg fun h => hparent h.2.2, add_zero]
  · unfold softCount markedRoot
    rw [if_neg fun h => hmarked ⟨⟨h.1, h.2.1⟩, h.2.2⟩, if_neg fun h => hmarked ⟨h.1, h.2.1⟩, add_zero]

/-- The mark of an unsent message does not matter for the counters. -/
theorem counts_unsubmit (ulObjType ulFlags ulMessageFlags : UInt32) :
    counter.Counts ulObjType ulFlags (ulMessageFlags &&& ~~~MSGFLAG_SUBMIT) ↔
      counter.Counts ulObjType ulFlags ulMessageFlags := by
  have hread : Has (ulMessageFlags &&& ~~~MSGFLAG_SUBMIT) MSGFLAG_READ ↔ Has ulMessageFlags MSGFLAG_READ := by
    unfold Has
    rw [UInt32.and_assoc, show ~~~MSGFLAG_SUBMIT &&& MSGFLAG_READ = MSGFLAG_READ by decide]
  cases counter <;> simp only [Counter.Counts, hread]

namespace ItemList

variable (hitems : ItemList db ulFlags items)
include hitems

theorem refers_marked : Refers HierarchyRow.id DELETEITEM.ulId db.rowOf db.hierarchy (items.filter (·.IsMarked)) :=
  hitems.refers.sublist List.filter_sublist

/-- The rows of a database after a soft delete, with what the counters see of the messages. -/
theorem childCount_soft (ulFolderId : ObjId) (counter : Counter) : (DeleteObjectSoft db items).childCount ulFolderId counter +
    ((items.filter (·.IsMarked)).map fun x =>
      if db.Counted ulFolderId counter (db.rowOf x) then 1 else 0).sum =
    db.childCount ulFolderId counter + ((items.filter (·.IsMarked)).map fun x =>
        if db.Counted ulFolderId counter (db.rowOf x).mark then 1 else 0).sum := by
  have hcounted : ∀ r, (DeleteObjectSoft db items).Counted ulFolderId counter r ↔
      db.Counted ulFolderId counter r := fun r => by
    unfold Database.Counted
    refine and_congr_right' ?_
    show counter.Counts _ _ ((if _ then _ else _ : Option UInt32).getD 0) ↔ _
    split_ifs
    · cases db.messageFlags r.id with
      | none => rfl
      | some flags => exact counts_unsubmit _ _ flags
    · rfl
  have hcount : (DeleteObjectSoft db items).childCount ulFolderId counter =
      (db.hierarchy.map fun r =>
        if r.id ∈ (items.filter (·.IsMarked)).map DELETEITEM.ulId then r.mark else r).countP
          fun r => db.Counted ulFolderId counter r :=
    List.countP_congr fun r _ => by simpa only [decide_eq_true_eq] using hcounted r
  rw [hcount, countP_eq_sum, hitems.refers_marked.sum_updated, Database.childCount, countP_eq_sum]

theorem markedRoot_eq (keyed : db.WellKeyed) (hp : p ∈ db.hierarchy)
    (htype : p.type = MAPI_FOLDER) (hx : x ∈ items) (hmarked : x.IsMarked) : markedRoot p.id counter x =
      (if db.Counted p.id counter (db.rowOf x).mark then 1 else 0 : ℕ) -
        (if db.Counted p.id counter (db.rowOf x) then 1 else 0 : ℕ) := by
  have hitem := hitems.itemOf x hx
  have hparent := hitem.parent_iff keyed hp htype
  unfold markedRoot Counter.weight
  rw [hitem.ulObjType, hitem.ulFlags hmarked.2, hitem.ulMessageFlags hmarked.2]
  by_cases hbelow : (db.rowOf x).parent = some p.id
  · rw [if_pos ⟨hmarked, hparent.mpr hbelow⟩]
    congr 2
    · exact if_congr (and_iff_right hbelow).symm rfl rfl
    · exact if_congr (and_iff_right hbelow).symm rfl rfl
  · rw [if_neg fun h => hbelow (hparent.mp h.2), if_neg fun h => hbelow h.1, if_neg fun h => hbelow h.1]
    rfl

/-- A soft delete keeps the counters right. -/
theorem exact_soft (hsoft : ¬ Has ulFlags EC_DELETE_HARD_DELETE) (keyed : db.WellKeyed)
    (exact : db.Exact) : (DeleteObjectSoft db items).Exact := by
  have hrows : ∀ r' ∈ (DeleteObjectSoft db items).hierarchy,
      ∃ r ∈ db.hierarchy, r' = r.mark ∨ r' = r := fun r' hr' => by
    obtain ⟨r, hr, rfl⟩ := List.mem_map.mp hr'
    refine ⟨r, hr, ?_⟩
    split_ifs
    · exact .inl rfl
    · exact .inr rfl
  refine ⟨fun r' hr' hmessage => ?_, fun p' hp' htype counter => ?_⟩
  · obtain ⟨r, hr, rfl | rfl⟩ := hrows r' hr'
    · have hflags := exact.messageFlags r hr hmessage
      simp only [MESSAGE_FLAGS, List.mem_cons, List.not_mem_nil, or_false] at hflags
      show r.flags ||| MSGFLAG_DELETED ∈ MESSAGE_FLAGS
      rcases hflags with h | h | h | h <;> rw [h] <;> decide
    · exact exact.messageFlags _ hr hmessage
  · obtain ⟨p, hp, hid, hfolder⟩ : ∃ p ∈ db.hierarchy, p'.id = p.id ∧ p.type = MAPI_FOLDER := by
      obtain ⟨p, hp, rfl | rfl⟩ := hrows p' hp'
      · exact ⟨p, hp, rfl, htype⟩
      · exact ⟨p', hp, rfl, htype⟩
    have hroot : ∀ x ∈ items, x.fRoot → ¬ Has x.ulFlags MSGFLAG_DELETED := fun x hx hroot hdeleted =>
      hitems.left x hx ⟨hsoft, (hitems.itemOf x hx).ulFlags hroot ▸ hdeleted⟩
    have hdelta : ((items.foldl softCount .empty) p.id).delta counter =
        ((items.filter (·.IsMarked)).map (markedRoot p.id counter)).sum := by
      rw [foldl_delta fun counts x hx => softCount_delta counts x (hroot x hx) fun hfRoot =>
          hitems.messageFlags exact hx hfRoot, empty_delta, zero_add]
      exact (sum_filter fun x _ hnot => if_neg fun h => hnot h.1).symm
    have hsum : ((items.filter (·.IsMarked)).map (markedRoot p.id counter)).sum =
        (((items.filter (·.IsMarked)).map fun x =>
          if db.Counted p.id counter (db.rowOf x).mark then 1 else 0).sum : ℕ) -
        (((items.filter (·.IsMarked)).map fun x =>
          if db.Counted p.id counter (db.rowOf x) then 1 else 0).sum : ℕ) := by
      have heach : ∀ x ∈ items.filter (·.IsMarked), markedRoot p.id counter x = _ := fun x hx =>
        hitems.markedRoot_eq keyed hp hfolder (List.mem_of_mem_filter hx)
          (of_decide_eq_true (List.mem_filter.mp hx).2)
      rw [List.map_congr_left heach, sum_sub]
    have hchildren := hitems.childCount_soft p.id counter
    have hcount : (DeleteObjectSoft db items).folderCount p.id counter =
        (db.folderCount p.id counter).map fun val_ulong =>
          addDelta val_ulong (((items.foldl softCount .empty) p.id).delta counter) := by
      unfold DeleteObjectSoft ApplyFolderCounts
      simp only [keyed.row_eq hp, Option.map_some, hfolder, if_true]
    rw [hid, hcount, exact.counts p hp hfolder, Option.map_some, addDelta_eq, hdelta, hsum]
    congr 1
    omega

end ItemList

/-! ## Requests -/

namespace Request

variable {req : Request} {w : World}

/-- What is left of an expansion in the scope of the request. -/
theorem items_ok (hok : req.items db = .ok items) : ∃ expanded, IsExpansion db req.ulFlags req.objects expanded ∧
      (∀ y ∈ expanded, ClosedAt db req.ulFlags expanded y) ∧ items.Sublist expanded := by
  obtain ⟨expanded, hexpand, hscope⟩ := bind_ok hok
  obtain ⟨hexpansion, hclosed⟩ := ExpandDeletedItems_ok hexpand
  refine ⟨expanded, hexpansion, hclosed, ?_⟩
  obtain rfl := Except.ok.inj hscope
  cases req.scope with
  | none => exact List.Sublist.refl _
  | some scope => exact CheckICSDeleteScope_sublist scope expanded

theorem itemList (keyed : db.WellKeyed) (hok : req.items db = .ok items) : ItemList db req.ulFlags items := by
  obtain ⟨expanded, hexpansion, -, hsub⟩ := items_ok hok
  exact (hexpansion.itemList keyed).sublist hsub

/-- A hard delete removes these items for good. -/
structure Removes (req : Request) (db : Database) (items : List DELETEITEM) (k : ℕ) : Prop where
  hard : Has req.ulFlags EC_DELETE_HARD_DELETE
  own : ¬ req.bNoTransaction
  expands : req.items db = .ok items
  commits : req.Commits items k

/-- A delete keeps the counters of all folders right exactly when no committed transaction has removed a message
or a folder from below a root without the folder it lay in. -/
theorem DeleteObjects_exact_iff (keyed : w.db.WellKeyed) (exact : w.db.Exact)
    (hstore : ¬ Has req.ulFlags EC_DELETE_STORE) : (req.DeleteObjects w).2.db.Exact ↔
      ∀ items k, req.Removes w.db items k → ¬ LeavesFolder (committed items k) := by
  have hsize : ∀ (db : Database) lstDeleted, (DeleteObjectStoreSize db lstDeleted).Exact ↔ db.Exact :=
    fun db lstDeleted => ⟨fun h => ⟨h.messageFlags, h.counts⟩, fun h => ⟨h.messageFlags, h.counts⟩⟩
  constructor
  · intro hexact items k hremoves
    have hdb : (afterTransactions req.ulFlags w.db items k).Exact := by
      refine DeleteObjects_db req w
        (fun db => db.Exact → (afterTransactions req.ulFlags w.db items k).Exact)
        (fun db lstDeleted hdb h => hdb ((hsize db lstDeleted).mp h))
        (fun hnot => absurd hremoves.expands (hnot hremoves.hard hremoves.own items))
        (fun hsoft => absurd hremoves.hard hsoft) (fun _ _ items' k' hitems hcommits h => ?_) hexact
      obtain rfl := Except.ok.inj (hitems.symm.trans hremoves.expands)
      rwa [hremoves.commits.unique hcommits]
    exact ((itemList keyed hremoves.expands).exact_after_iff hstore keyed exact k).mp hdb
  · intro hnone
    refine DeleteObjects_db req w Database.Exact (fun db lstDeleted => (hsize db lstDeleted).mpr)
      (fun _ => exact) (fun hsoft items hitems => ?_) fun hhard hown items k hitems hcommits => ?_
    · exact (itemList keyed hitems).exact_soft hsoft keyed exact
    · exact ((itemList keyed hitems).exact_after_iff hstore keyed exact k).mpr
        (hnone items k ⟨hhard, hown, hitems, hcommits⟩)

/-- Without a scope and without a failure all folders go that lose something below a root. -/
theorem exact_of_succeeded (keyed : w.db.WellKeyed) (exact : w.db.Exact)
    (hstore : ¬ Has req.ulFlags EC_DELETE_STORE) (hscope : req.scope = none)
    (hsucceeds : ∀ t, req.hardFails t = none) : (req.DeleteObjects w).2.db.Exact := by
  have hleaves : ∀ items k, req.Removes w.db items k → ¬ LeavesFolder (committed items k) := by
    rintro items k ⟨-, -, hitems, hcommits⟩ ⟨x, hx, hroot, -, -, hleft⟩
    have hall : items.length ≤ 32 * k :=
      hcommits.ended.resolve_right fun h => h.2 (hsucceeds k)
    rw [committed_all hall] at hx hleft
    obtain ⟨expanded, hexpand, hitems⟩ := bind_ok hitems
    rw [hscope] at hitems
    obtain rfl : expanded = items := Except.ok.inj hitems
    obtain ⟨j, hj⟩ := List.mem_iff_getElem?.mp hx
    obtain ⟨r, -, -, ⟨hr, -⟩ | ⟨i, -, y, hy, -, hchild⟩⟩ := (ExpandDeletedItems_ok hexpand).1.origin j x hj
    · exact hroot hr.fRoot
    · exact hleft y (List.mem_of_getElem? hy) hchild.ulParent.symm
  exact (DeleteObjects_db req w Database.Exact
    (fun db lstDeleted h => ⟨h.messageFlags, h.counts⟩) (fun _ => exact)
    (fun hsoft items hitems => (itemList keyed hitems).exact_soft hsoft keyed exact)
    fun hhard hown items k hitems hcommits =>
      ((itemList keyed hitems).exact_after_iff hstore keyed exact k).mpr
        (hleaves items k ⟨hhard, hown, hitems, hcommits⟩))

/-- The nested folders with right counters. -/
def countedWorld (count : ℕ) : World :=
  ⟨{ nestedFolders count with
    folderCount := fun id counter => some ((nestedFolders count).childCount id counter) }, [], [], []⟩

/-- A delete of the outer folder by a client that has not synchronized this folder. -/
def deleteUnsynchronized : Request :=
  { deleteFolder fun _ => none with
    scope := some fun sSourceKey => if sSourceKey = [20] then .ZARAFA_E_NOT_FOUND else .erSuccess }

theorem DeleteObjects_exact_inner : ((deleteFolder fun _ => none).DeleteObjects (countedWorld 0)).2.db.Exact := by
  refine (DeleteObjects_exact_iff ⟨by decide, by decide⟩
    ⟨by decide, fun r _ _ _ => rfl⟩ (by decide)).mpr ?_
  rintro items k ⟨-, -, hitems, hcommits⟩
  have hok := ok_of_isSome
    (show ((deleteFolder fun _ => none).items (countedWorld 0).db).toOption.isSome by decide +kernel)
  obtain rfl := Except.ok.inj (hitems.symm.trans hok)
  rw [committed_all (hcommits.ended.resolve_right fun h => h.2 rfl)]
  decide +kernel

/-- The outer folder stays with the count of its messages: in a second transaction that fails, or because it is
outside the scope. -/
theorem not_exact_outer : (countedWorld 31).db.WellKeyed ∧ (countedWorld 31).db.Exact ∧
      ¬ ((deleteFolder fun t => if t = 1 then some .ZARAFA_E_NOT_FOUND else none).DeleteObjects
        (countedWorld 31)).2.db.Exact ∧ (deleteUnsynchronized.DeleteObjects (countedWorld 31)).1.isNone ∧
      ¬ (deleteUnsynchronized.DeleteObjects (countedWorld 31)).2.db.Exact := by
  refine ⟨⟨by decide +kernel, by decide +kernel⟩, ⟨by decide +kernel, fun r _ _ _ => rfl⟩,
    fun exact => ?_, by decide +kernel, fun exact => ?_⟩
  · have hcount := exact.counts ⟨20, some 1, MAPI_FOLDER, 0⟩ (by decide +kernel) rfl .PR_CONTENT_COUNT
    exact absurd hcount (by decide +kernel)
  · have hcount := exact.counts ⟨20, some 1, MAPI_FOLDER, 0⟩ (by decide +kernel) rfl .PR_CONTENT_COUNT
    exact absurd hcount (by decide +kernel)

end Request

end Zcp.Libserver.ZarafaCmdUtil
