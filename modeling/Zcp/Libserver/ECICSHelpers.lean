import Mathlib.Tactic.Common
import Mathlib.Data.Finset.Card
import Mathlib.Data.Finset.Max
import Zcp.Lib.OrderedMap

/-!
# The stored states of a synchronization

Reference: `provider/libserver/ECICSHelpers.cpp`, `ECGetContentChangesHelper::Finalize`.

A synchronization stores the messages that the client has under the change id they were exported at. When an export
stores a new state the obsolete ones go: those above the change id `X` that the client asked from, and all but nine of
those below it. `X` itself is kept, so ten states can remain where the assertion of the code allows nine. A call that has
nothing to export only removes the states that are newer than all changes, and `X` with them where it is newer itself.
-/

namespace Zcp.Libserver.ECICSHelpers

open Zcp.Lib

/-- A row of the table `syncedmessages`. -/
structure SyncedMessage where
  sync_id : ℕ
  change_id : ℕ
  sourcekey : List UInt8
  parentsourcekey : List UInt8
deriving DecidableEq

/-- A message of a `MESSAGESET`: its source key, and the part of its `SAuxMessageData` that is stored. -/
structure Message where
  sourcekey : List UInt8
  sParentSourceKey : List UInt8
deriving DecidableEq

/-- The helper as `Finalize` finds it. -/
structure ECGetContentChangesHelper where
  m_ulFlags : UInt32
  m_ulSyncId : ℕ
  /-- The change id the client asked from. -/
  m_ulChangeId : ℕ
  m_ulChangeCnt : ℕ
  m_sFolderSourceKey : List UInt8
  /-- Whether `m_lpsRestrict` is set. -/
  m_lpsRestrict : Bool
  m_setLegacyMessages : List Message
  m_setNewMessages : List Message
  /-- `m_lpMsgProcessor->GetMaxChangeId()`. -/
  GetMaxChangeId : ℕ

/-- What a call of `Finalize` that succeeds gives. -/
structure Finalized where
  lpulMaxChange : ℕ
  /-- The rows that the `DELETE` leaves. -/
  remaining : List SyncedMessage
  /-- The rows of the `INSERT`. -/
  inserted : List SyncedMessage
  /-- Whether `ASSERT(setChangeIds.size() - setDeleteIds.size() <= 9)` holds, where it is reached. -/
  asserted : Bool

def Finalized.syncedmessages (f : Finalized) : List SyncedMessage := f.remaining ++ f.inserted

/-- Insert into a `std::set<unsigned int>`, the list of its elements in their order. -/
def insert (s : List ℕ) (id : ℕ) : List ℕ := OrderedMap.set (fun i => i) id s

/-- `SELECT DISTINCT change_id FROM syncedmessages WHERE sync_id=…`, collected in a set. -/
def setChangeIds (rows : List SyncedMessage) (ulSyncId : ℕ) : List ℕ :=
  (((rows.filter (·.sync_id = ulSyncId)).map (·.change_id)).dedup).foldl insert []

/-- `for (int i = 0; iter != setChangeIds.begin() && i < 9; ++i, --iter)`: the place of the iterator, with the turns
that are left. -/
def reverse : ℕ → ℕ → ℕ
  | pos, 0 => pos
  | 0, _ + 1 => 0
  | pos + 1, i + 1 => reverse pos i

def setDeleteIds (ids : List ℕ) (ulChangeId : ℕ) : List ℕ :=
  let rule1 := (ids.dropWhile (· ≤ ulChangeId)).foldl insert []
  let iter := reverse (ids.takeWhile (· < ulChangeId)).length 9
  (ids.take iter).foldl insert rule1

namespace ECGetContentChangesHelper

variable (h : ECGetContentChangesHelper)

/-- There is nothing new to store: no changes, not the initial export, and no set that is now restricted. -/
def noChanges : Bool :=
  h.m_ulChangeCnt = 0 ∧ 0 < h.m_ulChangeId ∧ ¬ (h.m_setLegacyMessages.isEmpty ∧ h.m_lpsRestrict)

/-- `m_setNewMessages`, with the placeholder of a restricted set that is empty. -/
def newMessages : List Message :=
  if h.m_lpsRestrict ∧ h.m_setNewMessages.isEmpty then [⟨[0], h.m_sFolderSourceKey⟩] else h.m_setNewMessages

/-- The new change id; `ulNewChange` is the id of the dummy change that is inserted where the server has no newer one. -/
def maxChange (ulNewChange : ℕ) : ℕ :=
  if h.GetMaxChangeId = h.m_ulChangeId then ulNewChange else h.GetMaxChangeId

def Finalize (rows : List SyncedMessage) (ulNewChange : ℕ) : Finalized :=
  if h.m_ulFlags &&& 0x80000 ≠ 0 then ⟨h.GetMaxChangeId, rows, [], true⟩
  else if h.noChanges then
    ⟨h.GetMaxChangeId, rows.filter (fun r => ¬ (r.sync_id = h.m_ulSyncId ∧ h.GetMaxChangeId < r.change_id)), [], true⟩
  else
    let ulMaxChange := h.maxChange ulNewChange
    if h.newMessages.isEmpty then ⟨ulMaxChange, rows, [], true⟩
    else
      let ids := setChangeIds rows h.m_ulSyncId
      let deleteIds := setDeleteIds ids h.m_ulChangeId
      let inserted := h.newMessages.map fun m => ⟨h.m_ulSyncId, ulMaxChange, m.sourcekey, m.sParentSourceKey⟩
      if deleteIds.isEmpty then ⟨ulMaxChange, rows, inserted, true⟩
      else
        ⟨ulMaxChange, rows.filter (fun r => ¬ (r.sync_id = h.m_ulSyncId ∧ r.change_id ∈ deleteIds)), inserted,
          ids.length - deleteIds.length ≤ 9⟩

/-- The call comes to store a new state, and with it to remove the obsolete ones. -/
def StoresState : Prop := h.m_ulFlags &&& 0x80000 = 0 ∧ h.noChanges = false ∧ h.newMessages ≠ []

/-- The call has nothing to export, and only removes the states that are newer than all changes of the server. -/
def PurgesNewer : Prop := h.m_ulFlags &&& 0x80000 = 0 ∧ h.noChanges = true

end ECGetContentChangesHelper

/-! ## The states that are kept -/

/-- The change ids that are stored for a synchronization. -/
def storedIds (rows : List SyncedMessage) (ulSyncId : ℕ) : Finset ℕ :=
  ((rows.filter (·.sync_id = ulSyncId)).map (·.change_id)).toFinset

/-- The state is the one at `X`, or of the nine largest below it. -/
def Keep (ids : Finset ℕ) (X id : ℕ) : Prop :=
  id = X ∨ id < X ∧ (ids.filter (fun j => id < j ∧ j < X)).card < 9

theorem insert_sorted {s : List ℕ} (hs : OrderedMap.Sorted (fun i => i) s) (id : ℕ) :
    OrderedMap.Sorted (fun i => i) (insert s id) := hs.set id

variable {id : ℕ}

theorem mem_insert {s : List ℕ} (hs : OrderedMap.Sorted (fun i => i) s) {j : ℕ} :
    j ∈ insert s id ↔ j = id ∨ j ∈ s := by
  rw [insert, OrderedMap.mem_set hs]
  constructor
  · exact Or.imp_right And.left
  · intro h
    by_cases hj : j = id
    · exact .inl hj
    · exact .inr ⟨h.resolve_left hj, hj⟩

/-- Copying ids into a set. -/
theorem foldl_insert (ids : List ℕ) : ∀ {s : List ℕ}, OrderedMap.Sorted (fun i => i) s →
    OrderedMap.Sorted (fun i => i) (ids.foldl insert s) ∧ ∀ j, j ∈ ids.foldl insert s ↔ j ∈ ids ∨ j ∈ s := by
  induction ids with
  | nil =>
    intro s hs
    refine ⟨hs, fun j => ?_⟩
    simp
  | cons id ids ih =>
    intro s hs
    obtain ⟨hsorted, hmem⟩ := ih (insert_sorted hs id)
    refine ⟨hsorted, fun j => ?_⟩
    rw [List.foldl_cons, hmem, mem_insert hs, List.mem_cons]
    tauto

theorem setChangeIds_sorted (rows : List SyncedMessage) (ulSyncId : ℕ) :
    OrderedMap.Sorted (fun i => i) (setChangeIds rows ulSyncId) := (foldl_insert _ List.Pairwise.nil).1

variable {rows : List SyncedMessage} {ulSyncId : ℕ}

theorem mem_setChangeIds : id ∈ setChangeIds rows ulSyncId ↔ id ∈ storedIds rows ulSyncId := by
  rw [setChangeIds, (foldl_insert _ List.Pairwise.nil).2, storedIds, List.mem_toFinset, List.mem_dedup]
  simp

/-- A set has as many elements as its finset. -/
theorem length_filter_eq_card {s : List ℕ} (hs : OrderedMap.Sorted (fun i => i) s) (p : ℕ → Bool) :
    (s.filter p).length = (s.toFinset.filter (p ·)).card := by
  have hnodup : (s.filter p).Nodup := (hs.filter p).imp fun h => ne_of_lt h
  rw [← List.toFinset_card_of_nodup hnodup, List.toFinset_filter]

theorem reverse_eq : ∀ pos i, reverse pos i = pos - i
  | pos, 0 => by rw [reverse, Nat.sub_zero]
  | 0, i + 1 => (Nat.zero_sub (i + 1)).symm
  | pos + 1, i + 1 => by rw [reverse, reverse_eq pos i, Nat.add_sub_add_right]

section

variable {s : List ℕ} (hs : OrderedMap.Sorted (fun i => i) s) (X : ℕ)

include hs

/-- Rule 2 takes the ids below `X`, but for the last nine of them. -/
theorem take_reverse : s.take (reverse (s.takeWhile (· < X)).length 9) =
    (s.filter (· < X)).take ((s.filter (· < X)).length - 9) := by
  have hbelow := hs.takeWhile_lt X
  have hsplit : s = s.filter (· < X) ++ s.dropWhile (· < X) := by
    rw [← hbelow, List.takeWhile_append_dropWhile]
  rw [reverse_eq, hbelow]
  exact (congrArg (List.take _) hsplit).trans (List.take_append_of_le_length (Nat.sub_le _ 9))

/-- The two rules take different ids, so the set has as many as both together. -/
theorem setDeleteIds_perm :
    (setDeleteIds s X).Perm ((s.filter (· < X)).take ((s.filter (· < X)).length - 9) ++ s.filter (X < ·)) := by
  have hrule1 := foldl_insert (s.dropWhile (· ≤ X)) List.Pairwise.nil
  obtain ⟨hsorted, hmem⟩ := foldl_insert (s.take (reverse (s.takeWhile (· < X)).length 9)) hrule1.1
  have hbelow : ∀ j ∈ (s.filter (· < X)).take ((s.filter (· < X)).length - 9), j < X := by
    intro j hj
    simpa using (List.mem_filter.mp (List.mem_of_mem_take hj)).2
  have hdisjoint : ((s.filter (· < X)).take ((s.filter (· < X)).length - 9)).Disjoint (s.filter (X < ·)) := by
    intro j hj habove
    exact absurd (hbelow j hj) (not_lt.mpr (of_decide_eq_true (List.mem_filter.mp habove).2).le)
  have hnodup : s.Nodup := hs.imp fun h => ne_of_lt h
  refine (List.perm_ext_iff_of_nodup (hsorted.imp fun h => ne_of_lt h) ?_).mpr ?_
  · exact ((hnodup.filter _).sublist (List.take_sublist _ _)).append (hnodup.filter _) hdisjoint
  · intro j
    rw [hmem, hrule1.2, take_reverse hs, hs.dropWhile_le, List.mem_append]
    simp

theorem mem_setDeleteIds {j : ℕ} (hj : j ∈ s) : j ∈ setDeleteIds s X ↔ ¬ Keep s.toFinset X j := by
  have hrecent : ((s.filter (· < X)).filter (j < ·)).length =
      (s.toFinset.filter (fun i => j < i ∧ i < X)).card := by
    rw [List.filter_filter, length_filter_eq_card hs]
    simp
  rw [(setDeleteIds_perm hs X).mem_iff, List.mem_append, (hs.filter _).mem_take_length_sub, hrecent, Keep]
  simp only [List.mem_filter, decide_eq_true_eq, hj, true_and]
  omega

/-- What is left: the id `X` itself, and at most nine below it. -/
theorem length_sub_setDeleteIds : s.length - (setDeleteIds s X).length =
    min (s.toFinset.filter (· < X)).card 9 + if X ∈ s then 1 else 0 := by
  have hsplit (l : List ℕ) : l.length =
      (l.filter (· < X)).length + l.count X + (l.filter (X < ·)).length := by
    induction l with
    | nil => rfl
    | cons j l ih =>
      rw [List.length_cons, ih, List.filter_cons, List.filter_cons, List.count_cons]
      rcases lt_trichotomy j X with hlt | rfl | hlt
      · simp [hlt, hlt.ne, hlt.le.not_gt]
        omega
      · simp
        omega
      · simp [hlt, hlt.ne', hlt.le.not_gt]
        omega
  have hnodup : s.Nodup := hs.imp fun h => ne_of_lt h
  have hcount : s.count X = if X ∈ s then 1 else 0 := hnodup.count
  have hbelow : (s.toFinset.filter (· < X)).card = (s.filter (· < X)).length := by
    rw [length_filter_eq_card hs]
    simp
  have hlen := (setDeleteIds_perm hs X).length_eq
  rw [List.length_append, List.length_take] at hlen
  rw [← hcount, hlen, hsplit s, hbelow]
  omega

end

theorem toFinset_setChangeIds (rows : List SyncedMessage) (ulSyncId : ℕ) :
    (setChangeIds rows ulSyncId).toFinset = storedIds rows ulSyncId := by
  ext id
  rw [List.mem_toFinset, mem_setChangeIds]

theorem mem_storedIds {row : SyncedMessage} (hrow : row ∈ rows)
    (hsync : row.sync_id = ulSyncId) : row.change_id ∈ storedIds rows ulSyncId := by
  rw [storedIds, List.mem_toFinset]
  exact List.mem_map_of_mem (List.mem_filter.mpr ⟨hrow, by simpa using hsync⟩)

variable {h : ECGetContentChangesHelper}

/-- A call that stores a state removes the ids of the two rules, and checks how many it leaves if it removes any. -/
theorem finalize_of_storesState (hst : h.StoresState) (rows : List SyncedMessage) (ulNewChange : ℕ) :
    ∃ inserted, h.Finalize rows ulNewChange = ⟨h.maxChange ulNewChange,
        rows.filter (fun r => ¬ (r.sync_id = h.m_ulSyncId ∧
          r.change_id ∈ setDeleteIds (setChangeIds rows h.m_ulSyncId) h.m_ulChangeId)), inserted,
        (setDeleteIds (setChangeIds rows h.m_ulSyncId) h.m_ulChangeId).isEmpty ∨
          (setChangeIds rows h.m_ulSyncId).length -
            (setDeleteIds (setChangeIds rows h.m_ulSyncId) h.m_ulChangeId).length ≤ 9⟩ := by
  obtain ⟨hflags, hchanges, hmessages⟩ := hst
  rw [ECGetContentChangesHelper.Finalize, if_neg (not_not.mpr hflags), if_neg (by simp [hchanges]),
    if_neg (by simpa using hmessages)]
  refine ⟨h.newMessages.map fun m => ⟨h.m_ulSyncId, h.maxChange ulNewChange, m.sourcekey, m.sParentSourceKey⟩, ?_⟩
  by_cases hempty : (setDeleteIds (setChangeIds rows h.m_ulSyncId) h.m_ulChangeId).isEmpty
  · have hnil := List.isEmpty_iff.mp hempty
    rw [if_pos hempty]
    simp [hnil]
  · rw [if_neg hempty]
    simp [hempty]

theorem remaining_of_storesState (hst : h.StoresState) (rows : List SyncedMessage) (ulNewChange : ℕ)
    (row : SyncedMessage) : row ∈ (h.Finalize rows ulNewChange).remaining ↔ row ∈ rows ∧
        (row.sync_id = h.m_ulSyncId → Keep (storedIds rows h.m_ulSyncId) h.m_ulChangeId row.change_id) := by
  obtain ⟨inserted, heq⟩ := finalize_of_storesState hst rows ulNewChange
  rw [heq, List.mem_filter, decide_eq_true_eq]
  refine and_congr_right fun hrow => ?_
  rw [not_and]
  refine forall_congr' fun hsync => ?_
  have hid := mem_setChangeIds.mpr (mem_storedIds hrow hsync)
  rw [mem_setDeleteIds (setChangeIds_sorted rows _) _ hid, not_not, toFinset_setChangeIds]

/-- `X` and nine ids below it stay, and there is something to remove. -/
def TenRemain (ids : Finset ℕ) (X : ℕ) : Prop :=
  X ∈ ids ∧ 9 ≤ (ids.filter (· < X)).card ∧ ∃ id ∈ ids, ¬ Keep ids X id

theorem asserted_of_storesState (hst : h.StoresState) (rows : List SyncedMessage) (ulNewChange : ℕ) :
    (h.Finalize rows ulNewChange).asserted = true ↔ ¬ TenRemain (storedIds rows h.m_ulSyncId) h.m_ulChangeId := by
  have hs := setChangeIds_sorted rows h.m_ulSyncId
  have hempty : setDeleteIds (setChangeIds rows h.m_ulSyncId) h.m_ulChangeId = [] ↔
      ∀ id ∈ storedIds rows h.m_ulSyncId, Keep (storedIds rows h.m_ulSyncId) h.m_ulChangeId id := by
    constructor
    · intro hnil id hid
      by_contra hkeep
      have hmem := (mem_setDeleteIds hs h.m_ulChangeId (mem_setChangeIds.mpr hid)).mpr
        (by rwa [toFinset_setChangeIds])
      rw [hnil] at hmem
      exact List.not_mem_nil hmem
    · intro hkeep
      refine List.eq_nil_iff_forall_not_mem.mpr fun id hid => ?_
      -- what is deleted was selected
      have hsel : id ∈ setChangeIds rows h.m_ulSyncId := by
        rcases List.mem_append.mp ((setDeleteIds_perm hs _).mem_iff.mp hid) with hbelow | habove
        · exact (List.mem_filter.mp (List.mem_of_mem_take hbelow)).1
        · exact (List.mem_filter.mp habove).1
      have hnot := (mem_setDeleteIds hs h.m_ulChangeId hsel).mp hid
      rw [toFinset_setChangeIds] at hnot
      exact hnot (hkeep id (mem_setChangeIds.mp hsel))
  obtain ⟨inserted, heq⟩ := finalize_of_storesState hst rows ulNewChange
  rw [heq, decide_eq_true_eq, List.isEmpty_iff, hempty, length_sub_setDeleteIds hs, toFinset_setChangeIds,
    TenRemain, ← mem_setChangeIds]
  by_cases hX : h.m_ulChangeId ∈ setChangeIds rows h.m_ulSyncId
  · rw [if_pos hX]
    simp only [hX, true_and, not_and, not_exists, not_not]
    constructor
    · rintro (hkeep | hle) hnine
      · exact hkeep
      · omega
    · intro himp
      by_cases hnine : 9 ≤ ((storedIds rows h.m_ulSyncId).filter (· < h.m_ulChangeId)).card
      · exact .inl (himp hnine)
      · exact .inr (by omega)
  · rw [if_neg hX]
    exact iff_of_true (.inr (by omega)) fun hten => hX hten.1

/-- A call without changes checks nothing, and removes what is newer than all changes of the server. -/
theorem finalize_of_purgesNewer (hpurge : h.PurgesNewer) (rows : List SyncedMessage) (ulNewChange : ℕ) :
    (h.Finalize rows ulNewChange).asserted = true ∧ ∀ row, row ∈ (h.Finalize rows ulNewChange).remaining ↔
        row ∈ rows ∧ (row.sync_id = h.m_ulSyncId → row.change_id ≤ h.GetMaxChangeId) := by
  rw [ECGetContentChangesHelper.Finalize, if_neg (not_not.mpr hpurge.1), if_pos hpurge.2]
  refine ⟨rfl, fun row => ?_⟩
  rw [List.mem_filter, decide_eq_true_eq, not_and, not_lt]

/-- A call that does neither leaves the rows as they are. -/
theorem finalize_of_neither (hst : ¬ h.StoresState) (hpurge : ¬ h.PurgesNewer) (rows : List SyncedMessage)
    (ulNewChange : ℕ) :
    (h.Finalize rows ulNewChange).asserted = true ∧ (h.Finalize rows ulNewChange).remaining = rows := by
  by_cases hflags : h.m_ulFlags &&& 0x80000 = 0
  · have hchanges : ¬ h.noChanges = true := fun hchanges => hpurge ⟨hflags, hchanges⟩
    have hmessages : h.newMessages.isEmpty := by
      by_contra hne
      exact hst ⟨hflags, by simpa using hchanges, by simpa using hne⟩
    rw [ECGetContentChangesHelper.Finalize, if_neg (not_not.mpr hflags), if_neg hchanges, if_pos hmessages]
    exact ⟨rfl, rfl⟩
  · rw [ECGetContentChangesHelper.Finalize, if_pos hflags]
    exact ⟨rfl, rfl⟩

/-- The stored states after a call: `X` and the nine largest below it stay, together with everything of other
synchronizations; a call that stores a new state removes all others; and the assertion on the number of those that stay
holds. -/
structure Pruned (h : ECGetContentChangesHelper) (rows : List SyncedMessage) (ulNewChange : ℕ) : Prop where
  kept : ∀ row ∈ rows,
    (row.sync_id = h.m_ulSyncId → Keep (storedIds rows h.m_ulSyncId) h.m_ulChangeId row.change_id) →
      row ∈ (h.Finalize rows ulNewChange).remaining
  removed : h.StoresState → ∀ row ∈ (h.Finalize rows ulNewChange).remaining,
    row ∈ rows ∧ (row.sync_id = h.m_ulSyncId → Keep (storedIds rows h.m_ulSyncId) h.m_ulChangeId row.change_id)
  asserted : (h.Finalize rows ulNewChange).asserted = true

/-- The changes of the server reach up to `X`, as far as states are stored there. -/
def ReachesStates (ids : Finset ℕ) (X ulMaxChange : ℕ) : Prop := ∀ id ∈ ids, id ≤ X → id ≤ ulMaxChange

/-- States that are kept are not above `X`, and the largest one up to `X` is kept. -/
theorem reachesStates_iff {ids : Finset ℕ} {X ulMaxChange : ℕ} :
    ReachesStates ids X ulMaxChange ↔ ∀ id ∈ ids, Keep ids X id → id ≤ ulMaxChange := by
  constructor
  · intro hreach id hid hkeep
    exact hreach id hid (hkeep.elim le_of_eq fun hrecent => hrecent.1.le)
  · intro hkept id hid hle
    obtain ⟨top, htop, hmax⟩ := (ids.filter (· ≤ X)).exists_max_image (fun j => j)
      ⟨id, Finset.mem_filter.mpr ⟨hid, hle⟩⟩
    obtain ⟨htopIds, htopX⟩ := Finset.mem_filter.mp htop
    refine (hmax id (Finset.mem_filter.mpr ⟨hid, hle⟩)).trans (hkept top htopIds ?_)
    obtain heq | hlt := htopX.eq_or_lt
    · exact .inl heq
    · -- no state is between the largest one and `X`
      have hnone : ids.filter (fun j => top < j ∧ j < X) = ∅ := by
        refine Finset.filter_eq_empty_iff.mpr fun j hj hbetween => ?_
        exact absurd (hmax j (Finset.mem_filter.mpr ⟨hj, hbetween.2.le⟩)) (not_le.mpr hbetween.1)
      exact .inr ⟨hlt, by rw [hnone]; exact Nat.zero_lt_succ 8⟩

/-- A stored id has a row. -/
theorem exists_of_mem_storedIds (hid : id ∈ storedIds rows ulSyncId) :
    ∃ row ∈ rows, row.sync_id = ulSyncId ∧ row.change_id = id := by
  rw [storedIds, List.mem_toFinset, List.mem_map] at hid
  obtain ⟨row, hrow, rfl⟩ := hid
  obtain ⟨hrow, hsync⟩ := List.mem_filter.mp hrow
  exact ⟨row, hrow, of_decide_eq_true hsync, rfl⟩

/-- The right rows are kept and removed where a state is stored, and the assertion fails there exactly where ten states
remain; a call without changes keeps the right ones exactly where the changes reach up to them. -/
theorem pruned_iff (h : ECGetContentChangesHelper) (rows : List SyncedMessage) (ulNewChange : ℕ) :
    Pruned h rows ulNewChange ↔ ¬ (h.StoresState ∧ TenRemain (storedIds rows h.m_ulSyncId) h.m_ulChangeId) ∧
        (h.PurgesNewer → ReachesStates (storedIds rows h.m_ulSyncId) h.m_ulChangeId h.GetMaxChangeId) := by
  by_cases hst : h.StoresState
  · have hremaining := remaining_of_storesState hst rows ulNewChange
    have hasserted := asserted_of_storesState hst rows ulNewChange
    have hpurge : ¬ h.PurgesNewer := fun hpurge => by
      have hchanges := hst.2.1
      rw [hpurge.2] at hchanges
      cases hchanges
    constructor
    · exact fun hp => ⟨fun hten => hasserted.mp hp.asserted hten.2, fun h => absurd h hpurge⟩
    · rintro ⟨hten, -⟩
      exact ⟨fun row hrow hkeep => (hremaining row).mpr ⟨hrow, hkeep⟩, fun _ row hrow => (hremaining row).mp hrow,
        hasserted.mpr fun h => hten ⟨hst, h⟩⟩
  · rw [and_iff_right (fun h => hst h.1)]
    by_cases hpurge : h.PurgesNewer
    · obtain ⟨hasserted, hremaining⟩ := finalize_of_purgesNewer hpurge rows ulNewChange
      rw [forall_prop_of_true hpurge, reachesStates_iff]
      constructor
      · intro hp id hid hkeep
        obtain ⟨row, hrow, hsync, rfl⟩ := exists_of_mem_storedIds hid
        exact ((hremaining row).mp (hp.kept row hrow fun _ => hkeep)).2 hsync
      · intro hreach
        refine ⟨fun row hrow hkeep => (hremaining row).mpr ⟨hrow, fun hsync => ?_⟩, fun h => absurd h hst, hasserted⟩
        exact hreach _ (mem_storedIds hrow hsync) (hkeep hsync)
    · obtain ⟨hasserted, hremaining⟩ := finalize_of_neither hst hpurge rows ulNewChange
      refine iff_of_true ⟨fun row hrow _ => ?_, fun h => absurd h hst, hasserted⟩ fun h => absurd h hpurge
      rw [hremaining]
      exact hrow

/-- A client at change 10, with the states 1 to 10 and one at 11 of an export that it never took over. -/
theorem pruned_ten_states : ¬ ∀ h rows ulNewChange, Pruned h rows ulNewChange := by
  intro hall
  have hp := hall ⟨0, 1, 10, 1, [], false, [], [⟨[7], []⟩], 12⟩ ((List.range' 1 11).map fun id => ⟨1, id, [7], []⟩) 0
  have hasserted := hp.asserted
  revert hasserted
  decide +kernel

end Zcp.Libserver.ECICSHelpers
