import Zcp.Libserver.ZarafaCmdUtil.Orphans

/-!
# A hard delete that fails midway

The items of the transactions before a failure are collected, but `DeleteObjects` leaves on the error. Nothing of
what follows on a delete is done for them.
-/

namespace Zcp.Libserver.ZarafaCmdUtil

theorem DeleteObjectNotifications_nil (db : Database) (ulFlags : UInt32) :
    DeleteObjectNotifications db ulFlags [] = [] := by
  simp [DeleteObjectNotifications]

/-- Every item is taken out of the caches. -/
theorem fnevObjectDeleted_mem {ulFlags : UInt32} {lstDeleted : List DELETEITEM} {item : DELETEITEM}
    (hitem : item ∈ lstDeleted) : .fnevObjectDeleted item.ulId ∈ DeleteObjectCacheUpdate ulFlags lstDeleted :=
  List.mem_flatMap.mpr ⟨item, hitem, List.mem_cons_self⟩

namespace Request

variable {req : Request} {w : World} {items : List DELETEITEM}

/-- Nothing follows when nothing has been deleted. -/
theorem follow_nil (w : World) : req.follow w [] = w := by
  have hsize : DeleteObjectStoreSize w.db [] = w.db := by
    have hvalue : (DeleteObjectStoreSize w.db []).storeSize = w.db.storeSize := by
      funext id
      simp [DeleteObjectStoreSize, sizeOfDeleted]
    exact congrArg (fun storeSize => { w.db with storeSize }) hvalue
  unfold follow
  split_ifs
  · rw [DeleteObjectCacheUpdate, List.flatMap_nil, List.append_nil]
  · simp [hsize, DeleteObjectUpdateICS, DeleteObjectCacheUpdate, DeleteObjectNotifications_nil]

/-- The caches tell whether anything has been deleted. -/
theorem cacheUpdates_follow (w : World) (lstDeleted : List DELETEITEM) : (req.follow w lstDeleted).cacheUpdates =
      w.cacheUpdates ++ DeleteObjectCacheUpdate req.ulFlags lstDeleted := by
  unfold follow
  split_ifs <;> rfl

/-- The transactions before `k` succeed, and there are no more, or the next one fails. -/
structure Commits (req : Request) (items : List DELETEITEM) (k : ℕ) : Prop where
  succeeded : ∀ t < k, req.hardFails t = none ∧ 32 * t < items.length
  ended : items.length ≤ 32 * k ∨ 32 * k < items.length ∧ req.hardFails k ≠ none

/-- There is one such `k`. -/
theorem Commits.unique {k k' : ℕ} (h : req.Commits items k) (h' : req.Commits items k') : k = k' := by
  have hle : ∀ {k k' : ℕ}, req.Commits items k → req.Commits items k' → ¬ k < k' := fun h h' hlt => by
    obtain ⟨hnone, hmore⟩ := h'.succeeded _ hlt
    rcases h.ended with hend | ⟨-, hfails⟩
    · omega
    · exact hfails hnone
  exact Nat.le_antisymm (Nat.not_lt.mp (hle h' h)) (Nat.not_lt.mp (hle h h'))

/-- What a hard delete has done when it ends. -/
theorem DeleteObjectHard_commits (hhard : Has req.ulFlags EC_DELETE_HARD_DELETE) (db : Database)
    (items : List DELETEITEM) : ∃ k, req.Commits items k ∧ (DeleteObjectHard req.ulFlags req.hardFails db items).2 =
      (afterTransactions req.ulFlags db items k, committed items k) := by
  obtain ⟨k, hdeleted, hsucceeded, herror⟩ := DeleteObjectHard_outcome req.hardFails db items hhard
  refine ⟨k, ⟨hsucceeded, ?_⟩, hdeleted⟩
  rcases herror with ⟨-, hend⟩ | ⟨hmore, er, hfails, -⟩
  · exact .inl hend
  · exact .inr ⟨hmore, by simp [hfails]⟩

/-- The database that a request leaves, apart from the sizes of the stores: the old one, the one with the roots
marked, or the one after the transactions that have been committed. -/
theorem DeleteObjects_db (req : Request) (w : World) (P : Database → Prop)
    (hsize : ∀ db lstDeleted, P db → P (DeleteObjectStoreSize db lstDeleted))
    (hold : (Has req.ulFlags EC_DELETE_HARD_DELETE → ¬ req.bNoTransaction → ∀ items,
      req.items w.db ≠ .ok items) → P w.db)
    (hsoft : ¬ Has req.ulFlags EC_DELETE_HARD_DELETE → ∀ items, req.items w.db = .ok items →
      P (DeleteObjectSoft w.db items))
    (hhard : Has req.ulFlags EC_DELETE_HARD_DELETE → ¬ req.bNoTransaction → ∀ items k,
      req.items w.db = .ok items → req.Commits items k → P (afterTransactions req.ulFlags w.db items k)) :
    P (req.DeleteObjects w).2.db := by
  have hfollow : ∀ (w : World) lstDeleted, P w.db → P (req.follow w lstDeleted).db :=
    fun w lstDeleted hw => by
      unfold follow
      split_ifs
      · exact hw
      · exact hsize w.db lstDeleted hw
  unfold DeleteObjects
  split_ifs with hown hdelete
  · refine hold fun hdelete hno => absurd hown fun h => hno h.1
  · have hno : ¬ req.bNoTransaction := fun h => hown ⟨h, .inl hdelete⟩
    cases hitems : req.items w.db with
    | error er =>
      refine hold fun _ _ items hok => ?_
      rw [hitems] at hok
      exact nomatch hok
    | ok items =>
      obtain ⟨k, hcommits, hdeleted⟩ := DeleteObjectHard_commits hdelete w.db items
      have hdb : P (DeleteObjectHard req.ulFlags req.hardFails w.db items).2.1 := by
        rw [hdeleted]
        exact hhard hdelete hno items k hitems hcommits
      simp only
      split
      · rename_i heq
        rwa [heq] at hdb
      · rename_i heq
        rw [heq] at hdb
        split
        · exact hdb
        · exact hfollow _ _ hdb
  · have hkept : P w.db := hold fun h => absurd h hdelete
    cases hitems : req.items w.db with
    | error er => exact hkept
    | ok items =>
      simp only
      split
      · exact hfollow _ _ (hsoft hdelete items hitems)
      · exact hkept
      · exact hkept

/-- A hard delete whose transaction `k` is the first one to fail gives the error, and the database after the
transactions before it. -/
theorem DeleteObjects_failed (hown : ¬ req.bNoTransaction)
    (hhard : Has req.ulFlags EC_DELETE_HARD_DELETE) (hitems : req.items w.db = .ok items) {k : ℕ}
    (hk : 32 * k < items.length) {er : DeleteError} (hfails : req.hardFails k = some er)
    (hbefore : ∀ t < k, req.hardFails t = none) :
    req.DeleteObjects w = (some er, { w with db := afterTransactions req.ulFlags w.db items k }) := by
  obtain ⟨k', hdeleted, hsucceeded, herror⟩ :=
    DeleteObjectHard_outcome req.hardFails w.db items hhard
  obtain ⟨rfl, hres⟩ : k' = k ∧ (DeleteObjectHard req.ulFlags req.hardFails w.db items).1 = some er := by
    have hge : ¬ k < k' := fun hlt => nomatch hfails.symm.trans (hsucceeded k hlt).1
    rcases herror with ⟨-, hend⟩ | ⟨-, er', hfails', hres⟩
    · omega
    · have hle : ¬ k' < k := fun hlt => nomatch hfails'.symm.trans (hbefore k' hlt)
      obtain rfl : k' = k := by omega
      rw [hres, ← hfails', hfails]
      exact ⟨rfl, rfl⟩
  have hboth : DeleteObjectHard req.ulFlags req.hardFails w.db items =
      (some er, afterTransactions req.ulFlags w.db items k', committed items k') :=
    Prod.ext hres hdeleted
  unfold DeleteObjects
  rw [if_neg (fun h => hown h.1), hitems]
  simp only [if_pos hhard, hboth]

/-- After the error of a hard delete, the store size, the change log, the caches and the notifications are those of
the committed transactions exactly when there are none. -/
theorem DeleteObjects_follow_iff (hown : ¬ req.bNoTransaction)
    (hhard : Has req.ulFlags EC_DELETE_HARD_DELETE) (hitems : req.items w.db = .ok items) {k : ℕ}
    (hk : 32 * k < items.length) {er : DeleteError} (hfails : req.hardFails k = some er)
    (hbefore : ∀ t < k, req.hardFails t = none) : (req.DeleteObjects w).2 =
        req.follow { w with db := afterTransactions req.ulFlags w.db items k } (committed items k) ↔
      k = 0 := by
  rw [DeleteObjects_failed hown hhard hitems hk hfails hbefore]
  constructor
  · intro heq
    by_contra hne
    obtain ⟨x, hx⟩ : ∃ x, x ∈ committed items k := by
      refine List.exists_mem_of_length_pos ?_
      rw [committed, List.length_reverse, List.length_take, List.length_reverse]
      omega
    have hcaches := congrArg World.cacheUpdates heq
    rw [cacheUpdates_follow, List.self_eq_append_right] at hcaches
    exact List.not_mem_nil (hcaches ▸ fnevObjectDeleted_mem hx)
  · rintro rfl
    rw [committed_zero, follow_nil]

/-- A hard delete of the outer folder and its messages, the second transaction of which may fail. -/
def deleteFolder (hardFails : ℕ → Option DeleteError) : Request :=
  ⟨anySession, [20], hardFlags, none, false, true, hardFails, none, none⟩

def nestedWorld : World := ⟨nestedFolders 31, [], [], []⟩

theorem DeleteObjects_follow_first :
    ((deleteFolder fun _ => some .ZARAFA_E_NOT_FOUND).DeleteObjects nestedWorld).2 = nestedWorld := by
  have hok := ok_of_isSome
    (show ((deleteFolder fun _ => some .ZARAFA_E_NOT_FOUND).items nestedWorld.db).toOption.isSome by
      decide +kernel)
  have hkept := (DeleteObjects_follow_iff (w := nestedWorld) (k := 0) (by decide) (by decide) hok
    (by decide +kernel) rfl (by simp)).mpr rfl
  rwa [committed_zero, follow_nil] at hkept

/-- The messages and the inner folder have been removed, and no cache has heard of it. -/
theorem not_follow_second : ∃ items,
    let req := deleteFolder fun t => if t = 1 then some .ZARAFA_E_NOT_FOUND else none
    req.items nestedWorld.db = .ok items ∧ 32 < items.length ∧
      (req.DeleteObjects nestedWorld).2.db.hierarchy.map HierarchyRow.id = [1, 20] ∧
      (req.DeleteObjects nestedWorld).2 ≠
        req.follow { nestedWorld with db := afterTransactions req.ulFlags nestedWorld.db items 1 }
          (committed items 1) :=
  ⟨_, ok_of_isSome (by decide +kernel), by decide +kernel, by decide +kernel,
    fun heq => absurd (congrArg World.cacheUpdates heq) (by decide +kernel)⟩

end Request

end Zcp.Libserver.ZarafaCmdUtil
