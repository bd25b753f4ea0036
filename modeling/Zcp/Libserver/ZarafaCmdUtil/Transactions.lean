import Zcp.Libserver.ZarafaCmdUtil.Expansion

/-!
# The transactions of a hard delete

`DeleteObjectHard` goes through the reversed list, 32 items in a transaction. Whatever fails, the database is the
one after some number of transactions, and the list of deleted items has the items of these.
-/

namespace Zcp.Libserver.ZarafaCmdUtil

variable {db : Database} {ulFlags : UInt32} {items : List DELETEITEM} {fails : ℕ → Option DeleteError}

/-- The items of the first transactions, in the order of the list. -/
def committed (items : List DELETEITEM) (transactions : ℕ) : List DELETEITEM :=
  (items.reverse.take (32 * transactions)).reverse

/-- The items of a transaction, in the order in which they are deleted. -/
def batchAt (items : List DELETEITEM) (transaction : ℕ) : List DELETEITEM :=
  (items.reverse.drop (32 * transaction)).take 32

/-- The database after some transactions. -/
def afterTransactions (ulFlags : UInt32) (db : Database) (items : List DELETEITEM) : ℕ → Database
  | 0 => db
  | transactions + 1 =>
    deleteBatch ulFlags (afterTransactions ulFlags db items transactions) (batchAt items transactions)

@[simp] theorem committed_zero : committed items 0 = [] := by simp [committed]

theorem committed_succ (k : ℕ) : committed items (k + 1) = (batchAt items k).reverse ++ committed items k := by
  rw [committed, committed, batchAt, ← List.reverse_append, ← List.take_add, Nat.mul_succ]

theorem committed_all {k : ℕ} (hk : items.length ≤ 32 * k) : committed items k = items := by
  rw [committed, List.take_of_length_le (by rwa [List.length_reverse]), List.reverse_reverse]

theorem committed_subset (k : ℕ) : committed items k ⊆ items := fun x hx => by
  rw [committed, List.mem_reverse] at hx
  exact List.mem_reverse.mp (List.mem_of_mem_take hx)

/-- The item at a place is deleted in the transactions that reach it from the end of the list. -/
theorem mem_committed {k i : ℕ} {x : DELETEITEM} (hnodup : items.Nodup) (hi : items[i]? = some x) :
    x ∈ committed items k ↔ items.length ≤ 32 * k + i := by
  obtain ⟨hlt, rfl⟩ := List.getElem?_eq_some_iff.mp hi
  have hdrop : committed items k = items.drop (items.length - 32 * k) := by
    rw [committed, List.take_reverse, List.reverse_reverse]
  rw [hdrop]
  constructor
  · intro hmem
    obtain ⟨j, hj, heq⟩ := List.getElem_of_mem hmem
    rw [List.getElem_drop] at heq
    have hindex := (List.Nodup.getElem_inj_iff hnodup).mp heq
    omega
  · intro hle
    refine List.mem_iff_getElem.mpr ⟨i - (items.length - 32 * k), ?_, ?_⟩
    · rw [List.length_drop]
      omega
    · rw [List.getElem_drop]
      congr 1
      omega

/-! ## The loop -/

/-- What comes out of a hard delete: the number of its transactions, and the error of the next one. -/
structure Outcome (ulFlags : UInt32) (fails : ℕ → Option DeleteError) (db : Database)
    (items : List DELETEITEM) (res : Option DeleteError × Database × List DELETEITEM) (k : ℕ) : Prop where
  deleted : res.2 = (afterTransactions ulFlags db items k, committed items k)
  succeeded : ∀ t < k, fails t = none ∧ 32 * t < items.length
  error : res.1 = none ∧ items.length ≤ 32 * k ∨
    32 * k < items.length ∧ ∃ er, fails k = some er ∧ res.1 = some er

theorem hardLoop_outcome {fuel t : ℕ} (hfuel : items.length ≤ fuel + 32 * t)
    (hbefore : ∀ s < t, fails s = none ∧ 32 * s < items.length) : ∃ k, Outcome ulFlags fails db items
      (hardLoop ulFlags fails fuel t (afterTransactions ulFlags db items t)
        (items.reverse.drop (32 * t)) (committed items t)) k := by
  induction fuel generalizing t with
  | zero => exact ⟨t, rfl, hbefore, .inl ⟨rfl, by omega⟩⟩
  | succ fuel ih =>
    by_cases hend : items.length ≤ 32 * t
    · rw [List.drop_eq_nil_of_le (by rwa [List.length_reverse])]
      exact ⟨t, rfl, hbefore, .inl ⟨rfl, hend⟩⟩
    · obtain ⟨x, left, hleft⟩ : ∃ x left, items.reverse.drop (32 * t) = x :: left := by
        refine List.exists_cons_of_length_pos ?_
        rw [List.length_drop, List.length_reverse]
        omega
      unfold hardLoop
      rw [hleft]
      simp only
      cases hfails : fails t with
      | some er => exact ⟨t, rfl, hbefore, .inr ⟨by omega, er, hfails, rfl⟩⟩
      | none =>
        have hbatch : (x :: left).take 32 = batchAt items t := by rw [batchAt, hleft]
        have hnext : (x :: left).drop 32 = items.reverse.drop (32 * (t + 1)) := by
          rw [← hleft, List.drop_drop, Nat.mul_succ]
        rw [hbatch, hnext, ← committed_succ]
        refine ih (by omega) fun s hs => ?_
        rcases Nat.lt_succ_iff_lt_or_eq.mp hs with hs | rfl
        · exact hbefore s hs
        · exact ⟨hfails, by omega⟩

/-- A hard delete ends after some number of transactions. -/
theorem DeleteObjectHard_outcome (fails : ℕ → Option DeleteError) (db : Database)
    (items : List DELETEITEM) (hhard : Has ulFlags EC_DELETE_HARD_DELETE) :
    ∃ k, Outcome ulFlags fails db items (DeleteObjectHard ulFlags fails db items) k := by
  rw [DeleteObjectHard, if_pos hhard]
  exact hardLoop_outcome (t := 0) (by omega) fun s hs => absurd hs (Nat.not_lt_zero s)

/-- A failure of one transaction only ends the delete there. -/
theorem DeleteObjectHard_failAt (hhard : Has ulFlags EC_DELETE_HARD_DELETE) (er : DeleteError) {k : ℕ}
    (hk : 32 * k < items.length) :
    (DeleteObjectHard ulFlags (fun t => if t = k then some er else none) db items).2 =
      (afterTransactions ulFlags db items k, committed items k) := by
  obtain ⟨k', hdeleted, hbefore, herror⟩ :=
    DeleteObjectHard_outcome (fun t => if t = k then some er else none) db items hhard
  obtain rfl : k' = k := by
    have hge : ¬ k < k' := fun hlt => by simpa using (hbefore k hlt).1
    rcases herror with ⟨-, hend⟩ | ⟨-, er', hfails, -⟩
    · omega
    · by_contra hne
      simp [hne] at hfails
  exact hdeleted

/-! ## What is left -/

/-- Without the objects of a list, apart from the counters of the folders. -/
structure LeftOf (clause : List ObjId) (db db' : Database) : Prop where
  hierarchy : db'.hierarchy = db.hierarchy.filter fun r => r.id ∉ clause
  messageFlags : db'.messageFlags = without clause db.messageFlags
  objectSize : db'.objectSize = without clause db.objectSize
  storeSize : db'.storeSize = without clause db.storeSize
  stores : db'.stores = db.stores

theorem without_without {β : Type} (clause clause' : List ObjId) (values : ObjId → Option β) :
    without clause' (without clause values) = without (clause' ++ clause) values := by
  funext id
  simp only [without, List.mem_append]
  split_ifs <;> simp_all

theorem deleteBatch_leftOf (ulFlags : UInt32) (db : Database) (batch : List DELETEITEM) :
    LeftOf (batch.map DELETEITEM.ulId) db (deleteBatch ulFlags db batch) :=
  ⟨rfl, rfl, rfl, rfl, rfl⟩

theorem afterTransactions_leftOf (k : ℕ) :
    LeftOf ((committed items k).map DELETEITEM.ulId) db (afterTransactions ulFlags db items k) := by
  induction k with
  | zero => exact ⟨by simp [afterTransactions], by funext id; simp [without, afterTransactions],
      by funext id; simp [without, afterTransactions], by funext id; simp [without, afterTransactions], rfl⟩
  | succ k ih =>
    have hmem : ∀ id, id ∈ (committed items (k + 1)).map DELETEITEM.ulId ↔
        id ∈ (batchAt items k).map DELETEITEM.ulId ∨
          id ∈ (committed items k).map DELETEITEM.ulId := fun id => by
      rw [committed_succ, List.map_append, List.mem_append, List.map_reverse, List.mem_reverse]
    have hwithout : ∀ {β : Type} (values : ObjId → Option β),
        without ((batchAt items k).map DELETEITEM.ulId)
            (without ((committed items k).map DELETEITEM.ulId) values) =
          without ((committed items (k + 1)).map DELETEITEM.ulId) values := fun values => by
      funext id
      rw [without_without]
      simp only [without, List.mem_append, hmem]
    have hbatch := deleteBatch_leftOf ulFlags (afterTransactions ulFlags db items k) (batchAt items k)
    refine ⟨?_, ?_, ?_, ?_, hbatch.stores.trans ih.stores⟩
    · rw [afterTransactions, hbatch.hierarchy, ih.hierarchy, List.filter_filter]
      refine List.filter_congr fun r _ => ?_
      simp only [hmem, not_or, Bool.decide_and]
    · rw [afterTransactions, hbatch.messageFlags, ih.messageFlags, hwithout]
    · rw [afterTransactions, hbatch.objectSize, ih.objectSize, hwithout]
    · rw [afterTransactions, hbatch.storeSize, ih.storeSize, hwithout]

end Zcp.Libserver.ZarafaCmdUtil
