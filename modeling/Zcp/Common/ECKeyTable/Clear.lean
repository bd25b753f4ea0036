import Zcp.Common.ECKeyTable.Table

/-!
# Clearing the table

`Clear` walks to a leaf, frees it and goes on at its parent. While it runs the counts on the path to
the leaf are those of the full table.
-/

namespace Zcp.Common

open Zcp.Lib Zcp.Lib.Assn

variable {lpRoot : Addr} {F : Assn ECTableRow} {h : Heap}

/-- A row without children is freed. -/
private theorem clearLoop_leaf {c : Ctx RowAt} {a : RowAt} {n : ℕ}
    (hh : (linksAt lpRoot (⟨false, a, .nil⟩ :: c) none * F) h) :
    ∃ h', ECKeyTable.clearLoop lpRoot (n + 1) h a.addr = ECKeyTable.clearLoop lpRoot n h' (holeParent lpRoot c) ∧
      (linksAt lpRoot c none * F) h' := by
  obtain ⟨m, k, hh⟩ := linksAt_cons.mp hh
  have hne := ne_root_of_cell (Has.self (front₃ hh)).split.1 (Has.self hh).split.1 rfl
  have hcell := (Has.self hh).split.1.get
  obtain ⟨h', hset, hh'⟩ := setChild_linksAt none (front₃ hh)
  refine ⟨Function.update h' a.addr none, ?_, ?_⟩
  · rw [ECKeyTable.clearLoop, hcell]
    simp only [frameCell, RowAt.cell, Bool.false_eq_true, if_false, addr?_nil, Option.bind_eq_bind,
      Option.bind_some, hne, hset]
  · have hfree := pts_free (front₂ hh')
    rw [treeAt, mul_left_comm, one_mul] at hfree
    exact hfree

/-- The right part of a subtree is freed, and then its root. -/
private theorem clearLoop_right {c : Ctx RowAt} {a : RowAt} {r : AvlTree RowAt} {n : ℕ}
    (ih : ∀ {b : RowAt}, r.root? = some b → ∀ {d : Ctx RowAt} {F : Assn ECTableRow} {h : Heap}
      {n : ℕ}, (linksAt lpRoot d (addr? r) * (fillAt lpRoot d r * F)) h →
        ∃ h', ECKeyTable.clearLoop lpRoot (n + (2 * r.toList.length - 1)) h b.addr =
            ECKeyTable.clearLoop lpRoot n h' (holeParent lpRoot d) ∧ (linksAt lpRoot d none * F) h')
    (hh : (linksAt lpRoot (⟨false, a, .nil⟩ :: c) (addr? r) * (fillAt lpRoot (⟨false, a, .nil⟩ :: c) r * F)) h) :
    ∃ h', ECKeyTable.clearLoop lpRoot (n + (2 * r.toList.length + 1)) h a.addr =
        ECKeyTable.clearLoop lpRoot n h' (holeParent lpRoot c) ∧ (linksAt lpRoot c none * F) h' := by
  cases r with
  | nil => 
    rw [fillAt, treeAt, one_mul] at hh
    exact clearLoop_leaf hh
  | node l b r =>
    obtain ⟨m, k, hcell⟩ := linksAt_cons.mp hh
    obtain ⟨h₁, hstep, hh₁⟩ := ih (b := b) rfl (n := n + 1) hh
    obtain ⟨h₂, hleaf, hh₂⟩ := clearLoop_leaf (n := n) hh₁
    refine ⟨h₂, ?_, hh₂⟩
    have hlen : n + (2 * (AvlTree.node l b r).toList.length + 1) =
        n + 1 + (2 * (AvlTree.node l b r).toList.length - 1) + 1 := by
      rw [AvlTree.toList_node, List.length_append, List.length_cons]
      omega
    rw [hlen, ECKeyTable.clearLoop, (Has.self hcell).split.1.get]
    simp only [frameCell, RowAt.cell, Bool.false_eq_true, if_false, addr?_nil, addr?_node,
      Option.bind_eq_bind, Option.bind_some]
    exact hstep.trans hleaf

/-- A subtree is freed, and the walk goes on above it. -/
theorem clearLoop_tree {t : AvlTree RowAt} {a : RowAt} (ha : t.root? = some a) {c : Ctx RowAt} {n : ℕ}
    (hh : (linksAt lpRoot c (addr? t) * (fillAt lpRoot c t * F)) h) :
    ∃ h', ECKeyTable.clearLoop lpRoot (n + (2 * t.toList.length - 1)) h a.addr =
        ECKeyTable.clearLoop lpRoot n h' (holeParent lpRoot c) ∧ (linksAt lpRoot c none * F) h' := by
  induction t generalizing a c n F h with
  | nil => cases ha
  | node l b r ihl ihr =>
    obtain rfl : b = a := Option.some.inj ha
    have hleft := linksAt_left hh
    have hmove {G : Heap} (hG : (linksAt lpRoot (⟨true, b, r⟩ :: c) none * F) G) :
        (linksAt lpRoot (⟨false, b, .nil⟩ :: c) (addr? r) *
          (fillAt lpRoot (⟨false, b, .nil⟩ :: c) r * F)) G := by
      obtain ⟨m, k, hG⟩ := linksAt_cons.mp hG
      refine linksAt_cons.mpr ⟨m, k, reorder hG ?_⟩
      rw [fillAt, holeParent, holeLeft, treeAt, one_mul]
      simp only [frameCell, Bool.not_true, addr?_nil]
      ac_rfl
    cases l with
    | nil =>
      rw [fillAt, treeAt, one_mul] at hleft
      obtain ⟨h', hstep, hh'⟩ := clearLoop_right (n := n) (fun hb _ _ _ _ => ihr hb) (hmove hleft)
      refine ⟨h', ?_, hh'⟩
      rw [← hstep]
      congr 1
    | node l₁ x l₂ =>
      obtain ⟨m, k, hcell⟩ := linksAt_cons.mp hleft
      obtain ⟨h₁, hstep, hh₁⟩ := ihl (a := x) rfl (n := n + (2 * r.toList.length + 1)) hleft
      obtain ⟨h₂, hrest, hh₂⟩ := clearLoop_right (n := n) (fun hb _ _ _ _ => ihr hb) (hmove hh₁)
      refine ⟨h₂, ?_, hh₂⟩
      have hlen : n + (2 * (AvlTree.node (.node l₁ x l₂) b r).toList.length - 1) =
          n + (2 * r.toList.length + 1) + (2 * (AvlTree.node l₁ x l₂).toList.length - 1) + 1 := by
        simp only [AvlTree.toList_node, List.length_append, List.length_cons]
        omega
      rw [hlen, ECKeyTable.clearLoop, (Has.self hcell).split.1.get]
      simp only [frameCell, RowAt.cell, if_true, addr?_node, Option.bind_eq_bind, Option.bind_some]
      exact hstep.trans hrest

variable {t : ECKeyTable} {T : AvlTree RowAt}

/-- At the sentinel of an empty table the walk ends. -/
private theorem clearLoop_root {n : ℕ} (hh : (linksAt lpRoot [] none * F) h) :
    ECKeyTable.clearLoop lpRoot (n + 1) h lpRoot = some h := by
  obtain ⟨m, k, hh⟩ := linksAt_nil.mp hh
  rw [ECKeyTable.clearLoop, (Has.self hh).split.1.get]
  simp [rootCell]

/-- The walk of `Clear` frees all rows. -/
private theorem clearLoop_spec {n : ℕ} (hn : 2 * T.toList.length + 1 < n) (hh : (tableAt lpRoot T * F) h) :
    Yields (ECKeyTable.clearLoop lpRoot n h lpRoot) (linksAt lpRoot [] none * F) := by
  have hlinks := linksAt_of_tableAt (c := []) rfl hh
  cases T with
  | nil =>
    obtain ⟨n, rfl⟩ : ∃ m, n = m + 1 := ⟨n - 1, by omega⟩
    rw [fillAt, treeAt, one_mul] at hlinks
    exact ⟨h, clearLoop_root hlinks, hlinks⟩
  | node l a r =>
    have hlen : (AvlTree.node l a r).toList.length = l.toList.length + (r.toList.length + 1) := by
      rw [AvlTree.toList_node, List.length_append, List.length_cons]
    obtain ⟨m, rfl⟩ : ∃ m, n = m + 1 + (2 * (AvlTree.node l a r).toList.length - 1) + 1 :=
      ⟨n - 2 * (AvlTree.node l a r).toList.length - 1, by omega⟩
    obtain ⟨h', hstep, hh'⟩ := clearLoop_tree (a := a) rfl (n := m + 1) hlinks
    obtain ⟨i, k, hroot⟩ := linksAt_nil.mp hlinks
    refine ⟨h', ?_, hh'⟩
    rw [ECKeyTable.clearLoop, (Has.self hroot).split.1.get]
    simp only [rootCell, addr?_node, Option.bind_eq_bind, Option.bind_some]
    exact hstep.trans (clearLoop_root hh')

/-- `Clear` leaves an empty table with the cursor on the sentinel. -/
theorem clear_spec (hR : Represents t T) : Yields t.clear fun t' => ∃ heap, Represents t' .nil ∧ t' = { t with
        heap := heap, lpCurrent := some t.lpRoot, mapRow := fun _ => none, mapBookmarks := [] } := by
  have hlen := hR.holds.length_lt
  rw [ECKeyTable.clear]
  refine (clearLoop_spec (by omega) hR.framed).bind fun heap hheap => ?_
  obtain ⟨n, k, hroot⟩ := linksAt_nil.mp hheap
  refine (modify_pts (fun root => { root with ulBranchCount := 0 }) hroot).bind fun heap' hheap' =>
    yields_some.mpr ⟨heap', ⟨?_, trivial, List.nodup_nil, ?_, hR.root_lt, ?_, .inr (.inl rfl), ?_⟩,
      rfl⟩
  · exact mono (fun g hg => ⟨k, hg⟩) hheap'
  · simp
  · simp
  · simp

end Zcp.Common
