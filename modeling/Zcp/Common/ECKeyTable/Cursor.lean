import Zcp.Common.ECKeyTable.Positions

/-!
# The cursor when its row is deleted

`UpdateRow` with `TABLE_ROW_DELETE` moves the cursor by one `SeekRow` back and one forward when it is on
the row that goes. Both start at the row number that the old links of the unlinked row give. That number
is the index of the row when the row had one child at most and was a left child or the only child of the
sentinel; otherwise it is smaller, and the cursor comes to stand too far in front. From index 0 the first
seek cannot go back, so that the second one goes over a row (`deleteRow_cursor_iff`).
-/

namespace Zcp.Common

open Zcp.Lib

variable {t : ECKeyTable} {T : AvlTree RowAt}

/-! ## Where the two seeks end -/

theorem toInt_eq {n : ℤ} (hlo : -2 ^ 31 ≤ n) (hhi : n < 2 ^ 31) : toInt n = n := by
  rw [toInt]
  exact Int.bmod_eq_of_le (by omega) (by omega)

theorem toInt_lt (n : ℤ) : toInt n < 2 ^ 31 := by
  have h := Int.bmod_lt (x := n) (m := 2 ^ 32) (by decide)
  rw [toInt]
  omega

/-- In front of the table the seek back stays, and the seek forward goes on to row 1. -/
theorem backAndForth_low {V : ℕ} {k : ℤ} (hV : 0 < V) (hlo : -1 ≤ k) (hk : k ≤ 0) : backAndForth V k = 1 := by
  have hback : clampRow V (toInt (k + -1)) = 0 := by
    rw [toInt_eq (by omega) (by omega), clampRow]
    omega
  rw [backAndForth, hback, toInt_eq (by omega) (by omega), clampRow]
  omega

theorem backAndForth_inside {V : ℕ} {k : ℤ} (hk : 0 < k) (hkV : k ≤ V) (hhi : k < 2 ^ 31) : backAndForth V k = k := by
  have hback : clampRow V (toInt (k + -1)) = k - 1 := by
    rw [toInt_eq (by omega) (by omega), clampRow]
    omega
  rw [backAndForth, hback, toInt_eq (by omega) (by omega), clampRow]
  omega

/-- Row numbers are computed as an `int`. -/
theorem backAndForth_lt (V : ℕ) (k : ℤ) : backAndForth V k < 2 ^ 31 := by
  have h := toInt_lt (clampRow V (toInt (k + -1)) + 1)
  rw [backAndForth, clampRow]
  omega

/-- The two seeks from a row number that is not behind `i` end at `i`. -/
theorem backAndForth_eq_iff {V i : ℕ} {k : ℤ} (hV : 0 < V) (hiV : i ≤ V) (hlo : -1 ≤ k) (hki : k ≤ i) :
    backAndForth V k = i ↔ i = 1 ∨ (1 < i ∧ i < 2 ^ 31 ∧ k = i) := by
  have hlt := backAndForth_lt V k
  by_cases hlow : k ≤ 0
  · rw [backAndForth_low hV hlo hlow]
    omega
  · by_cases hhi : k < 2 ^ 31
    · rw [backAndForth_inside (by omega) (by omega) hhi]
      omega
    · omega

/-! ## The row number of the unlinked row -/

theorem visibleRows_eq_length {xs : List RowAt} (hvis : ∀ x ∈ xs, x.fHidden = false) : visibleRows xs = xs.length := by
  rw [← length_visibleList, visibleList, List.filter_eq_self.mpr]
  intro x hx
  rw [hvis x hx]
  rfl

/-- The old links of an unlinked row that had one child at most give its index when it was a left child or the
only child of the sentinel. In all other cases they give a smaller number. -/
theorem unlinkedNumber_spec {c : Ctx RowAt} {a : RowAt} {l r s : AvlTree RowAt} {row : ECTableRow}
    (ha : a.fHidden = false) (hvis : ∀ x ∈ c.before ++ l.toList, x.fHidden = false) (hleads : LeadsInto a l r s row) :
    -1 ≤ unlinkedNumber c l r s row ∧ unlinkedNumber c l r s row ≤ (c.before ++ l.toList).length ∧
      (unlinkedNumber c l r s row = (c.before ++ l.toList).length ↔
        (l = .nil ∨ r = .nil) ∧ (row.fLeft = true ∨ c = [])) := by
  have hbefore : visibleRows c.before = c.before.length :=
    visibleRows_eq_length fun x hx => hvis x (List.mem_append_left _ hx)
  have hl : count l = l.toList.length := by
    rw [count_eq_visibleRows]
    exact visibleRows_eq_length fun x hx => hvis x (List.mem_append_right _ hx)
  have hvisible : a.visible = 1 := by rw [RowAt.visible, ha]; rfl
  have hnode : count (.node l a r) = count l + 1 + count r := by rw [count_node, hvisible]
  rw [unlinkedNumber, hbefore, List.length_append, Nat.cast_add]
  by_cases houter : l = .nil ∨ r = .nil
  · obtain ⟨rfl, hcount⟩ := hleads.outer houter
    rw [hcount, hnode, hl]
    by_cases hside : c = [] ∨ row.fLeft = true
    · have hflag : row.fLeft = true ∨ c = [] := hside.symm
      rw [if_pos hside]
      simp only [houter, hflag, and_self, iff_true]
      omega
    · have hflag : ¬ (row.fLeft = true ∨ c = []) := fun h => hside h.symm
      rw [if_neg hside]
      simp only [houter, hflag, and_false, iff_false]
      push_cast
      omega
  · have hinner := not_or.mp houter
    obtain ⟨hs, hle, hge⟩ := hleads.inner hinner.1 hinner.2
    have hcount : count s ≤ s.toList.length := by
      rw [count_eq_visibleRows, ← length_visibleList]
      exact List.length_filter_le _ _
    simp only [houter, false_and, iff_false]
    split_ifs <;> omega

/-! ## The deletion of the row under the cursor -/

/-- The cursor is on the first of the rows `ys` that followed the deleted row, or past the end. -/
def OnFollower (t : ECKeyTable) (xs ys : List RowAt) : Prop :=
  t.lpCurrent = if xs ++ ys = [] then some t.lpRoot else ys.head?.map RowAt.addr

/-- When the cursor gets to the row behind the deleted row `row`: no other row is there, the row has index 1, or its links
give its row number. -/
def FindsFollower (t : ECKeyTable) (row : ECTableRow) (xs ys : List RowAt) : Prop :=
  xs ++ ys = [] ∨ xs.length = 1 ∨
    (1 < xs.length ∧ xs.length < 2 ^ 31 ∧ (row.lpLeft = none ∨ row.lpRight = none) ∧
      (row.fLeft = true ∨ row.lpParent = some t.lpRoot))

/-- The place of a row number in a table without hidden rows. -/
theorem landed_iff {lpRoot : Addr} {xs ys : List RowAt} {k : ℤ} {pos : Option Addr} (hL : T.toList = xs ++ ys)
    (hnodup : (T.toList.map RowAt.addr).Nodup) (hvis : ∀ x ∈ T.toList, x.fHidden = false) (hne : xs ++ ys ≠ [])
    (hland : Landed lpRoot T k pos) : pos = ys.head?.map RowAt.addr ↔ k = xs.length := by
  have hV : count T = xs.length + ys.length := by
    rw [count_eq_visibleRows, visibleRows_eq_length hvis, hL, List.length_append]
  have hpos : count T ≠ 0 := by
    rw [hV, ← List.length_append]
    exact fun h => hne (List.length_eq_zero_iff.mp h)
  have hhead : ys.head?.map RowAt.addr = (T.toList.map RowAt.addr)[xs.length]? := by
    rw [hL, List.map_append, List.getElem?_append_right (by simp), List.length_map, Nat.sub_self,
      ← List.head?_eq_getElem?, List.head?_map]
  rw [Landed, if_neg hpos] at hland
  rw [hhead]
  rcases hland with ⟨zs, b, ws, hzs, hk, rfl⟩ | ⟨rfl, hk⟩
  · have hlen : k = zs.length := by
      rw [← hk, visibleRows_eq_length fun x hx => hvis x (by simp [hzs, hx])]
    have hb : some b.addr = (T.toList.map RowAt.addr)[zs.length]? := by
      rw [hzs, List.map_append, List.getElem?_append_right (by simp), List.length_map, Nat.sub_self]
      rfl
    rw [hb, hlen, Nat.cast_inj]
    apply List.getElem?_inj _ hnodup
    rw [List.length_map, hzs, List.length_append, List.length_cons]
    omega
  · rw [eq_comm, List.getElem?_eq_none_iff, List.length_map, hL, List.length_append, hk, hV]
    omega

theorem addr?_eq_none {s : AvlTree RowAt} : addr? s = none ↔ s = .nil := by
  cases s <;> simp [addr?]

/-- Only the row at the root of the tree is a child of the sentinel. -/
theorem holeParent_eq_root (hH : Holds t T) {c : Ctx RowAt} {s : AvlTree RowAt} (hT : Ctx.plug c s = T) :
    holeParent t.lpRoot c = t.lpRoot ↔ c = [] := by
  cases c with
  | nil => simp [holeParent]
  | cons f c =>
    have hf : f.val ∈ T.toList := hT ▸ Ctx.val_mem_plug (by simp) s
    simp [holeParent, hH.addr_ne_root hf]

/-- Deleting the row under the cursor puts the cursor on the row behind it exactly when its links find that row. -/
theorem deleteRow_cursor (hR : Represents t T) {xs ys : List RowAt} {a : RowAt} (hL : T.toList = xs ++ a :: ys)
    (hvis : ∀ x ∈ T.toList, x.fHidden = false) (hcur : t.lpCurrent = some a.addr) :
    ∃ row, t.heap a.addr = some row ∧ Yields (t.deleteRow a.sKey) fun res => res.1 = .erSuccess ∧
      (∃ T', Represents res.2 T' ∧ T'.toList = xs ++ ys) ∧ (OnFollower res.2 xs ys ↔ FindsFollower t row xs ys) := by
  obtain ⟨c, l, r, hT, rfl, rfl⟩ := hR.holds.focus hL
  obtain ⟨F, hF⟩ := hR.holds.has
  refine ⟨_, (tableAt_has hT hF).split.1.get, (deleteRow_lands hR hT).imp fun res hres => ?_⟩
  obtain ⟨her, hdel, hlands⟩ := hres
  refine ⟨her, hdel.rows, ?_⟩
  obtain ⟨T', s, row, hR', hL', hleads, hfLeft, hland⟩ := hlands hcur
  rw [OnFollower, FindsFollower, hdel.lpRoot]
  by_cases hnil : c.before ++ l.toList ++ (r.toList ++ c.after) = []
  · have hV : count T' = 0 := by
      rw [count_eq_visibleRows, hL', hnil, visibleRows_nil]
    rw [Landed, if_pos hV] at hland
    simp only [hnil, if_true, hland, true_or]
  · have hmem : ∀ x, x ∈ T'.toList → x ∈ T.toList := by
      intro x hx
      rw [hL', List.mem_append] at hx
      rw [hL, List.mem_append, List.mem_cons]
      exact hx.imp_right .inr
    have hvis' : ∀ x ∈ T'.toList, x.fHidden = false := fun x hx => hvis x (hmem x hx)
    have hV : count T' = (c.before ++ l.toList ++ (r.toList ++ c.after)).length := by
      rw [count_eq_visibleRows, visibleRows_eq_length hvis', hL']
    have hV0 : 0 < count T' := by
      rw [hV]
      exact List.length_pos_of_ne_nil hnil
    obtain ⟨hlo, hhi, hexact⟩ := unlinkedNumber_spec (hvis a (by simp [hL]))
      (fun x hx => hvis x (by rw [hL]; exact List.mem_append_left _ hx)) hleads
    rw [if_neg hnil, landed_iff hL' (List.nodup_cons.mp hR'.holds.addrs_nodup).2 hvis' hnil hland,
      backAndForth_eq_iff hV0 (by rw [hV]; exact (List.prefix_append ..).length_le) hlo hhi, hexact, hfLeft]
    simp only [hnil, false_or, RowAt.cell, addr?_eq_none, Option.some.injEq, holeParent_eq_root hR.holds hT]

section Runs

variable [CollationKeys]

/-- **The cursor after its row was deleted**, in every table that calls can produce: it is on the row behind exactly
when the links of the deleted row find that row. -/
theorem updateRow_delete_cursor_iff (ops : List TableOp) :
    Yields (run .new ops) fun t => ∃ T, Represents t T ∧ ∀ xs a ys cols fHidden, T.toList = xs ++ a :: ys →
      (∀ x ∈ T.toList, x.fHidden = false) → t.lpCurrent = some a.addr → ∃ row, t.heap a.addr = some row ∧
          Yields (t.updateRow .TABLE_ROW_DELETE a.sKey cols fHidden) fun res => res.er = .erSuccess ∧
            (∃ T', Represents res.table T' ∧ T'.toList = xs ++ ys) ∧
            (OnFollower res.table xs ys ↔ FindsFollower t row xs ys) := by
  refine (run_new ops).imp fun t ht => ?_
  obtain ⟨T, hR, -⟩ := ht
  refine ⟨T, hR, fun xs a ys cols fHidden hL hvis hcur => ?_⟩
  obtain ⟨row, hrow, hdelete⟩ := deleteRow_cursor hR hL hvis hcur
  refine ⟨row, hrow, hdelete.bind fun res hres => ?_⟩
  apply yields_some.mpr
  exact hres

/-- Two rows, and the cursor on the first one. -/
def twoRows : List TableOp :=
  [addRow 1 [10] 0, addRow 2 [20] 0, .seekRow EC_SEEK_SET 0]

end Runs

/-- The deletion of the first of two rows leaves the cursor past the end, behind the row that was not yet read. -/
theorem not_cursor_follows : ¬ ∀ [CollationKeys] (ops : List TableOp) (t : ECKeyTable) (T : AvlTree RowAt)
    (xs : List RowAt) (a : RowAt) (ys : List RowAt) (res : ECKeyTable.UpdateResult), run .new ops = some t → Represents t T →
      T.toList = xs ++ a :: ys → (∀ x ∈ T.toList, x.fHidden = false) → t.lpCurrent = some a.addr →
        t.updateRow .TABLE_ROW_DELETE a.sKey [] false = some res → OnFollower res.table xs ys := by
  intro h
  let _ : CollationKeys := .bytewise
  obtain ⟨t, ht, T, hR, hrows⟩ := run_new twoRows
  have hfit : ∀ op ∈ twoRows, op.Fits fun _ => 0 := by
    intro op hop
    simp only [twoRows, List.mem_cons, List.not_mem_nil, or_false] at hop
    rcases hop with rfl | rfl | rfl
    · exact addRow_fits (by decide)
    · exact addRow_fits (by decide)
    · trivial
  have hL : rowsOf T = [⟨⟨1, 0⟩, [⟨[10], 0⟩], false⟩, ⟨⟨2, 0⟩, [⟨[20], 0⟩], false⟩] :=
    (hrows _ hfit).1.trans (by decide +kernel)
  simp only [rowsOf, List.map_eq_cons_iff, List.map_eq_nil_iff] at hL
  obtain ⟨a, _, hL, ha, b, _, rfl, hb, rfl⟩ := hL
  have hkey : a.sKey = ⟨1, 0⟩ := congrArg Row.sKey ha
  have hrun : (run .new twoRows).map (fun t => (t.lpCurrent, t.mapRow ⟨1, 0⟩,
      (t.updateRow .TABLE_ROW_DELETE ⟨1, 0⟩ [] false).map fun res => res.table.lpCurrent)) =
        some (some 1, some 1, some none) := by decide +kernel
  rw [ht, Option.map_some, Option.some.injEq, Prod.mk.injEq, Prod.mk.injEq] at hrun
  obtain ⟨hcur, hmap, hdelete⟩ := hrun
  obtain ⟨res, hres, hpos⟩ := Option.map_eq_some_iff.mp hdelete
  have haddr : some a.addr = some 1 := by
    rw [← hR.mapRow_of_mem (a := a) (by simp [hL]), hkey, hmap]
  have hvis : ∀ x ∈ T.toList, x.fHidden = false := by
    intro x hx
    rw [hL, List.mem_cons, List.mem_singleton] at hx
    rcases hx with rfl | rfl
    · exact congrArg Row.fHidden ha
    · exact congrArg Row.fHidden hb
  have hfollows := h _ t T [] a [b] res ht hR hL hvis (hcur.trans haddr.symm) (by rw [hkey]; exact hres)
  rw [OnFollower, hpos] at hfollows
  simp at hfollows

end Zcp.Common
