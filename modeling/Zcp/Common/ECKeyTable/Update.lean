import Zcp.Common.ECKeyTable.Table

/-!
# Adding, modifying and deleting rows

What `UpdateRow` does to the list of the rows. A new row goes to the place where the search for it
ends; in a table in order this is behind all rows that are not greater (`putRow_new`). The reported
previous row is the row before it in the list, hidden or not, also when the row stays where it was.
-/

namespace Zcp.Common

open Zcp.Lib Zcp.Lib.Assn

variable {t : ECKeyTable} {T : AvlTree RowAt}

/-! ## Deleting -/

/-- The row number of a row that was unlinked is computed from its old links; they still lead to rows of the table. `s`
is the tree that its left link leads to. -/
def unlinkedNumber (c : Ctx RowAt) (l r s : AvlTree RowAt) (row : ECTableRow) : ℤ :=
  count s + visibleRows c.before +
    if c = [] ∨ row.fLeft = true then 0 else (count l + count r : ℤ) - row.ulBranchCount

variable {a : RowAt} {c : Ctx RowAt} {l r : AvlTree RowAt}

theorem currentRow_unlinked (hH : Holds t T) {row : ECTableRow}
    (hrow : t.heap a.addr = some row) (hU : Unlinked t.lpRoot row c T) (hP : Replaced c a l r row T) :
    ∃ s, LeadsInto a l r s row ∧ t.currentRow (some a.addr) = some (unlinkedNumber c l r s row) := by
  obtain ⟨hfLeft, ⟨d, t₁, hd, hT, hlist⟩, e, s, hs, hleads⟩ := hP
  obtain ⟨F, hF⟩ := hH.has
  have hne : a.addr ≠ t.lpRoot := by
    intro ha
    obtain ⟨k, hroot⟩ := hH.has.split.1.exists
    rw [← ha] at hroot
    have hsame := hU.lpParent
    rw [Option.some.inj (hrow.symm.trans hroot.get)] at hsame
    cases hsame
  have hleft : t.heap.branchCount row.lpLeft = some (count s) := by
    rw [hleads.lpLeft]
    exact branchCount_treeAt (tableAt_has hs.symm hF)
  refine ⟨s, hleads, ?_⟩
  rw [ECKeyTable.currentRow, if_neg hne, hrow]
  simp only [Option.bind_eq_bind, Option.bind_some, hleft]
  rw [ECKeyTable.fuel, currentRowLoop, hrow]
  simp only [Option.bind_eq_bind, Option.bind_some, hU.lpParent]
  -- the count starts at the hole and goes up the same path
  cases c with
  | nil =>
    rw [holeParent, if_pos rfl, unlinkedNumber, if_pos (.inl rfl), Ctx.before]
    simp
  | cons f c =>
    cases d with
    | nil => cases hd.head
    | cons g d =>
      obtain ⟨hgl, hgv⟩ : g.left = f.left ∧ g.val = f.val := Prod.mk.inj (Option.some.inj hd.head)
      obtain ⟨l₁, r₁, hnode⟩ := Ctx.frame_plug_eq_node g t₁
      have hT₁ : Ctx.plug d (.node l₁ g.val r₁) = T := by
        rw [hT, Ctx.plug_cons, hnode]
      have hmem : g.val ∈ T.toList := by
        rw [← hT₁, Ctx.toList_plug]
        simp
      have hcount : count (.node l₁ g.val r₁) = count t₁ + g.val.visible + count g.sib := by
        rw [← hnode, count_plug]
      have hlen := Ctx.length_le_length_plug d (.node l₁ g.val r₁)
      have hfuel := hH.length_lt
      rw [hT₁, AvlTree.toList_node, List.length_append, List.length_cons] at hlen
      rw [ECKeyTable.fuel] at hfuel
      rw [holeParent, ← hgv, if_neg (hH.addr_ne_root hmem), (tableAt_has hT₁ hF).split.1.get]
      simp only [Option.bind_some]
      rw [currentRowLoop_spec hT₁ (by omega) hH.has]
      have hbefore := congrArg visibleRows hd.before
      have hboth : count t₁ = count l + count r := by
        rw [count_eq_visibleRows, hlist, visibleRows_append, count_eq_visibleRows, count_eq_visibleRows]
      have hflag : row.fLeft = g.left := by rw [hfLeft, holeLeft, hgl]
      rw [unlinkedNumber, ← hbefore, hflag]
      -- on the right of its parent, the parent and its left part stand before the hole
      cases hside : g.left
      · simp [RowAt.cell, hcount, hboth, Ctx.before, hside, count_eq_visibleRows]
        ring
      · simp [Ctx.before, hside]

/-- Where a seek by one back and then a seek by one forward end. -/
def backAndForth (V : ℕ) (k : ℤ) : ℤ := clampRow V (toInt (clampRow V (toInt (k + -1)) + 1))

/-- The two seeks of `UpdateRow` with `TABLE_ROW_DELETE`, from a place that has a row number. -/
theorem seekRow_backAndForth (hH : Holds t T) {k : ℤ} (hk : t.currentRow t.lpCurrent = some k) :
    ∃ pos sought pos' sought', t.seekRow EC_SEEK_CUR (-1) =
        some (.erSuccess, some sought, { t with lpCurrent := pos }) ∧
      { t with lpCurrent := pos }.seekRow EC_SEEK_CUR 1 =
        some (.erSuccess, some sought', { t with lpCurrent := pos' }) ∧
      Landed t.lpRoot T (backAndForth (count T) k) pos' := by
  obtain ⟨pos, hseek, hland⟩ := seekRow_cur_lands hH hk (-1)
  have h0 : 0 ≤ clampRow (count T) (toInt (k + -1)) := by rw [clampRow]; omega
  have hV : clampRow (count T) (toInt (k + -1)) ≤ count T := by rw [clampRow]; omega
  have hH' : Holds { t with lpCurrent := pos } T := ⟨hH.has, hH.balanced, hH.length_lt⟩
  have hcur := currentRow_spec hH' (hland.rowNumber h0 hV)
  rw [Int.toNat_of_nonneg h0] at hcur
  obtain ⟨pos', hseek', hland'⟩ := seekRow_cur_lands hH' hcur 1
  exact ⟨pos, _, pos', _, hseek, hseek', hland'⟩

/-- What deleting row `a` leaves of a table. -/
structure Deleted (t : ECKeyTable) (a : RowAt) (rows : List RowAt) (t' : ECKeyTable) : Prop where
  rows : ∃ T, Represents t' T ∧ T.toList = rows
  lpRoot : t'.lpRoot = t.lpRoot
  next : t'.next = t.next
  lpCurrent : t.lpCurrent ≠ some a.addr → t'.lpCurrent = t.lpCurrent
  mapBookmarks : t'.mapBookmarks = t.mapBookmarks.filter fun b => b.2.lpPosition ≠ some a.addr
  ulBookmarkPosition : t'.ulBookmarkPosition = t.ulBookmarkPosition

variable {xs ys : List RowAt}

/-- The row is freed after the cursor moved off it. -/
private theorem freed {T' : AvlTree RowAt} {row : ECTableRow} (hR : Represents t T) (hL : T.toList = xs ++ a :: ys)
    {heap : Heap} {pos : Option Addr} (hb : T'.Balanced) (hL' : T'.toList = xs ++ ys)
    (hmem : (tableAt t.lpRoot T' * (pts a.addr row * 1)) heap) (hpos : ValidPos t.lpRoot T'.toList pos) : Represents
      { t with
        heap := Function.update heap a.addr none
        lpCurrent := pos
        mapBookmarks := t.mapBookmarks.filter fun b => b.2.lpPosition ≠ some a.addr
        mapRow := Function.update t.mapRow a.sKey none } T' := by
  have hmemT : ∀ r ∈ T'.toList, r ∈ T.toList := by
    intro r hr
    rw [hL'] at hr
    rw [hL]
    rcases List.mem_append.mp hr with hr | hr <;> simp [hr]
  have hkeys := hR.keys
  rw [hL, List.map_append, List.map_cons] at hkeys
  have hperm : (xs.map RowAt.sKey ++ a.sKey :: ys.map RowAt.sKey).Perm
      (a.sKey :: (xs.map RowAt.sKey ++ ys.map RowAt.sKey)) := List.perm_middle
  obtain ⟨hak, hkeys'⟩ := List.nodup_cons.mp (hperm.nodup_iff.mp hkeys)
  rw [← List.map_append, ← hL'] at hak hkeys'
  refine ⟨?_, hb, hkeys', fun k b => ?_, hR.root_lt, fun r hr => hR.addr_lt r (hmemT r hr), hpos,
    fun b hb => ?_⟩
  · have hfree := pts_free (front₂ hmem)
    rwa [mul_one] at hfree
  · show Function.update t.mapRow a.sKey none k = some b ↔ _
    by_cases hk : k = a.sKey
    · subst hk
      rw [Function.update_self]
      refine ⟨(nomatch ·), fun h => ?_⟩
      obtain ⟨r, hr, hrk, -⟩ := h
      exact absurd (List.mem_map.mpr ⟨r, hr, hrk⟩) hak
    · rw [Function.update_of_ne hk, hR.mapRow]
      refine ⟨fun ⟨r, hr, hrk, hra⟩ => ⟨r, ?_, hrk, hra⟩, fun ⟨r, hr, h⟩ => ⟨r, hmemT r hr, h⟩⟩
      rw [hL] at hr
      rw [hL']
      rcases List.mem_append.mp hr with hr | hr
      · simp [hr]
      · rcases List.mem_cons.mp hr with rfl | hr
        · exact absurd hrk.symm hk
        · simp [hr]
  · obtain ⟨hb, hne⟩ := List.mem_filter.mp hb
    refine (hR.bookmarks b hb).mono fun r hr hpos => ⟨r, ?_, rfl⟩
    have hra : r ≠ a := by
      rintro rfl
      simp [hpos] at hne
    rw [hL] at hr
    rw [hL']
    rcases List.mem_append.mp hr with hr | hr
    · simp [hr]
    · rcases List.mem_cons.mp hr with rfl | hr
      · exact absurd rfl hra
      · simp [hr]

/-- Where the cursor is after the row under it was deleted from below `c` and above `l` and `r`. `s` is the tree that the
left link of the unlinked row `row` led to. -/
def CursorLands (t : ECKeyTable) (c : Ctx RowAt) (a : RowAt) (l r : AvlTree RowAt) (t' : ECKeyTable) : Prop :=
  ∃ T s row, Represents t' T ∧ T.toList = c.before ++ l.toList ++ (r.toList ++ c.after) ∧ LeadsInto a l r s row ∧
    row.fLeft = holeLeft c ∧
    Landed t.lpRoot T (backAndForth (count T) (unlinkedNumber c l r s row)) t'.lpCurrent

/-- `UpdateRow` with `TABLE_ROW_DELETE` takes the row out of the list, and moves the cursor when it is on that row. -/
theorem deleteRow_lands (hR : Represents t T) (hT : Ctx.plug c (.node l a r) = T) :
    Yields (t.deleteRow a.sKey) fun res => res.1 = .erSuccess ∧
      Deleted t a (c.before ++ l.toList ++ (r.toList ++ c.after)) res.2 ∧
      (t.lpCurrent = some a.addr → CursorLands t c a l r res.2) := by
  have hL : T.toList = c.before ++ l.toList ++ a :: (r.toList ++ c.after) := by
    rw [← hT, Ctx.toList_plug]
    simp
  have ha : a ∈ T.toList := by simp [hL]
  rw [ECKeyTable.deleteRow, hR.mapRow_of_mem ha]
  refine (unlinkRow_unlinks hT hR.balanced hR.keys hR.holds.length_lt hR.framed).bind fun heap hunlinks => ?_
  obtain ⟨T', row, hb, hL', hU, hP, hmem⟩ := hunlinks
  have hholds : Holds { t with heap := heap } T' := by
    refine ⟨(Has.self hmem).split.1, hb, ?_⟩
    have := hR.holds.length_lt
    rw [hL] at this
    rw [hL']
    simp only [List.length_append, List.length_cons] at this ⊢
    exact lt_trans (by omega) this
  by_cases hcur : t.lpCurrent = some a.addr
  · -- the cursor's row number is computed from the old links, and then from the tree
    have hrow : heap a.addr = some row := (Has.self (front₂ hmem)).split.1.get
    obtain ⟨s, hleads, hk⟩ := currentRow_unlinked (t := { t with heap := heap }) hholds hrow hU hP
    obtain ⟨pos, sought, pos', sought', hseek, hseek', hland⟩ := seekRow_backAndForth
      (t := { t with heap := heap }) hholds (by rw [hcur]; exact hk)
    have hR' := freed hR hL hb hL' hmem
      (hland.rowNumber (by rw [backAndForth, clampRow]; omega) (by rw [backAndForth, clampRow]; omega)).validPos
    simp only [Option.bind_eq_bind, hcur, if_true, Option.bind_some]
    rw [← hcur, hseek]
    simp only [Option.bind_some, hseek', yields_some]
    exact ⟨trivial, ⟨⟨T', hR', hL'⟩, rfl, rfl, fun h => absurd hcur h, rfl, rfl⟩,
      fun _ => ⟨T', s, row, hR', hL', hleads, hP.fLeft, hland⟩⟩
  · simp only [Option.bind_eq_bind, hcur, if_false, Option.bind_some, yields_some]
    refine ⟨trivial, ⟨⟨T', freed hR hL hb hL' hmem (hR.cursor.mono ?_), hL'⟩, rfl, rfl,
      fun _ => rfl, rfl, rfl⟩, (nomatch ·)⟩
    intro r hr hpos
    refine ⟨r, ?_, rfl⟩
    rw [hL] at hr
    rw [hL']
    rcases List.mem_append.mp hr with hr | hr
    · simp only [hr, List.mem_append, true_or]
    · rcases List.mem_cons.mp hr with rfl | hr
      · exact absurd hpos hcur
      · simp only [hr, List.mem_append, or_true]

/-- `UpdateRow` with `TABLE_ROW_DELETE` takes the row out of the list. -/
theorem deleteRow_spec (hR : Represents t T) (hL : T.toList = xs ++ a :: ys) :
    Yields (t.deleteRow a.sKey) fun res => res.1 = .erSuccess ∧ Deleted t a (xs ++ ys) res.2 := by
  obtain ⟨c, l, r, hT, rfl, rfl⟩ := hR.holds.focus hL
  exact (deleteRow_lands hR hT).imp fun _ h => ⟨h.1, h.2.1⟩

/-! ## Previous rows -/

/-- The key of the last row of a list of rows of the table, read through its address. -/
theorem key_lastAddr (hH : Holds t T) (xs : List RowAt) (hsub : ∀ r ∈ xs, r ∈ T.toList) :
    (t.heap (lastAddr t.lpRoot xs)).map ECTableRow.sKey = some (lastKey xs) := by
  rw [lastAddr, lastKey]
  cases hl : xs.getLast? with
  | none =>
    obtain ⟨k, hroot⟩ := hH.has.split.1.exists
    rw [Option.map_none, Option.getD_none, hroot.get]
    rfl
  | some r =>
    obtain ⟨p, left, l, r', n, k, hcell⟩ := hH.cell (hsub r (List.mem_of_getLast? hl))
    rw [Option.map_some, Option.getD_some, hcell]
    rfl

theorem keyBefore_spec (hH : Holds t T) {s : AvlTree RowAt} {a : Addr}
    (hT : c.plug s = T) (ha : LinkedUp t.lpRoot t.heap a c) :
    keyBefore t.heap t.fuel a = some (lastKey c.before) := by
  obtain ⟨F, hF⟩ := hH.has
  have hlen := Ctx.length_le_length_plug c s
  have hfuel := hH.length_lt
  rw [hT] at hlen
  have hkey := key_lastAddr hH c.before fun r hr => by
    rw [← hT, Ctx.toList_plug]
    simp [hr]
  rw [keyBefore, climbOver_true (by omega) ha (Has.self (tableAt_focus hT hF)).split.1]
  simp only [Option.bind_eq_bind, Option.bind_some]
  rw [← hkey]
  cases t.heap (lastAddr t.lpRoot c.before) <;> rfl

/-- The key `UpdateRow` reports for a row that is put into a hole. -/
theorem prevKey_hole (hH : Holds t T) (hT : c.plug .nil = T) :
    predecessorOfNew t.heap t.fuel (holeParent t.lpRoot c) (holeLeft c) = some (lastKey c.before) := by
  rw [predecessorOfNew]
  obtain ⟨F, hF⟩ := hH.has
  cases c with
  | nil => exact key_lastAddr hH [] (by simp)
  | cons f c =>
    have hpath := (Has.self (tableAt_focus hT hF)).split.1
    cases hf : f.left
    · have hkey := key_lastAddr hH (Ctx.before (f :: c)) fun r hr => by
        rw [← hT, Ctx.toList_plug]
        simp [hr]
      simp only [holeLeft, hf, Bool.false_eq_true, if_false, holeParent]
      rw [← hkey]
      simp [lastAddr, Ctx.before, hf]
    · simp only [holeLeft, hf, if_true, holeParent]
      rw [keyBefore_spec hH (c := c) hT (linkedUp_cons hpath)]
      simp [Ctx.before, hf]

/-- The key `UpdateRow` reports for a row that stays where it is. -/
theorem prevKey_row (hH : Holds t T) (hT : Ctx.plug c (.node l a r) = T) :
    predecessorOf t.heap t.fuel a.addr (addr? l) = some (lastKey (c.before ++ l.toList)) := by
  obtain ⟨F, hF⟩ := hH.has
  have hfill := tableAt_has hT hF
  cases l with
  | nil =>
    rw [AvlTree.toList_nil, List.append_nil]
    exact keyBefore_spec hH hT (linkedUp_root hfill)
  | node l₁ x l₂ =>
    have hlen := Ctx.length_le_length_plug c (.node (.node l₁ x l₂) a r)
    have hheight := AvlTree.height_le_length (.node l₁ x l₂)
    have hfuel := hH.length_lt
    rw [hT, AvlTree.toList_node, List.length_append] at hlen
    have hright := rightmost_spec (a := x) (n := t.fuel) rfl (by omega) hfill.split.2.split.1
    have hkey := key_lastAddr hH (c.before ++ (AvlTree.node l₁ x l₂).toList) fun r' hr => by
      rw [← hT, Ctx.toList_plug, AvlTree.toList_node (.node l₁ x l₂), List.mem_append, List.mem_append]
      rcases List.mem_append.mp hr with hr | hr
      · exact .inl (.inl hr)
      · exact .inl (.inr (List.mem_append_left _ hr))
    simp only [addr?_node, predecessorOf, hright]
    rw [← hkey]
    simp [lastAddr, List.getLast?_append, List.getLast?_cons]

/-! ## Inserting -/

section Insert

variable [CollationKeys]

/-- `rowcompare` on rows of the table. -/
def rowLt (a b : RowAt) : Bool := rowcompareCols false a.sortCols b.sortCols

/-- What inserting row `r` between the lists `xs` and `ys` makes of a table. -/
structure Inserted (t : ECKeyTable) (r : RowAt) (rows : List RowAt) (fRelocateCursor : Bool)
    (t' : ECKeyTable) : Prop where
  rows : ∃ T, Represents t' T ∧ T.toList = rows
  lpRoot : t'.lpRoot = t.lpRoot
  next : t'.next = t.next + 1
  lpCurrent : t'.lpCurrent = if fRelocateCursor then some r.addr else t.lpCurrent
  mapBookmarks : t'.mapBookmarks = t.mapBookmarks
  ulBookmarkPosition : t'.ulBookmarkPosition = t.ulBookmarkPosition

omit [CollationKeys] in
/-- The table with the new row. -/
private theorem linked {T' : AvlTree RowAt} {r : RowAt} (hR : Represents t T)
    (hL : T.toList = xs ++ ys) (hr : r.addr = t.next) (hk : r.sKey ∉ T.toList.map RowAt.sKey)
    {heap : Heap} {pos : Option Addr} (hb : T'.Balanced) (hL' : T'.toList = xs ++ r :: ys)
    (hmem : tableAt t.lpRoot T' heap) (hpos : pos = some t.next ∨ pos = t.lpCurrent) : Represents { t with
        heap := heap
        next := t.next + 1
        mapRow := Function.update t.mapRow r.sKey (some t.next)
        lpCurrent := pos } T' := by
  have hperm : T'.toList.Perm (r :: T.toList) := by
    rw [hL', hL]
    exact List.perm_middle
  have hmemT (x : RowAt) : x ∈ T'.toList ↔ x = r ∨ x ∈ T.toList := by
    rw [hperm.mem_iff, List.mem_cons]
  have hvalid : ∀ p, ValidPos t.lpRoot T.toList p → ValidPos t.lpRoot T'.toList p :=
    fun p hp => hp.mono fun x hx _ => ⟨x, (hmemT x).mpr (.inr hx), rfl⟩
  refine ⟨hmem, hb, ?_, fun k b => ?_, ?_, fun x hx => ?_, ?_, fun b hb => hvalid _
    (hR.bookmarks b hb)⟩
  · rw [(hperm.map RowAt.sKey).nodup_iff, List.map_cons]
    exact List.nodup_cons.mpr ⟨hk, hR.keys⟩
  · show Function.update t.mapRow r.sKey (some t.next) k = some b ↔ _
    by_cases hkr : k = r.sKey
    · subst hkr
      rw [Function.update_self]
      constructor
      · intro h
        exact ⟨r, (hmemT r).mpr (.inl rfl), rfl, hr.trans (Option.some.inj h)⟩
      · rintro ⟨x, hx, hxk, rfl⟩
        rcases (hmemT x).mp hx with rfl | hx
        · rw [hr]
        · exact absurd (List.mem_map.mpr ⟨x, hx, hxk⟩) hk
    · rw [Function.update_of_ne hkr, hR.mapRow]
      constructor
      · rintro ⟨x, hx, h⟩
        exact ⟨x, (hmemT x).mpr (.inr hx), h⟩
      · rintro ⟨x, hx, hxk, hxa⟩
        rcases (hmemT x).mp hx with rfl | hx
        · exact absurd hxk.symm hkr
        · exact ⟨x, hx, hxk, hxa⟩
  · exact Nat.lt_succ_of_lt hR.root_lt
  · rcases (hmemT x).mp hx with rfl | hx
    · exact hr ▸ Nat.lt_succ_self _
    · exact Nat.lt_succ_of_lt (hR.addr_lt x hx)
  · rcases hpos with rfl | rfl
    · exact .inr (.inr ⟨r, (hmemT r).mpr (.inl rfl), by rw [hr]⟩)
    · exact hvalid _ hR.cursor

/-- A new row goes to the place where the search for it ends. -/
theorem insertRow_spec (hR : Represents t T) {r : RowAt} (hr : r.addr = t.next)
    (hk : r.sKey ∉ T.toList.map RowAt.sKey) (fRelocateCursor : Bool) :
    Yields (t.insertRow r.new fRelocateCursor) fun res =>
      ∃ xs ys, T.toList = xs ++ ys ∧ xs = (T.descend (rowLt r) []).before ∧
        ys = (T.descend (rowLt r) []).after ∧ res.1 = lastKey xs ∧
          Inserted t r (xs ++ r :: ys) fRelocateCursor res.2 := by
  obtain ⟨c, hc⟩ : ∃ c, c = T.descend (rowLt r) [] := ⟨_, rfl⟩
  have hT : Ctx.plug c .nil = T := by rw [hc, AvlTree.plug_descend, Ctx.plug_nil]
  have hlist : T.toList = c.before ++ c.after := by
    rw [← hT, Ctx.toList_plug, AvlTree.toList_nil, List.append_nil]
  have hbal := hR.balanced
  rw [← hT, Ctx.balanced_plug] at hbal
  have hmem := front₂ (pts_alloc r.new hR.framed hR.next_fresh)
  have hlen := hR.holds.length_lt
  have hholds : Holds { t with
      heap := Function.update t.heap t.next (some r.new), next := t.next + 1 } T :=
    ⟨(Has.self hmem).split.1, hR.balanced, lt_trans hlen (Nat.lt_succ_self _)⟩
  have hheight := AvlTree.height_le_length T
  have hsearch : searchParent (Function.update t.heap t.next (some r.new)) r.new (t.next + 1 + 1)
      t.lpRoot = some (holeParent t.lpRoot c, holeLeft c) := by
    rw [hc]
    exact searchParent_spec rfl (lt_of_le_of_lt hheight
      (lt_trans (Nat.lt_succ_self _) (lt_trans hlen (Nat.lt_succ_self _)))) hholds.has
  have hup := Ctx.up_spec (c := c) (t := .node .nil r .nil) (h := 0) (by simp [AvlTree.balanced_node])
    hbal.2 (by simp) (by simp)
  have hrows : (c.up (.node .nil r .nil)).toList = c.before ++ r :: c.after := by
    rw [Ctx.toList_up, Ctx.toList_plug]
    simp
  rw [ECKeyTable.insertRow]
  refine Yields.bind ⟨_, hsearch, rfl⟩ fun place hplace => ?_
  subst hplace
  refine Yields.bind ⟨_, prevKey_hole hholds (c := c) hT, rfl⟩ fun prev hprev => ?_
  subst hprev
  have hlen' : T.toList.length + 1 < t.next + 1 + 1 := lt_trans hlen (Nat.lt_succ_self _)
  have hlink := linkRow_spec (r := r) hT hbal.2 hlen' (by rw [hr]; exact hmem)
  rw [hr] at hlink
  refine Yields.bind hlink fun heap hheap => yields_some.mpr ?_
  refine ⟨c.before, c.after, hlist, hc ▸ rfl, hc ▸ rfl, rfl, ⟨_, ?_, hrows⟩, rfl, rfl, ?_, rfl, rfl⟩
  · refine linked hR hlist hr hk hup.1 hrows (by rwa [mul_one] at hheap) ?_
    cases fRelocateCursor <;> simp
  · show (if fRelocateCursor = true then some t.next else t.lpCurrent) = _
    rw [hr]

/-! ## UpdateRow -/

variable {cols : List SortCol} {fHidden : Bool}

/-- A new row. -/
theorem putRow_new (hR : Represents t T) {k : SObjectTableKey} (hk : k ∉ T.toList.map RowAt.sKey) :
    Yields (t.putRow k cols fHidden) fun res =>
      ∃ xs ys, T.toList = xs ++ ys ∧ xs = (T.descend (rowLt ⟨t.next, k, cols, fHidden⟩) []).before ∧
        ys = (T.descend (rowLt ⟨t.next, k, cols, fHidden⟩) []).after ∧
          res.er = .erSuccess ∧ res.lpsPrevRow = some (lastKey xs) ∧ res.lpulAction = some .TABLE_ROW_ADD ∧
              Inserted t ⟨t.next, k, cols, fHidden⟩ (xs ++ ⟨t.next, k, cols, fHidden⟩ :: ys) false res.table := by
  rw [ECKeyTable.putRow, hR.mapRow_eq_none.mpr hk]
  refine (insertRow_spec (r := ⟨t.next, k, cols, fHidden⟩) hR rfl hk false).bind fun res hres => ?_
  obtain ⟨xs, ys, hL, hxs, hys, hprev, hins⟩ := hres
  exact yields_some.mpr ⟨xs, ys, hL, hxs, hys, rfl, congrArg some hprev, rfl, hins⟩

/-- A row with the sort data it already has stays where it is, and keeps its hidden flag. -/
theorem putRow_same (hR : Represents t T) (hL : T.toList = xs ++ a :: ys)
    (h1 : ¬ rowcompareCols false a.sortCols cols) (h2 : ¬ rowcompareCols false cols a.sortCols) :
    t.putRow a.sKey cols fHidden = some ⟨.erSuccess, some (lastKey xs), some .TABLE_ROW_MODIFY, t⟩ := by
  obtain ⟨c, l, r, hT, hxs, -⟩ := hR.holds.focus hL
  obtain ⟨F, hF⟩ := hR.holds.has
  have hcell := (tableAt_has hT hF).split.1.get
  have hsame : (!rowcompareCols false a.sortCols cols && !rowcompareCols false cols a.sortCols) =
      true := by simp [h1, h2]
  rw [ECKeyTable.putRow, hR.mapRow_of_mem (by simp [hL])]
  simp only [hcell, Option.bind_eq_bind, Option.bind_some, ECTableRow.rowcompare, RowAt.cell,
    ECTableRow.new, Bool.not_false, Bool.and_true, Bool.false_eq_true, if_false, hsame, if_true,
    prevKey_row hR.holds hT, hxs]

/-- A row with other sort data is taken out and put where a new row goes. -/
theorem putRow_moved (hR : Represents t T) (hL : T.toList = xs ++ a :: ys)
    (h : rowcompareCols false a.sortCols cols ∨ rowcompareCols false cols a.sortCols) :
    Yields (t.putRow a.sKey cols fHidden) fun res =>
      ∃ t₁ T₁ xs' ys', Deleted t a (xs ++ ys) t₁ ∧ Represents t₁ T₁ ∧ T₁.toList = xs ++ ys ∧ xs ++ ys = xs' ++ ys' ∧
          xs' = (T₁.descend (rowLt ⟨t.next, a.sKey, cols, fHidden⟩) []).before ∧
            res.er = .erSuccess ∧ res.lpsPrevRow = some (lastKey xs') ∧ res.lpulAction = some .TABLE_ROW_MODIFY ∧
                Inserted t₁ ⟨t.next, a.sKey, cols, fHidden⟩
                  (xs' ++ ⟨t.next, a.sKey, cols, fHidden⟩ :: ys') (t.lpCurrent = some a.addr) res.table := by
  have ha : a ∈ T.toList := by simp [hL]
  obtain ⟨p, left, x, y, n, k, hmap, hcell⟩ := hR.cell_of_key ha
  have hdiff : (!rowcompareCols false a.sortCols cols && !rowcompareCols false cols a.sortCols) =
      false := by
    rcases h with h | h <;> simp [h]
  rw [ECKeyTable.putRow, hmap]
  simp only [hcell, Option.bind_eq_bind, Option.bind_some, ECTableRow.rowcompare, RowAt.cell,
    ECTableRow.new, Bool.not_false, Bool.and_true, Bool.false_eq_true, if_false, hdiff]
  refine (deleteRow_spec hR hL).bind fun res hres => ?_
  obtain ⟨er, t₁⟩ := res
  obtain ⟨her, hdel⟩ := hres
  subst her
  obtain ⟨T₁, hR₁, hL₁⟩ := hdel.rows
  have hkeys := hR.keys
  rw [hL, List.map_append, List.map_cons] at hkeys
  have hfresh : a.sKey ∉ T₁.toList.map RowAt.sKey := by
    have hperm : (xs.map RowAt.sKey ++ a.sKey :: ys.map RowAt.sKey).Perm
        (a.sKey :: (xs.map RowAt.sKey ++ ys.map RowAt.sKey)) := List.perm_middle
    rw [hL₁, List.map_append]
    exact (List.nodup_cons.mp (hperm.nodup_iff.mp hkeys)).1
  simp only [ne_eq, not_true, if_false]
  refine (insertRow_spec (r := ⟨t.next, a.sKey, cols, fHidden⟩) hR₁ hdel.next.symm hfresh
    (t.lpCurrent = some a.addr)).bind fun res hres => ?_
  obtain ⟨xs', ys', hL', hxs, -, hprev, hins⟩ := hres
  exact yields_some.mpr ⟨t₁, T₁, xs', ys', hdel, hR₁, hL₁, hL₁ ▸ hL', hxs, rfl,
    congrArg some hprev, rfl, hins⟩

end Insert

end Zcp.Common
