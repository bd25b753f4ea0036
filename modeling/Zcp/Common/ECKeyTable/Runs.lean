import Zcp.Common.ECKeyTable.Clear
import Zcp.Common.ECKeyTable.Rows

/-!
# Runs of the key table

Every run of calls returns, and leaves a table that is a balanced tree (`run_spec`). When all rows can
be compared, the table refines the list of `Rows.lean`.
-/

namespace Zcp.Common

open Zcp.Lib

/-- A call on a key table. -/
inductive TableOp where
  | updateRow (ulType : UpdateType) (lpsRowItem : SObjectTableKey) (sortCols : List SortCol)
      (fHidden : Bool)
  | updatePartialSortKey (lpsRowItem : SObjectTableKey) (ulColumn : ℕ) (sortCol : SortCol)
  | hideRows (lpsRowItem : SObjectTableKey)
  | unhideRows (lpsRowItem : SObjectTableKey)
  | seekRow (lbkOrgin : ℕ) (lSeekTo : ℤ)
  | seekId (lpsRowItem : SObjectTableKey)
  | queryRows (ulRows : ℕ) (bDirBackward noAdvance bShowHidden : Bool)
  | clear
  | createBookmark
  | freeBookmark (ulbkPosition : ℕ)

variable [CollationKeys]

/-- What a call leaves. -/
def TableOp.step (t : ECKeyTable) : TableOp → Option ECKeyTable
  | .updateRow ulType k cols fHidden => do some (← t.updateRow ulType k cols fHidden).table
  | .updatePartialSortKey k ulColumn col => do some (← t.updatePartialSortKey k ulColumn col).1.table
  | .hideRows k => do some (← t.hideRows k).2.2
  | .unhideRows k => do some (← t.unhideRows k).2.2
  | .seekRow lbkOrgin lSeekTo => do some (← t.seekRow lbkOrgin lSeekTo).2.2
  | .seekId k => some (t.seekId k).2
  | .queryRows n bDirBackward noAdvance bShowHidden => do
    some (← t.queryRows n bDirBackward noAdvance bShowHidden).2
  | .clear => t.clear
  | .createBookmark => do some (← t.createBookmark).2.2
  | .freeBookmark n => some (t.freeBookmark n).2

/-- What a call does to the list of the rows. -/
def TableOp.apply (rows : List Row) : TableOp → List Row
  | .updateRow .TABLE_ROW_ADD k cols fHidden => Row.put ⟨k, cols, fHidden⟩ rows
  | .updateRow .TABLE_ROW_MODIFY k cols fHidden => Row.put ⟨k, cols, fHidden⟩ rows
  | .updateRow .TABLE_ROW_DELETE k _ _ => Row.delete k rows
  | .updatePartialSortKey k ulColumn col => Row.putColumn k ulColumn col rows
  | .hideRows k => Row.hide k rows
  | .unhideRows k => Row.unhideBelow k rows
  | .clear => []
  | _ => rows

/-- The rows of a call use the flags of the table and can be compared. -/
def TableOp.Fits (fl : ColumnFlags) : TableOp → Prop
  | .updateRow _ _ cols _ => FitsFlags fl cols
  | .updatePartialSortKey _ ulColumn col => col.Fits (fl ulColumn)
  | _ => True

/-- The rows of a call use the flags of the table. -/
def TableOp.UsesFlags (fl : ColumnFlags) : TableOp → Prop
  | .updateRow _ _ cols _ => SameFlags fl cols
  | .updatePartialSortKey _ ulColumn col => col.flags = fl ulColumn
  | _ => True

/-- The table after a list of calls. -/
def run (t : ECKeyTable) (ops : List TableOp) : Option ECKeyTable := ops.foldlM TableOp.step t

/-- A table that some run of calls leaves. -/
def Reachable (t : ECKeyTable) : Prop := ∃ ops, run .new ops = some t

/-! ## Steps -/

variable {t : ECKeyTable} {T : AvlTree RowAt}

omit [CollationKeys] in
/-- The new table has no rows. -/
theorem represents_new : Represents .new .nil where
  memory := by
    rw [tableAt, fillAt, treeAt, mul_one]
    refine ⟨0, funext fun a => ?_⟩
    rw [ECKeyTable.new, Function.update_apply]
    rfl
  balanced := trivial
  keys := List.nodup_nil
  mapRow k a := by simp [ECKeyTable.new]
  root_lt := Nat.zero_lt_one
  addr_lt := by simp
  cursor := .inr (.inl rfl)
  bookmarks := by simp [ECKeyTable.new]

/-- What a call makes of the rows of `T`. -/
def Stepped (T : AvlTree RowAt) (op : TableOp) (t' : ECKeyTable) : Prop :=
  ∃ T', Represents t' T' ∧ ∀ fl, Row.InOrder fl (rowsOf T) → op.Fits fl →
    rowsOf T' = op.apply (rowsOf T)

/-- A call that keeps the rows. -/
private theorem stepped_keep {op : TableOp} {t' : ECKeyTable} (hR : Represents t' T)
    (hop : op.apply (rowsOf T) = rowsOf T) : Stepped T op t' :=
  ⟨T, hR, fun _ _ _ => hop.symm⟩

theorem updateRow_step (hR : Represents t T) (ulType : UpdateType) (k : SObjectTableKey)
    (cols : List SortCol) (fHidden : Bool) : Yields (t.updateRow ulType k cols fHidden) fun res =>
      Stepped T (.updateRow ulType k cols fHidden) res.table := by
  have hput : Yields (t.putRow k cols fHidden) fun res => ∃ T', Represents res.table T' ∧
      ∀ fl, Row.InOrder fl (rowsOf T) → FitsFlags fl cols →
        rowsOf T' = Row.put ⟨k, cols, fHidden⟩ (rowsOf T) := by
    refine (putRow_rows hR k cols fHidden).imp fun res hres => ?_
    obtain ⟨-, T', hR', -, hrows⟩ := hres
    exact ⟨T', hR', hrows⟩
  cases ulType with
  | TABLE_ROW_ADD => exact hput
  | TABLE_ROW_MODIFY => exact hput
  | TABLE_ROW_DELETE =>
    refine (deleteRow_rows hR k).bind fun res hres => ?_
    obtain ⟨T', hR', hrows⟩ := hres
    exact yields_some.mpr ⟨T', hR', fun _ _ _ => hrows⟩
  | _ => exact yields_some.mpr (stepped_keep hR rfl)

/-- `UpdatePartialSortKey` updates a row that is there with one other column. -/
theorem updatePartialSortKey_step (hR : Represents t T) (k : SObjectTableKey) (ulColumn : ℕ) (col : SortCol) :
    Yields (t.updatePartialSortKey k ulColumn col) fun res =>
      Stepped T (.updatePartialSortKey k ulColumn col) res.1.table := by
  rw [ECKeyTable.updatePartialSortKey, ECKeyTable.getRow, ECKeyTable.seekId]
  rcases hR.key_cases k with ⟨hmap, hk⟩ | ⟨xs, a, ys, hL, rfl⟩
  · rw [hmap]
    refine yields_some.mpr (stepped_keep hR ?_)
    rw [TableOp.apply, Row.putColumn, Row.find_eq_none hk]
  · obtain ⟨p, left, x, y, n, m, hmap, hcell⟩ := hR.cell_of_key (a := a) (by simp [hL])
    have hfind : Row.find a.sKey (rowsOf T) = some a.row := by
      have hn := hR.nodup
      rw [rowsOf_split hL] at hn ⊢
      exact Row.find_split hn
    simp only [hmap, hcell, Option.bind_eq_bind, Option.bind_some, RowAt.cell]
    by_cases hcol : ulColumn ≥ a.sortCols.length
    · rw [if_pos hcol]
      refine yields_some.mpr (stepped_keep hR ?_)
      rw [TableOp.apply, Row.putColumn, hfind]
      exact if_pos hcol
    · rw [if_neg hcol]
      refine (updateRow_step hR .TABLE_ROW_MODIFY a.sKey (a.sortCols.set ulColumn col)
        a.fHidden).bind fun res hres => yields_some.mpr ?_
      obtain ⟨T', hR', hrows⟩ := hres
      refine ⟨T', hR', fun fl ho hfit => ?_⟩
      have hset : FitsFlags fl (a.sortCols.set ulColumn col) :=
        (ho.fits a.row (List.mem_of_find?_eq_some hfind)).set hfit
      rw [hrows fl ho hset, TableOp.apply, TableOp.apply, Row.putColumn, hfind]
      exact (if_neg hcol).symm

/-- A call returns, and does to the rows what it does to the list. -/
theorem step_spec (hR : Represents t T) (op : TableOp) : Yields (op.step t) (Stepped T op) := by
  cases op with
  | updateRow ulType k cols fHidden =>
    exact (updateRow_step hR ulType k cols fHidden).bind fun _ hres => yields_some.mpr hres
  | updatePartialSortKey k ulColumn col =>
    exact (updatePartialSortKey_step hR k ulColumn col).bind fun _ hres => yields_some.mpr hres
  | hideRows k =>
    refine (hideRows_rows hR k).bind fun res hres => yields_some.mpr ?_
    obtain ⟨T', hR', hrows⟩ := hres
    exact ⟨T', hR', fun _ _ _ => hrows⟩
  | unhideRows k =>
    refine (unhideRows_rows hR k).bind fun res hres => yields_some.mpr ?_
    obtain ⟨T', hR', hrows⟩ := hres
    exact ⟨T', hR', fun _ _ _ => hrows⟩
  | seekRow lbkOrgin lSeekTo =>
    obtain ⟨er, sought, pos, hseek, hpos⟩ := seekRow_valid hR lbkOrgin lSeekTo
    rw [TableOp.step, hseek]
    exact yields_some.mpr (stepped_keep (hR.setCursor hpos) rfl)
  | seekId k =>
    refine yields_some.mpr (stepped_keep ?_ rfl)
    rw [ECKeyTable.seekId]
    rcases hR.key_cases k with ⟨hmap, -⟩ | ⟨xs, a, ys, hL, rfl⟩
    · rw [hmap]
      exact hR
    · have ha : a ∈ T.toList := by simp [hL]
      rw [hR.mapRow_of_mem ha]
      exact hR.setCursor (.inr (.inr ⟨a, ha, rfl⟩))
  | queryRows n bDirBackward noAdvance bShowHidden =>
    obtain ⟨keys, pos, hread, hpos⟩ := queryRows_valid hR n bDirBackward noAdvance bShowHidden
    rw [TableOp.step, hread]
    exact yields_some.mpr (stepped_keep (hR.setCursor hpos) rfl)
  | clear =>
    refine (clear_spec hR).imp fun t' ht' => ?_
    obtain ⟨heap, hR', -⟩ := ht'
    exact ⟨.nil, hR', fun _ _ _ => rfl⟩
  | createBookmark =>
    rw [TableOp.step, ECKeyTable.createBookmark]
    split_ifs
    · exact yields_some.mpr (stepped_keep hR rfl)
    · obtain ⟨n, hn⟩ := hR.cursor.rowNumber
      rw [ECKeyTable.getRowCount, currentRow_spec hR.holds hn, rowCount_spec hR.holds.has]
      refine yields_some.mpr (stepped_keep { hR with bookmarks := fun b hb => ?_ } rfl)
      rcases List.mem_append.mp hb with hb | hb
      · exact hR.bookmarks b hb
      · rw [List.mem_singleton] at hb
        subst hb
        exact hR.cursor
  | freeBookmark n =>
    refine yields_some.mpr (stepped_keep ?_ rfl)
    rw [ECKeyTable.freeBookmark]
    cases t.mapBookmarks.lookup n with
    | none => exact hR
    | some b => exact { hR with bookmarks := fun b hb => hR.bookmarks b (List.mem_of_mem_filter hb) }

/-- A call keeps the order of the list. -/
theorem Row.InOrder.apply {fl : ColumnFlags} {rows : List Row} {op : TableOp}
    (ho : Row.InOrder fl rows) (hop : op.Fits fl) : Row.InOrder fl (op.apply rows) := by
  cases op with
  | updateRow ulType k cols fHidden =>
    cases ulType with
    | TABLE_ROW_ADD => exact ho.put (r := ⟨k, cols, fHidden⟩) hop
    | TABLE_ROW_MODIFY => exact ho.put (r := ⟨k, cols, fHidden⟩) hop
    | TABLE_ROW_DELETE => exact ho.delete
    | _ => exact ho
  | updatePartialSortKey k ulColumn col => exact ho.putColumn hop
  | hideRows k => exact ho.hide
  | unhideRows k => exact ho.unhideBelow
  | clear => exact Row.inOrder_nil fl
  | _ => exact ho

/-! ## Runs -/

/-- Every run returns and leaves a balanced tree. When the rows of all calls can be compared, its rows
are the list that the calls make, in order. -/
theorem run_spec (hR : Represents t T) (ops : List TableOp) : Yields (run t ops) fun t' => ∃ T', Represents t' T' ∧
      ∀ fl, Row.InOrder fl (rowsOf T) → (∀ op ∈ ops, op.Fits fl) →
        rowsOf T' = ops.foldl TableOp.apply (rowsOf T) ∧ Row.InOrder fl (rowsOf T') := by
  induction ops generalizing t T with
  | nil => exact ⟨t, rfl, T, hR, fun _ ho _ => ⟨rfl, ho⟩⟩
  | cons op ops ih =>
    rw [run, List.foldlM_cons]
    refine (step_spec hR op).bind fun t₁ ht₁ => ?_
    obtain ⟨T₁, hR₁, hrows₁⟩ := ht₁
    refine (ih hR₁).imp fun t' ht' => ?_
    obtain ⟨T', hR', hrows'⟩ := ht'
    refine ⟨T', hR', fun fl ho hfit => ?_⟩
    have hop : op.Fits fl := hfit op (by simp)
    have heq := hrows₁ fl ho hop
    have ho₁ : Row.InOrder fl (rowsOf T₁) := heq ▸ ho.apply hop
    obtain ⟨hlist, ho'⟩ := hrows' fl ho₁ fun op' h => hfit op' (List.mem_cons_of_mem op h)
    exact ⟨by rw [hlist, heq, List.foldl_cons], ho'⟩

/-- Every run from the new table. -/
theorem run_new (ops : List TableOp) : Yields (run .new ops) fun t => ∃ T, Represents t T ∧
      ∀ fl, (∀ op ∈ ops, op.Fits fl) → rowsOf T = ops.foldl TableOp.apply [] ∧ Row.InOrder fl (rowsOf T) := by
  refine (run_spec represents_new ops).imp fun t ht => ?_
  obtain ⟨T, hR, hrows⟩ := ht
  exact ⟨T, hR, fun fl hfit => hrows fl (Row.inOrder_nil fl) hfit⟩

/-! ## The invariant -/

/-- In every state of every run, the table is a balanced tree whose links, heights and counts are
right, its rows are in order, and `mapRow` finds exactly its rows. -/
theorem run_invariant (fl : ColumnFlags) (ops : List TableOp) (hops : ∀ op ∈ ops, op.Fits fl) :
    Yields (run .new ops) fun t => ∃ T, Represents t T ∧ NonDecreasing rowLt T.toList := by
  refine (run_new ops).imp fun t ht => ?_
  obtain ⟨T, hR, hrows⟩ := ht
  obtain ⟨-, ho⟩ := hrows fl hops
  exact ⟨T, hR, List.pairwise_map.mp ho.sorted⟩

/-- A call that adds a row with one sort column. -/
def addRow (n : ℕ) (key : List UInt8) (flags : UInt8) : TableOp :=
  .updateRow .TABLE_ROW_ADD ⟨n, 0⟩ [⟨key, flags⟩] false

omit [CollationKeys] in
theorem addRow_fits {fl : ColumnFlags} {n : ℕ} {key : List UInt8} {flags : UInt8}
    (h : FitsFlags fl [⟨key, flags⟩]) : (addRow n key flags).Fits fl := h

omit [CollationKeys] in
theorem run_invariant_three :
    Yields (@run .bytewise .new [addRow 1 [10] 0, addRow 2 [20] 0, addRow 3 [15] 0]) fun t =>
      ∃ T, Represents t T ∧ NonDecreasing (@rowLt .bytewise) T.toList :=
  @run_invariant .bytewise (fun _ => 0) _ fun op hop => by
    simp only [List.mem_cons, List.not_mem_nil, or_false] at hop
    rcases hop with rfl | rfl | rfl <;> exact addRow_fits (by decide)

/-- A double that is not a number. -/
def nan : List UInt8 := [0, 0, 0, 0, 0, 0, 0xf8, 0x7f]

omit [CollationKeys] in
/-- With a descending column that holds a NaN, each of two rows is smaller than the other. -/
theorem run_invariant_nan : ∃ t T, (∀ op ∈ [addRow 1 nan 3, addRow 2 nan 3], op.UsesFlags fun _ => 3) ∧
      @run .bytewise .new [addRow 1 nan 3, addRow 2 nan 3] = some t ∧ Represents t T ∧
        ¬ NonDecreasing (@rowLt .bytewise) T.toList := by
  let _ : CollationKeys := .bytewise
  obtain ⟨t, ht, T, hR, -⟩ := run_new [addRow 1 nan 3, addRow 2 nan 3]
  refine ⟨t, T, ?_, ht, hR, ?_⟩
  · intro op hop
    simp only [List.mem_cons, List.not_mem_nil, or_false] at hop
    rcases hop with rfl | rfl <;> exact ⟨rfl, trivial⟩
  · have hcells : (run .new [addRow 1 nan 3, addRow 2 nan 3]).map (fun t =>
        (t.mapRow ⟨1, 0⟩, t.mapRow ⟨2, 0⟩, (t.heap 1).map (·.sortCols), (t.heap 2).map (·.sortCols))) =
          some (some 1, some 2, some [⟨nan, 3⟩], some [⟨nan, 3⟩]) := by decide +kernel
    rw [ht, Option.map_some, Option.some.injEq] at hcells
    simp only [Prod.mk.injEq] at hcells
    obtain ⟨h1, h2, hc1, hc2⟩ := hcells
    obtain ⟨a, ha, hak, haa⟩ := (hR.mapRow _ _).mp h1
    obtain ⟨b, hb, hbk, hba⟩ := (hR.mapRow _ _).mp h2
    have hcols {r : RowAt} {x : Addr} (hr : r ∈ T.toList) (hx : r.addr = x)
        (hc : (t.heap x).map (·.sortCols) = some [⟨nan, 3⟩]) : r.sortCols = [⟨nan, 3⟩] := by
      obtain ⟨p, left, l, r', n, m, hcell⟩ := hR.holds.cell hr
      rw [← hx, hcell, Option.map_some, Option.some.injEq] at hc
      exact hc
    have hlt : rowcompareCols false [⟨nan, 3⟩] [⟨nan, 3⟩] = true := by decide
    have hab : rowLt a b = true := by rw [rowLt, hcols ha haa hc1, hcols hb hba hc2, hlt]
    have hba' : rowLt b a = true := by rw [rowLt, hcols ha haa hc1, hcols hb hba hc2, hlt]
    intro hs
    obtain ⟨xs, ys, hL⟩ := List.append_of_mem ha
    rw [NonDecreasing, hL, List.pairwise_append, List.pairwise_cons] at hs
    rw [hL, List.mem_append, List.mem_cons] at hb
    rcases hb with hb | rfl | hb
    · exact hs.2.2 b hb a (by simp) hab
    · rw [hak] at hbk
      cases hbk
    · exact hs.2.1.1 b hb hba'

/-! ## The list of the rows -/

/-- A run makes the list that its calls make: reading from the first row on returns the visible rows
of the list, and every added or modified row reports the row before it in the list. -/
theorem run_list (fl : ColumnFlags) (ops : List TableOp) (hops : ∀ op ∈ ops, op.Fits fl) :
    Yields (run .new ops) fun t => (∀ n noAdvance, (Row.visible (ops.foldl TableOp.apply [])).length ≤ n →
        Yields (t.seekRow EC_SEEK_SET 0) fun (_, _, t₁) =>
          Yields (t₁.queryRows n false noAdvance false) fun (keys, _) =>
            keys = (Row.visible (ops.foldl TableOp.apply [])).map Row.sKey) ∧
      ∀ ulType k cols fHidden, ulType = .TABLE_ROW_ADD ∨ ulType = .TABLE_ROW_MODIFY →
        FitsFlags fl cols → Yields (t.updateRow ulType k cols fHidden) fun res =>
          res.er = .erSuccess ∧ res.lpsPrevRow = some
            (Row.prevKey k (Row.put ⟨k, cols, fHidden⟩ (ops.foldl TableOp.apply []))) := by
  refine (run_new ops).imp fun t ht => ?_
  obtain ⟨T, hR, hrows⟩ := ht
  obtain ⟨hlist, ho⟩ := hrows fl hops
  rw [← hlist]
  constructor
  · intro n noAdvance hn
    obtain ⟨k, hk⟩ := hR.cursor.rowNumber
    obtain ⟨pos, hseek, hland⟩ := seekRow_set_lands hR.holds (currentRow_spec hR.holds hk) 0
    have hzero : clampRow (count T) 0 = 0 := by rw [clampRow]; omega
    rw [hzero] at hland
    have hnum := hland.rowNumber le_rfl (by omega)
    obtain ⟨pos', hread, -⟩ := queryRows_forward (hR.setCursor hnum.validPos) hnum n noAdvance
    refine ⟨_, hseek, _, hread, ?_⟩
    rw [length_visible_rowsOf, count_eq_visibleRows, ← length_visibleList] at hn
    rw [visible_rowsOf, Int.toNat_zero, List.drop_zero, List.take_of_length_le hn]
  · intro ulType k cols fHidden htype hfit
    have hput : Yields (t.putRow k cols fHidden) fun res => res.er = .erSuccess ∧
        res.lpsPrevRow = some (Row.prevKey k (Row.put ⟨k, cols, fHidden⟩ (rowsOf T))) := by
      refine (putRow_rows hR k cols fHidden).imp fun res hres => ?_
      obtain ⟨her, T', -, hprev, hrows'⟩ := hres
      exact ⟨her, by rw [hprev, hrows' fl ho hfit]⟩
    rcases htype with rfl | rfl
    · exact hput
    · exact hput

omit [CollationKeys] in
theorem run_list_two : Yields (@run .bytewise .new [addRow 1 [10] 0, addRow 2 [20] 0]) fun t =>
      Yields (@ECKeyTable.updateRow t .bytewise .TABLE_ROW_ADD ⟨3, 0⟩ [⟨[15], 0⟩] false) fun res =>
        res.er = .erSuccess ∧ res.lpsPrevRow = some ⟨1, 0⟩ := by
  let _ : CollationKeys := .bytewise
  refine (run_list (fun _ => 0) [addRow 1 [10] 0, addRow 2 [20] 0] fun op hop => ?_).imp fun t ht => ?_
  · simp only [List.mem_cons, List.not_mem_nil, or_false] at hop
    rcases hop with rfl | rfl <;> exact addRow_fits (by decide)
  · exact ht.2 .TABLE_ROW_ADD ⟨3, 0⟩ [⟨[15], 0⟩] false (.inl rfl) (by decide)

/-- Rows with the doubles 3, NaN, 4, NaN and 2. -/
def nanRows : List TableOp :=
  [addRow 1 [0, 0, 0, 0, 0, 0, 8, 0x40] 2, addRow 2 nan 2, addRow 3 [0, 0, 0, 0, 0, 0, 0x10, 0x40] 2,
    addRow 4 nan 2, addRow 5 [0, 0, 0, 0, 0, 0, 0, 0x40] 2]

omit [CollationKeys] in
/-- With a NaN, the last of the rows is not in front of the first row that is greater, and not behind
all that are not. -/
theorem run_list_nan : letI : CollationKeys := .bytewise
    (∀ op ∈ nanRows, op.UsesFlags fun _ => 2) ∧
      (do
        let (_, _, t) ← (← run .new nanRows).seekRow EC_SEEK_SET 0
        let (keys, _) ← t.queryRows 5 false true false
        some keys) = some [⟨1, 0⟩, ⟨2, 0⟩, ⟨5, 0⟩, ⟨3, 0⟩, ⟨4, 0⟩] ∧
      (Row.visible (nanRows.foldl TableOp.apply [])).map Row.sKey =
        [⟨5, 0⟩, ⟨1, 0⟩, ⟨2, 0⟩, ⟨3, 0⟩, ⟨4, 0⟩] := by
  refine ⟨fun op hop => ?_, by decide +kernel, by decide +kernel⟩
  simp only [nanRows, List.mem_cons, List.not_mem_nil, or_false] at hop
  rcases hop with rfl | rfl | rfl | rfl | rfl <;> exact ⟨rfl, trivial⟩

/-! ## Positions -/

/-- `SeekRow` moves to the clamped row number, `GetRowCount` reports it, and `QueryRows` reads the
visible rows from there on. -/
theorem seekRow_queryRows (ops : List TableOp) (k : ℤ) (n : ℕ) (noAdvance : Bool) :
    Yields (run .new ops) fun t => ∃ T, Represents t T ∧ Yields (t.seekRow EC_SEEK_SET k) fun (er, sought, t₁) =>
        er = .erSuccess ∧ sought = some (clampRow (count T) k) ∧
          t₁.getRowCount = some (count T, clampRow (count T) k) ∧
            Yields (t₁.queryRows n false noAdvance false) fun (keys, _) =>
              keys = (((visibleList T.toList).drop (clampRow (count T) k).toNat).take n).map RowAt.sKey := by
  refine (run_new ops).imp fun t ht => ?_
  obtain ⟨T, hR, -⟩ := ht
  refine ⟨T, hR, ?_⟩
  obtain ⟨m, hm⟩ := hR.cursor.rowNumber
  obtain ⟨pos, hseek, hland⟩ := seekRow_set_lands hR.holds (currentRow_spec hR.holds hm) k
  have h0 : 0 ≤ clampRow (count T) k := by rw [clampRow]; omega
  have hV : clampRow (count T) k ≤ count T := by rw [clampRow]; omega
  have hnum := hland.rowNumber h0 hV
  have hR' := hR.setCursor hnum.validPos
  obtain ⟨pos', hread, -⟩ := queryRows_forward hR' hnum n noAdvance
  refine ⟨_, hseek, rfl, rfl, ?_, _, hread, rfl⟩
  rw [ECKeyTable.getRowCount, currentRow_spec hR'.holds hnum, rowCount_spec hR'.holds.has,
    Int.toNat_of_nonneg h0]
  rfl

/-! ## Reading backward -/

/-- `QueryRows` backward with `EC_TABLE_NOADVANCE` returns the last `n` visible rows of a list,
backward, and only keys of the table. -/
def ReadsBack (t : ECKeyTable) (rows : List RowAt) (n : ℕ) : Prop :=
  ∃ keys t', t.queryRows n true true false = some (keys, t') ∧
    keys = ((visibleList rows).reverse.take n).map RowAt.sKey ∧ ∀ k ∈ keys, t.mapRow k ≠ none

/-- Whether reading `n` rows backward from row `a` behind the rows `xs` ends in time. In front of the
root of the tree, the sentinel must not be reached; behind it, the root must not cut off rows. -/
def EndsInTime (T : AvlTree RowAt) (xs : List RowAt) (a : RowAt) (n : ℕ) : Prop :=
  match T with
  | .nil => False
  | .node l _ _ =>
    if xs.length < l.toList.length then
      n ≤ visibleRows (xs ++ [a]) ∨ visibleRows (xs ++ [a]) = count T
    else
      n ≤ visibleRows ((xs ++ [a]).drop l.toList.length) ∨ visibleRows l.toList = 0

omit [CollationKeys] in
private theorem readsBack_eq (hR : Represents t T) {xs ys : List RowAt} {a : RowAt}
    (hL : T.toList = xs ++ a :: ys) (hcur : t.lpCurrent = some a.addr) (n : ℕ) : ReadsBack t (xs ++ [a]) n ↔
      readBack (addr? T) false (xs ++ [a]).reverse (min n (count T)) =
        ((visibleList (xs ++ [a])).reverse.take n).map RowAt.sKey := by
  have hread := queryRows_backward hR hL hcur n
  have hrev : a :: xs.reverse = (xs ++ [a]).reverse := by simp
  rw [hrev] at hread
  constructor
  · rintro ⟨keys, t', hkeys, heq, -⟩
    rw [hread, Option.some.injEq, Prod.mk.injEq] at hkeys
    exact hkeys.1.trans heq
  · intro heq
    refine ⟨_, _, hread, heq, fun k hk => ?_⟩
    rw [heq] at hk
    obtain ⟨r, hr, rfl⟩ := List.mem_map.mp hk
    have hmem : r ∈ xs ++ [a] := List.mem_of_mem_filter (List.mem_reverse.mp (List.mem_of_mem_take hr))
    have hT : r ∈ T.toList := by
      rw [hL, List.append_cons]
      exact List.mem_append_left _ hmem
    rw [hR.mapRow_of_mem hT]
    exact Option.some_ne_none _

omit [CollationKeys] in
private theorem take_min_of_le {α : Type*} {l : List α} {n V : ℕ} (hV : l.length ≤ V) :
    l.take (min n V) = l.take n := by
  by_cases hn : n ≤ V
  · rw [min_eq_left hn]
  · rw [min_eq_right (by omega), List.take_of_length_le hV, List.take_of_length_le (by omega)]

omit [CollationKeys] in
/-- In front of the root, the sentinel follows when more rows are asked for than there are. -/
private theorem readBack_front {stop : Option Addr} {rows : List RowAt} {n V : ℕ}
    (hs : ∀ x ∈ rows, stop ≠ some x.addr) (hV : visibleRows rows ≤ V) :
    readBack stop false rows.reverse (min n V) = ((visibleList rows).reverse.take n).map RowAt.sKey ↔
      n ≤ visibleRows rows ∨ visibleRows rows = V := by
  have hlen : (visibleList rows).reverse.length = visibleRows rows := by
    rw [List.length_reverse, length_visibleList]
  rw [readBack_reverse hs, take_min_of_le (by omega)]
  constructor
  · intro heq
    by_contra hno
    rw [if_pos (by omega)] at heq
    have h := congrArg List.length heq
    simp at h
  · intro hyes
    rw [if_neg (by omega), List.append_nil]

omit [CollationKeys] in
/-- From the root on, the rows in front of it are missing. -/
private theorem readBack_behind {root : RowAt} {ls rs : List RowAt} {n V : ℕ}
    (hs : ∀ x ∈ rs, x.addr ≠ root.addr) (hV : visibleRows (ls ++ root :: rs) ≤ V) :
    readBack (some root.addr) false (ls ++ root :: rs).reverse (min n V) =
        ((visibleList (ls ++ root :: rs)).reverse.take n).map RowAt.sKey ↔
      n ≤ visibleRows (root :: rs) ∨ visibleRows ls = 0 := by
  have hq : (visibleList (root :: rs)).reverse.length = visibleRows (root :: rs) := by
    rw [List.length_reverse, length_visibleList]
  rw [visibleRows_append] at hV
  rw [readBack_reverse_root hs, take_min_of_le (by omega), visibleList_append, List.reverse_append]
  constructor
  · intro heq
    by_contra hno
    have h := congrArg List.length heq
    rw [List.length_map, List.length_map, List.length_take, List.length_take, List.length_append,
      hq, List.length_reverse, length_visibleList] at h
    omega
  · rintro (hn | hz)
    · rw [List.take_append_of_le_length (by omega)]
    · have hnil : visibleList ls = [] := by
        rw [← List.length_eq_zero_iff, length_visibleList, hz]
      rw [hnil, List.reverse_nil, List.append_nil]

/-- Reading backward from a visible row returns what it should exactly when it ends in time. -/
theorem queryRows_backward_iff (ops : List TableOp) : Yields (run .new ops) fun t => ∃ T, Represents t T ∧
      ∀ xs a ys n, T.toList = xs ++ a :: ys → a.fHidden = false → t.lpCurrent = some a.addr →
        (ReadsBack t (xs ++ [a]) n ↔ EndsInTime T xs a n) := by
  refine (run_new ops).imp fun t ht => ?_
  obtain ⟨T, hR, -⟩ := ht
  refine ⟨T, hR, fun xs a ys n hL _ hcur => ?_⟩
  rw [readsBack_eq hR hL hcur]
  have hprefix : T.toList = (xs ++ [a]) ++ ys := by simp [hL]
  have hV : visibleRows (xs ++ [a]) ≤ count T := by
    rw [count_eq_visibleRows, hprefix, visibleRows_append (xs ++ [a])]
    omega
  have hnodup := (List.nodup_cons.mp hR.holds.addrs_nodup).2
  cases T with
  | nil => simp at hL
  | node l root r =>
    have hsplit : l.toList ++ root :: r.toList = (xs ++ [a]) ++ ys := hprefix
    rw [AvlTree.toList_node, List.map_append, List.map_cons] at hnodup
    rw [EndsInTime, addr?_node]
    by_cases hlt : xs.length < l.toList.length
    · rw [if_pos hlt]
      refine readBack_front (fun x hx he => ?_) hV
      -- the rows up to the cursor are in the left part
      have hpre : xs ++ [a] <+: l.toList := by
        refine List.prefix_of_prefix_length_le (List.prefix_append _ ys) ?_ (by simp; omega)
        rw [← hsplit]
        exact List.prefix_append _ _
      have hxl : x.addr ∈ l.toList.map RowAt.addr := List.mem_map_of_mem (hpre.subset hx)
      exact (List.nodup_append.mp hnodup).2.2 _ hxl _ (by simp) (Option.some.inj he).symm
    · rw [if_neg hlt]
      obtain ⟨rs, hrs⟩ : ∃ rs, xs ++ [a] = l.toList ++ root :: rs := by
        have hpre : l.toList ++ [root] <+: xs ++ [a] := by
          have hroot : l.toList ++ [root] <+: (xs ++ [a]) ++ ys := ⟨r.toList, by simp [← hsplit]⟩
          exact List.prefix_of_prefix_length_le hroot (List.prefix_append _ ys) (by simp; omega)
        obtain ⟨rs, hrs⟩ := hpre
        exact ⟨rs, by rw [← hrs, List.append_assoc]; rfl⟩
      rw [hrs] at hV ⊢
      rw [List.drop_left]
      refine readBack_behind (fun x hx he => ?_) hV
      have hxr : x ∈ r.toList := by
        rw [hrs, List.append_assoc] at hsplit
        have h := List.cons.inj (List.append_cancel_left hsplit)
        rw [h.2]
        exact List.mem_append_left _ hx
      obtain ⟨-, hroot, -⟩ := List.nodup_append.mp hnodup
      exact (List.nodup_cons.mp hroot).1 (he ▸ List.mem_map_of_mem hxr)

/-- Three rows, and the cursor on the last one. -/
def threeRows : List TableOp :=
  [addRow 1 [10] 0, addRow 2 [20] 0, addRow 3 [30] 0, .seekId ⟨3, 0⟩]

omit [CollationKeys] in
/-- From the last of three rows, the root of the tree in the middle cuts off the first row. -/
theorem queryRows_backward_three : ∃ t T xs a ys, @Reachable .bytewise t ∧ Represents t T ∧
    T.toList = xs ++ a :: ys ∧ a.fHidden = false ∧ t.lpCurrent = some a.addr ∧ ¬ ReadsBack t (xs ++ [a]) 3 := by
  let _ : CollationKeys := .bytewise
  obtain ⟨t, ht, T, hR, hrows⟩ := run_new threeRows
  have hfit : ∀ op ∈ threeRows, op.Fits fun _ => 0 := by
    intro op hop
    simp only [threeRows, List.mem_cons, List.not_mem_nil, or_false] at hop
    rcases hop with rfl | rfl | rfl | rfl
    · exact addRow_fits (by decide)
    · exact addRow_fits (by decide)
    · exact addRow_fits (by decide)
    · trivial
  have hlist : rowsOf T = [⟨⟨1, 0⟩, [⟨[10], 0⟩], false⟩, ⟨⟨2, 0⟩, [⟨[20], 0⟩], false⟩,
      ⟨⟨3, 0⟩, [⟨[30], 0⟩], false⟩] := (hrows _ hfit).1.trans (by decide +kernel)
  have hrun : (run .new threeRows).map (fun t => ((t.queryRows 3 true true false).map (·.1),
      t.lpCurrent, t.mapRow ⟨3, 0⟩)) = some (some [⟨3, 0⟩, ⟨2, 0⟩], some 3, some 3) := by
    decide +kernel
  rw [ht, Option.map_some, Option.some.injEq, Prod.mk.injEq, Prod.mk.injEq] at hrun
  obtain ⟨hread, hcur, hmap⟩ := hrun
  have hL := hlist
  simp only [rowsOf, List.map_eq_cons_iff, List.map_eq_nil_iff] at hL
  obtain ⟨a, _, hL, ha, b, _, rfl, hb, c, _, rfl, hc, rfl⟩ := hL
  have haddr : c.addr = 3 := by
    obtain ⟨r, hr, hrk, hra⟩ := (hR.mapRow _ _).mp hmap
    rw [hL] at hr
    simp only [List.mem_cons, List.not_mem_nil, or_false] at hr
    rcases hr with rfl | rfl | rfl
    · exact absurd ((congrArg Row.sKey ha).symm.trans hrk) (by decide)
    · exact absurd ((congrArg Row.sKey hb).symm.trans hrk) (by decide)
    · exact hra
  have hidden {r : RowAt} {k : SObjectTableKey} {cols : List SortCol} (hr : r.row = ⟨k, cols, false⟩) :
      r.fHidden = false := congrArg Row.fHidden hr
  refine ⟨t, T, [a, b], c, [], ⟨_, ht⟩, hR, hL, hidden hc, by rw [hcur, haddr], ?_⟩
  rintro ⟨keys, t', hkeys, heq, -⟩
  have hvis : visibleList ([a, b] ++ [c]) = [a, b, c] := by
    simp [visibleList, hidden ha, hidden hb, hidden hc]
  rw [hkeys, Option.map_some, Option.some.injEq] at hread
  have hlen := congrArg List.length (hread.symm.trans heq)
  rw [hvis] at hlen
  simp at hlen

end Zcp.Common
