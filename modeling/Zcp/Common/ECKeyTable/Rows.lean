import Mathlib.Data.List.Sort
import Zcp.Common.ECKeyTable.Update
import Zcp.Common.ECKeyTable.Hide

/-!
# The table as a list

What a key table is for: it is a list of rows in the order of `rowcompare`. A new row goes behind all
rows that are not greater. `putRow_rows`, `deleteRow_rows`, `hideRows_rows` and `unhideRows_rows` say
that the operations of the table are the operations of the list.
-/

namespace Zcp.Common

open Zcp.Lib

/-- A row of the list. -/
structure Row where
  sKey : SObjectTableKey
  sortCols : List SortCol
  fHidden : Bool
deriving DecidableEq, Repr

/-! ## Operations on lists -/

namespace Row

/-- The row with a key. -/
def find (k : SObjectTableKey) (rows : List Row) : Option Row := rows.find? (·.sKey = k)

/-- The list without the row with a key. -/
def delete (k : SObjectTableKey) (rows : List Row) : List Row := rows.filter (·.sKey ≠ k)

/-- Change the rows behind the row with a key. -/
def below (k : SObjectTableKey) (f : Row → List Row → List Row) : List Row → List Row
  | [] => []
  | r :: rows => if r.sKey = k then r :: f r rows else r :: below k f rows

/-- The key of the row before the row with a key, `(0, 0)` when that row is the first. -/
def prevKey (k : SObjectTableKey) (rows : List Row) : SObjectTableKey :=
  ((rows.takeWhile (·.sKey ≠ k)).getLast?.map Row.sKey).getD .zero

/-- The rows that are not hidden. -/
def visible (rows : List Row) : List Row := rows.filter fun r => !r.fHidden

/-- The row with another hidden flag. -/
def withHidden (fHidden : Bool) (r : Row) : Row := { r with fHidden := fHidden }

/-- Unhide a row with `n` columns. -/
def unhide (n : ℕ) (r : Row) : Row := if r.sortCols.length = n then r.withHidden false else r

variable [CollationKeys]

/-- `rowcompare` on rows of the list. -/
def lt (a b : Row) : Bool := rowcompareCols false a.sortCols b.sortCols

/-- Put a new row behind all rows that are not greater. -/
def insert (r : Row) (rows : List Row) : List Row := rows.orderedInsert (fun a b => lt a b) r

/-- Add a row, or give the row with its key new data. With the same sort data the old row stays. -/
def put (r : Row) (rows : List Row) : List Row :=
  match find r.sKey rows with
  | none => insert r rows
  | some old => if !lt old r && !lt r old then rows else insert r (delete r.sKey rows)

/-- Change one sort column of the row with a key. -/
def putColumn (k : SObjectTableKey) (ulColumn : ℕ) (sortCol : SortCol) (rows : List Row) : List Row :=
  match find k rows with
  | none => rows
  | some r =>
    if ulColumn ≥ r.sortCols.length then rows
    else put { r with sortCols := r.sortCols.set ulColumn sortCol } rows

/-- Whether a row starts with the columns of a header. -/
def startsWith (header : Row) (r : Row) : Bool :=
  ! rowcompareprefix header.sortCols.length header.sortCols r.sortCols

/-- Hide the rows below a header. -/
def hide (k : SObjectTableKey) (rows : List Row) : List Row :=
  below k (fun header => mapWhile (startsWith header) (withHidden true)) rows

/-- Unhide the first level of rows below a header that is not hidden. -/
def unhideBelow (k : SObjectTableKey) (rows : List Row) : List Row :=
  below k (fun header s =>
    if header.fHidden then s
    else mapWhile (startsWith header)
      (unhide ((s.head?.map fun r => r.sortCols.length).getD 0)) s) rows

/-! ## Lists with unique keys -/

section Unique

variable {xs ys rows : List Row} {r : Row} {k : SObjectTableKey} {f : Row → List Row → List Row}

omit [CollationKeys]

/-- Where no key stands twice, a row has another key than those before it and those after it. -/
theorem keys_ne (hn : ((xs ++ r :: ys).map Row.sKey).Nodup) :
    (∀ x ∈ xs, x.sKey ≠ r.sKey) ∧ ∀ y ∈ ys, y.sKey ≠ r.sKey := by
  rw [List.map_append, List.map_cons, List.nodup_append, List.nodup_cons] at hn
  obtain ⟨-, ⟨hy, -⟩, hx⟩ := hn
  constructor
  · intro x hxm
    exact hx _ (List.mem_map_of_mem hxm) _ (by simp)
  · intro y hym he
    exact hy (he ▸ List.mem_map_of_mem hym)

theorem find_split (hn : ((xs ++ r :: ys).map Row.sKey).Nodup) : find r.sKey (xs ++ r :: ys) = some r := by
  rw [find, List.find?_append, List.find?_eq_none.mpr (by simpa using (keys_ne hn).1)]
  simp

theorem find_eq_none (hk : k ∉ rows.map Row.sKey) : find k rows = none := by
  rw [find, List.find?_eq_none]
  intro r hr he
  exact hk (List.mem_map.mpr ⟨r, hr, by simpa using he⟩)

theorem delete_split (hn : ((xs ++ r :: ys).map Row.sKey).Nodup) : delete r.sKey (xs ++ r :: ys) = xs ++ ys := by
  obtain ⟨hx, hy⟩ := keys_ne hn
  rw [delete, List.filter_append, List.filter_cons_of_neg (by simp),
    List.filter_eq_self.mpr (by simpa using hx), List.filter_eq_self.mpr (by simpa using hy)]

theorem delete_eq_self (hk : k ∉ rows.map Row.sKey) : delete k rows = rows := by
  rw [delete, List.filter_eq_self]
  intro r hr
  exact decide_eq_true fun he => hk (List.mem_map.mpr ⟨r, hr, he⟩)

/-- What is done below a row starts with the row behind it. -/
theorem below_split (hn : ((xs ++ r :: ys).map Row.sKey).Nodup) :
    below r.sKey f (xs ++ r :: ys) = xs ++ r :: f r ys := by
  have hx := (keys_ne hn).1
  clear hn
  induction xs with
  | nil => rw [List.nil_append, below, if_pos rfl, List.nil_append]
  | cons x xs ih =>
    rw [List.cons_append, below, if_neg (hx x (by simp)),
      ih fun y hy => hx y (List.mem_cons_of_mem x hy), List.cons_append]

theorem below_eq_self (hk : k ∉ rows.map Row.sKey) : below k f rows = rows := by
  induction rows with
  | nil => rfl
  | cons r rows ih =>
    rw [List.map_cons, List.mem_cons, not_or] at hk
    rw [below, if_neg fun h => hk.1 h.symm, ih hk.2]

theorem prevKey_split (hn : ((xs ++ r :: ys).map Row.sKey).Nodup) :
    prevKey r.sKey (xs ++ r :: ys) = (xs.getLast?.map Row.sKey).getD .zero := by
  have hx : ∀ x ∈ xs, decide (x.sKey ≠ r.sKey) = true := by simpa using (keys_ne hn).1
  rw [prevKey, List.takeWhile_append_of_pos hx, List.takeWhile_cons_of_neg (by simp),
    List.append_nil]

end Unique

/-! ## Lists in order -/

/-- The rows are in order, and can be compared. -/
structure InOrder (fl : ColumnFlags) (rows : List Row) : Prop where
  sorted : NonDecreasing lt rows
  fits : ∀ r ∈ rows, FitsFlags fl r.sortCols

section Order

variable {fl : ColumnFlags} {rows rows' : List Row} {r : Row} {k : SObjectTableKey}

theorem lt_strictWeak (fl : ColumnFlags) : StrictWeakOn lt fun r => FitsFlags fl r.sortCols where
  asymm := (rowcompare_strictWeak fl).asymm
  negTrans := (rowcompare_strictWeak fl).negTrans

theorem inOrder_nil (fl : ColumnFlags) : InOrder fl [] :=
  ⟨List.Pairwise.nil, fun _ h => absurd h List.not_mem_nil⟩

theorem InOrder.insert (ho : InOrder fl rows) (hr : FitsFlags fl r.sortCols) : InOrder fl (insert r rows) where
  sorted := ho.sorted.insert (lt_strictWeak fl) hr ho.fits
  fits := by
    intro x hx
    rcases (List.mem_orderedInsert _).mp hx with rfl | hx
    · exact hr
    · exact ho.fits x hx

theorem InOrder.delete (ho : InOrder fl rows) : InOrder fl (delete k rows) where
  sorted := ho.sorted.sublist List.filter_sublist
  fits r hr := ho.fits r (List.mem_of_mem_filter hr)

/-- A row that takes the place of one with its key keeps the rows in order. -/
theorem InOrder.put (ho : InOrder fl rows) (hr : FitsFlags fl r.sortCols) : InOrder fl (put r rows) := by
  rw [Row.put]
  cases find r.sKey rows with
  | none => exact ho.insert hr
  | some old =>
    show InOrder fl (if _ then _ else _)
    split_ifs
    · exact ho
    · exact ho.delete.insert hr

/-- Another value in one column keeps the rows in order, since the row is put to its new place. -/
theorem InOrder.putColumn {i : ℕ} {c : SortCol} (ho : InOrder fl rows) (hc : c.Fits (fl i)) :
    InOrder fl (putColumn k i c rows) := by
  rw [Row.putColumn]
  cases hf : find k rows with
  | none => exact ho
  | some r =>
    show InOrder fl (if _ then _ else _)
    split_ifs
    · exact ho
    · exact ho.put ((ho.fits r (List.mem_of_find?_eq_some hf)).set hc)

/-- The order depends on the sort columns only. -/
theorem InOrder.of_sortCols (ho : InOrder fl rows)
    (he : rows'.map Row.sortCols = rows.map Row.sortCols) : InOrder fl rows' where
  sorted := by
    have hs : (rows'.map Row.sortCols).Pairwise fun a b => ¬ rowcompareCols false b a := by
      rw [he]
      exact List.pairwise_map.mpr ho.sorted
    exact List.pairwise_map.mp hs
  fits r hr := by
    have hmem : r.sortCols ∈ rows.map Row.sortCols := he ▸ List.mem_map_of_mem hr
    obtain ⟨r', hr', he'⟩ := List.mem_map.mp hmem
    exact he' ▸ ho.fits r' hr'

omit [CollationKeys] in
/-- What changes no column below a row changes no column at all. -/
theorem map_below {f : Row → List Row → List Row} (hf : ∀ r s, (f r s).map Row.sortCols = s.map Row.sortCols) :
    (below k f rows).map Row.sortCols = rows.map Row.sortCols := by
  induction rows with
  | nil => rfl
  | cons r rows ih =>
    rw [below]
    split_ifs
    · rw [List.map_cons, hf, List.map_cons]
    · rw [List.map_cons, ih, List.map_cons]

theorem InOrder.hide (ho : InOrder fl rows) : InOrder fl (hide k rows) :=
  ho.of_sortCols (map_below fun _ s => map_mapWhile_of_eq (fun x => (rfl : (withHidden true x).sortCols = _)) s)

theorem InOrder.unhideBelow (ho : InOrder fl rows) : InOrder fl (unhideBelow k rows) := by
  refine ho.of_sortCols (map_below fun r s => ?_)
  split_ifs
  · rfl
  · refine map_mapWhile_of_eq (fun x => ?_) s
    rw [unhide]
    split_ifs <;> rfl

end Order

end Row

/-! ## The operations of the table -/

/-- A row without its address. -/
def RowAt.row (r : RowAt) : Row := ⟨r.sKey, r.sortCols, r.fHidden⟩

/-- The rows of a tree. -/
def rowsOf (T : AvlTree RowAt) : List Row := T.toList.map RowAt.row

variable {t : ECKeyTable} {T : AvlTree RowAt} {k : SObjectTableKey}

theorem keys_rowsOf (T : AvlTree RowAt) : (rowsOf T).map Row.sKey = T.toList.map RowAt.sKey := by
  rw [rowsOf, List.map_map]
  rfl

theorem rowsOf_split {xs ys : List RowAt} {a : RowAt} (hL : T.toList = xs ++ a :: ys) :
    rowsOf T = xs.map RowAt.row ++ a.row :: ys.map RowAt.row := by
  rw [rowsOf, hL, List.map_append, List.map_cons]

theorem Represents.nodup (hR : Represents t T) : ((rowsOf T).map Row.sKey).Nodup := by
  rw [keys_rowsOf]
  exact hR.keys

/-- A key is not in the table, or its row splits the list of the rows. -/
theorem Represents.key_cases (hR : Represents t T) (k : SObjectTableKey) :
    (t.mapRow k = none ∧ k ∉ (rowsOf T).map Row.sKey) ∨ ∃ xs a ys, T.toList = xs ++ a :: ys ∧ a.sKey = k := by
  by_cases hk : k ∈ T.toList.map RowAt.sKey
  · obtain ⟨a, ha, rfl⟩ := List.mem_map.mp hk
    obtain ⟨xs, ys, hL⟩ := List.append_of_mem ha
    exact .inr ⟨xs, a, ys, hL, rfl⟩
  · exact .inl ⟨hR.mapRow_eq_none.mpr hk, by rwa [keys_rowsOf]⟩

theorem visible_rowsOf (T : AvlTree RowAt) :
    (Row.visible (rowsOf T)).map Row.sKey = (visibleList T.toList).map RowAt.sKey := by
  rw [rowsOf, Row.visible, List.filter_map, List.map_map]
  rfl

theorem length_visible_rowsOf (T : AvlTree RowAt) : (Row.visible (rowsOf T)).length = count T := by
  rw [count_eq_visibleRows, ← length_visibleList, ← List.length_map (f := Row.sKey), visible_rowsOf,
    List.length_map]

/-- `UpdateRow` with `TABLE_ROW_DELETE` deletes the row from the list. -/
theorem deleteRow_rows (hR : Represents t T) (k : SObjectTableKey) :
    Yields (t.deleteRow k) fun res => ∃ T', Represents res.2 T' ∧ rowsOf T' = Row.delete k (rowsOf T) := by
  rcases hR.key_cases k with ⟨hmap, hk⟩ | ⟨xs, a, ys, hL, rfl⟩
  · rw [ECKeyTable.deleteRow, hmap]
    exact yields_some.mpr ⟨T, hR, (Row.delete_eq_self hk).symm⟩
  · refine (deleteRow_spec hR hL).imp fun res hres => ?_
    obtain ⟨-, hdel⟩ := hres
    obtain ⟨T', hR', hL'⟩ := hdel.rows
    refine ⟨T', hR', ?_⟩
    have hn := hR.nodup
    rw [rowsOf_split hL] at hn ⊢
    rw [rowsOf, hL', List.map_append]
    exact (Row.delete_split hn).symm

variable [CollationKeys]

/-- In a table in order, the search for a new row ends behind all rows that are not greater. -/
theorem rows_descend {fl : ColumnFlags} {r : RowAt} {xs ys : List RowAt} (ho : Row.InOrder fl (rowsOf T))
    (hr : FitsFlags fl r.sortCols) (hL : T.toList = xs ++ ys) (hxs : xs = (T.descend (rowLt r) []).before) :
    (xs ++ r :: ys).map RowAt.row = Row.insert r.row (rowsOf T) := by
  have hpair : T.toList.Pairwise fun a b => rowLt r a → rowLt r b :=
    List.pairwise_map.mp (ho.sorted.pairwise_lt (Row.lt_strictWeak fl) (a := r.row) hr ho.fits)
  rw [AvlTree.before_descend _ _ _ hpair, Ctx.before, List.nil_append] at hxs
  have hys : ys = T.toList.dropWhile fun a => !rowLt r a := by
    have h := hL
    rw [hxs] at h
    conv at h => lhs; rw [← List.takeWhile_append_dropWhile (p := fun a => !rowLt r a) (l := T.toList)]
    exact (List.append_cancel_left h).symm
  rw [Row.insert, orderedInsert_eq_takeWhile, rowsOf, List.takeWhile_map, List.dropWhile_map,
    List.map_append, List.map_cons, hxs, hys]
  rfl

/-- `UpdateRow` with `TABLE_ROW_ADD` or `TABLE_ROW_MODIFY` puts the row into the list, and reports the
row before it. -/
theorem putRow_rows (hR : Represents t T) (k : SObjectTableKey) (cols : List SortCol) (fHidden : Bool) :
    Yields (t.putRow k cols fHidden) fun res => res.er = .erSuccess ∧
      ∃ T', Represents res.table T' ∧ res.lpsPrevRow = some (Row.prevKey k (rowsOf T')) ∧
        (∀ fl, Row.InOrder fl (rowsOf T) → FitsFlags fl cols →
          rowsOf T' = Row.put ⟨k, cols, fHidden⟩ (rowsOf T)) := by
  have hprev {xs ys : List RowAt} {a : RowAt} {t' : ECKeyTable} {T' : AvlTree RowAt}
      (hR' : Represents t' T') (hL' : T'.toList = xs ++ a :: ys) :
      lastKey xs = Row.prevKey a.sKey (rowsOf T') := by
    have hn := hR'.nodup
    rw [rowsOf_split hL'] at hn ⊢
    refine Eq.trans ?_ (Row.prevKey_split (r := a.row) hn).symm
    rw [List.getLast?_map, Option.map_map]
    rfl
  rcases hR.key_cases k with ⟨-, hk⟩ | ⟨xs, a, ys, hL, rfl⟩
  · refine (putRow_new hR (by rwa [keys_rowsOf] at hk)).imp fun res hres => ?_
    obtain ⟨xs, ys, hL, hxs, -, her, hprow, -, hins⟩ := hres
    obtain ⟨T', hR', hL'⟩ := hins.rows
    refine ⟨her, T', hR', hprow.trans (congrArg some (hprev hR' hL')), fun fl ho hfit => ?_⟩
    rw [Row.put, Row.find_eq_none hk, rowsOf, hL']
    exact rows_descend ho hfit hL hxs
  · have hn := hR.nodup
    rw [rowsOf_split hL] at hn
    have hfind : Row.find a.sKey (rowsOf T) = some a.row := by
      rw [rowsOf_split hL]
      exact Row.find_split hn
    by_cases hsame : ¬ rowcompareCols false a.sortCols cols ∧ ¬ rowcompareCols false cols a.sortCols
    · refine ⟨_, putRow_same hR hL hsame.1 hsame.2, rfl, T, hR, congrArg some (hprev hR hL),
        fun _ _ _ => ?_⟩
      have heq : (!Row.lt a.row ⟨a.sKey, cols, fHidden⟩ && !Row.lt ⟨a.sKey, cols, fHidden⟩ a.row) =
          true := by simpa [Row.lt, RowAt.row] using hsame
      rw [Row.put, hfind]
      simp only [heq, if_true]
    · have hdiff : rowcompareCols false a.sortCols cols ∨ rowcompareCols false cols a.sortCols := by
        by_contra h
        exact hsame (not_or.mp h)
      refine (putRow_moved hR hL hdiff).imp fun res hres => ?_
      obtain ⟨t₁, T₁, xs', ys', -, hR₁, hL₁, hsplit, hxs', her, hprow, -, hins⟩ := hres
      obtain ⟨T', hR', hL'⟩ := hins.rows
      refine ⟨her, T', hR', hprow.trans (congrArg some
        (hprev (a := ⟨t.next, a.sKey, cols, fHidden⟩) hR' hL')), fun fl ho hfit => ?_⟩
      have hne : (!Row.lt a.row ⟨a.sKey, cols, fHidden⟩ && !Row.lt ⟨a.sKey, cols, fHidden⟩ a.row) =
          false := by
        rcases hdiff with h | h <;> simp [Row.lt, RowAt.row, h]
      have hdel : rowsOf T₁ = Row.delete a.sKey (rowsOf T) := by
        rw [rowsOf_split hL, rowsOf, hL₁, List.map_append]
        exact (Row.delete_split hn).symm
      rw [Row.put, hfind]
      simp only [hne, Bool.false_eq_true, if_false]
      rw [← hdel, rowsOf, hL']
      have ho₁ : Row.InOrder fl (rowsOf T₁) := hdel ▸ ho.delete
      exact rows_descend (r := ⟨t.next, a.sKey, cols, fHidden⟩) ho₁ hfit (hL₁.trans hsplit) hxs'

/-- Whatever the sort data are, a row that is put is added to the keys. -/
theorem putRow_keys (hR : Represents t T) (k : SObjectTableKey) (cols : List SortCol) (fHidden : Bool) :
    Yields (t.putRow k cols fHidden) fun res => res.er = .erSuccess ∧ ∃ T', Represents res.table T' ∧
        ∀ k', k' ∈ T'.toList.map RowAt.sKey ↔ k' = k ∨ k' ∈ T.toList.map RowAt.sKey := by
  rcases hR.key_cases k with ⟨-, hk⟩ | ⟨xs, a, ys, hL, rfl⟩
  · refine (putRow_new hR (by rwa [keys_rowsOf] at hk)).imp fun res hres => ?_
    obtain ⟨xs, ys, hL, -, -, her, -, -, hins⟩ := hres
    obtain ⟨T', hR', hL'⟩ := hins.rows
    refine ⟨her, T', hR', fun k' => ?_⟩
    rw [hL', hL]
    simp only [List.map_append, List.map_cons, List.mem_append, List.mem_cons]
    tauto
  · by_cases hsame : ¬ rowcompareCols false a.sortCols cols ∧ ¬ rowcompareCols false cols a.sortCols
    · refine ⟨_, putRow_same hR hL hsame.1 hsame.2, rfl, T, hR, fun k' => ?_⟩
      rw [hL]
      simp only [List.map_append, List.map_cons, List.mem_append, List.mem_cons]
      tauto
    · have hdiff : rowcompareCols false a.sortCols cols ∨ rowcompareCols false cols a.sortCols := by
        by_contra h
        exact hsame (not_or.mp h)
      refine (putRow_moved hR hL hdiff).imp fun res hres => ?_
      obtain ⟨t₁, T₁, xs', ys', -, -, hL₁, hsplit, -, her, -, -, hins⟩ := hres
      obtain ⟨T', hR', hL'⟩ := hins.rows
      refine ⟨her, T', hR', fun k' => ?_⟩
      have hkeys := congrArg (fun l => k' ∈ l.map RowAt.sKey) hsplit
      rw [hL', hL]
      simp only [List.map_append, List.map_cons, List.mem_append, List.mem_cons, eq_iff_iff]
        at hkeys ⊢
      tauto

omit [CollationKeys] in
/-- A row that is deleted is taken from the keys, and not finding it is an error. -/
theorem deleteRow_keys (hR : Represents t T) (k : SObjectTableKey) : Yields (t.deleteRow k) fun res =>
      res.1 = (if k ∈ T.toList.map RowAt.sKey then .erSuccess else .ZARAFA_E_NOT_FOUND) ∧
        ∃ T', Represents res.2 T' ∧ ∀ k', k' ∈ T'.toList.map RowAt.sKey ↔ k' ∈ T.toList.map RowAt.sKey ∧ k' ≠ k := by
  rcases hR.key_cases k with ⟨hmap, hk⟩ | ⟨xs, a, ys, hL, rfl⟩
  · rw [keys_rowsOf] at hk
    rw [ECKeyTable.deleteRow, hmap, if_neg hk]
    refine yields_some.mpr ⟨rfl, T, hR, fun k' => ?_⟩
    exact ⟨fun h => ⟨h, fun he => hk (he ▸ h)⟩, And.left⟩
  · refine (deleteRow_spec hR hL).imp fun res hres => ?_
    obtain ⟨her, hdel⟩ := hres
    obtain ⟨T', hR', hL'⟩ := hdel.rows
    have hn := hR.keys
    rw [hL, List.map_append, List.map_cons] at hn
    refine ⟨by rw [her, hL, if_pos (by simp)], T', hR', fun k' => ?_⟩
    rw [hL', hL, List.map_append, List.map_append, List.map_cons]
    have hne := List.nodup_middle.mp hn
    rw [List.nodup_cons, List.mem_append] at hne
    rw [List.mem_append, List.mem_append, List.mem_cons]
    constructor
    · intro hk
      refine ⟨hk.imp_right .inr, ?_⟩
      rintro rfl
      exact hne.1 hk
    · rintro ⟨hk | hk | hk, hne'⟩
      · exact .inl hk
      · exact absurd hk hne'
      · exact .inr hk

/-- `HideRows` hides the rows below the header. -/
theorem hideRows_rows (hR : Represents t T) (k : SObjectTableKey) : Yields (t.hideRows k) fun res =>
      ∃ T', Represents res.2.2 T' ∧ rowsOf T' = Row.hide k (rowsOf T) := by
  rcases hR.key_cases k with ⟨hmap, hk⟩ | ⟨xs, a, ys, hL, rfl⟩
  · rw [hideRows_notFound hmap]
    exact yields_some.mpr ⟨T, hR, (Row.below_eq_self hk).symm⟩
  · refine (hideRows_spec hR hL).imp fun res hres => ?_
    obtain ⟨heap, T', -, -, hR', hL', -⟩ := hres
    refine ⟨T', hR', ?_⟩
    have hn := hR.nodup
    rw [rowsOf_split hL] at hn ⊢
    rw [rowsOf_split hL', Row.hide]
    refine Eq.trans ?_ (Row.below_split (r := a.row) hn).symm
    have hmap : (mapWhile (walksOver a.sortCols) (·.withHidden true) ys).map RowAt.row =
        mapWhile (Row.startsWith a.row) (Row.withHidden true) (ys.map RowAt.row) := by
      apply map_mapWhile
      · intro r
        rfl
      · intro r
        rfl
    rw [hmap]

/-- `UnhideRows` unhides the first level of rows below a header that is not hidden. -/
theorem unhideRows_rows (hR : Represents t T) (k : SObjectTableKey) : Yields (t.unhideRows k) fun res =>
      ∃ T', Represents res.2.2 T' ∧ rowsOf T' = Row.unhideBelow k (rowsOf T) := by
  rcases hR.key_cases k with ⟨hmap, hk⟩ | ⟨xs, a, ys, hL, rfl⟩
  · rw [unhideRows_notFound hmap]
    exact yields_some.mpr ⟨T, hR, (Row.below_eq_self hk).symm⟩
  · have hn := hR.nodup
    rw [rowsOf_split hL] at hn
    have hbelow (f : Row → List Row → List Row) :
        Row.below a.sKey f (rowsOf T) = xs.map RowAt.row ++ a.row :: f a.row (ys.map RowAt.row) := by
      rw [rowsOf_split hL]
      exact Row.below_split (r := a.row) hn
    rw [Row.unhideBelow, hbelow]
    cases hh : a.fHidden with
    | true =>
      have ha : a ∈ T.toList := by simp [hL]
      refine ⟨_, unhideRows_hidden hR ha hh, T, hR.setCursor (.inr (.inr ⟨a, ha, rfl⟩)), ?_⟩
      rw [if_pos (show a.row.fHidden = true from hh), rowsOf_split hL]
    | false =>
      refine (unhideRows_spec hR hL hh).imp fun res hres => ?_
      obtain ⟨heap, T', -, -, hR', hL', -⟩ := hres
      refine ⟨T', hR', ?_⟩
      have hfirst : ((ys.map RowAt.row).head?.map fun r => r.sortCols.length).getD 0 =
          firstCols ys := by
        cases ys <;> rfl
      have hmap : (mapWhile (walksOver a.sortCols) (RowAt.unhide (firstCols ys)) ys).map RowAt.row =
          mapWhile (Row.startsWith a.row) (Row.unhide (firstCols ys)) (ys.map RowAt.row) := by
        apply map_mapWhile
        · intro r
          rfl
        · intro r
          rw [RowAt.unhide, Row.unhide, apply_ite RowAt.row]
          rfl
      rw [if_neg (by simp [RowAt.row, hh]), rowsOf_split hL', hfirst, hmap]

end Zcp.Common
