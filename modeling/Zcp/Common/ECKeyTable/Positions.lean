import Zcp.Common.ECKeyTable.Runs

/-!
# The cursor and the bookmarks

No call leaves the cursor or a bookmark on a row that is gone. A call about other rows leaves a
bookmark where it stands, and the cursor too, with two exceptions (`positions_iff`). `HideRows` takes it
out of the category also when its row was hidden before. The walk of `UnhideRows` ends behind the rows
of the category, and that is where the cursor is left.
-/

namespace Zcp.Common

open Zcp.Lib

/-! ## What calls are about -/

namespace ECKeyTable

/-- A place stands on the row with a key. -/
def StandsOn (t : ECKeyTable) (pos : Option Addr) (k : SObjectTableKey) : Prop :=
  ∃ a, pos = some a ∧ t.mapRow k = some a

/-- A place is the end, the sentinel or a row that `mapRow` finds. -/
def IsSafe (t : ECKeyTable) (pos : Option Addr) : Prop :=
  pos = none ∨ pos = some t.lpRoot ∨ ∃ k, t.StandsOn pos k

/-- The cursor and all bookmarks are at safe places. -/
def PositionsSafe (t : ECKeyTable) : Prop :=
  t.IsSafe t.lpCurrent ∧ ∀ b ∈ t.mapBookmarks, t.IsSafe b.2.lpPosition

end ECKeyTable

section Header

variable [CollationKeys]

/-- The rows from the row with a key on. -/
def Row.onFrom (k : SObjectTableKey) (rows : List Row) : List Row := rows.dropWhile (·.sKey ≠ k)

/-- The rows of the category of a header. -/
def Row.category (k : SObjectTableKey) (rows : List Row) : List Row :=
  match Row.onFrom k rows with
  | [] => []
  | header :: s => s.takeWhile (Row.startsWith header)

/-- The row behind the category of a header. -/
def Row.afterCategory (k : SObjectTableKey) (rows : List Row) : Option Row :=
  match Row.onFrom k rows with
  | [] => none
  | header :: s => (s.dropWhile (Row.startsWith header)).head?

/-- The first level of the category of a header. -/
def Row.firstLevel (k : SObjectTableKey) (rows : List Row) : List Row :=
  match Row.onFrom k rows with
  | [] => []
  | header :: s => (s.takeWhile (Row.startsWith header)).filter fun r =>
      r.sortCols.length = (s.head?.map fun r => r.sortCols.length).getD 0

/-- The keys of the rows that a call is about: the row it names, and the rows that it frees or whose
hidden flag it changes. -/
def TableOp.keys (rows : List Row) : TableOp → List SObjectTableKey
  | .updateRow _ k _ _ => [k]
  | .updatePartialSortKey k _ _ => [k]
  | .hideRows k => k :: ((Row.category k rows).filter fun r => !r.fHidden).map Row.sKey
  | .unhideRows k =>
    if (Row.find k rows).any Row.fHidden then [k]
    else k :: ((Row.firstLevel k rows).filter Row.fHidden).map Row.sKey
  | .clear => rows.map Row.sKey
  | _ => []

omit [CollationKeys] in
/-- The calls that are there to move the cursor. -/
def TableOp.seeks : TableOp → Bool
  | .seekRow _ _ | .seekId _ | .queryRows _ _ _ _ => true
  | _ => false

/-- A call between the tables before and after it. -/
structure TableCall where
  before : ECKeyTable
  op : TableOp
  after : ECKeyTable

/-- The calls of a run, up to one that does not return. -/
def calls (t : ECKeyTable) : List TableOp → List TableCall
  | [] => []
  | op :: ops =>
    match op.step t with
    | none => []
    | some t' => ⟨t, op, t'⟩ :: calls t' ops

namespace TableCall

/-- A call about other rows leaves the cursor on its row. -/
def KeepsCursor (c : TableCall) : Prop :=
  c.op.seeks = false → ∀ T, Represents c.before T → ∀ k ∉ c.op.keys (rowsOf T),
    c.before.StandsOn c.before.lpCurrent k → c.after.StandsOn c.after.lpCurrent k

/-- A call about other rows leaves the bookmarks on their rows, but for the bookmark it frees. -/
def KeepsBookmarks (c : TableCall) : Prop :=
  ∀ T, Represents c.before T → ∀ k ∉ c.op.keys (rowsOf T), ∀ n b, c.op ≠ .freeBookmark n →
    (n, b) ∈ c.before.mapBookmarks → c.before.StandsOn b.lpPosition k →
      (n, b) ∈ c.after.mapBookmarks ∧ c.after.StandsOn b.lpPosition k

/-- The call does not take the cursor along. If the cursor stands on a row that the call is not about,
`HideRows` finds it outside the category; and `UnhideRows` finds its header not hidden, and the cursor's
row right behind the category. -/
structure LeavesCursor (c : TableCall) : Prop where
  hides : ∀ k, c.op = .hideRows k → ∀ T, Represents c.before T → ∀ k' ∉ c.op.keys (rowsOf T),
    c.before.StandsOn c.before.lpCurrent k' → k' ∉ (Row.category k (rowsOf T)).map Row.sKey
  unhides : ∀ k, c.op = .unhideRows k → ∀ T, Represents c.before T → ∀ k' ∉ c.op.keys (rowsOf T),
    c.before.StandsOn c.before.lpCurrent k' → ∀ header, Row.find k (rowsOf T) = some header →
      header.fHidden = false ∧ (Row.afterCategory k (rowsOf T)).map Row.sKey = some k'

end TableCall

end Header

/-! ## Rows that stay -/

variable {t t' : ECKeyTable} {T T' : AvlTree RowAt}

variable {pos : Option Addr} {k : SObjectTableKey}

theorem Represents.standsOn_iff (hR : Represents t T) :
    t.StandsOn pos k ↔ ∃ r ∈ T.toList, r.sKey = k ∧ pos = some r.addr := by
  constructor
  · rintro ⟨a, rfl, ha⟩
    obtain ⟨r, hr, hk, rfl⟩ := (hR.mapRow k a).mp ha
    exact ⟨r, hr, hk, rfl⟩
  · rintro ⟨r, hr, rfl, rfl⟩
    exact ⟨r.addr, rfl, hR.mapRow_of_mem hr⟩

theorem Represents.isSafe (hR : Represents t T) (hpos : ValidPos t.lpRoot T.toList pos) : t.IsSafe pos := by
  rcases hpos with hpos | hpos | ⟨r, hr, hpos⟩
  · exact .inl hpos
  · exact .inr (.inl hpos)
  · exact .inr (.inr ⟨r.sKey, hR.standsOn_iff.mpr ⟨r, hr, rfl, hpos⟩⟩)

theorem Represents.positionsSafe (hR : Represents t T) : t.PositionsSafe :=
  ⟨hR.isSafe hR.cursor, fun b hb => hR.isSafe (hR.bookmarks b hb)⟩

/-- The rows whose keys are not in `K`, and the bookmarks on them, stay. -/
structure KeepsRows (t : ECKeyTable) (T : AvlTree RowAt) (t' : ECKeyTable) (T' : AvlTree RowAt)
    (K : List SObjectTableKey) : Prop where
  rows : ∀ r ∈ T.toList, r.sKey ∉ K → ∃ r' ∈ T'.toList, r'.addr = r.addr ∧ r'.sKey = r.sKey
  bookmarks : ∀ b ∈ t.mapBookmarks, ∀ r ∈ T.toList, r.sKey ∉ K → b.2.lpPosition = some r.addr →
    b ∈ t'.mapBookmarks

/-- The cursor stays on such a row, too. -/
def StaysPut (t : ECKeyTable) (T : AvlTree RowAt) (t' : ECKeyTable) (K : List SObjectTableKey) :
    Prop :=
  ∀ r ∈ T.toList, r.sKey ∉ K → t.lpCurrent = some r.addr → t'.lpCurrent = some r.addr

theorem KeepsRows.refl (K : List SObjectTableKey) (hb : ∀ b ∈ t.mapBookmarks, b ∈ t'.mapBookmarks) :
    KeepsRows t T t' T K :=
  ⟨fun r hr _ => ⟨r, hr, rfl, rfl⟩, fun b hmem _ _ _ _ => hb b hmem⟩

variable {a r : RowAt}

/-- Another row is at another address. -/
theorem Represents.addr_ne (hR : Represents t T) (hr : r ∈ T.toList)
    (ha : a ∈ T.toList) (hne : r.sKey ≠ a.sKey) : r.addr ≠ a.addr := by
  intro haddr
  exact hne (congrArg RowAt.sKey (hR.eq_of_addr hr ha haddr))

variable {xs ys : List RowAt}

/-- A row with another key is still there when one row is taken out. -/
theorem mem_without (hr : r ∈ xs ++ a :: ys) (hne : r.sKey ≠ a.sKey) : r ∈ xs ++ ys := by
  rcases List.mem_append.mp hr with hr | hr
  · exact List.mem_append_left _ hr
  · rcases List.mem_cons.mp hr with rfl | hr
    · exact absurd rfl hne
    · exact List.mem_append_right _ hr

/-- Taking row `a` out keeps what stands on other rows. -/
theorem Deleted.keeps (h : Deleted t a (xs ++ ys) t')
    (hR : Represents t T) (hL : T.toList = xs ++ a :: ys) (hL' : T'.toList = xs ++ ys) :
    KeepsRows t T t' T' [a.sKey] ∧ StaysPut t T t' [a.sKey] := by
  have ha : a ∈ T.toList := by simp [hL]
  refine ⟨⟨?_, ?_⟩, ?_⟩
  · intro r hr hk
    rw [List.mem_singleton] at hk
    exact ⟨r, by rw [hL']; exact mem_without (hL ▸ hr) hk, rfl, rfl⟩
  · intro b hb r hr hk hpos
    rw [List.mem_singleton] at hk
    rw [h.mapBookmarks, List.mem_filter]
    exact ⟨hb, by simp [hpos, hR.addr_ne hr ha hk]⟩
  · intro r hr hk hpos
    rw [List.mem_singleton] at hk
    have hcur : t.lpCurrent ≠ some a.addr := by
      rw [hpos]
      simpa using hR.addr_ne hr ha hk
    rw [h.lpCurrent hcur, hpos]

section Update

variable [CollationKeys]

omit [CollationKeys] in
/-- A new row between the others keeps what stands on them. -/
theorem Inserted.keeps {fRelocateCursor : Bool}
    (h : Inserted t r (xs ++ r :: ys) fRelocateCursor t') (hL : T.toList = xs ++ ys)
    (hL' : T'.toList = xs ++ r :: ys) (K : List SObjectTableKey) :
    KeepsRows t T t' T' K ∧ (fRelocateCursor = false → StaysPut t T t' K) := by
  refine ⟨⟨?_, ?_⟩, ?_⟩
  · intro x hx _
    refine ⟨x, ?_, rfl, rfl⟩
    rw [hL', List.mem_append, List.mem_cons]
    rw [hL, List.mem_append] at hx
    exact hx.imp_right .inr
  · intro b hb _ _ _ _
    rw [h.mapBookmarks]
    exact hb
  · rintro rfl x _ _ hpos
    rw [h.lpCurrent, if_neg (by simp), hpos]

omit [CollationKeys] in
theorem deleteRow_keeps (hR : Represents t T) (k : SObjectTableKey) : Yields (t.deleteRow k) fun res =>
      ∃ T', Represents res.2 T' ∧ KeepsRows t T res.2 T' [k] ∧ StaysPut t T res.2 [k] := by
  rcases hR.key_cases k with ⟨hmap, -⟩ | ⟨xs, a, ys, hL, rfl⟩
  · rw [ECKeyTable.deleteRow, hmap]
    exact yields_some.mpr ⟨T, hR, .refl _ fun _ h => h, fun _ _ _ h => h⟩
  · refine (deleteRow_spec hR hL).imp fun res hres => ?_
    obtain ⟨-, hdel⟩ := hres
    obtain ⟨T', hR', hL'⟩ := hdel.rows
    exact ⟨T', hR', hdel.keeps hR hL hL'⟩

/-- `UpdateRow` that adds or modifies a row: the other rows stay, also when the row moves past them. -/
theorem putRow_keeps (hR : Represents t T) (k : SObjectTableKey) (cols : List SortCol) (fHidden : Bool) :
    Yields (t.putRow k cols fHidden) fun res => ∃ T', Represents res.table T' ∧ KeepsRows t T res.table T' [k] ∧
        StaysPut t T res.table [k] := by
  rcases hR.key_cases k with ⟨-, hk⟩ | ⟨xs, a, ys, hL, rfl⟩
  · refine (putRow_new hR (by rwa [keys_rowsOf] at hk)).imp fun res hres => ?_
    obtain ⟨xs, ys, hL, -, -, -, -, -, hins⟩ := hres
    obtain ⟨T', hR', hL'⟩ := hins.rows
    obtain ⟨hkeep, hstay⟩ := hins.keeps hL hL' [k]
    exact ⟨T', hR', hkeep, hstay rfl⟩
  · by_cases hsame : ¬ rowcompareCols false a.sortCols cols ∧ ¬ rowcompareCols false cols a.sortCols
    · exact ⟨_, putRow_same hR hL hsame.1 hsame.2, T, hR, .refl _ fun _ h => h, fun _ _ _ h => h⟩
    · have hdiff : rowcompareCols false a.sortCols cols ∨ rowcompareCols false cols a.sortCols := by
        by_contra h
        exact hsame (not_or.mp h)
      have ha : a ∈ T.toList := by simp [hL]
      refine (putRow_moved hR hL hdiff).imp fun res hres => ?_
      obtain ⟨t₁, T₁, xs', ys', hdel, hR₁, hL₁, hsplit, -, -, -, -, hins⟩ := hres
      obtain ⟨T', hR', hL'⟩ := hins.rows
      obtain ⟨hkeep₁, hstay₁⟩ := hdel.keeps hR hL hL₁
      obtain ⟨hkeep₂, hstay₂⟩ := hins.keeps (hL₁.trans hsplit) hL' [a.sKey]
      -- what stands on another row is kept by the deletion, and then by the insertion
      have hmem : ∀ r ∈ T.toList, r.sKey ∉ [a.sKey] → r ∈ T₁.toList := by
        intro r hr hk
        rw [List.mem_singleton] at hk
        rw [hL₁]
        exact mem_without (hL ▸ hr) hk
      refine ⟨T', hR', ⟨fun r hr hk => hkeep₂.rows r (hmem r hr hk) hk, ?_⟩, ?_⟩
      · intro b hb r hr hk hpos
        exact hkeep₂.bookmarks b (hkeep₁.bookmarks b hb r hr hk hpos) r (hmem r hr hk) hk hpos
      · intro r hr hk hpos
        have hne : r.addr ≠ a.addr := hR.addr_ne hr ha (by simpa using hk)
        have hstay := hstay₂ (by simp [hpos, hne])
        exact hstay r (hmem r hr hk) hk (hstay₁ r hr hk hpos)

theorem updateRow_keeps (hR : Represents t T) (ulType : UpdateType) (k : SObjectTableKey)
    (cols : List SortCol) (fHidden : Bool) : Yields (t.updateRow ulType k cols fHidden) fun res =>
      ∃ T', Represents res.table T' ∧ KeepsRows t T res.table T' [k] ∧ StaysPut t T res.table [k] := by
  cases ulType with
  | TABLE_ROW_ADD => exact putRow_keeps hR k cols fHidden
  | TABLE_ROW_MODIFY => exact putRow_keeps hR k cols fHidden
  | TABLE_ROW_DELETE => exact (deleteRow_keeps hR k).bind fun res hres => yields_some.mpr hres
  | _ => exact yields_some.mpr ⟨T, hR, .refl _ fun _ h => h, fun _ _ _ h => h⟩

theorem updatePartialSortKey_keeps (hR : Represents t T) (k : SObjectTableKey) (ulColumn : ℕ) (col : SortCol) :
    Yields (t.updatePartialSortKey k ulColumn col) fun res =>
      ∃ T', Represents res.1.table T' ∧ KeepsRows t T res.1.table T' [k] ∧ StaysPut t T res.1.table [k] := by
  have hsame : ∃ T', Represents t T' ∧ KeepsRows t T t T' [k] ∧ StaysPut t T t [k] :=
    ⟨T, hR, .refl _ fun _ h => h, fun _ _ _ h => h⟩
  rw [ECKeyTable.updatePartialSortKey, ECKeyTable.getRow, ECKeyTable.seekId]
  rcases hR.key_cases k with ⟨hmap, -⟩ | ⟨xs, a, ys, hL, rfl⟩
  · rw [hmap]
    exact yields_some.mpr hsame
  · obtain ⟨p, left, x, y, n, m, hmap, hcell⟩ := hR.cell_of_key (a := a) (by simp [hL])
    simp only [hmap, hcell, Option.bind_eq_bind, Option.bind_some, RowAt.cell]
    by_cases hcol : ulColumn ≥ a.sortCols.length
    · rw [if_pos hcol]
      exact yields_some.mpr hsame
    · rw [if_neg hcol]
      exact (updateRow_keeps hR .TABLE_ROW_MODIFY a.sKey _ a.fHidden).bind fun res hres =>
        yields_some.mpr hres

/-! ## Hiding and unhiding -/

variable {s : List RowAt}

omit [CollationKeys] in
/-- Changing hidden flags keeps the rows. -/
theorem keepsRows_flags {p : RowAt → Bool} {f : RowAt → RowAt}
    (hf : ∀ r, (f r).addr = r.addr ∧ (f r).sKey = r.sKey) (hL : T.toList = xs ++ a :: s)
    (hL' : T'.toList = xs ++ a :: mapWhile p f s) (hb : t'.mapBookmarks = t.mapBookmarks)
    (K : List SObjectTableKey) : KeepsRows t T t' T' K := by
  refine ⟨fun r hr _ => ?_, fun b hmem _ _ _ _ => by rw [hb]; exact hmem⟩
  rw [hL, List.mem_append, List.mem_cons] at hr
  rw [hL']
  rcases hr with hr | rfl | hr
  · exact ⟨r, by simp [hr], rfl, rfl⟩
  · exact ⟨r, by simp, rfl, rfl⟩
  · rw [← List.takeWhile_append_dropWhile (p := p) (l := s), List.mem_append] at hr
    rcases hr with hr | hr
    · refine ⟨f r, ?_, hf r⟩
      simp only [mapWhile, List.mem_append, List.mem_cons, List.mem_map]
      exact .inr (.inr (.inl ⟨r, hr, rfl⟩))
    · refine ⟨r, ?_, rfl, rfl⟩
      simp only [mapWhile, List.mem_append, List.mem_cons]
      exact .inr (.inr (.inr hr))

omit [CollationKeys] in
/-- The rows from a header on, in the list of the table. -/
theorem onFrom_split (hR : Represents t T) (hL : T.toList = xs ++ a :: s) :
    Row.onFrom a.sKey (rowsOf T) = a.row :: s.map RowAt.row := by
  have hn := hR.nodup
  rw [rowsOf_split hL] at hn ⊢
  obtain ⟨hx, -⟩ := Row.keys_ne hn
  have hx' : ∀ r ∈ xs.map RowAt.row, decide (r.sKey ≠ a.sKey) = true :=
    fun r hr => decide_eq_true (hx r hr)
  rw [Row.onFrom, List.dropWhile_append_of_pos hx', List.dropWhile_cons_of_neg (by simp [RowAt.row])]

theorem category_split (hR : Represents t T) (hL : T.toList = xs ++ a :: s) :
    (Row.category a.sKey (rowsOf T)).map Row.sKey = (s.takeWhile (walksOver a.sortCols)).map RowAt.sKey := by
  rw [Row.category, onFrom_split hR hL]
  simp only [List.takeWhile_map, List.map_map]
  rfl

omit [CollationKeys] in
theorem onFrom_none (hR : Represents t T) (hmap : t.mapRow k = none) : Row.onFrom k (rowsOf T) = [] := by
  have hnone := hR.mapRow_eq_none.mp hmap
  rw [← keys_rowsOf] at hnone
  have hne : ∀ r ∈ rowsOf T, decide (r.sKey ≠ k) = true := fun r hr => decide_eq_true fun hkey =>
    hnone (hkey ▸ List.mem_map_of_mem hr)
  rw [Row.onFrom, ← List.append_nil (rowsOf T), List.dropWhile_append_of_pos hne, List.dropWhile_nil]

theorem category_none (hR : Represents t T) (hmap : t.mapRow k = none) : Row.category k (rowsOf T) = [] := by
  rw [Row.category, onFrom_none hR hmap]

theorem afterCategory_split (hR : Represents t T) (hL : T.toList = xs ++ a :: s) :
    Row.afterCategory a.sKey (rowsOf T) = (s.dropWhile (walksOver a.sortCols)).head?.map RowAt.row := by
  rw [Row.afterCategory, onFrom_split hR hL]
  simp only [List.dropWhile_map, List.head?_map]
  rfl

omit [CollationKeys] in
theorem find_header (hR : Represents t T)
    (hL : T.toList = xs ++ a :: s) : Row.find a.sKey (rowsOf T) = some a.row := by
  have hn := hR.nodup
  rw [rowsOf_split hL] at hn ⊢
  exact Row.find_split hn

/-- `HideRows` keeps the rows, and this is where it leaves the cursor. -/
theorem hideRows_keeps (hR : Represents t T) (k : SObjectTableKey) :
    Yields (t.hideRows k) fun res => ∃ T', Represents res.2.2 T' ∧ (∀ K, KeepsRows t T res.2.2 T' K) ∧
        (t.mapRow k = none ∧ res.2.2 = t ∨ ∃ xs a s, T.toList = xs ++ a :: s ∧ a.sKey = k ∧ res.2.2.lpCurrent =
              if (s.takeWhile (walksOver a.sortCols)).any fun r => t.lpCurrent == some r.addr then
                ((s.dropWhile (walksOver a.sortCols)).dropWhile RowAt.fHidden).head?.map RowAt.addr
              else t.lpCurrent) := by
  rcases hR.key_cases k with ⟨hmap, -⟩ | ⟨xs, a, s, hL, rfl⟩
  · rw [hideRows_notFound hmap]
    exact yields_some.mpr ⟨T, hR, fun K => .refl _ fun _ h => h, .inl ⟨hmap, rfl⟩⟩
  · refine (hideRows_spec hR hL).imp fun res hres => ?_
    obtain ⟨heap, T', -, -, hR', hL', ht'⟩ := hres
    exact ⟨T', hR', fun K => keepsRows_flags (f := (·.withHidden true)) (fun r => ⟨rfl, rfl⟩) hL hL'
      (by rw [ht']) K, .inr ⟨xs, a, s, hL, rfl, by rw [ht']⟩⟩

/-- `UnhideRows` keeps the rows, and this is where it leaves the cursor. -/
theorem unhideRows_keeps (hR : Represents t T) (k : SObjectTableKey) :
    Yields (t.unhideRows k) fun res => ∃ T', Represents res.2.2 T' ∧ (∀ K, KeepsRows t T res.2.2 T' K) ∧
        (t.mapRow k = none ∧ res.2.2 = t ∨ ∃ xs a s, T.toList = xs ++ a :: s ∧ a.sKey = k ∧
            res.2.2.lpCurrent = if a.fHidden then some a.addr
              else (s.dropWhile (walksOver a.sortCols)).head?.map RowAt.addr) := by
  rcases hR.key_cases k with ⟨hmap, -⟩ | ⟨xs, a, s, hL, rfl⟩
  · rw [unhideRows_notFound hmap]
    exact yields_some.mpr ⟨T, hR, fun K => .refl _ fun _ h => h, .inl ⟨hmap, rfl⟩⟩
  · cases hh : a.fHidden with
    | true =>
      have ha : a ∈ T.toList := by simp [hL]
      refine ⟨_, unhideRows_hidden hR ha hh, T, hR.setCursor (.inr (.inr ⟨a, ha, rfl⟩)),
        fun K => .refl _ fun _ h => h, .inr ⟨xs, a, s, hL, rfl, ?_⟩⟩
      rw [if_pos hh]
    | false =>
      refine (unhideRows_spec hR hL hh).imp fun res hres => ?_
      obtain ⟨heap, T', -, -, hR', hL', ht'⟩ := hres
      refine ⟨T', hR', fun K => keepsRows_flags (fun r => ⟨r.unhide_addr _, ?_⟩) hL hL'
        (by rw [ht']) K, .inr ⟨xs, a, s, hL, rfl, ?_⟩⟩
      · rw [RowAt.unhide]
        split_ifs <;> rfl
      · rw [ht', hh, if_neg (by simp)]

/-! ## Steps -/

/-- A call keeps the rows and the bookmarks it is not about; the cursor stays on such a row unless the
call seeks, hides or unhides. -/
structure StepKeeps (t : ECKeyTable) (T : AvlTree RowAt) (op : TableOp) (t' : ECKeyTable)
    (T' : AvlTree RowAt) : Prop where
  rows : ∀ r ∈ T.toList, r.sKey ∉ op.keys (rowsOf T) →
    ∃ r' ∈ T'.toList, r'.addr = r.addr ∧ r'.sKey = r.sKey
  bookmarks : ∀ b ∈ t.mapBookmarks, ∀ r ∈ T.toList, r.sKey ∉ op.keys (rowsOf T) →
    b.2.lpPosition = some r.addr → op ≠ .freeBookmark b.1 → b ∈ t'.mapBookmarks
  cursor : (∀ k, op ≠ .hideRows k) → (∀ k, op ≠ .unhideRows k) → op.seeks = false →
    StaysPut t T t' (op.keys (rowsOf T))

variable {op : TableOp}

theorem KeepsRows.step (h : KeepsRows t T t' T' (op.keys (rowsOf T)))
    (hstay : (∀ k, op ≠ .hideRows k) → (∀ k, op ≠ .unhideRows k) → op.seeks = false →
      StaysPut t T t' (op.keys (rowsOf T))) : StepKeeps t T op t' T' :=
  ⟨h.rows, fun b hb r hr hk hpos _ => h.bookmarks b hb r hr hk hpos, hstay⟩

/-- A call that seeks. -/
theorem stepKeeps_seek (hs : op.seeks = true) (hb : t'.mapBookmarks = t.mapBookmarks) : StepKeeps t T op t' T :=
  (KeepsRows.refl _ fun _ h => by rw [hb]; exact h).step fun _ _ h => by rw [hs] at h; cases h

theorem step_keeps (hR : Represents t T) (op : TableOp) :
    Yields (op.step t) fun t' => ∃ T', Represents t' T' ∧ StepKeeps t T op t' T' := by
  cases op with
  | updateRow ulType k cols fHidden =>
    refine (updateRow_keeps hR ulType k cols fHidden).bind fun _ hres => yields_some.mpr ?_
    obtain ⟨T', hR', hkeep, hstay⟩ := hres
    exact ⟨T', hR', hkeep.step fun _ _ _ => hstay⟩
  | updatePartialSortKey k ulColumn col =>
    refine (updatePartialSortKey_keeps hR k ulColumn col).bind fun _ hres => yields_some.mpr ?_
    obtain ⟨T', hR', hkeep, hstay⟩ := hres
    exact ⟨T', hR', hkeep.step fun _ _ _ => hstay⟩
  | hideRows k =>
    refine (hideRows_keeps hR k).bind fun _ hres => yields_some.mpr ?_
    obtain ⟨T', hR', hkeep, -⟩ := hres
    exact ⟨T', hR', (hkeep _).step fun hop => absurd rfl (hop k)⟩
  | unhideRows k =>
    refine (unhideRows_keeps hR k).bind fun _ hres => yields_some.mpr ?_
    obtain ⟨T', hR', hkeep, -⟩ := hres
    exact ⟨T', hR', (hkeep _).step fun _ hop => absurd rfl (hop k)⟩
  | seekRow lbkOrgin lSeekTo =>
    obtain ⟨er, sought, pos, hseek, hpos⟩ := seekRow_valid hR lbkOrgin lSeekTo
    rw [TableOp.step, hseek]
    exact yields_some.mpr ⟨T, hR.setCursor hpos, stepKeeps_seek rfl rfl⟩
  | seekId k =>
    have hR' : Represents (t.seekId k).2 T := by
      rw [ECKeyTable.seekId]
      rcases hR.key_cases k with ⟨hmap, -⟩ | ⟨xs, a, ys, hL, rfl⟩
      · rw [hmap]
        exact hR
      · have ha : a ∈ T.toList := by simp [hL]
        rw [hR.mapRow_of_mem ha]
        exact hR.setCursor (.inr (.inr ⟨a, ha, rfl⟩))
    have hb : (t.seekId k).2.mapBookmarks = t.mapBookmarks := by
      rw [ECKeyTable.seekId]
      split <;> rfl
    exact yields_some.mpr ⟨T, hR', stepKeeps_seek rfl hb⟩
  | queryRows n bDirBackward noAdvance bShowHidden =>
    obtain ⟨keys, pos, hread, hpos⟩ := queryRows_valid hR n bDirBackward noAdvance bShowHidden
    rw [TableOp.step, hread]
    exact yields_some.mpr ⟨T, hR.setCursor hpos, stepKeeps_seek rfl rfl⟩
  | clear =>
    -- every row is freed
    have hall : ∀ r ∈ T.toList, r.sKey ∈ TableOp.clear.keys (rowsOf T) := by
      intro r hr
      rw [TableOp.keys, keys_rowsOf]
      exact List.mem_map_of_mem hr
    refine (clear_spec hR).imp fun t' ht' => ?_
    obtain ⟨heap, hR', -⟩ := ht'
    exact ⟨.nil, hR', ⟨fun r hr hk => absurd (hall r hr) hk,
      fun _ _ r hr hk => absurd (hall r hr) hk, fun _ _ _ r hr hk => absurd (hall r hr) hk⟩⟩
  | createBookmark =>
    rw [TableOp.step, ECKeyTable.createBookmark]
    split_ifs
    · exact yields_some.mpr ⟨T, hR, (KeepsRows.refl _ fun _ h => h).step
        fun _ _ _ _ _ _ h => h⟩
    · obtain ⟨n, hn⟩ := hR.cursor.rowNumber
      rw [ECKeyTable.getRowCount, currentRow_spec hR.holds hn, rowCount_spec hR.holds.has]
      refine yields_some.mpr ⟨T, { hR with bookmarks := fun b hb => ?_ },
        (KeepsRows.refl _ fun _ h => List.mem_append_left _ h).step fun _ _ _ _ _ _ h => h⟩
      rcases List.mem_append.mp hb with hb | hb
      · exact hR.bookmarks b hb
      · rw [List.mem_singleton] at hb
        subst hb
        exact hR.cursor
  | freeBookmark n =>
    rw [TableOp.step, ECKeyTable.freeBookmark]
    cases t.mapBookmarks.lookup n with
    | none => exact yields_some.mpr ⟨T, hR, (KeepsRows.refl _ fun _ h => h).step
        fun _ _ _ _ _ _ h => h⟩
    | some b =>
      refine yields_some.mpr ⟨T, { hR with
        bookmarks := fun b hb => hR.bookmarks b (List.mem_of_mem_filter hb) }, ⟨?_, ?_, ?_⟩⟩
      · exact fun r hr _ => ⟨r, hr, rfl, rfl⟩
      · intro b hb r _ _ _ hne
        have hne' : b.1 ≠ n := fun h => hne (by rw [h])
        exact List.mem_filter.mpr ⟨hb, decide_eq_true hne'⟩
      · exact fun _ _ _ _ _ _ h => h

/-- A place on a row that a call is not about stays on the row with its key. -/
theorem StepKeeps.standsOn (h : StepKeeps t T op t' T') (hR : Represents t T) (hR' : Represents t' T')
    (hk : k ∉ op.keys (rowsOf T)) (hpos : t.StandsOn pos k) : t'.StandsOn pos k := by
  obtain ⟨r, hr, rfl, rfl⟩ := hR.standsOn_iff.mp hpos
  obtain ⟨r', hr', haddr, hkey⟩ := h.rows r hr hk
  exact hR'.standsOn_iff.mpr ⟨r', hr', hkey, by rw [haddr]⟩

theorem keepsBookmarks_spec (hstep : op.step t = some t') : (TableCall.mk t op t').KeepsBookmarks := by
  intro T hR k hk n b hne hb hpos
  obtain ⟨t₁, ht₁, T', hR', hkeep⟩ := step_keeps hR op
  obtain rfl : t' = t₁ := Option.some.inj (hstep.symm.trans ht₁)
  refine ⟨?_, hkeep.standsOn hR hR' hk hpos⟩
  obtain ⟨r, hr, rfl, hr'⟩ := hR.standsOn_iff.mp hpos
  exact hkeep.bookmarks (n, b) hb r hr hk hr' hne

/-- `HideRows` leaves the cursor on its row exactly when that is not in the category. -/
theorem hideRows_cursor (hstep : (TableOp.hideRows k).step t = some t') :
    (TableCall.mk t (.hideRows k) t').KeepsCursor ↔ (TableCall.mk t (.hideRows k) t').LeavesCursor := by
  -- what the call leaves, for any tree of the table
  have hleft {T : AvlTree RowAt} (hR : Represents t T) : ∃ T', Represents t' T' ∧
      (∀ K, KeepsRows t T t' T' K) ∧ (t.mapRow k = none ∧ t' = t ∨
        ∃ xs a s, T.toList = xs ++ a :: s ∧ a.sKey = k ∧ t'.lpCurrent =
          if (s.takeWhile (walksOver a.sortCols)).any fun r => t.lpCurrent == some r.addr then
            ((s.dropWhile (walksOver a.sortCols)).dropWhile RowAt.fHidden).head?.map RowAt.addr
          else t.lpCurrent) := by
    obtain ⟨res, hres, hspec⟩ := hideRows_keeps hR k
    obtain rfl : t' = res.2.2 := by
      rw [TableOp.step, hres] at hstep
      exact (Option.some.inj hstep).symm
    exact hspec
  constructor
  · refine fun hkeep => ⟨fun k₁ hk₁ T hR k' hk' hpos hcat => ?_, fun k₁ hk₁ => by cases hk₁⟩
    cases hk₁
    obtain ⟨T', hR', hrows, ⟨hmap, -⟩ | ⟨xs, a, s, hL, rfl, hcur⟩⟩ := hleft hR
    · rw [category_none hR hmap] at hcat
      cases hcat
    · change k' ∈ (Row.category a.sKey (rowsOf T)).map Row.sKey at hcat
      rw [category_split hR hL] at hcat
      obtain ⟨r, hr, rfl⟩ := List.mem_map.mp hcat
      have hrT : r ∈ T.toList := by
        rw [hL]
        exact List.mem_append_right _ (List.mem_cons_of_mem _ ((List.takeWhile_sublist _).mem hr))
      obtain ⟨r₀, hr₀, hkey₀, hpos₀⟩ := hR.standsOn_iff.mp hpos
      obtain rfl := hR.eq_of_key hr₀ hrT hkey₀
      change t.lpCurrent = some r₀.addr at hpos₀
      rw [if_pos (List.any_eq_true.mpr ⟨r₀, hr, by rw [hpos₀]; exact beq_self_eq_true _⟩)] at hcur
      -- the cursor is on a row behind the category, which is another one
      obtain ⟨r', hr', hkey', hr'pos⟩ := hR'.standsOn_iff.mp (hkeep rfl T hR _ hk' hpos)
      change t'.lpCurrent = some r'.addr at hr'pos
      rw [hcur] at hr'pos
      obtain ⟨b, hb, haddr⟩ := Option.map_eq_some_iff.mp hr'pos
      have hbs : b ∈ s.dropWhile (walksOver a.sortCols) :=
        (List.dropWhile_sublist _).mem (List.mem_of_mem_head? hb)
      have hbT : b ∈ T.toList := by
        rw [hL]
        exact List.mem_append_right _ (List.mem_cons_of_mem _ ((List.dropWhile_sublist _).mem hbs))
      obtain ⟨b', hb', hb'addr, hb'key⟩ := (hrows []).rows b hbT List.not_mem_nil
      obtain rfl := hR'.eq_of_addr hb' hr' (hb'addr.trans haddr)
      obtain rfl := hR.eq_of_key hbT hrT (hb'key.symm.trans hkey')
      have hnodup := hR.keys
      rw [hL, ← List.takeWhile_append_dropWhile (p := walksOver a.sortCols) (l := s), List.map_append,
        List.map_cons, List.map_append] at hnodup
      have hdisjoint := List.disjoint_of_nodup_append (List.nodup_cons.mp hnodup.of_append_right).2
      exact hdisjoint (List.mem_map_of_mem hr) (List.mem_map_of_mem hbs)
  · rintro hleave - T hR k' hk' hpos
    obtain ⟨T', hR', hrows, ⟨-, rfl⟩ | ⟨xs, a, s, hL, rfl, hcur⟩⟩ := hleft hR
    · exact hpos
    · have hout := hleave.hides a.sKey rfl T hR k' hk' hpos
      rw [category_split hR hL] at hout
      obtain ⟨r, hr, rfl, hrpos⟩ := hR.standsOn_iff.mp hpos
      change t.lpCurrent = some r.addr at hrpos
      have houtside : ((s.takeWhile (walksOver a.sortCols)).any fun r => t.lpCurrent == some r.addr) = false := by
        refine List.any_eq_false.mpr fun x hx hxcur => hout ?_
        rw [hrpos, beq_iff_eq, Option.some.injEq] at hxcur
        have hxT : x ∈ T.toList := by
          rw [hL]
          exact List.mem_append_right _ (List.mem_cons_of_mem _ ((List.takeWhile_sublist _).mem hx))
        obtain rfl := hR.eq_of_addr hr hxT hxcur
        exact List.mem_map_of_mem hx
      obtain ⟨r', hr', haddr, hkey⟩ := (hrows []).rows r hr List.not_mem_nil
      refine hR'.standsOn_iff.mpr ⟨r', hr', hkey, ?_⟩
      change t'.lpCurrent = some r'.addr
      rw [hcur, houtside, haddr]
      exact hrpos

/-- `UnhideRows` leaves the cursor on its row exactly when it is the row behind the category. -/
theorem unhideRows_cursor (hstep : (TableOp.unhideRows k).step t = some t') :
    (TableCall.mk t (.unhideRows k) t').KeepsCursor ↔ (TableCall.mk t (.unhideRows k) t').LeavesCursor := by
  -- what the call leaves, for any tree of the table
  have hleft {T : AvlTree RowAt} (hR : Represents t T) : ∃ T', Represents t' T' ∧
      (∀ K, KeepsRows t T t' T' K) ∧ (t.mapRow k = none ∧ t' = t ∨
        ∃ xs a s, T.toList = xs ++ a :: s ∧ a.sKey = k ∧ t'.lpCurrent =
          if a.fHidden then some a.addr
          else (s.dropWhile (walksOver a.sortCols)).head?.map RowAt.addr) := by
    obtain ⟨res, hres, hspec⟩ := unhideRows_keeps hR k
    obtain rfl : t' = res.2.2 := by
      rw [TableOp.step, hres] at hstep
      exact (Option.some.inj hstep).symm
    exact hspec
  constructor
  · refine fun hkeep => ⟨fun k₁ hk₁ => (by cases hk₁), fun k₁ hk₁ T hR k' hk' hpos header hheader => ?_⟩
    cases hk₁
    obtain ⟨T', hR', hrows, ⟨hmap, -⟩ | ⟨xs, a, s, hL, rfl, hcur⟩⟩ := hleft hR
    · have hnone := hR.mapRow_eq_none.mp hmap
      rw [← keys_rowsOf] at hnone
      rw [Row.find_eq_none hnone] at hheader
      cases hheader
    · change Row.find a.sKey (rowsOf T) = some header at hheader
      rw [find_header hR hL] at hheader
      cases hheader
      obtain ⟨r', hr', rfl, hr'pos⟩ := hR'.standsOn_iff.mp (hkeep rfl T hR k' hk' hpos)
      change t'.lpCurrent = some r'.addr at hr'pos
      rw [hcur] at hr'pos
      -- the row at an address has the same key before and after
      have hkey : ∀ x ∈ T.toList, x.addr = r'.addr → x.sKey = r'.sKey := by
        intro x hx haddr
        obtain ⟨x', hx', hxaddr, hxkey⟩ := (hrows []).rows x hx (List.not_mem_nil)
        rw [← hxkey, hR'.eq_of_addr hx' hr' (hxaddr.trans haddr)]
      -- a header that is hidden is refused, with the cursor on it
      split_ifs at hr'pos with hh
      · have ha : a ∈ T.toList := by simp [hL]
        refine absurd ?_ hk'
        have hmem : r'.sKey = a.sKey := (hkey a ha (Option.some.inj hr'pos)).symm
        show r'.sKey ∈ TableOp.keys (rowsOf T) (.unhideRows a.sKey)
        rw [TableOp.keys, hmem]
        split_ifs <;> simp
      · refine ⟨Bool.eq_false_iff.mpr hh, ?_⟩
        rw [afterCategory_split hR hL]
        cases hd : (s.dropWhile (walksOver a.sortCols)).head? with
        | none => rw [hd] at hr'pos; cases hr'pos
        | some b =>
          rw [hd] at hr'pos
          have hb : b ∈ T.toList := by
            rw [hL]
            have := (List.dropWhile_sublist (walksOver a.sortCols)).mem (List.mem_of_mem_head? hd)
            simp [this]
          exact congrArg some (hkey b hb (Option.some.inj hr'pos))
  · rintro hleave - T hR k' hk' hpos
    obtain ⟨T', hR', hrows, ⟨-, rfl⟩ | ⟨xs, a, s, hL, rfl, hcur⟩⟩ := hleft hR
    · exact hpos
    · obtain ⟨hvisible, hafter⟩ := hleave.unhides a.sKey rfl T hR k' hk' hpos a.row (find_header hR hL)
      rw [afterCategory_split hR hL] at hafter
      rw [if_neg (by simpa [RowAt.row] using hvisible)] at hcur
      cases hd : (s.dropWhile (walksOver a.sortCols)).head? with
      | none => rw [hd] at hafter; cases hafter
      | some b =>
        rw [hd] at hafter hcur
        have hb : b ∈ T.toList := by
          rw [hL]
          have := (List.dropWhile_sublist (walksOver a.sortCols)).mem (List.mem_of_mem_head? hd)
          simp [this]
        obtain ⟨b', hb', haddr, hkey⟩ := (hrows []).rows b hb (List.not_mem_nil)
        refine hR'.standsOn_iff.mpr ⟨b', hb', hkey.trans (Option.some.inj hafter), ?_⟩
        rw [haddr]
        exact hcur

/-- A call leaves the cursor on a row it is not about exactly when it is no `HideRows` or `UnhideRows`
that takes the cursor along. -/
theorem keepsCursor_iff (hstep : op.step t = some t') :
    (TableCall.mk t op t').KeepsCursor ↔ (TableCall.mk t op t').LeavesCursor := by
  by_cases hhide : ∃ k, op = .hideRows k
  · obtain ⟨k, rfl⟩ := hhide
    exact hideRows_cursor hstep
  by_cases hop : ∃ k, op = .unhideRows k
  · obtain ⟨k, rfl⟩ := hop
    exact unhideRows_cursor hstep
  · constructor
    · rintro -
      exact ⟨fun k hk => absurd ⟨k, hk⟩ hhide, fun k hk => absurd ⟨k, hk⟩ hop⟩
    · rintro - hseeks T hR k hk hpos
      obtain ⟨t₁, ht₁, T', hR', hkeep⟩ := step_keeps hR op
      obtain rfl : t' = t₁ := Option.some.inj (hstep.symm.trans ht₁)
      obtain ⟨r, hr, rfl, hcur⟩ := hR.standsOn_iff.mp hpos
      have hstay := hkeep.cursor (fun k h => hhide ⟨k, h⟩) (fun k h => hop ⟨k, h⟩) hseeks r hr hk hcur
      have hpos' := hkeep.standsOn hR hR' hk hpos
      change t.lpCurrent = some r.addr at hcur
      change t'.StandsOn t'.lpCurrent r.sKey
      rw [hstay, ← hcur]
      exact hpos'

/-! ## Runs -/

/-- Every call of a run returns: none reads a row that is gone. -/
theorem calls_return (hR : Represents t T) (ops : List TableOp) : (calls t ops).map TableCall.op = ops := by
  induction ops generalizing t T with
  | nil => rfl
  | cons op ops ih =>
    obtain ⟨t', hstep, T', hR', -⟩ := step_keeps hR op
    rw [calls, hstep, List.map_cons, ih hR']

theorem calls_spec (hR : Represents t T) (ops : List TableOp) :
    (∀ c ∈ calls t ops, c.after.PositionsSafe ∧ c.KeepsBookmarks) ∧
      ((∀ c ∈ calls t ops, c.KeepsCursor) ↔ ∀ c ∈ calls t ops, c.LeavesCursor) := by
  induction ops generalizing t T with
  | nil => simp [calls]
  | cons op ops ih =>
    obtain ⟨t', hstep, T', hR', -⟩ := step_keeps hR op
    obtain ⟨hsafe, hiff⟩ := ih hR'
    rw [calls, hstep]
    simp only [List.mem_cons, forall_eq_or_imp]
    exact ⟨⟨⟨hR'.positionsSafe, keepsBookmarks_spec hstep⟩, hsafe⟩,
      and_congr (keepsCursor_iff hstep) hiff⟩

/-- **The cursor and the bookmarks of every run**: every call returns and leaves them at safe places,
calls about other rows keep the bookmarks, and they keep the cursor exactly as long as no `HideRows` or
`UnhideRows` takes it along. -/
theorem positions_iff (ops : List TableOp) : ((calls .new ops).map TableCall.op = ops ∧
      ∀ c ∈ calls .new ops, c.after.PositionsSafe ∧ c.KeepsBookmarks ∧ c.KeepsCursor) ↔
      ∀ c ∈ calls .new ops, c.LeavesCursor := by
  obtain ⟨hsafe, hiff⟩ := calls_spec represents_new ops
  constructor
  · rintro ⟨-, h⟩
    exact hiff.mp fun c hc => (h c hc).2.2
  · intro h
    exact ⟨calls_return represents_new ops, fun c hc =>
      ⟨(hsafe c hc).1, (hsafe c hc).2, hiff.mpr h c hc⟩⟩

/-- The last call of a run is one of its calls. -/
theorem mem_calls_last {t₀ : ECKeyTable} {ops : List TableOp}
    (hrun : run t₀ ops = some t) (hstep : op.step t = some t') : ⟨t, op, t'⟩ ∈ calls t₀ (ops ++ [op]) := by
  induction ops generalizing t₀ with
  | nil =>
    obtain rfl : t₀ = t := Option.some.inj hrun
    rw [List.nil_append, calls, hstep]
    exact List.mem_cons_self
  | cons op' ops ih =>
    rw [run, List.foldlM_cons] at hrun
    obtain ⟨t₁, hstep₁, hrest⟩ := Option.bind_eq_some_iff.mp hrun
    rw [List.cons_append, calls, hstep₁]
    exact List.mem_cons_of_mem _ (ih hrest)

/-- Two categories and a row behind them, with the cursor on that row. -/
def driftOps : List TableOp :=
  [.updateRow .TABLE_ROW_ADD ⟨1, 0⟩ [⟨[10], 0⟩] false,
    .updateRow .TABLE_ROW_ADD ⟨2, 0⟩ [⟨[10], 0⟩, ⟨[5], 0⟩] true,
    .updateRow .TABLE_ROW_ADD ⟨3, 0⟩ [⟨[20], 0⟩] false,
    .updateRow .TABLE_ROW_ADD ⟨4, 0⟩ [⟨[30], 0⟩] false,
    .seekRow EC_SEEK_SET 2]

end Update

/-- `UnhideRows` of the first category moves a cursor that stands on a row behind the second one. -/
theorem not_positions_drift : ¬ ∀ [CollationKeys] (ops : List TableOp), (calls .new ops).map TableCall.op = ops ∧
      ∀ c ∈ calls .new ops, c.after.PositionsSafe ∧ c.KeepsBookmarks ∧ c.KeepsCursor := by
  intro h
  let _ : CollationKeys := .bytewise
  obtain ⟨t, hrun, T, hR, hrows⟩ := run_new driftOps
  have hfit : ∀ op ∈ driftOps, op.Fits fun _ => 0 := by
    intro op hop
    simp only [driftOps, List.mem_cons, List.not_mem_nil, or_false] at hop
    rcases hop with rfl | rfl | rfl | rfl | rfl <;> simp only [TableOp.Fits] <;> decide
  obtain ⟨hlist, -⟩ := hrows _ hfit
  obtain ⟨t', hstep, -⟩ := step_keeps hR (.unhideRows ⟨1, 0⟩)
  obtain ⟨-, -, hkeep⟩ := (h _).2 _ (mem_calls_last hrun hstep)
  -- the cursor stands on the fourth row, and the third one is behind the category
  have hplaces : (run .new driftOps).map (fun t => (t.lpCurrent, t.mapRow ⟨4, 0⟩)) =
      some (some 4, some 4) := by decide +kernel
  rw [hrun, Option.map_some, Option.some.injEq, Prod.mk.injEq] at hplaces
  have hkeys : ⟨4, 0⟩ ∉ (TableOp.unhideRows ⟨1, 0⟩).keys (rowsOf T) := by
    rw [hlist]
    decide +kernel
  have hheader : Row.find ⟨1, 0⟩ (rowsOf T) = some ⟨⟨1, 0⟩, [⟨[10], 0⟩], false⟩ := by
    rw [hlist]
    decide +kernel
  have hafter := (((keepsCursor_iff hstep).mp hkeep).unhides _ rfl T hR ⟨4, 0⟩ hkeys
    ⟨4, hplaces.1, hplaces.2⟩ _ hheader).2
  rw [hlist] at hafter
  exact absurd hafter (by decide +kernel)

end Zcp.Common
