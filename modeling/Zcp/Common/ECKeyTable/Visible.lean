import Zcp.Common.ECKeyTable.Search

/-!
# Tables without hidden rows

The updates that hide no row keep them. In such a table, reading one row returns the row of the cursor, and backward the
cursor stays on the root of the tree and leaves the first row for the sentinel.
-/

namespace Zcp.Common

open Zcp.Lib

/-- No row is hidden. -/
def AllVisible (rows : List RowAt) : Prop := ∀ r ∈ rows, r.fHidden = false

/-- The table is in a valid state and no row of it is hidden. -/
def ECKeyTable.Visible (t : ECKeyTable) : Prop := ∃ T, Represents t T ∧ AllVisible T.toList

variable {t : ECKeyTable} {T : AvlTree RowAt}

/-! ## Updates -/

variable {xs ys : List RowAt}

theorem AllVisible.sub (h : AllVisible ys) (hsub : ∀ r ∈ xs, r ∈ ys) : AllVisible xs :=
  fun r hr => h r (hsub r hr)

variable {a : RowAt}

theorem AllVisible.delete (h : AllVisible (xs ++ a :: ys)) : AllVisible (xs ++ ys) := by
  refine h.sub fun r hr => ?_
  rw [List.mem_append] at hr ⊢
  exact hr.imp_right (List.mem_cons_of_mem a)

/-- A visible row is put in. -/
theorem AllVisible.insert {r : RowAt} (h : AllVisible (xs ++ ys)) (hr : r.fHidden = false) :
    AllVisible (xs ++ r :: ys) := by
  intro x hx
  rcases List.mem_append.mp hx with hx | hx
  · exact h x (List.mem_append_left ys hx)
  · rcases List.mem_cons.mp hx with rfl | hx
    · exact hr
    · exact h x (List.mem_append_right xs hx)

theorem visible_new : ECKeyTable.new.Visible :=
  ⟨.nil, represents_new, fun _ hr => absurd hr List.not_mem_nil⟩

theorem deleteRow_visible (h : t.Visible) (k : SObjectTableKey) : Yields (t.deleteRow k) fun res => res.2.Visible := by
  obtain ⟨T, hR, hvis⟩ := h
  rcases hR.key_cases k with ⟨hmap, -⟩ | ⟨xs, a, ys, hL, rfl⟩
  · rw [ECKeyTable.deleteRow, hmap]
    exact yields_some.mpr ⟨T, hR, hvis⟩
  · refine (deleteRow_spec hR hL).imp fun res hres => ?_
    obtain ⟨T', hR', hL'⟩ := hres.2.rows
    refine ⟨T', hR', ?_⟩
    rw [hL']
    exact (hL ▸ hvis).delete

theorem putRow_visible [CollationKeys] (h : t.Visible) (k : SObjectTableKey) (cols : List SortCol) :
    Yields (t.putRow k cols false) fun res => res.table.Visible := by
  obtain ⟨T, hR, hvis⟩ := h
  rcases hR.key_cases k with ⟨-, hk⟩ | ⟨xs, a, ys, hL, rfl⟩
  · refine (putRow_new hR (by rwa [keys_rowsOf] at hk)).imp fun res hres => ?_
    obtain ⟨xs, ys, hL, -, -, -, -, -, hins⟩ := hres
    obtain ⟨T', hR', hL'⟩ := hins.rows
    refine ⟨T', hR', ?_⟩
    rw [hL']
    exact (hL ▸ hvis).insert rfl
  · by_cases hsame : ¬ rowcompareCols false a.sortCols cols ∧ ¬ rowcompareCols false cols a.sortCols
    · exact ⟨_, putRow_same hR hL hsame.1 hsame.2, T, hR, hvis⟩
    · have hdiff : rowcompareCols false a.sortCols cols ∨ rowcompareCols false cols a.sortCols := by
        by_contra h
        exact hsame (not_or.mp h)
      refine (putRow_moved hR hL hdiff).imp fun res hres => ?_
      obtain ⟨t₁, T₁, xs', ys', -, -, -, hsplit, -, -, -, -, hins⟩ := hres
      obtain ⟨T', hR', hL'⟩ := hins.rows
      refine ⟨T', hR', ?_⟩
      rw [hL']
      refine AllVisible.insert ?_ rfl
      rw [← hsplit]
      exact (hL ▸ hvis).delete

theorem ECKeyTable.Visible.updateRow [CollationKeys] (h : t.Visible) (ulType : UpdateType) (k : SObjectTableKey)
    (cols : List SortCol) : Yields (t.updateRow ulType k cols false) fun res => res.table.Visible := by
  cases ulType with
  | TABLE_ROW_ADD => exact putRow_visible h k cols
  | TABLE_ROW_MODIFY => exact putRow_visible h k cols
  | TABLE_ROW_DELETE => exact (deleteRow_visible h k).bind fun res hres => yields_some.mpr hres
  | _ => exact yields_some.mpr h

theorem ECKeyTable.Visible.clear (h : t.Visible) : Yields t.clear ECKeyTable.Visible := by
  obtain ⟨T, hR, -⟩ := h
  refine (clear_spec hR).imp fun t' ht' => ?_
  obtain ⟨heap, hR', -⟩ := ht'
  exact ⟨.nil, hR', fun _ hr => absurd hr List.not_mem_nil⟩

theorem ECKeyTable.Visible.seekRow (h : t.Visible) (org : ℕ) (k : ℤ) :
    Yields (t.seekRow org k) fun res => res.2.2.Visible := by
  obtain ⟨T, hR, hvis⟩ := h
  obtain ⟨er, sought, pos, heq, hpos⟩ := seekRow_valid hR org k
  exact ⟨_, heq, T, hR.setCursor hpos, hvis⟩

/-! ## Rows by number -/

theorem AllVisible.visibleList_eq {rows : List RowAt} (h : AllVisible rows) : visibleList rows = rows := by
  rw [visibleList, List.filter_eq_self]
  intro r hr
  rw [h r hr]
  rfl

theorem AllVisible.visibleKeys_eq (h : AllVisible T.toList) : visibleKeys T = T.toList.map RowAt.sKey := by
  rw [visibleKeys, h.visibleList_eq]

theorem AllVisible.count_eq (h : AllVisible T.toList) : count T = T.toList.length := by
  rw [count_eq_visibleRows, visibleRows_eq_length h]

theorem AllVisible.left (h : AllVisible T.toList) (hL : T.toList = xs ++ ys) : AllVisible xs :=
  h.sub fun _ hr => hL ▸ List.mem_append_left ys hr

/-- The row number of the first row of the end of the table. -/
theorem AllVisible.rowNumber (h : AllVisible T.toList) (lpRoot : Addr) {s : List RowAt} (hL : T.toList = xs ++ s) :
    RowNumber lpRoot T (s.head?.map RowAt.addr) xs.length := by
  cases s with
  | nil =>
    refine .inl ⟨rfl, ?_⟩
    rw [h.count_eq, hL, List.append_nil]
  | cons a ys => exact .inr (.inr ⟨xs, a, ys, hL, rfl, (visibleRows_eq_length (h.left hL)).symm⟩)

/-- The row of a place that `SeekRow` finds. -/
theorem StandsAt.split {n : ℕ} (h : StandsAt t T n) (hvis : AllVisible T.toList) (hpos : 0 < count T) :
    ∃ xs s, T.toList = xs ++ s ∧ xs.length = n ∧ t.lpCurrent = s.head?.map RowAt.addr := by
  have hseeks {k : ℕ} (hk : k ≤ count T) : t.SeeksVisible k := seeksVisible_of_visible h.represents hvis hk
  rcases Nat.lt_or_ge n (count T) with hlt | hge
  · obtain ⟨xs, a, ys, hL, hxs, -, hcur⟩ := h.row hlt (hseeks h.le)
    exact ⟨xs, a :: ys, hL, by rw [← hxs, visibleRows_eq_length (hvis.left hL)], hcur⟩
  · obtain rfl : n = count T := le_antisymm h.le hge
    exact ⟨T.toList, [], (List.append_nil _).symm, hvis.count_eq.symm, h.end hpos (hseeks le_rfl)⟩

/-! ## Reading one row -/

/-- A read of at most one row, in a table that is not empty. -/
private theorem queryRows_one (hR : Represents t T) (hpos : 0 < count T) {bDirBackward : Bool}
    (hstart : t.queryRowsStart bDirBackward = some t) :
    t.queryRows 1 bDirBackward false false = ECKeyTable.queryRowsLoop bDirBackward false (t.fuel + 2) t 1 := by
  have hone : (if 1 > count T then count T else 1) = 1 := if_neg (by omega)
  rw [ECKeyTable.queryRows, hstart]
  simp only [Option.bind_eq_bind, Option.bind_some, rowCount_spec hR.holds.has, hone]
  cases ECKeyTable.queryRowsLoop bDirBackward false (t.fuel + 2) t 1 with
  | none => rfl
  | some res => rfl

/-- An empty table. -/
theorem queryRows_one_empty (hR : Represents t T) (hcur : t.lpCurrent = some t.lpRoot) (hzero : count T = 0)
    (bDirBackward : Bool) : t.queryRows 1 bDirBackward false false = some ([], t) := by
  have hcount := rowCount_spec hR.holds.has
  rw [hzero] at hcount
  simp [ECKeyTable.queryRows, ECKeyTable.queryRowsStart, hcount, hcur, ECKeyTable.queryRowsLoop]

/-- Forward. -/
theorem queryRows_one_forward (hR : Represents t T) (hvis : AllVisible T.toList) (hpos : 0 < count T) {s : List RowAt}
    (hL : T.toList = xs ++ s) (hcur : t.lpCurrent = s.head?.map RowAt.addr) : t.queryRows 1 false false false =
      some ((s.take 1).map RowAt.sKey, { t with lpCurrent := s.tail.head?.map RowAt.addr }) := by
  have hlen := hR.holds.length_lt
  rw [hL, List.length_append] at hlen
  have hstart : t.queryRowsStart false = some t := by
    cases s with
    | nil =>
      rw [ECKeyTable.queryRowsStart, rowCount_spec hR.holds.has, hcur]
      simp
    | cons a ys => exact queryRowsStart_row hR (by simp [hL]) hcur false
  rw [queryRows_one hR hpos hstart, queryRowsLoop_forward hR.holds hL hcur (by omega)]
  cases s with
  | nil => rfl
  | cons a ys =>
    have ha : shown false a = true := by
      rw [shown, hvis a (by simp [hL])]
      rfl
    rw [readRows, if_pos ha, readRows_zero]
    rfl

/-- Where a backward read of one row leaves the cursor. -/
def prevPlace (lpRoot : Addr) (T : AvlTree RowAt) (xs : List RowAt) (a : RowAt) : Addr :=
  if addr? T = some a.addr then a.addr else lastAddr lpRoot xs

/-- Backward. -/
theorem queryRows_one_backward (hR : Represents t T) (hvis : AllVisible T.toList)
    (hL : T.toList = xs ++ a :: ys) (hcur : t.lpCurrent = some a.addr) :
    t.queryRows 1 true false false = some ([a.sKey], { t with lpCurrent := some (prevPlace t.lpRoot T xs a) }) := by
  have ha : a ∈ T.toList := by simp [hL]
  have hpos : 0 < count T := by
    rw [hvis.count_eq]
    exact List.length_pos_of_mem ha
  obtain ⟨p, left, x, y, m, j, hcell⟩ := hR.holds.cell ha
  obtain ⟨i, hroot⟩ := hR.holds.has.split.1.exists
  have hfuel : t.fuel + 2 = (t.fuel + 1) + 1 := rfl
  rw [queryRows_one hR hpos (queryRowsStart_row hR ha hcur true), hfuel, ECKeyTable.queryRowsLoop, if_neg one_ne_zero,
    hcur]
  simp only [hcell, hroot.get, Option.bind_eq_bind, Option.bind_some, RowAt.cell, hvis a ha, Bool.not_false, Bool.true_or,
    if_true, Bool.true_and, rootCell, beq_iff_eq, prevPlace]
  split_ifs
  · rw [setCursor_self hcur]
  · rw [prevCursor_spec hR.holds hL hcur, Option.bind_some, ECKeyTable.queryRowsLoop]
    rfl

/-! ## Reading backward -/

theorem AllVisible.readingOrder_backward (h : AllVisible T.toList)
    (hL : T.toList = xs ++ a :: ys) : readingOrder T true xs.length = a.sKey :: xs.reverse.map RowAt.sKey := by
  have hL' : T.toList = (xs ++ [a]) ++ ys := hL.trans (List.append_cons xs a ys)
  have hrows : visibleRows (xs ++ [a]) = xs.length + 1 := by
    rw [visibleRows_eq_length (h.left hL'), List.length_append]
    rfl
  rw [Zcp.Common.readingOrder_backward hL' hrows, (h.left hL').visibleList_eq, List.reverse_append]
  rfl

/-- The row in front. -/
theorem AllVisible.readingOrder_succ (h : AllVisible T.toList) {b : RowAt} (hL : T.toList = (xs ++ [b]) ++ a :: ys) :
    readingOrder T true (xs.length + 1) = a.sKey :: readingOrder T true xs.length := by
  have hlen : (xs ++ [b]).length = xs.length + 1 := by rw [List.length_append, List.length_singleton]
  rw [← hlen, h.readingOrder_backward hL, h.readingOrder_backward (hL.trans (List.append_cons xs b (a :: ys)).symm),
    List.reverse_append]
  rfl

/-- The number of the root. -/
theorem addr?_eq_iff (hR : Represents t T) (hvis : AllVisible T.toList)
    (hL : T.toList = xs ++ a :: ys) : addr? T = some a.addr ↔ xs.length = rootNumber T := by
  cases T with
  | nil => simp at hL
  | node l root r =>
    have hnodup := (List.nodup_cons.mp hR.holds.addrs_nodup).2
    have hroot : ((AvlTree.node l root r).toList.map RowAt.addr)[l.toList.length]? = some root.addr := by simp
    have hrow : ((AvlTree.node l root r).toList.map RowAt.addr)[xs.length]? = some a.addr := by simp [hL]
    have hnumber : rootNumber (.node l root r) = l.toList.length :=
      visibleRows_eq_length (hvis.left (AvlTree.toList_node l root r))
    rw [hnumber, addr?_node, ← hroot, ← hrow]
    constructor
    · intro he
      refine ((List.getElem?_inj ?_ hnodup).mp he).symm
      rw [List.length_map, AvlTree.toList_node, List.length_append, List.length_cons]
      omega
    · intro he
      rw [he]

/-- The row number of the place where a backward read of row `n` leaves the cursor. -/
def prevNumber (T : AvlTree RowAt) (n : ℕ) : ℕ := if n = rootNumber T then n else n - 1

theorem rowNumber_prevPlace (hR : Represents t T) (hvis : AllVisible T.toList) (hL : T.toList = xs ++ a :: ys) :
    RowNumber t.lpRoot T (some (prevPlace t.lpRoot T xs a)) (prevNumber T xs.length) := by
  have hroot := addr?_eq_iff hR hvis hL
  rw [prevPlace, prevNumber]
  simp only [← hroot]
  split_ifs
  · exact hvis.rowNumber t.lpRoot hL
  · rcases List.eq_nil_or_concat xs with rfl | ⟨xs, b, rfl⟩
    · exact .inr (.inl ⟨rfl, rfl⟩)
    · rw [List.concat_eq_append] at hL ⊢
      have hL' : T.toList = xs ++ b :: a :: ys := hL.trans (List.append_cons xs b (a :: ys)).symm
      have hnumber := hvis.rowNumber t.lpRoot hL'
      have hlast : lastAddr t.lpRoot (xs ++ [b]) = b.addr := by simp [lastAddr]
      rw [hlast, List.length_append, List.length_singleton, Nat.add_sub_cancel]
      exact hnumber

/-- From the sentinel, the first row is read, and the cursor stays when the first row is not the root. -/
theorem queryRows_one_sentinel (hR : Represents t T) (hvis : AllVisible T.toList)
    (hL : T.toList = a :: ys) (hcur : t.lpCurrent = some t.lpRoot) (hroot : addr? T ≠ some a.addr) :
    t.queryRows 1 true false false = some ([a.sKey], t) := by
  have hpos : 0 < count T := by
    rw [hvis.count_eq, hL]
    exact Nat.zero_lt_succ _
  have hnumber : RowNumber t.lpRoot T t.lpCurrent 0 := .inr (.inl ⟨hcur, rfl⟩)
  have hdest : t.seekDest EC_SEEK_SET 0 (count T) (0 : ℕ) = some (.erSuccess, some 0) := rfl
  obtain ⟨sought, t₁, hseek, hstands, hframe, -⟩ := seekRow_standsAt 0 hR hnumber hdest (by
    rw [clampRow]
    omega)
  obtain ⟨xs, s, hL', hxs, hcur₁⟩ := hstands.split hvis hpos
  obtain rfl : xs = [] := List.length_eq_zero_iff.mp hxs
  obtain rfl : s = a :: ys := hL'.symm.trans hL
  have hfront : T.toList = [] ++ a :: ys := hL
  have hstart : t.queryRowsStart true = some t₁ := by
    rw [ECKeyTable.queryRowsStart, rowCount_spec hR.holds.has, hcur]
    simp [hseek, hpos.ne']
  have hback : { t₁ with lpCurrent := some t.lpRoot } = t := by
    rw [hframe, ← hcur]
  have hplace : prevPlace t₁.lpRoot T [] a = t.lpRoot := by
    rw [prevPlace, if_neg hroot, hframe]
    rfl
  rw [queryRows_of_start hstart (queryRowsStart_row hstands.represents (by simp [hL]) hcur₁ true),
    queryRows_one_backward hstands.represents hvis hfront hcur₁, hplace, hback]
  rfl

/-- From past the last row, a backward read reads the last row. -/
theorem queryRows_one_end (hR : Represents t T) (hvis : AllVisible T.toList) (hpos : 0 < count T)
    (hsmall : count T < 2 ^ 31) (hcur : t.lpCurrent = none) :
    ∃ t₁, StandsAt t₁ T (count T - 1) ∧ t.queryRows 1 true false false = t₁.queryRows 1 true false false := by
  obtain ⟨t₁, hstands, -, hstart⟩ := queryRowsStart_end hR hcur hpos hsmall
  refine ⟨t₁, hstands, ?_⟩
  obtain ⟨xs, a, ys, hL, -, -, hcur₁⟩ := hstands.row (by omega) (seeksVisible_of_visible hstands.represents hvis (by omega))
  rw [queryRows_of_start hstart (queryRowsStart_row hstands.represents (by simp [hL]) hcur₁ true)]
  simp

end Zcp.Common
