import Zcp.Common.ECKeyTable.Table

/-!
# Reading rows

`QueryRows` forward reads the list of the rows from the cursor on (`queryRows_forward`). Backward it
reads the rows before the cursor in reverse, but it stops at the root of the tree
(`queryRowsLoop_backward`), and when it does not meet the root it goes on past the first row to the
sentinel, whose key it returns like that of a row.
-/

namespace Zcp.Common

open Zcp.Lib Zcp.Lib.Assn

variable {t : ECKeyTable} {T : AvlTree RowAt}

/-! ## Steps of the cursor -/

variable {xs ys : List RowAt} {a : RowAt}

theorem nextCursor_spec (hH : Holds t T) (hL : T.toList = xs ++ a :: ys) (hcur : t.lpCurrent = some a.addr) :
    t.nextCursor = some { t with lpCurrent := ys.head?.map RowAt.addr } := by
  obtain ⟨c, l, r, hT, -, hys⟩ := hH.focus hL
  have hlen := hH.length_lt
  simp only [ECKeyTable.nextCursor, hcur]
  rw [nextRow_spec hT (by omega) hH.has, hys]
  rfl

theorem prevCursor_spec (hH : Holds t T) (hL : T.toList = xs ++ a :: ys) (hcur : t.lpCurrent = some a.addr) :
    t.prevCursor = some { t with lpCurrent := some (lastAddr t.lpRoot xs) } := by
  obtain ⟨c, l, r, hT, hxs, -⟩ := hH.focus hL
  have hlen := hH.length_lt
  simp only [ECKeyTable.prevCursor, hcur]
  rw [prevRow_spec hT (by omega) hH.has, hxs]
  rfl

/-- Before the sentinel there is nothing. -/
theorem prevCursor_root (hH : Holds t T) (hcur : t.lpCurrent = some t.lpRoot) :
    t.prevCursor = some { t with lpCurrent := none } := by
  obtain ⟨k, hroot⟩ := hH.has.split.1.exists
  have hfuel : t.fuel = t.next + 1 := rfl
  simp only [ECKeyTable.prevCursor, hcur]
  rw [prevRow, hroot.get]
  simp [rootCell, climbOver, hfuel, climb, hroot.get]

variable {s : List RowAt}

/-- The first row of the end of a list is a place for the cursor. -/
theorem validPos_head {lpRoot : Addr} {rows : List RowAt} (xs : List RowAt) (hL : rows = xs ++ s) :
    ValidPos lpRoot rows (s.head?.map RowAt.addr) := by
  cases s with
  | nil => exact .inl rfl
  | cons a ys => exact .inr (.inr ⟨a, by simp [hL], rfl⟩)

/-! ## Reading forward -/

/-- Whether `QueryRows` returns a row. -/
def shown (bShowHidden : Bool) (r : RowAt) : Bool := !r.fHidden || bShowHidden

/-- The rows that reading at most `k` rows from the start of a list returns, and where it stops. -/
def readRows (bShowHidden : Bool) : List RowAt → ℕ → List RowAt × List RowAt
  | s, 0 => ([], s)
  | [], _ + 1 => ([], [])
  | r :: s, k + 1 =>
    if shown bShowHidden r then
      (r :: (readRows bShowHidden s k).1, (readRows bShowHidden s k).2)
    else readRows bShowHidden s (k + 1)

@[simp] theorem readRows_zero (b : Bool) (s : List RowAt) : readRows b s 0 = ([], s) := by
  cases s <;> rfl

theorem readRows_fst (b : Bool) (s : List RowAt) (k : ℕ) : (readRows b s k).1 = (s.filter (shown b)).take k := by
  induction s generalizing k with
  | nil => cases k <;> rfl
  | cons r s ih =>
    cases k with
    | zero => simp
    | succ k =>
      rw [readRows]
      split_ifs with hr <;> simp [hr, ih]

/-- Reading stops at an end of the list. -/
theorem readRows_snd (b : Bool) (s : List RowAt) (k : ℕ) : ∃ s', s = s' ++ (readRows b s k).2 := by
  induction s generalizing k with
  | nil => cases k <;> exact ⟨[], rfl⟩
  | cons r s ih =>
    cases k with
    | zero => exact ⟨[], by simp⟩
    | succ k =>
      rw [readRows]
      split_ifs with hr
      · obtain ⟨s', hs⟩ := ih k
        exact ⟨r :: s', by rw [List.cons_append, ← hs]⟩
      · obtain ⟨s', hs⟩ := ih (k + 1)
        exact ⟨r :: s', by rw [List.cons_append, ← hs]⟩

theorem setCursor_self {pos : Option Addr} (h : t.lpCurrent = pos) : { t with lpCurrent := pos } = t := by
  subst h
  rfl

variable {b : Bool} {k n : ℕ}

theorem queryRowsLoop_forward (hH : Holds t T)
    (hL : T.toList = xs ++ s) (hcur : t.lpCurrent = s.head?.map RowAt.addr) (hn : s.length < n) :
    ECKeyTable.queryRowsLoop false b n t k = some ((readRows b s k).1.map RowAt.sKey,
        { t with lpCurrent := (readRows b s k).2.head?.map RowAt.addr }) := by
  induction s generalizing t xs n k with
  | nil =>
    obtain ⟨n, rfl⟩ : ∃ m, n = m + 1 := ⟨n - 1, by simp at hn; omega⟩
    have hcur : t.lpCurrent = none := hcur
    cases k with
    | zero => simp [ECKeyTable.queryRowsLoop, setCursor_self hcur]
    | succ k => simp [ECKeyTable.queryRowsLoop, readRows, hcur, setCursor_self hcur]
  | cons r s ih =>
    rw [List.length_cons] at hn
    obtain ⟨n, rfl⟩ : ∃ m, n = m + 1 := ⟨n - 1, by omega⟩
    have hcur : t.lpCurrent = some r.addr := hcur
    cases k with
    | zero => simp [ECKeyTable.queryRowsLoop, setCursor_self hcur]
    | succ k =>
      obtain ⟨p, left, x, y, m, j, hcell⟩ := hH.cell (a := r) (by simp [hL])
      obtain ⟨i, hroot⟩ := hH.has.split.1.exists
      have hnext := nextCursor_spec hH hL hcur
      have hH' : Holds { t with lpCurrent := s.head?.map RowAt.addr } T :=
        ⟨hH.has, hH.balanced, hH.length_lt⟩
      have hL' : T.toList = (xs ++ [r]) ++ s := by simp [hL]
      have hstep (k : ℕ) := ih (n := n) (k := k) hH' hL' rfl (by omega)
      have hshown : (!(r.cell p left x y m j).fHidden || b) = shown b r := rfl
      simp only [ECKeyTable.queryRowsLoop, hcur, hcell, Option.bind_eq_bind, Option.bind_some,
        hroot.get, Bool.false_and, Bool.false_eq_true, if_false, hnext, hshown, readRows]
      rw [if_neg (Nat.succ_ne_zero k)]
      cases shown b r
      · simp [hstep]
      · simp [hstep, RowAt.cell]

/-- The visible rows of a list. -/
def visibleList (rows : List RowAt) : List RowAt := rows.filter fun r => !r.fHidden

theorem filter_shown_false (s : List RowAt) : s.filter (shown false) = visibleList s :=
  List.filter_congr fun _ _ => Bool.or_false _

@[simp] theorem visibleList_append (xs ys : List RowAt) : visibleList (xs ++ ys) = visibleList xs ++ visibleList ys :=
  List.filter_append ..

theorem length_visibleList (xs : List RowAt) : (visibleList xs).length = visibleRows xs := by
  induction xs with
  | nil => rfl
  | cons r xs ih =>
    rw [visibleRows_cons, ← ih, visibleList, visibleList, RowAt.visible, List.filter_cons]
    cases r.fHidden <;> simp [add_comm]

/-- The visible rows from a row on, by row number. -/
theorem visibleList_suffix (xs s : List RowAt) : visibleList s = (visibleList (xs ++ s)).drop (visibleRows xs) := by
  rw [visibleList_append, ← length_visibleList, List.drop_left]

/-- Reading from a suffix of the rows. -/
private theorem queryRowsLoop_suffix {m : ℕ} (hR : Represents t T)
    (hL : T.toList = xs ++ s) (hcur : t.lpCurrent = s.head?.map RowAt.addr)
    (hm : m = if n > count T then count T else n) :
    ∃ pos, ECKeyTable.queryRowsLoop false false (t.fuel + 2) t m =
      some ((((visibleList T.toList).drop (visibleRows xs)).take n).map RowAt.sKey,
        { t with lpCurrent := pos }) ∧ ValidPos t.lpRoot T.toList pos := by
  have hlen := hR.holds.length_lt
  rw [hL, List.length_append] at hlen
  refine ⟨(readRows false s m).2.head?.map RowAt.addr, ?_, ?_⟩
  · rw [queryRowsLoop_forward hR.holds hL hcur (by omega), readRows_fst, filter_shown_false,
      visibleList_suffix xs s, ← hL]
    congr 3
    rw [hm]
    split_ifs with hn
    · have hV : ((visibleList T.toList).drop (visibleRows xs)).length ≤ count T := by
        rw [List.length_drop, length_visibleList, ← count_eq_visibleRows]
        omega
      rw [List.take_of_length_le hV, List.take_of_length_le (by omega)]
    · rfl
  · obtain ⟨s', hs⟩ := readRows_snd false s m
    exact validPos_head (xs ++ s') (by rw [hL, List.append_assoc, ← hs])

/-- Where `QueryRows` starts to read forward. -/
private theorem queryRowsStart_forward (hR : Represents t T) (hk : RowNumber t.lpRoot T t.lpCurrent k) :
    ∃ pos, t.queryRowsStart false = some { t with lpCurrent := pos } ∧
      ((pos = some t.lpRoot ∧ count T = 0) ∨
        ∃ xs s, T.toList = xs ++ s ∧ pos = s.head?.map RowAt.addr ∧ visibleRows xs = k) := by
  have hH := hR.holds
  rw [ECKeyTable.queryRowsStart, rowCount_spec hH.has]
  simp only [Bool.false_and, Bool.false_eq_true, if_false, Option.bind_eq_bind, Option.bind_some]
  rcases hk with ⟨hpos, rfl⟩ | ⟨hpos, rfl⟩ | ⟨xs, a, ys, hL, hpos, rfl⟩
  · refine ⟨none, ?_, .inr ⟨T.toList, [], by simp, rfl, (count_eq_visibleRows T).symm⟩⟩
    rw [hpos]
    simp [setCursor_self hpos]
  · rw [hpos]
    by_cases hV : count T = 0
    · exact ⟨some t.lpRoot, by simp [hV, setCursor_self hpos], .inl ⟨rfl, hV⟩⟩
    · have hcur := currentRow_spec hH (k := 0) (.inr (.inl ⟨hpos, rfl⟩))
      obtain ⟨pos, hseek, hland⟩ := seekRow_set_lands hH hcur 0
      have hzero : clampRow (count T) 0 = 0 := by rw [clampRow]; omega
      rw [hzero, Landed, if_neg hV] at hland
      refine ⟨pos, ?_, ?_⟩
      · simp [hV, hseek]
      · rcases hland with ⟨xs, a, ys, hL, hxs, rfl⟩ | ⟨-, hz⟩
        · exact .inr ⟨xs, a :: ys, hL, rfl, by omega⟩
        · omega
  · refine ⟨some a.addr, ?_, .inr ⟨xs, a :: ys, hL, rfl, rfl⟩⟩
    have hne := hH.addr_ne_root (a := a) (by simp [hL])
    rw [hpos]
    simp [hne, setCursor_self hpos]

/-- `QueryRows` forward returns the visible rows from the row number of the cursor on. -/
theorem queryRows_forward (hR : Represents t T) (hk : RowNumber t.lpRoot T t.lpCurrent k) (n : ℕ) (noAdvance : Bool) :
    ∃ pos, t.queryRows n false noAdvance false = some ((((visibleList T.toList).drop k).take n).map RowAt.sKey,
        { t with lpCurrent := pos }) ∧ ValidPos t.lpRoot T.toList pos := by
  obtain ⟨pos, hstart, hpos⟩ := queryRowsStart_forward hR hk
  rw [ECKeyTable.queryRows, hstart]
  have hcount : ECKeyTable.rowCount { t with lpCurrent := pos } = some (count T) :=
    rowCount_spec hR.holds.has
  simp only [Option.bind_eq_bind, Option.bind_some, hcount]
  rcases hpos with ⟨rfl, hV⟩ | ⟨xs, s, hL, hpos, rfl⟩
  · have hempty : visibleList T.toList = [] := by
      rw [← List.length_eq_zero_iff, length_visibleList, ← count_eq_visibleRows, hV]
    have hm : (if n > count T then count T else n) = 0 := by rw [hV]; split_ifs <;> omega
    rw [hm]
    simp only [ECKeyTable.queryRowsLoop, if_true, Option.bind_some, hempty, List.drop_nil,
      List.take_nil, List.map_nil]
    cases noAdvance
    · exact ⟨_, rfl, .inr (.inl rfl)⟩
    · exact ⟨_, rfl, hR.cursor⟩
  · have hvalid : ValidPos t.lpRoot T.toList pos := hpos ▸ validPos_head xs hL
    obtain ⟨pos', hloop, hv⟩ := queryRowsLoop_suffix (n := n) (hR.setCursor hvalid) hL hpos rfl
    simp only [hloop, Option.bind_some]
    cases noAdvance
    · exact ⟨pos', rfl, hv⟩
    · exact ⟨t.lpCurrent, rfl, hR.cursor⟩

/-! ## Reading backward -/

/-- The keys that reading backward returns. `s` are the rows from the cursor to the first one; the
walk ends at the row `stop`, and past the first row it takes the sentinel for a row. -/
def readBack (stop : Option Addr) (bShowHidden : Bool) : List RowAt → ℕ → List SObjectTableKey
  | _, 0 => []
  | [], _ + 1 => [.zero]
  | r :: s, k + 1 =>
    let k' := if shown bShowHidden r then k else k + 1
    let rest := if stop = some r.addr then [] else readBack stop bShowHidden s k'
    if shown bShowHidden r then r.sKey :: rest else rest

@[simp] theorem readBack_zero (stop : Option Addr) (b : Bool) (s : List RowAt) : readBack stop b s 0 = [] := by
  cases s <;> rfl

theorem readBack_stop {r : RowAt} {s' : List RowAt} (hs : ∀ x ∈ s, x.addr ≠ r.addr) :
    readBack (some r.addr) b (s ++ r :: s') k = (((s ++ [r]).filter (shown b)).take k).map RowAt.sKey := by
  induction s generalizing k with
  | nil =>
    cases k with
    | zero => simp
    | succ k =>
      rw [List.nil_append, readBack]
      cases hr : shown b r <;> simp [hr]
  | cons x s ih =>
    have hx : ¬ some r.addr = some x.addr := fun h => hs x (by simp) (Option.some.inj h).symm
    have hs' : ∀ x ∈ s, x.addr ≠ r.addr := fun y hy => hs y (List.mem_cons_of_mem x hy)
    cases k with
    | zero => simp
    | succ k =>
      rw [List.cons_append, readBack]
      cases hr : shown b x <;> simp [hr, hx, ih hs']

theorem readBack_through {stop : Option Addr} (hs : ∀ x ∈ s, stop ≠ some x.addr) :
    readBack stop b s k = ((s.filter (shown b)).take k).map RowAt.sKey ++
      if (s.filter (shown b)).length < k then [.zero] else [] := by
  induction s generalizing k with
  | nil => cases k <;> simp [readBack]
  | cons x s ih =>
    have hx := hs x (by simp)
    have hs' : ∀ x ∈ s, stop ≠ some x.addr := fun y hy => hs y (List.mem_cons_of_mem x hy)
    cases k with
    | zero => simp
    | succ k =>
      rw [readBack]
      cases hr : shown b x <;> simp [hr, hx, ih hs']

/-- Backward over rows without the root, all are read, and the sentinel when there are too few. -/
theorem readBack_reverse {stop : Option Addr} {rows : List RowAt} (hs : ∀ x ∈ rows, stop ≠ some x.addr) :
    readBack stop false rows.reverse k = ((visibleList rows).reverse.take k).map RowAt.sKey ++
      if visibleRows rows < k then [.zero] else [] := by
  rw [readBack_through fun x hx => hs x (List.mem_reverse.mp hx), filter_shown_false, visibleList,
    List.filter_reverse, ← visibleList, List.length_reverse, length_visibleList]

/-- Backward over the root, the rows from the root on are read. -/
theorem readBack_reverse_root {root : RowAt} {ls rs : List RowAt} (hs : ∀ x ∈ rs, x.addr ≠ root.addr) :
    readBack (some root.addr) false (ls ++ root :: rs).reverse k =
      ((visibleList (root :: rs)).reverse.take k).map RowAt.sKey := by
  have hrev : (ls ++ root :: rs).reverse = rs.reverse ++ root :: ls.reverse := by simp
  rw [hrev, readBack_stop fun x hx => hs x (List.mem_reverse.mp hx), ← List.reverse_cons, filter_shown_false,
    visibleList, List.filter_reverse]
  rfl

/-- Past the first row the loop takes the sentinel for a row and ends. -/
private theorem queryRowsLoop_sentinel (hH : Holds t T) (hT : T ≠ .nil) (hcur : t.lpCurrent = some t.lpRoot) :
    ECKeyTable.queryRowsLoop true b (n + 2) t (k + 1) = some ([.zero], { t with lpCurrent := none }) := by
  obtain ⟨i, hroot⟩ := hH.has.split.1.exists
  have hne : ¬ addr? T = some t.lpRoot := by
    cases T with
    | nil => exact absurd rfl hT
    | node l a r =>
      intro he
      exact hH.addr_ne_root (a := a) (by simp) (Option.some.inj he)
  rw [ECKeyTable.queryRowsLoop, hcur]
  simp only [Nat.succ_ne_zero, if_false, hroot.get, Option.bind_eq_bind, Option.bind_some, rootCell,
    Bool.true_and, beq_iff_eq, hne, prevCursor_root hH hcur, if_true, Bool.not_false, Bool.true_or,
    Nat.add_sub_cancel]
  rw [ECKeyTable.queryRowsLoop]
  cases k <;> simp

/-- The loop of `QueryRows` backward. -/
theorem queryRowsLoop_backward (hH : Holds t T)
    (hL : T.toList = s.reverse ++ ys) (hcur : t.lpCurrent = some (lastAddr t.lpRoot s.reverse))
    (hT : T ≠ .nil) (hn : s.length + 2 < n) : ∃ pos, ECKeyTable.queryRowsLoop true b n t k =
      some (readBack (addr? T) b s k, { t with lpCurrent := pos }) ∧
        ValidPos t.lpRoot T.toList pos := by
  induction s generalizing t ys n k with
  | nil =>
    obtain ⟨n, rfl⟩ : ∃ m, n = m + 2 := ⟨n - 2, by omega⟩
    cases k with
    | zero => exact ⟨t.lpCurrent, by simp [ECKeyTable.queryRowsLoop], .inr (.inl hcur)⟩
    | succ k => exact ⟨none, queryRowsLoop_sentinel hH hT hcur, .inl rfl⟩
  | cons r s ih =>
    rw [List.length_cons] at hn
    obtain ⟨n, rfl⟩ : ∃ m, n = m + 1 := ⟨n - 1, by omega⟩
    have hlast : lastAddr t.lpRoot (r :: s).reverse = r.addr := by simp [lastAddr]
    rw [hlast] at hcur
    have hvalid : ValidPos t.lpRoot T.toList (some r.addr) := .inr (.inr ⟨r, by simp [hL], rfl⟩)
    cases k with
    | zero => exact ⟨t.lpCurrent, by simp [ECKeyTable.queryRowsLoop], hcur ▸ hvalid⟩
    | succ k =>
      have hL' : T.toList = s.reverse ++ r :: ys := by simp [hL]
      obtain ⟨p, left, x, y, m, j, hcell⟩ := hH.cell (a := r) (by simp [hL'])
      obtain ⟨i, hroot⟩ := hH.has.split.1.exists
      have hprev := prevCursor_spec hH hL' hcur
      have hH' : Holds { t with lpCurrent := some (lastAddr t.lpRoot s.reverse) } T :=
        ⟨hH.has, hH.balanced, hH.length_lt⟩
      have hstep (k : ℕ) := ih (n := n) (k := k) hH' hL' rfl (by omega)
      have hshown : (!(r.cell p left x y m j).fHidden || b) = shown b r := rfl
      simp only [ECKeyTable.queryRowsLoop, hcur, hcell, Option.bind_eq_bind, Option.bind_some,
        hroot.get, Bool.true_and, hprev, if_true, hshown, readBack, rootCell, beq_iff_eq]
      rw [if_neg (Nat.succ_ne_zero k)]
      by_cases hstop : addr? T = some r.addr
      · refine ⟨some r.addr, ?_, hvalid⟩
        simp [hstop, RowAt.cell, setCursor_self hcur]
      · obtain ⟨pos, hpos, hv⟩ := hstep (if shown b r then k else k + 1)
        refine ⟨pos, ?_, hv⟩
        simp only [hstop, if_false, Nat.add_sub_cancel]
        rw [hpos]
        cases shown b r <;> simp [RowAt.cell]

/-- The loop of `QueryRows` backward from a row. -/
private theorem queryRowsLoop_back (hH : Holds t T)
    (hL : T.toList = xs ++ a :: ys) (hcur : t.lpCurrent = some a.addr) :
    ∃ pos, ECKeyTable.queryRowsLoop true b (t.fuel + 2) t k =
      some (readBack (addr? T) b (a :: xs.reverse) k, { t with lpCurrent := pos }) ∧
        ValidPos t.lpRoot T.toList pos := by
  have hlen := hH.length_lt
  have hT : T ≠ .nil := fun h => by simp [h] at hL
  rw [hL, List.length_append, List.length_cons] at hlen
  have hL' : T.toList = (a :: xs.reverse).reverse ++ ys := by simp [hL]
  exact queryRowsLoop_backward hH hL' (by rw [hcur]; simp [lastAddr]) hT
    (by rw [List.length_cons, List.length_reverse]; omega)

/-- `QueryRows` backward from a row, with `EC_TABLE_NOADVANCE`. -/
theorem queryRows_backward (hR : Represents t T)
    (hL : T.toList = xs ++ a :: ys) (hcur : t.lpCurrent = some a.addr) (n : ℕ) : t.queryRows n true true false =
      some ((readBack (addr? T) false (a :: xs.reverse) (min n (count T))), t) := by
  have hH := hR.holds
  have hne := hH.addr_ne_root (a := a) (by simp [hL])
  have hstart : t.queryRowsStart true = some t := by
    rw [ECKeyTable.queryRowsStart, rowCount_spec hH.has, hcur]
    simp [hne]
  have hmin : (if n > count T then count T else n) = min n (count T) := by
    split_ifs <;> omega
  obtain ⟨pos, hloop, -⟩ := queryRowsLoop_back (b := false) (k := min n (count T)) hH hL hcur
  rw [ECKeyTable.queryRows, hstart]
  simp only [Option.bind_eq_bind, Option.bind_some, rowCount_spec hH.has, hmin, hloop, if_true]

/-! ## Reading from any place -/

theorem toInt_le {n : ℤ} (hn : 0 ≤ n) : toInt n ≤ n := by
  rw [toInt, Int.bmod_def]
  split_ifs <;> omega

/-- Where `QueryRows` starts to read backward. -/
private theorem queryRowsStart_backward (hR : Represents t T) :
    ∃ pos, t.queryRowsStart true = some { t with lpCurrent := pos } ∧
      ((pos = some t.lpRoot ∧ count T = 0) ∨ ∃ a ∈ T.toList, pos = some a.addr) := by
  have hH := hR.holds
  obtain ⟨n, hn⟩ := hR.cursor.rowNumber
  have hcur := currentRow_spec hH hn
  have hrow {k : ℤ} {pos : Option Addr} (hk : k < count T) (hland : Landed t.lpRoot T k pos) :
      (pos = some t.lpRoot ∧ count T = 0) ∨ ∃ a ∈ T.toList, pos = some a.addr := by
    rw [Landed] at hland
    split_ifs at hland with hV
    · exact .inl ⟨hland, hV⟩
    · rcases hland with ⟨xs, a, ys, hL, -, rfl⟩ | ⟨-, hz⟩
      · exact .inr ⟨a, by simp [hL], rfl⟩
      · omega
  rw [ECKeyTable.queryRowsStart, rowCount_spec hH.has]
  simp only [Bool.true_and, Option.bind_eq_bind, Option.bind_some]
  rcases hR.cursor with hpos | hpos | ⟨a, ha, hpos⟩
  · obtain ⟨pos, hseek, hland⟩ := seekRow_cur_lands hH hcur (-1)
    refine ⟨pos, by simp [hpos, hseek], ?_⟩
    by_cases hV : count T = 0
    · rw [Landed, if_pos hV] at hland
      exact .inl ⟨hland, hV⟩
    · refine hrow ?_ hland
      have hnV : n ≤ count T := by
        rcases hn with ⟨-, rfl⟩ | ⟨-, rfl⟩ | ⟨xs, a, ys, hL, -, rfl⟩
        · exact le_rfl
        · omega
        · rw [count_eq_visibleRows, hL, visibleRows_append]
          omega
      have hle : toInt ((n : ℤ) + -1) < count T := by
        by_cases hz : n = 0
        · subst hz
          have h0 : toInt ((0 : ℕ) + -1) = -1 := by decide
          omega
        · have := toInt_le (n := (n : ℤ) + -1) (by omega)
          omega
      rw [clampRow]
      omega
  · by_cases hV : count T = 0
    · exact ⟨some t.lpRoot, by simp [hpos, hV, setCursor_self hpos], .inl ⟨rfl, hV⟩⟩
    · obtain ⟨pos, hseek, hland⟩ := seekRow_set_lands hH hcur 0
      exact ⟨pos, by simp [hpos, hV, hseek], hrow (by rw [clampRow]; omega) hland⟩
  · have hne := hH.addr_ne_root ha
    exact ⟨some a.addr, by simp [hpos, hne, setCursor_self hpos], .inr ⟨a, ha, rfl⟩⟩

/-- `QueryRows` moves only the cursor. -/
theorem queryRows_valid (hR : Represents t T) (n : ℕ) (bDirBackward noAdvance bShowHidden : Bool) :
    ∃ keys pos, t.queryRows n bDirBackward noAdvance bShowHidden =
      some (keys, { t with lpCurrent := pos }) ∧ ValidPos t.lpRoot T.toList pos := by
  have hloop : ∃ pos m, t.queryRowsStart bDirBackward = some { t with lpCurrent := pos } ∧
      m = (if n > count T then count T else n) ∧ ∃ keys pos', ECKeyTable.queryRowsLoop bDirBackward
        bShowHidden (t.fuel + 2) { t with lpCurrent := pos } m =
          some (keys, { t with lpCurrent := pos' }) ∧ ValidPos t.lpRoot T.toList pos' := by
    have hnone (hV : count T = 0) (pos : Option Addr) : ECKeyTable.queryRowsLoop bDirBackward
        bShowHidden (t.fuel + 2) { t with lpCurrent := pos }
          (if n > count T then count T else n) = some ([], { t with lpCurrent := pos }) := by
      have hm : (if n > count T then count T else n) = 0 := by rw [hV]; split_ifs <;> omega
      rw [hm]
      rfl
    have hlen := hR.holds.length_lt
    cases bDirBackward with
    | false =>
      obtain ⟨k, hk⟩ := hR.cursor.rowNumber
      obtain ⟨pos, hstart, hpos⟩ := queryRowsStart_forward hR hk
      refine ⟨pos, _, hstart, rfl, ?_⟩
      rcases hpos with ⟨rfl, hV⟩ | ⟨xs, s, hL, rfl, -⟩
      · exact ⟨_, _, hnone hV _, .inr (.inl rfl)⟩
      · rw [hL, List.length_append] at hlen
        have hR' := hR.setCursor (validPos_head xs hL)
        obtain ⟨s', hs⟩ := readRows_snd bShowHidden s (if n > count T then count T else n)
        refine ⟨_, _, queryRowsLoop_forward hR'.holds hL rfl (by omega), ?_⟩
        exact validPos_head (xs ++ s') (by rw [hL, List.append_assoc, ← hs])
    | true =>
      obtain ⟨pos, hstart, hpos⟩ := queryRowsStart_backward hR
      refine ⟨pos, _, hstart, rfl, ?_⟩
      rcases hpos with ⟨rfl, hV⟩ | ⟨a, ha, rfl⟩
      · exact ⟨_, _, hnone hV _, .inr (.inl rfl)⟩
      · obtain ⟨xs, ys, hL⟩ := List.append_of_mem ha
        have hrow : ValidPos t.lpRoot T.toList (some a.addr) := .inr (.inr ⟨a, ha, rfl⟩)
        have hR' := hR.setCursor hrow
        obtain ⟨pos', hback, hv⟩ := queryRowsLoop_back (b := bShowHidden)
          (k := if n > count T then count T else n) hR'.holds hL rfl
        exact ⟨_, pos', hback, hv⟩
  obtain ⟨pos, m, hstart, rfl, keys, pos', hread, hv⟩ := hloop
  have hcount : ECKeyTable.rowCount { t with lpCurrent := pos } = some (count T) :=
    rowCount_spec hR.holds.has
  rw [ECKeyTable.queryRows, hstart]
  simp only [Option.bind_eq_bind, Option.bind_some, hcount]
  rw [show ECKeyTable.fuel { t with lpCurrent := pos } = t.fuel from rfl, hread]
  cases noAdvance
  · exact ⟨keys, pos', rfl, hv⟩
  · exact ⟨keys, t.lpCurrent, rfl, hR.cursor⟩

end Zcp.Common
