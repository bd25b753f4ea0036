import Zcp.Common.ECKeyTable.Groups

/-!
# Looking rows up

`ECGenericObjectTable` asks its key table for the row before a category, for the rows of a category, and, when it
restores a collapse state, for the row with given sort columns. Here is what `GetPreviousRow`, `GetRowsBySortPrefix`,
`LowerBound` and `Find` return in a table that represents a tree of rows; the last three need rows in order. None of
them changes the rows (`run_lookups`).
-/

namespace Zcp.Common

open Zcp.Lib Zcp.Lib.Assn

variable {t : ECKeyTable} {T : AvlTree RowAt}

/-! ## The row before -/

/-- The last row of the first rows is a place for the cursor, and so is the sentinel in front of them. -/
theorem validPos_lastAddr {lpRoot : Addr} {rows xs : List RowAt} (hsub : ∀ r ∈ xs, r ∈ rows) :
    ValidPos lpRoot rows (some (lastAddr lpRoot xs)) := by
  rw [lastAddr]
  cases hlast : xs.getLast? with
  | none => exact .inr (.inl rfl)
  | some r => exact .inr (.inr ⟨r, hsub r (List.mem_of_getLast? hlast), rfl⟩)

/-- Going back from the last of some rows ends at the last of them that is not hidden, or else at the sentinel, which
counts as visible. -/
theorem skipHiddenBack_spec {n : ℕ} {xs ys : List RowAt} (hR : Represents t T) (hL : T.toList = xs ++ ys)
    (hcur : t.lpCurrent = some (lastAddr t.lpRoot xs)) (hn : xs.length < n) :
    ECKeyTable.skipHiddenBack n t = some { t with lpCurrent := some (lastAddr t.lpRoot (visibleList xs)) } := by
  induction xs using List.reverseRecOn generalizing t ys n with
  | nil =>
    obtain ⟨n, rfl⟩ : ∃ m, n = m + 1 := ⟨n - 1, by simp at hn; omega⟩
    obtain ⟨k, hroot⟩ := hR.holds.has.split.1.exists
    have hcur : t.lpCurrent = some t.lpRoot := hcur
    simp only [ECKeyTable.skipHiddenBack, hcur, hroot.get, Option.bind_eq_bind, Option.bind_some, rootCell,
      Bool.false_eq_true, if_false, Option.some.injEq]
    exact (setCursor_self hcur).symm
  | append_singleton xs a ih =>
    rw [List.length_append, List.length_singleton] at hn
    obtain ⟨n, rfl⟩ : ∃ m, n = m + 1 := ⟨n - 1, by omega⟩
    have hL' : T.toList = xs ++ a :: ys := by rw [hL, List.append_assoc]; rfl
    have hlast : lastAddr t.lpRoot (xs ++ [a]) = a.addr := by simp [lastAddr]
    rw [hlast] at hcur
    obtain ⟨p, left, x, y, m, j, hcell⟩ := hR.holds.cell (a := a) (by simp [hL])
    simp only [ECKeyTable.skipHiddenBack, hcur, hcell, Option.bind_eq_bind, Option.bind_some, RowAt.cell]
    cases ha : a.fHidden with
    | false =>
      have hlastVisible : lastAddr t.lpRoot (visibleList (xs ++ [a])) = a.addr := by simp [visibleList, ha, lastAddr]
      rw [if_neg Bool.false_ne_true, hlastVisible, setCursor_self hcur]
    | true =>
      have hvisible : visibleList (xs ++ [a]) = visibleList xs := by simp [visibleList, ha]
      have hpos : ValidPos t.lpRoot T.toList (some (lastAddr t.lpRoot xs)) :=
        validPos_lastAddr fun r hr => by simp [hL', hr]
      rw [if_pos rfl, prevCursor_spec hR.holds hL' hcur, hvisible]
      exact ih (hR.setCursor hpos) hL' rfl (by omega)

/-- `GetPreviousRow` returns the last visible row before the row; for the first visible row it returns the key of the
sentinel, and no error. -/
theorem getPreviousRow_spec (hR : Represents t T) {xs ys : List RowAt} {a : RowAt} (hL : T.toList = xs ++ a :: ys) :
    t.getPreviousRow a.sKey = some (.erSuccess, some (lastKey (visibleList xs))) := by
  have ha : a ∈ T.toList := by simp [hL]
  have hR' : Represents { t with lpCurrent := some a.addr } T := hR.setCursor (.inr (.inr ⟨a, ha, rfl⟩))
  have hpos : ValidPos t.lpRoot T.toList (some (lastAddr t.lpRoot xs)) :=
    validPos_lastAddr fun r hr => by simp [hL, hr]
  have hlen := hR.holds.length_lt
  rw [hL, List.length_append, List.length_cons] at hlen
  have hback := skipHiddenBack_spec (n := t.fuel + 1) (hR.setCursor hpos) hL rfl (by omega)
  have hkey := key_lastAddr hR.holds (visibleList xs) fun r hr => by
    rw [hL]
    exact List.mem_append_left _ (List.mem_of_mem_filter hr)
  rw [ECKeyTable.getPreviousRow, ECKeyTable.seekId, hR.mapRow_of_mem ha]
  simp only [prevCursor_spec hR'.holds hL rfl, Option.bind_eq_bind, Option.bind_some]
  have hfuel : ECKeyTable.fuel { t with lpCurrent := some a.addr } = t.fuel := rfl
  rw [hfuel, hback]
  obtain ⟨row, hrow, hkey⟩ := Option.map_eq_some_iff.mp hkey
  simp only [Option.bind_some, hrow, hkey]

/-! ## The rows of a category -/

section Order

variable [CollationKeys] {fl : ColumnFlags} {cols : List SortCol}

/-- The walk of `GetRowsBySortPrefix` returns the rows up to the first one with a greater prefix. -/
theorem sortPrefixLoop_spec {n : ℕ} {xs s : List RowAt} (hR : Represents t T) (hL : T.toList = xs ++ s)
    (hcur : t.lpCurrent = s.head?.map RowAt.addr) (hn : s.length < n) :
    ECKeyTable.sortPrefixLoop cols n t = some ((s.takeWhile (walksOver cols)).map RowAt.sKey) := by
  induction s generalizing t xs n with
  | nil =>
    obtain ⟨n, rfl⟩ : ∃ m, n = m + 1 := ⟨n - 1, by simp at hn; omega⟩
    have hcur : t.lpCurrent = none := hcur
    simp [ECKeyTable.sortPrefixLoop, hcur]
  | cons a s ih =>
    rw [List.length_cons] at hn
    obtain ⟨n, rfl⟩ : ∃ m, n = m + 1 := ⟨n - 1, by omega⟩
    have hcur : t.lpCurrent = some a.addr := hcur
    have hL' : T.toList = (xs ++ [a]) ++ s := by
      rw [hL, List.append_assoc]
      rfl
    obtain ⟨p, left, x, y, m, j, hcell⟩ := hR.holds.cell (a := a) (by simp [hL])
    simp only [ECKeyTable.sortPrefixLoop, hcur, hcell, Option.bind_eq_bind, Option.bind_some, RowAt.cell]
    cases hgreater : rowcompareprefix cols.length cols a.sortCols with
    | true =>
      rw [if_pos rfl, List.takeWhile_cons_of_neg (by simp [walksOver, hgreater])]
      rfl
    | false =>
      have hrest := ih (n := n) (hR.setCursor (validPos_head (xs ++ [a]) hL')) hL' rfl (by omega)
      rw [if_neg Bool.false_ne_true, nextCursor_spec hR.holds hL hcur, Option.bind_some, hrest, Option.bind_some,
        List.takeWhile_cons_of_pos (by simp [walksOver, hgreater])]
      rfl

/-- In a table in order, `GetRowsBySortPrefix` returns the header and its group. -/
theorem getRowsBySortPrefix_spec (hR : Represents t T) (ho : Row.InOrder fl (rowsOf T)) {xs s : List RowAt} {a : RowAt}
    (hL : T.toList = xs ++ a :: s) : t.getRowsBySortPrefix a.sKey =
      some (.erSuccess, a.sKey :: (s.filter fun r => Extends a.sortCols r).map RowAt.sKey) := by
  have ha : a ∈ T.toList := by simp [hL]
  have hfits : FitsFlags fl a.sortCols := ho.fits a.row (List.mem_map_of_mem ha)
  have hself : walksOver a.sortCols a = true := by
    have hirrefl : rowcompareCols false a.sortCols a.sortCols = false :=
      Bool.eq_false_iff.mpr fun h => (Row.lt_strictWeak fl).asymm (a := a.row) (b := a.row) hfits hfits h h
    rw [walksOver, rowcompareprefix, List.take_length, hirrefl]
    rfl
  have hlen := hR.holds.length_lt
  rw [hL, List.length_append] at hlen
  have hloop : ECKeyTable.sortPrefixLoop a.sortCols (t.fuel + 1) { t with lpCurrent := some a.addr } =
      some (((a :: s).takeWhile (walksOver a.sortCols)).map RowAt.sKey) :=
    sortPrefixLoop_spec (hR.setCursor (.inr (.inr ⟨a, ha, rfl⟩))) hL rfl (by omega)
  obtain ⟨p, left, x, y, m, j, hcell⟩ := hR.holds.cell ha
  rw [ECKeyTable.getRowsBySortPrefix, ECKeyTable.seekId, hR.mapRow_of_mem ha]
  simp only [Option.bind_eq_bind, Option.bind_some, hcell]
  have hfuel : ECKeyTable.fuel { t with lpCurrent := some a.addr } = t.fuel := rfl
  rw [hfuel]
  show (ECKeyTable.sortPrefixLoop a.sortCols _ _).bind _ = _
  rw [hloop, Option.bind_some, List.takeWhile_cons_of_pos hself, takeWhile_walksOver ho hL]
  rfl

/-! ## Rows with given sort columns -/

/-- A row has the sort columns that are looked for: neither is less. -/
def hasColumns (cols : List SortCol) (r : RowAt) : Bool :=
  !rowcompareCols false r.sortCols cols && !rowcompareCols false cols r.sortCols

/-- In a table in order, the rows that are less than some sort columns come first. -/
theorem pairwise_less (ho : Row.InOrder fl (rowsOf T)) (hcols : FitsFlags fl cols) : T.toList.Pairwise fun x y =>
      rowcompareCols false y.sortCols cols = true → rowcompareCols false x.sortCols cols = true := by
  have hsorted : T.toList.Pairwise fun x y => ¬ rowLt y x := List.pairwise_map.mp ho.sorted
  have hfits (r : RowAt) (hr : r ∈ T.toList) : FitsFlags fl r.sortCols := ho.fits r.row (List.mem_map_of_mem hr)
  refine List.Pairwise.imp_of_mem (fun {x y} hx hy hxy hless => ?_) hsorted
  exact (Row.lt_strictWeak fl).lt_of_not_lt_of_lt (a := x.row) (b := y.row) (c := ⟨.zero, cols, false⟩) (hfits x hx)
    (hfits y hy) hcols hxy hless

/-- The binary search goes left at rows that are not less than the sort columns, and ends at the first row behind the
place it finds. -/
theorem lowerBoundLoop_spec {lpRoot : Addr} {h : Heap} {fuel n : ℕ} {c : Ctx RowAt} {t : AvlTree RowAt} {a : RowAt}
    (ha : t.root? = some a) (hT : c.plug t = T) (hfuel : T.toList.length + 2 ≤ fuel) (hn : t.height ≤ n)
    (hh : Has (tableAt lpRoot T) h) : ECKeyTable.lowerBoundLoop h fuel cols n a.addr =
      some ((t.descend (fun r => !rowcompareCols false r.sortCols cols) c).after.head?.map RowAt.addr) := by
  induction t generalizing a c n with
  | nil => cases ha
  | node l b r ihl ihr =>
    obtain rfl : b = a := Option.some.inj ha
    obtain ⟨n, rfl⟩ : ∃ m, n = m + 1 := ⟨n - 1, by rw [AvlTree.height_node] at hn; omega⟩
    rw [AvlTree.height_node] at hn
    obtain ⟨F, hF⟩ := id hh
    obtain ⟨hcell, -⟩ := (tableAt_has hT hF).split
    rw [ECKeyTable.lowerBoundLoop, hcell.get, AvlTree.descend]
    simp only [Option.bind_eq_bind, Option.bind_some, RowAt.cell]
    cases hless : rowcompareCols false b.sortCols cols with
    | true =>
      rw [if_pos rfl, Bool.not_true, if_neg Bool.false_ne_true]
      cases r with
      | nil =>
        have hnext := nextRow_spec hT hfuel hh
        simpa [AvlTree.descend, Ctx.after] using hnext
      | node r₁ x r₂ => exact ihr (a := x) rfl hT (by omega)
    | false =>
      rw [if_neg Bool.false_ne_true, Bool.not_false, if_pos rfl]
      cases l with
      | nil => simp [AvlTree.descend, Ctx.after]
      | node l₁ x l₂ => exact ihl (a := x) rfl hT (by omega)

/-- In a table in order, `LowerBound` goes to the first row that is not less than the sort columns, and to the end if
there is none. -/
theorem lowerBound_spec (hR : Represents t T) (ho : Row.InOrder fl (rowsOf T)) (hcols : FitsFlags fl cols) :
    t.lowerBound cols = some { t with
      lpCurrent := (T.toList.find? fun r => !rowcompareCols false r.sortCols cols).map RowAt.addr } := by
  obtain ⟨k, hroot⟩ := hR.holds.has.split.1.exists
  have hbehind : (T.descend (fun r => !rowcompareCols false r.sortCols cols) []).after.head? =
      T.toList.find? fun r => !rowcompareCols false r.sortCols cols := by
    rw [AvlTree.after_descend, Ctx.after, List.append_nil, List.find?_eq_head?_dropWhile_not]
    · exact (pairwise_less ho hcols).imp fun h hx => by
        simp only [Bool.not_eq_true', Bool.eq_false_iff] at hx ⊢
        exact fun hy => hx (h hy)
  rw [ECKeyTable.lowerBound, hroot.get]
  cases hT : T with
  | nil => simp [rootCell, AvlTree.toList]
  | node l a r =>
    have hlen := hR.holds.length_lt
    have hheight := AvlTree.height_le_length T
    have hfuel : T.toList.length + 2 ≤ t.fuel := by omega
    have hnode : T.root? = some a := by rw [hT]; rfl
    have hloop : ECKeyTable.lowerBoundLoop t.heap t.fuel cols t.fuel a.addr = _ :=
      lowerBoundLoop_spec (c := []) hnode rfl hfuel (by omega) hR.holds.has
    rw [hbehind] at hloop
    simp only [hT] at hloop
    simp [rootCell, hloop]

/-- In a table in order, `Find` returns the first row with the sort columns, if there is one. -/
theorem find_spec (hR : Represents t T) (ho : Row.InOrder fl (rowsOf T)) (hcols : FitsFlags fl cols) :
    t.find cols = some ((T.toList.find? (hasColumns cols)).elim (.ZARAFA_E_NOT_FOUND, none)
      fun r => (.erSuccess, some r.sKey)) := by
  rw [ECKeyTable.find, lowerBound_spec hR ho hcols]
  simp only [Option.bind_eq_bind, Option.bind_some]
  cases hfirst : T.toList.find? fun r => !rowcompareCols false r.sortCols cols with
  | none =>
    have hnone : T.toList.find? (hasColumns cols) = none := by
      rw [List.find?_eq_none] at hfirst ⊢
      exact fun r hr h => hfirst r hr (Bool.and_eq_true_iff.mp h).1
    rw [hnone]
    rfl
  | some r =>
    obtain ⟨hr, xs, ys, hL, hxs⟩ := List.find?_eq_some_iff_append.mp hfirst
    have hmem : r ∈ T.toList := by simp [hL]
    obtain ⟨p, left, x, y, m, j, hcell⟩ := hR.holds.cell hmem
    have hbefore : ∀ x ∈ xs, (!hasColumns cols x) = true := fun x hx => by
      simp [hasColumns, hxs x hx]
    simp only [Option.map_some, hcell, Option.bind_some, RowAt.cell]
    cases hgreater : rowcompareCols false cols r.sortCols with
    | false =>
      have hfound : T.toList.find? (hasColumns cols) = some r :=
        List.find?_eq_some_iff_append.mpr ⟨by simp [hasColumns, hr, hgreater], xs, ys, hL, hbefore⟩
      rw [hfound]
      rfl
    | true =>
      -- the first row that is not less is greater, and so are the rows behind it
      have hnone : T.toList.find? (hasColumns cols) = none := by
        have hpair : T.toList.Pairwise fun x y => rowcompareCols false cols x.sortCols = true →
            rowcompareCols false cols y.sortCols = true :=
          List.pairwise_map.mp
            (ho.sorted.pairwise_lt (Row.lt_strictWeak fl) (a := (⟨.zero, cols, false⟩ : Row)) hcols ho.fits)
        rw [hL, List.pairwise_append, List.pairwise_cons] at hpair
        rw [List.find?_eq_none, hL]
        intro x hx h
        rcases List.mem_append.mp hx with hx | hx
        · have hx := hbefore x hx
          rw [h] at hx
          cases hx
        · have hx : rowcompareCols false cols x.sortCols = true := by
            rcases List.mem_cons.mp hx with rfl | hx
            · exact hgreater
            · exact hpair.2.1.1 x hx hgreater
          simp [hasColumns, hx] at h
      rw [hnone]
      rfl

/-! ## After any operations -/

/-- A row that is not there has no row before it and no group. -/
theorem lookups_notFound (hR : Represents t T) {k : SObjectTableKey} (hk : k ∉ T.toList.map RowAt.sKey) :
    t.getPreviousRow k = some (.ZARAFA_E_NOT_FOUND, none) ∧
      t.getRowsBySortPrefix k = some (.ZARAFA_E_NOT_FOUND, []) := by
  have hnone := hR.mapRow_eq_none.mpr hk
  rw [ECKeyTable.getPreviousRow, ECKeyTable.getRowsBySortPrefix, ECKeyTable.seekId, hnone]
  exact ⟨rfl, rfl⟩

/-- Whatever was done to a table, its lookups return and find what is in its list of rows. -/
theorem run_lookups (ops : List TableOp) (hops : ∀ op ∈ ops, op.Fits fl) :
    Yields (run .new ops) fun t => ∃ T, Represents t T ∧ rowsOf T = ops.foldl TableOp.apply [] ∧
      (∀ xs a s, T.toList = xs ++ a :: s →
        t.getPreviousRow a.sKey = some (.erSuccess, some (lastKey (visibleList xs))) ∧ t.getRowsBySortPrefix a.sKey =
          some (.erSuccess, a.sKey :: (s.filter fun r => Extends a.sortCols r).map RowAt.sKey)) ∧
      (∀ k ∉ T.toList.map RowAt.sKey, t.getPreviousRow k = some (.ZARAFA_E_NOT_FOUND, none) ∧
        t.getRowsBySortPrefix k = some (.ZARAFA_E_NOT_FOUND, [])) ∧ ∀ cols, FitsFlags fl cols →
        t.find cols = some ((T.toList.find? (hasColumns cols)).elim (.ZARAFA_E_NOT_FOUND, none)
          fun r => (.erSuccess, some r.sKey)) := by
  refine (run_new ops).imp fun t ht => ?_
  obtain ⟨T, hR, hrows⟩ := ht
  obtain ⟨hrows, ho⟩ := hrows fl hops
  exact ⟨T, hR, hrows, fun xs a s hL => ⟨getPreviousRow_spec hR hL, getRowsBySortPrefix_spec hR ho hL⟩,
    fun k hk => lookups_notFound hR hk, fun cols hcols => find_spec hR ho hcols⟩

end Order

end Zcp.Common
