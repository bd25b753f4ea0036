import Mathlib.Data.List.TakeWhile
import Zcp.Common.ECKeyTable.Runs

/-!
# Groups of rows

The group of a header is made of the rows behind it whose columns extend its own. In a table in order
they follow the header, so that `HideRows` and `UnhideRows` walk over the group and nothing else.
-/

namespace Zcp.Common

open Zcp.Lib

/-! ## Prefixes of sort columns -/

section Prefixes

variable {fl : ColumnFlags} {cols : List SortCol}

variable [CollationKeys]

/-- A row whose first columns are smaller is smaller. -/
theorem rowcompareCols_of_take {as bs : List SortCol} {n : ℕ}
    (h : rowcompareCols false (as.take n) (bs.take n) = true) : rowcompareCols false as bs = true := by
  induction as generalizing bs n with
  | nil =>
    cases bs with
    | nil =>
      rw [List.take_nil] at h
      exact h
    | cons b bs => rfl
  | cons a as ih =>
    cases n with
    | zero => exact nomatch h
    | succ n =>
      cases bs with
      | nil => exact nomatch h
      | cons b bs =>
        rw [List.take_succ_cons, List.take_succ_cons, rowcompareCols] at h
        rw [rowcompareCols]
        cases hord : (columnCmp a b).then (compare a.key.length b.key.length) with
        | eq =>
          rw [hord] at h
          exact ih h
        | lt =>
          rw [hord] at h
          exact h
        | gt =>
          rw [hord] at h
          exact h

/-- The first columns of a row are equal to the columns of a header. -/
def Extends (cols : List SortCol) (r : RowAt) : Prop :=
  rowcompareCols false cols (r.sortCols.take cols.length) = false ∧
    rowcompareCols false (r.sortCols.take cols.length) cols = false

instance (cols : List SortCol) : DecidablePred (Extends cols) := fun _ => inferInstanceAs (Decidable (_ ∧ _))

end Prefixes

/-! ## Groups in a table in order -/

section Order

variable [CollationKeys] {fl : ColumnFlags} {T : AvlTree RowAt} {xs s : List RowAt} {a : RowAt}

/-- The walk from a header goes on at the rows of its group. -/
theorem walksOver_iff {r : RowAt} (hle : ¬ rowLt r a) : walksOver a.sortCols r = true ↔ Extends a.sortCols r := by
  have hall : a.sortCols.take a.sortCols.length = a.sortCols := List.take_length
  have hback : rowcompareCols false (r.sortCols.take a.sortCols.length) a.sortCols = false := by
    apply Bool.eq_false_iff.mpr
    intro h
    apply hle
    apply rowcompareCols_of_take (n := a.sortCols.length)
    rw [hall]
    exact h
  rw [walksOver, rowcompareprefix, hall, Bool.not_eq_true', Extends]
  exact (and_iff_left hback).symm

omit [CollationKeys] in
/-- In a list in order, the values of which a predicate goes back to those before are the first ones. -/
theorem takeWhile_eq_filter {α : Type*} {p : α → Bool} {l : List α}
    (h : l.Pairwise fun x y => p y = true → p x = true) : l.takeWhile p = l.filter p := by
  induction l with
  | nil => rfl
  | cons x l ih =>
    obtain ⟨hx, hl⟩ := List.pairwise_cons.mp h
    by_cases hp : p x = true
    · rw [List.takeWhile_cons_of_pos hp, List.filter_cons_of_pos hp, ih hl]
    · rw [List.takeWhile_cons_of_neg hp, List.filter_cons_of_neg hp]
      exact (List.filter_eq_nil_iff.mpr fun y hy hy' => hp (hx y hy hy')).symm

omit [CollationKeys] in
theorem dropWhile_eq_filter {α : Type*} {p : α → Bool} {l : List α}
    (h : l.Pairwise fun x y => p y = true → p x = true) : l.dropWhile p = l.filter fun x => !p x := by
  induction l with
  | nil => rfl
  | cons x l ih =>
    obtain ⟨hx, hl⟩ := List.pairwise_cons.mp h
    by_cases hp : p x = true
    · rw [List.dropWhile_cons_of_pos hp, List.filter_cons_of_neg (by simp [hp]), ih hl]
    · rw [List.dropWhile_cons_of_neg hp]
      refine (List.filter_eq_self.mpr fun y hy => ?_).symm
      rcases List.mem_cons.mp hy with rfl | hy
      · simpa using hp
      · simpa using fun hy' => hp (hx y hy hy')

omit [CollationKeys] in
theorem mapWhile_eq_map {α : Type*} {p : α → Bool} {l : List α}
    (h : l.Pairwise fun x y => p y = true → p x = true) (f : α → α) :
    mapWhile p f l = l.map fun x => if p x then f x else x := by
  induction l with
  | nil => rfl
  | cons x l ih =>
    obtain ⟨hx, hl⟩ := List.pairwise_cons.mp h
    by_cases hp : p x = true
    · rw [mapWhile_cons_of_pos hp, ih hl, List.map_cons, if_pos hp]
    · have hrest : (l.map fun y => if p y then f y else y) = l := by
        refine (List.map_congr_left (g := id) fun y hy => ?_).trans (List.map_id l)
        exact if_neg fun hy' => hp (hx y hy hy')
      rw [mapWhile_cons_of_neg hp, List.map_cons, if_neg hp, hrest]

/-- The rows of a table in order, as they are behind a header. -/
theorem Row.InOrder.behind (ho : Row.InOrder fl (rowsOf T)) (hL : T.toList = xs ++ a :: s) :
    (∀ r ∈ s, ¬ rowLt r a) ∧ (s.Pairwise fun x y => ¬ rowLt y x) ∧
      FitsFlags fl a.sortCols ∧ ∀ r ∈ s, FitsFlags fl r.sortCols := by
  have hsorted : T.toList.Pairwise fun x y => ¬ rowLt y x := List.pairwise_map.mp ho.sorted
  have hfits (r : RowAt) (hr : r ∈ T.toList) : FitsFlags fl r.sortCols :=
    ho.fits r.row (List.mem_map_of_mem hr)
  rw [hL, List.pairwise_append, List.pairwise_cons] at hsorted
  obtain ⟨-, ⟨ha, hs⟩, -⟩ := hsorted
  exact ⟨ha, hs, hfits a (by simp [hL]), fun r hr => hfits r (by simp [hL, hr])⟩

/-- A row before one of the group is in the group. -/
theorem pairwise_walksOver (ho : Row.InOrder fl (rowsOf T)) (hL : T.toList = xs ++ a :: s) :
    s.Pairwise fun x y => walksOver a.sortCols y = true → walksOver a.sortCols x = true := by
  obtain ⟨hbehind, hsorted, ha, hs⟩ := ho.behind hL
  refine List.Pairwise.imp_of_mem (fun {x y} hx hy hxy hover => ?_) hsorted
  rw [walksOver_iff (hbehind y hy)] at hover
  by_contra hx'
  have hless : rowcompareCols false a.sortCols (x.sortCols.take a.sortCols.length) = true := by
    have hnot : rowcompareprefix a.sortCols.length a.sortCols x.sortCols = true := by
      simpa [walksOver] using hx'
    rwa [ rowcompareprefix, List.take_length] at hnot
  -- the columns of the later row are not greater than those of the header, which are smaller
  have hlater : rowcompareCols false (y.sortCols.take a.sortCols.length)
      (x.sortCols.take a.sortCols.length) = true :=
    (rowcompare_strictWeak fl).lt_of_not_lt_of_lt ((hs y hy).take _) ha ((hs x hx).take _)
      (Bool.eq_false_iff.mp hover.1) hless
  exact hxy (rowcompareCols_of_take hlater)

/-- The rows that the walk passes are the group. -/
theorem takeWhile_walksOver (ho : Row.InOrder fl (rowsOf T)) (hL : T.toList = xs ++ a :: s) :
    s.takeWhile (walksOver a.sortCols) = s.filter fun r => Extends a.sortCols r := by
  rw [takeWhile_eq_filter (pairwise_walksOver ho hL)]
  refine List.filter_congr fun r hr => ?_
  rw [Bool.eq_iff_iff, walksOver_iff ((ho.behind hL).1 r hr), decide_eq_true_iff]

theorem mapWhile_walksOver (ho : Row.InOrder fl (rowsOf T)) (hL : T.toList = xs ++ a :: s)
    (f : RowAt → RowAt) : mapWhile (walksOver a.sortCols) f s =
      s.map fun r => if Extends a.sortCols r then f r else r := by
  rw [mapWhile_eq_map (pairwise_walksOver ho hL)]
  refine List.map_congr_left fun r hr => ?_
  exact if_congr (walksOver_iff ((ho.behind hL).1 r hr)) rfl rfl

/-! ## Hiding and unhiding a group -/

/-- The group of a header, with all rows hidden. -/
def hideGroup (a : RowAt) (s : List RowAt) : List RowAt :=
  s.map fun r => if Extends a.sortCols r then r.withHidden true else r

/-- The group of a header, with the rows of its first layer not hidden. The first row of the group says
how many columns the rows of this layer have. -/
def unhideLayer (a : RowAt) (s : List RowAt) : List RowAt :=
  s.map fun r =>
    if Extends a.sortCols r ∧ r.sortCols.length = firstCols s then r.withHidden false else r

/-- What `HideRows` leaves and returns: all rows of the group are hidden, also returned those that were
hidden before, and the cursor moves only from a row of the group. -/
structure Hides (t : ECKeyTable) (T : AvlTree RowAt) (xs : List RowAt) (a : RowAt) (s : List RowAt)
    (er : ECRESULT) (lpHiddenList : List SObjectTableKey) (t' : ECKeyTable) (T' : AvlTree RowAt) : Prop where
  er_eq : er = .erSuccess
  represents : Represents t' T'
  rows : T'.toList = xs ++ a :: hideGroup a s
  count_eq : count T' + visibleRows (s.filter fun r => Extends a.sortCols r) = count T
  returned : lpHiddenList = (s.filter fun r => Extends a.sortCols r).map RowAt.sKey
  cursor_stays : (∀ r ∈ s, Extends a.sortCols r → t.lpCurrent ≠ some r.addr) → t'.lpCurrent = t.lpCurrent
  cursor_moves : (∃ r ∈ s, Extends a.sortCols r ∧ t.lpCurrent = some r.addr) →
    t'.lpCurrent = (s.find? fun r => ¬ Extends a.sortCols r ∧ r.fHidden = false).map RowAt.addr

/-- What `UnhideRows` leaves: a hidden header is refused, otherwise the first layer is visible. -/
structure Unhides (T : AvlTree RowAt) (xs : List RowAt) (a : RowAt) (s : List RowAt)
    (er : ECRESULT) (t' : ECKeyTable) (T' : AvlTree RowAt) : Prop where
  represents : Represents t' T'
  refused : a.fHidden = true → er = .ZARAFA_E_NOT_FOUND ∧ T'.toList = T.toList
  rows : a.fHidden = false → er = .erSuccess ∧ T'.toList = xs ++ a :: unhideLayer a s

omit [CollationKeys] in
theorem visibleRows_map_hidden (p : RowAt → Bool) (s : List RowAt) :
    visibleRows (s.map fun r => if p r then r.withHidden true else r) + visibleRows (s.filter p) =
      visibleRows s := by
  induction s with
  | nil => rfl
  | cons r s ih =>
    rw [List.map_cons, visibleRows_cons, visibleRows_cons]
    by_cases hp : p r = true
    · rw [if_pos hp, List.filter_cons_of_pos hp, visibleRows_cons]
      have hzero : (r.withHidden true).visible = 0 := rfl
      omega
    · rw [if_neg hp, List.filter_cons_of_neg hp]
      omega

theorem hideRows_hides {t : ECKeyTable} (hR : Represents t T) (ho : Row.InOrder fl (rowsOf T))
    (hL : T.toList = xs ++ a :: s) :
    Yields (t.hideRows a.sKey) fun res => ∃ T', Hides t T xs a s res.1 res.2.1 res.2.2 T' := by
  refine (hideRows_spec hR hL).imp fun res hres => ?_
  obtain ⟨heap, T', her, hkeys, hR', hL', ht'⟩ := hres
  have hwalk := takeWhile_walksOver ho hL
  rw [mapWhile_walksOver ho hL] at hL'
  rw [hwalk] at hkeys ht'
  refine ⟨T', her, hR', hL', ?_, hkeys, fun hstays => ?_, fun hmoves => ?_⟩
  · rw [count_eq_visibleRows, count_eq_visibleRows, hL', hL, visibleRows_append, visibleRows_append,
      visibleRows_cons, visibleRows_cons]
    have hsum := visibleRows_map_hidden (fun r => Extends a.sortCols r) s
    simp only [decide_eq_true_eq] at hsum
    omega
  · have hnone : ((s.filter fun r => Extends a.sortCols r).any fun r => t.lpCurrent == some r.addr) = false := by
      simpa using hstays
    rw [ht', hnone]
    rfl
  · have hsome : ((s.filter fun r => Extends a.sortCols r).any fun r => t.lpCurrent == some r.addr) = true := by
      obtain ⟨r, hr, hext, hcur⟩ := hmoves
      exact List.any_eq_true.mpr ⟨r, List.mem_filter.mpr ⟨hr, decide_eq_true hext⟩, by simp [hcur]⟩
    have hnext : ((s.dropWhile (walksOver a.sortCols)).dropWhile RowAt.fHidden).head? =
        s.find? fun r => ¬ Extends a.sortCols r ∧ r.fHidden = false := by
      have hgroup : (s.filter fun r => !walksOver a.sortCols r) = s.filter fun r => ¬ Extends a.sortCols r := by
        refine List.filter_congr fun r hr => ?_
        rw [Bool.eq_iff_iff, Bool.not_eq_true', decide_eq_true_iff, Bool.eq_false_iff, ne_eq,
          walksOver_iff ((ho.behind hL).1 r hr)]
      rw [dropWhile_eq_filter (pairwise_walksOver ho hL), hgroup, ← List.find?_not_eq_head?_dropWhile,
        List.find?_filter]
      refine congrArg (fun p => s.find? p) (funext fun r => ?_)
      simp
    rw [ht', hsome, ← hnext]
    rfl

theorem unhideRows_unhides {t : ECKeyTable} (hR : Represents t T) (ho : Row.InOrder fl (rowsOf T))
    (hL : T.toList = xs ++ a :: s) :
    Yields (t.unhideRows a.sKey) fun res => ∃ T', Unhides T xs a s res.1 res.2.2 T' := by
  cases hh : a.fHidden with
  | true =>
    have ha : a ∈ T.toList := by simp [hL]
    refine ⟨_, unhideRows_hidden hR ha hh, T, ?_⟩
    exact ⟨hR.setCursor (.inr (.inr ⟨a, ha, rfl⟩)), fun _ => ⟨rfl, rfl⟩, fun hf => (nomatch hh.symm.trans hf)⟩
  | false =>
    refine (unhideRows_spec hR hL hh).imp fun res hres => ?_
    obtain ⟨heap, T', her, -, hR', hL', -⟩ := hres
    refine ⟨T', hR', fun hf => (nomatch hh.symm.trans hf), fun _ => ⟨her, ?_⟩⟩
    rw [hL', mapWhile_walksOver ho hL, unhideLayer]
    refine congrArg (fun l => xs ++ a :: l) (List.map_congr_left fun r _ => ?_)
    rw [RowAt.unhide]
    by_cases hext : Extends a.sortCols r
    · by_cases hcols : r.sortCols.length = firstCols s
      · rw [if_pos hext, if_pos hcols, if_pos ⟨hext, hcols⟩]
      · rw [if_pos hext, if_neg hcols, if_neg fun h => hcols h.2]
    · rw [if_neg hext, if_neg fun h => hext h.1]

omit [CollationKeys] in
@[simp] theorem RowAt.withHidden_fHidden (r : RowAt) (b : Bool) : (r.withHidden b).fHidden = b := rfl

omit [CollationKeys] in
/-- A visible row is the row that is made visible. -/
theorem RowAt.withHidden_false_eq_iff {r : RowAt} : r.withHidden false = r ↔ r.fHidden = false := by
  constructor
  · intro h
    rw [← h, RowAt.withHidden_fHidden]
  · intro h
    unfold RowAt.withHidden
    rw [← h]

/-- All rows of the group have as many columns as the first one. -/
def OneLayer (a : RowAt) (s : List RowAt) : Prop :=
  ∀ r ∈ s, Extends a.sortCols r → r.sortCols.length = firstCols s

/-- In a group of one layer, hiding and unhiding makes all rows visible. -/
theorem unhideLayer_hideGroup (hone : OneLayer a s) : unhideLayer a (hideGroup a s) =
    s.map fun r => if Extends a.sortCols r then r.withHidden false else r := by
  have hcols (r : RowAt) : (if Extends a.sortCols r then r.withHidden true else r).sortCols = r.sortCols := by
    split_ifs <;> rfl
  have hfirst : firstCols (hideGroup a s) = firstCols s := by
    cases s with
    | nil => rfl
    | cons r s => exact congrArg List.length (hcols r)
  rw [unhideLayer, hfirst, hideGroup, List.map_map]
  refine List.map_congr_left fun r hr => ?_
  rw [Function.comp_apply]
  by_cases hext : Extends a.sortCols r
  · have hext' : Extends a.sortCols (r.withHidden true) := hext
    rw [if_pos hext, if_pos hext, if_pos ⟨hext', hone r hr hext⟩, RowAt.withHidden_withHidden]
  · rw [if_neg hext, if_neg hext, if_neg fun h => hext h.1]

/-- This restores the rows when all of them were visible. -/
theorem unhideLayer_hideGroup_eq_iff (hone : OneLayer a s) :
    unhideLayer a (hideGroup a s) = s ↔ ∀ r ∈ s, Extends a.sortCols r → r.fHidden = false := by
  rw [unhideLayer_hideGroup hone]
  constructor
  · intro h r hr hext
    have hsame := List.map_inj_left.mp (h.trans (List.map_id s).symm) r hr
    rw [if_pos hext] at hsame
    exact RowAt.withHidden_false_eq_iff.mp hsame
  · intro h
    refine (List.map_congr_left (g := id) fun r hr => ?_).trans (List.map_id s)
    by_cases hext : Extends a.sortCols r
    · rw [if_pos hext]
      exact RowAt.withHidden_false_eq_iff.mpr (h r hr hext)
    · exact if_neg hext

/-- In every state of every run, `HideRows` hides the group of a row, `UnhideRows` shows its first layer,
and the one undoes the other on a group of one layer that was visible. -/
theorem run_hideRows_unhideRows (fl : ColumnFlags) (ops : List TableOp) (hops : ∀ op ∈ ops, op.Fits fl) :
    Yields (run .new ops) fun t => ∃ T, Represents t T ∧ ∀ xs a s, T.toList = xs ++ a :: s →
      Yields (t.unhideRows a.sKey) (fun res => ∃ T', Unhides T xs a s res.1 res.2.2 T') ∧
      Yields (t.hideRows a.sKey) fun res => ∃ T₁, Hides t T xs a s res.1 res.2.1 res.2.2 T₁ ∧
        Yields (res.2.2.unhideRows a.sKey) fun res' => ∃ T₂, Unhides T₁ xs a (hideGroup a s) res'.1 res'.2.2 T₂ ∧
            (a.fHidden = false → OneLayer a s →
              (T₂.toList = T.toList ↔ ∀ r ∈ s, Extends a.sortCols r → r.fHidden = false)) := by
  refine (run_new ops).imp fun t ht => ?_
  obtain ⟨T, hR, hrows⟩ := ht
  have ho := (hrows fl hops).2
  refine ⟨T, hR, fun xs a s hL => ⟨unhideRows_unhides hR ho hL, ?_⟩⟩
  refine (hideRows_hides hR ho hL).imp fun res hres => ?_
  obtain ⟨T₁, hhides⟩ := hres
  have ho₁ : Row.InOrder fl (rowsOf T₁) := by
    refine ho.of_sortCols ?_
    rw [rowsOf, rowsOf, hhides.rows, hL]
    simp only [List.map_append, List.map_cons, List.map_map, hideGroup]
    refine congrArg (fun l => _ ++ _ :: l) (List.map_congr_left fun r _ => ?_)
    simp only [Function.comp_apply]
    split_ifs <;> rfl
  refine ⟨T₁, hhides, (unhideRows_unhides hhides.represents ho₁ hhides.rows).imp fun res' hres' => ?_⟩
  obtain ⟨T₂, hunhides⟩ := hres'
  refine ⟨T₂, hunhides, fun hvisible hone => ?_⟩
  rw [(hunhides.rows hvisible).2, hL, ← unhideLayer_hideGroup_eq_iff hone]
  constructor
  · intro h
    exact (List.cons.inj (List.append_cancel_left h)).2
  · intro h
    rw [h]

end Order

/-- A header, and two rows of its group. -/
def visibleBelow : List TableOp :=
  [.updateRow .TABLE_ROW_ADD ⟨1, 0⟩ [⟨[10], 0⟩] false,
    .updateRow .TABLE_ROW_ADD ⟨2, 0⟩ [⟨[10], 0⟩, ⟨[5], 0⟩] false,
    .updateRow .TABLE_ROW_ADD ⟨3, 0⟩ [⟨[10], 0⟩, ⟨[7], 0⟩] false]

theorem visibleBelow_fits : ∀ op ∈ visibleBelow, op.Fits fun _ => 0 := by
  intro op hop
  simp only [visibleBelow, List.mem_cons, List.not_mem_nil, or_false] at hop
  rcases hop with rfl | rfl | rfl
  · exact show FitsFlags _ _ by decide
  · exact show FitsFlags _ _ by decide
  · exact show FitsFlags _ _ by decide

/-- Both rows are hidden and returned, and unhiding the header gives the table with its rows as they were. -/
theorem run_hideRows_unhideRows_two : letI : CollationKeys := .bytewise
    Yields (run .new visibleBelow) fun t => ∃ T, Represents t T ∧
      Yields (t.hideRows ⟨1, 0⟩) fun res => res.2.1 = [⟨2, 0⟩, ⟨3, 0⟩] ∧
        (∃ T₁, Represents res.2.2 T₁ ∧ T₁.toList.map RowAt.fHidden = [false, true, true]) ∧
        Yields (res.2.2.unhideRows ⟨1, 0⟩) fun res' => ∃ T₂, Represents res'.2.2 T₂ ∧ T₂.toList = T.toList := by
  let _ : CollationKeys := .bytewise
  obtain ⟨t, ht, T, hR, hrows⟩ := run_new visibleBelow
  obtain ⟨t', ht', T', hR', hall⟩ := run_hideRows_unhideRows (fun _ => 0) visibleBelow visibleBelow_fits
  obtain rfl : t = t' := Option.some.inj (ht.symm.trans ht')
  obtain rfl := hR.unique hR'
  have hL : rowsOf T = [⟨⟨1, 0⟩, [⟨[10], 0⟩], false⟩, ⟨⟨2, 0⟩, [⟨[10], 0⟩, ⟨[5], 0⟩], false⟩,
      ⟨⟨3, 0⟩, [⟨[10], 0⟩, ⟨[7], 0⟩], false⟩] := (hrows _ visibleBelow_fits).1.trans (by decide +kernel)
  simp only [rowsOf, List.map_eq_cons_iff, List.map_eq_nil_iff] at hL
  -- the addresses of the three rows are not known, and not needed
  obtain ⟨⟨a, _, _, _⟩, _, hL, ha, ⟨b, _, _, _⟩, _, rfl, hb, ⟨c, _, _, _⟩, _, rfl, hc, rfl⟩ := hL
  cases ha
  cases hb
  cases hc
  have hgroup (r : RowAt) (hr : r ∈ [(⟨b, ⟨2, 0⟩, [⟨[10], 0⟩, ⟨[5], 0⟩], false⟩ : RowAt),
      ⟨c, ⟨3, 0⟩, [⟨[10], 0⟩, ⟨[7], 0⟩], false⟩]) : r.fHidden = false ∧ r.sortCols.length = 2 := by
    simp only [List.mem_cons, List.not_mem_nil, or_false] at hr
    rcases hr with rfl | rfl <;> exact ⟨rfl, rfl⟩
  refine ⟨t, ht, T, hR, (hall [] _ _ hL).2.imp fun res hres => ?_⟩
  obtain ⟨T₁, hhides, hunhidden⟩ := hres
  refine ⟨hhides.returned, ⟨T₁, hhides.represents, ?_⟩, hunhidden.imp fun res' hres' => ?_⟩
  · rw [hhides.rows]
    rfl
  · obtain ⟨T₂, hunhides, hsame⟩ := hres'
    exact ⟨T₂, hunhides.represents, (hsame rfl fun r hr _ => (hgroup r hr).2).mpr fun r hr _ => (hgroup r hr).1⟩

/-- A header, and a hidden row below it. -/
def hiddenBelow : List TableOp :=
  [.updateRow .TABLE_ROW_ADD ⟨1, 0⟩ [⟨[10], 0⟩] false, .updateRow .TABLE_ROW_ADD ⟨2, 0⟩ [⟨[10], 0⟩, ⟨[5], 0⟩] true]

theorem hiddenBelow_fits : ∀ op ∈ hiddenBelow, op.Fits fun _ => 0 := by
  intro op hop
  simp only [hiddenBelow, List.mem_cons, List.not_mem_nil, or_false] at hop
  rcases hop with rfl | rfl
  · exact show FitsFlags _ _ by decide
  · exact show FitsFlags _ _ by decide

/-- `HideRows` also returns a row that was hidden before. -/
theorem hideRows_returns_hidden : ¬ ∀ [CollationKeys] (fl : ColumnFlags) (ops : List TableOp) (t : ECKeyTable)
    (T : AvlTree RowAt) (xs : List RowAt) (a : RowAt) (s : List RowAt) (er : ECRESULT)
    (lpHiddenList : List SObjectTableKey) (t' : ECKeyTable), (∀ op ∈ ops, op.Fits fl) → run .new ops = some t →
      Represents t T → T.toList = xs ++ a :: s → t.hideRows a.sKey = some (er, lpHiddenList, t') →
        lpHiddenList = (s.filter fun r => Extends a.sortCols r ∧ r.fHidden = false).map RowAt.sKey := by
  intro h
  let _ : CollationKeys := .bytewise
  obtain ⟨t, ht, T, hR, hrows⟩ := run_new hiddenBelow
  have hL : rowsOf T = [⟨⟨1, 0⟩, [⟨[10], 0⟩], false⟩, ⟨⟨2, 0⟩, [⟨[10], 0⟩, ⟨[5], 0⟩], true⟩] :=
    (hrows _ hiddenBelow_fits).1.trans (by decide +kernel)
  simp only [rowsOf, List.map_eq_cons_iff, List.map_eq_nil_iff] at hL
  obtain ⟨a, _, hL, ha, b, _, rfl, hb, rfl⟩ := hL
  have hkey : a.sKey = ⟨1, 0⟩ := congrArg Row.sKey ha
  have hhidden : b.fHidden = true := congrArg Row.fHidden hb
  have hrun : (run .new hiddenBelow).map (fun t => (t.hideRows ⟨1, 0⟩).map fun res => res.2.1) =
      some (some [⟨2, 0⟩]) := by decide +kernel
  rw [ht, Option.map_some, Option.some.injEq] at hrun
  obtain ⟨⟨er, keys, t'⟩, hres, hkeys⟩ := Option.map_eq_some_iff.mp hrun
  have hkeys : keys = [⟨2, 0⟩] := hkeys
  have hempty := h _ hiddenBelow t T [] a [b] er keys t' hiddenBelow_fits ht hR hL (by rw [hkey]; exact hres)
  rw [hkeys] at hempty
  simp [hhidden] at hempty

end Zcp.Common
