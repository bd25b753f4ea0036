import Zcp.Common.ECKeyTable.Read

/-!
# Hiding and unhiding rows

`HideRows` and `UnhideRows` walk from the row behind a header to the first row that does not start
with the columns of the header. On the way they change hidden flags and count again; the tree stays
as it is.
-/

namespace Zcp.Common

open Zcp.Lib Zcp.Lib.Assn

variable {t : ECKeyTable} {T : AvlTree RowAt}

/-- A row with another hidden flag. -/
def RowAt.withHidden (r : RowAt) (fHidden : Bool) : RowAt := { r with fHidden := fHidden }

@[simp] theorem RowAt.withHidden_addr (r : RowAt) (b : Bool) : (r.withHidden b).addr = r.addr := rfl

@[simp] theorem RowAt.withHidden_sKey (r : RowAt) (b : Bool) : (r.withHidden b).sKey = r.sKey := rfl

@[simp] theorem RowAt.withHidden_sortCols (r : RowAt) (b : Bool) :
    (r.withHidden b).sortCols = r.sortCols := rfl

@[simp] theorem RowAt.withHidden_withHidden (r : RowAt) (b c : Bool) :
    (r.withHidden b).withHidden c = r.withHidden c := rfl

/-- Change the values at the start of a list that satisfy `p`. -/
def mapWhile {α : Type*} (p : α → Bool) (f : α → α) (s : List α) : List α :=
  (s.takeWhile p).map f ++ s.dropWhile p

section MapWhile

variable {α β : Type*} {p : α → Bool} {f : α → α}

theorem mapWhile_cons_of_pos {a : α} {s : List α} (ha : p a) : mapWhile p f (a :: s) = f a :: mapWhile p f s := by
  rw [mapWhile, List.takeWhile_cons_of_pos ha, List.dropWhile_cons_of_pos ha]
  rfl

theorem mapWhile_cons_of_neg {a : α} {s : List α} (ha : ¬ p a) : mapWhile p f (a :: s) = a :: s := by
  rw [mapWhile, List.takeWhile_cons_of_neg ha, List.dropWhile_cons_of_neg ha]
  rfl

/-- Projecting to something that tells where the change starts and ends. -/
theorem map_mapWhile {p' : β → Bool} {f' : β → β} {g : α → β} (hp : ∀ a, p' (g a) = p a)
    (hf : ∀ a, g (f a) = f' (g a)) (s : List α) : (mapWhile p f s).map g = mapWhile p' f' (s.map g) := by
  induction s with
  | nil => rfl
  | cons a s ih =>
    by_cases ha : p a
    · rw [mapWhile_cons_of_pos ha, List.map_cons, List.map_cons, ih, hf,
        mapWhile_cons_of_pos (by rwa [hp])]
    · rw [mapWhile_cons_of_neg ha, List.map_cons, mapWhile_cons_of_neg (by rwa [hp])]

/-- Projecting to something that does not change. -/
theorem map_mapWhile_of_eq {g : α → β} (hf : ∀ a, g (f a) = g a) (s : List α) : (mapWhile p f s).map g = s.map g := by
  induction s with
  | nil => rfl
  | cons a s ih =>
    by_cases ha : p a
    · rw [mapWhile_cons_of_pos ha, List.map_cons, List.map_cons, ih, hf]
    · rw [mapWhile_cons_of_neg ha]

end MapWhile

/-! ## One row -/

/-- The same rows with other hidden flags. -/
theorem Represents.reflag {T' : AvlTree RowAt} {heap : Heap} (hR : Represents t T)
    (hmem : tableAt t.lpRoot T' heap) (hb : T'.Balanced)
    (hrows : T'.toList.map (·.withHidden false) = T.toList.map (·.withHidden false)) :
    Represents { t with heap := heap } T' := by
  have hsame : ∀ {xs ys : List RowAt}, xs.map (·.withHidden false) = ys.map (·.withHidden false) →
      ∀ r ∈ xs, ∃ r' ∈ ys, r'.addr = r.addr ∧ r'.sKey = r.sKey := by
    intro xs ys h r hr
    have hmem : r.withHidden false ∈ ys.map (·.withHidden false) :=
      h ▸ List.mem_map.mpr ⟨r, hr, rfl⟩
    obtain ⟨r', hr', he⟩ := List.mem_map.mp hmem
    exact ⟨r', hr', congrArg (·.addr) he, congrArg (·.sKey) he⟩
  have hkeys : T'.toList.map RowAt.sKey = T.toList.map RowAt.sKey := by
    have h := congrArg (List.map RowAt.sKey) hrows
    rwa [List.map_map, List.map_map] at h
  have haddrs : T'.toList.map RowAt.addr = T.toList.map RowAt.addr := by
    have h := congrArg (List.map RowAt.addr) hrows
    rwa [List.map_map, List.map_map] at h
  have hpos : ∀ p, ValidPos t.lpRoot T.toList p → ValidPos t.lpRoot T'.toList p := fun p hp =>
    hp.of_addrs haddrs
  refine ⟨hmem, hb, hkeys ▸ hR.keys, fun k a => ?_, hR.root_lt, fun r hr => ?_, hpos _ hR.cursor,
    fun b hb => hpos _ (hR.bookmarks b hb)⟩
  · rw [hR.mapRow]
    constructor
    · rintro ⟨r, hr, rfl, rfl⟩
      obtain ⟨r', hr', he, hk⟩ := hsame hrows.symm r hr
      exact ⟨r', hr', hk, he⟩
    · rintro ⟨r, hr, rfl, rfl⟩
      obtain ⟨r', hr', he, hk⟩ := hsame hrows r hr
      exact ⟨r', hr', hk, he⟩
  · obtain ⟨r', hr', he, -⟩ := hsame hrows r hr
    exact he ▸ hR.addr_lt r' hr'

variable {xs : List RowAt} {a : RowAt}

/-- Setting the hidden flag of a row. -/
theorem setHidden_spec (hR : Represents t T) {ys : List RowAt} (hL : T.toList = xs ++ a :: ys) (fHidden : Bool) :
    Yields (t.setHidden a.addr fHidden) fun t' =>
      ∃ heap T', t' = { t with heap := heap } ∧ Represents t' T' ∧
        T'.toList = xs ++ a.withHidden fHidden :: ys := by
  obtain ⟨c, l, r, hT, hxs, hys⟩ := hR.holds.focus hL
  have hlist : (Ctx.plug (⟨true, a.withHidden fHidden, r⟩ :: c) l).toList =
      xs ++ a.withHidden fHidden :: ys := by
    rw [Ctx.plug_cons, Ctx.toList_plug, ← hxs, ← hys]
    simp [Frame.plug]
  have hlen : (Ctx.plug (⟨true, a.withHidden fHidden, r⟩ :: c) l).toList.length < t.fuel := by
    have h := hR.holds.length_lt
    rw [hL, List.length_append, List.length_cons] at h
    rw [hlist, List.length_append, List.length_cons]
    omega
  have hbal := hR.balanced
  rw [← hT, Ctx.balanced_plug] at hbal
  have hb : (Ctx.plug (⟨true, a.withHidden fHidden, r⟩ :: c) l).Balanced := by
    rw [Ctx.plug_cons, Ctx.balanced_plug]
    exact hbal
  have hlinks := linksAt_of_tableAt hT hR.framed
  rw [fillAt, treeAt, mul_assoc] at hlinks
  rw [ECKeyTable.setHidden]
  refine (modify_pts (fun row => { row with fHidden := fHidden }) (front₂ hlinks)).bind
    fun heap hheap => ?_
  have hheap : (pts a.addr (frameCell ⟨true, a.withHidden fHidden, r⟩ (holeParent t.lpRoot c)
      (holeLeft c) (addr? l) (count (.node l a r)) (AvlTree.height (.node l a r))) *
        (linksAt t.lpRoot c (some a.addr) *
          (treeAt a.addr true l * treeAt a.addr false r * 1))) heap := hheap
  have hpath : (linksAt t.lpRoot (⟨true, a.withHidden fHidden, r⟩ :: c) (addr? l) *
      (fillAt t.lpRoot (⟨true, a.withHidden fHidden, r⟩ :: c) l * 1)) heap := by
    refine linksAt_cons.mpr ⟨count (.node l a r), AvlTree.height (.node l a r), reorder hheap ?_⟩
    rw [fillAt, holeParent, holeLeft]
    simp only [RowAt.withHidden_addr, Bool.not_true]
    ac_rfl
  refine (updateCounts_spec hlen hpath).bind fun heap' hheap' => yields_some.mpr ?_
  rw [mul_one] at hheap'
  refine ⟨heap', _, rfl, hR.reflag hheap' hb ?_, hlist⟩
  rw [hlist, hL]
  simp

/-! ## The rows below a header -/

section Below

variable [CollationKeys]

/-- Whether the walk from a header with columns `prefixCols` goes on at a row. -/
def walksOver (prefixCols : List SortCol) (r : RowAt) : Bool :=
  ! rowcompareprefix prefixCols.length prefixCols r.sortCols

omit [CollationKeys] in
/-- The cursor moves to the next row. -/
private theorem nextCursor_suffix (hR : Represents t T) {ys : List RowAt}
    (hL : T.toList = xs ++ a :: ys) (hcur : t.lpCurrent = some a.addr) :
    t.nextCursor = some { t with lpCurrent := ys.head?.map RowAt.addr } ∧
      Represents { t with lpCurrent := ys.head?.map RowAt.addr } T :=
  ⟨nextCursor_spec hR.holds hL hcur,
    hR.setCursor (validPos_head (xs ++ [a]) (by rw [hL, List.append_assoc]; rfl))⟩

variable {n : ℕ} {s : List RowAt}

/-- The rows `HideRows` walks over are hidden. -/
theorem hideRowsLoop_spec (cols : List SortCol) (lpCursor : Option Addr) (flag : Bool)
    (hR : Represents t T) (hL : T.toList = xs ++ s)
    (hcur : t.lpCurrent = s.head?.map RowAt.addr) (hn : s.length < n) :
    Yields (ECKeyTable.hideRowsLoop cols lpCursor n t flag) fun res => ∃ heap T', res.2.2 = { t with
          heap := heap, lpCurrent := (s.dropWhile (walksOver cols)).head?.map RowAt.addr } ∧
        Represents res.2.2 T' ∧
          T'.toList = xs ++ mapWhile (walksOver cols) (·.withHidden true) s ∧
            res.1 = (s.takeWhile (walksOver cols)).map RowAt.sKey ∧
              res.2.1 = (flag || (s.takeWhile (walksOver cols)).any fun r =>
                lpCursor == some r.addr) := by
  induction s generalizing t T xs n flag with
  | nil =>
    obtain ⟨n, rfl⟩ : ∃ m, n = m + 1 := ⟨n - 1, by simp at hn; omega⟩
    have hcur : t.lpCurrent = none := hcur
    simp only [ECKeyTable.hideRowsLoop, hcur, yields_some]
    exact ⟨t.heap, T, (setCursor_self hcur).symm, hR, hL, rfl, by simp⟩
  | cons a s ih =>
    rw [List.length_cons] at hn
    obtain ⟨n, rfl⟩ : ∃ m, n = m + 1 := ⟨n - 1, by omega⟩
    have hcur : t.lpCurrent = some a.addr := hcur
    obtain ⟨p, left, x, y, m, j, hcell⟩ := hR.holds.cell (a := a) (by simp [hL])
    simp only [ECKeyTable.hideRowsLoop, hcur, hcell, Option.bind_eq_bind, Option.bind_some,
      RowAt.cell]
    cases hw : walksOver cols a with
    | false =>
      have hstop : rowcompareprefix cols.length cols a.sortCols = true := by
        simpa [walksOver] using hw
      rw [if_pos hstop, mapWhile_cons_of_neg (by simp [hw]),
        List.takeWhile_cons_of_neg (by simp [hw]), List.dropWhile_cons_of_neg (by simp [hw]),
        yields_some]
      exact ⟨t.heap, T, (setCursor_self hcur).symm, hR, hL, rfl, by simp⟩
    | true =>
      have hgo : ¬ rowcompareprefix cols.length cols a.sortCols = true := by
        simpa [walksOver] using hw
      rw [if_neg hgo, mapWhile_cons_of_pos hw, List.takeWhile_cons_of_pos hw,
        List.dropWhile_cons_of_pos hw]
      refine (setHidden_spec hR hL true).bind fun t₁ ht₁ => ?_
      obtain ⟨heap, T₁, rfl, hR₁, hL₁⟩ := ht₁
      obtain ⟨hnext, hR₂⟩ := nextCursor_suffix hR₁ hL₁ hcur
      rw [hnext]
      have hL₂ : T₁.toList = (xs ++ [a.withHidden true]) ++ s := by
        rw [hL₁, List.append_assoc]
        rfl
      refine (ih (flag || lpCursor == some a.addr) hR₂ hL₂ rfl (n := n) (by omega)).bind
        fun res hres => ?_
      obtain ⟨heap', T', ht', hR', hL', hkeys, hflag⟩ := hres
      refine yields_some.mpr ⟨heap', T', ht', hR', ?_, ?_, ?_⟩
      · rw [hL', List.append_assoc]
        rfl
      · rw [hkeys]
        rfl
      · rw [hflag, List.any_cons, Bool.or_assoc]

omit [CollationKeys] in
/-- The cursor moves to the next row that is not hidden. -/
theorem skipHidden_spec (hR : Represents t T) (hL : T.toList = xs ++ s)
    (hcur : t.lpCurrent = s.head?.map RowAt.addr) (hn : s.length < n) : ECKeyTable.skipHidden n t =
      some { t with lpCurrent := (s.dropWhile RowAt.fHidden).head?.map RowAt.addr } := by
  induction s generalizing t xs n with
  | nil =>
    obtain ⟨n, rfl⟩ : ∃ m, n = m + 1 := ⟨n - 1, by simp at hn; omega⟩
    have hcur : t.lpCurrent = none := hcur
    simp [ECKeyTable.skipHidden, hcur, setCursor_self hcur]
  | cons a s ih =>
    rw [List.length_cons] at hn
    obtain ⟨n, rfl⟩ : ∃ m, n = m + 1 := ⟨n - 1, by omega⟩
    have hcur : t.lpCurrent = some a.addr := hcur
    obtain ⟨p, left, x, y, m, j, hcell⟩ := hR.holds.cell (a := a) (by simp [hL])
    simp only [ECKeyTable.skipHidden, hcur, hcell, Option.bind_eq_bind, Option.bind_some, RowAt.cell]
    cases ha : a.fHidden with
    | false =>
      rw [List.dropWhile_cons_of_neg (by simp [ha])]
      simp [setCursor_self hcur]
    | true =>
      obtain ⟨hnext, hR'⟩ := nextCursor_suffix hR hL hcur
      rw [List.dropWhile_cons_of_pos ha, hnext]
      have hL' : T.toList = (xs ++ [a]) ++ s := by
        rw [hL, List.append_assoc]
        rfl
      exact ih (n := n) hR' hL' rfl (by omega)

/-- `HideRows` of a row that is not there. -/
theorem hideRows_notFound {k : SObjectTableKey} (hk : t.mapRow k = none) :
    t.hideRows k = some (.ZARAFA_E_NOT_FOUND, [], t) := by
  rw [ECKeyTable.hideRows, ECKeyTable.seekId, hk]

/-- `HideRows` hides the rows below a header. The cursor stays, unless its row was hidden; then it
moves to the next row that is not. -/
theorem hideRows_spec (hR : Represents t T) (hL : T.toList = xs ++ a :: s) : Yields (t.hideRows a.sKey) fun res =>
      ∃ heap T', res.1 = .erSuccess ∧ res.2.1 = (s.takeWhile (walksOver a.sortCols)).map RowAt.sKey ∧
        Represents res.2.2 T' ∧ T'.toList = xs ++ a :: mapWhile (walksOver a.sortCols) (·.withHidden true) s ∧
            res.2.2 = { t with
              heap := heap
              lpCurrent :=
                if (s.takeWhile (walksOver a.sortCols)).any fun r => t.lpCurrent == some r.addr then
                  ((s.dropWhile (walksOver a.sortCols)).dropWhile RowAt.fHidden).head?.map RowAt.addr
                else t.lpCurrent } := by
  obtain ⟨p, left, x, y, m, j, hmap, hcell⟩ := hR.cell_of_key (a := a) (by simp [hL])
  have hR₀ : Represents { t with lpCurrent := some a.addr } T :=
    hR.setCursor (.inr (.inr ⟨a, by simp [hL], rfl⟩))
  obtain ⟨hnext, hR₁⟩ := nextCursor_suffix hR₀ hL rfl
  have hlen := hR.holds.length_lt
  rw [hL, List.length_append, List.length_cons] at hlen
  have hL₁ : T.toList = (xs ++ [a]) ++ s := by
    rw [hL, List.append_assoc]
    rfl
  have hloop := hideRowsLoop_spec a.sortCols t.lpCurrent false (n := t.fuel + 1) hR₁ hL₁ rfl
    (by omega)
  rw [ECKeyTable.hideRows, ECKeyTable.seekId, hmap]
  simp only [Option.bind_eq_bind, Option.bind_some, hcell, hnext]
  refine hloop.bind fun res hres => ?_
  obtain ⟨keys, flag, t₂⟩ := res
  obtain ⟨heap, T', rfl, hR', hL', rfl, rfl⟩ := hres
  rw [List.append_assoc, List.singleton_append] at hL'
  simp only [Bool.false_or]
  have haddrs : T'.toList.map RowAt.addr = T.toList.map RowAt.addr := by
    rw [hL', hL, List.map_append, List.map_cons, map_mapWhile_of_eq fun r => r.withHidden_addr true,
      List.map_append, List.map_cons]
  cases (s.takeWhile (walksOver a.sortCols)).any fun r => t.lpCurrent == some r.addr with
  | false =>
    refine yields_some.mpr ⟨heap, T', rfl, rfl, ?_, hL', by simp⟩
    exact hR'.setCursor (hR.cursor.of_addrs haddrs)
  | true =>
    have hrest : T'.toList = (xs ++ a :: (s.takeWhile (walksOver a.sortCols)).map
        (·.withHidden true)) ++ s.dropWhile (walksOver a.sortCols) := by simp [hL', mapWhile]
    have hsub : (s.dropWhile (walksOver a.sortCols)).length ≤ s.length :=
      (List.dropWhile_sublist _).length_le
    have hskip := skipHidden_spec (n := t.fuel + 1) hR' hrest rfl (by omega)
    have hfuel : ECKeyTable.fuel { t with
        heap := heap
        lpCurrent := (s.dropWhile (walksOver a.sortCols)).head?.map RowAt.addr } = t.fuel := rfl
    simp only [Bool.not_true, Bool.false_eq_true, if_false, if_true, hfuel, hskip, Option.bind_some]
    refine yields_some.mpr ⟨heap, T', rfl, rfl, hR'.setCursor ?_, hL', rfl⟩
    refine validPos_head ((xs ++ a :: (s.takeWhile (walksOver a.sortCols)).map
      (·.withHidden true)) ++ (s.dropWhile (walksOver a.sortCols)).takeWhile RowAt.fHidden) ?_
    rw [hrest, List.append_assoc _ (List.takeWhile _ _), List.takeWhile_append_dropWhile]

/-- Unhide a row with `n` columns. -/
def RowAt.unhide (n : ℕ) (r : RowAt) : RowAt :=
  if r.sortCols.length = n then r.withHidden false else r

omit [CollationKeys] in
@[simp] theorem RowAt.unhide_addr (n : ℕ) (r : RowAt) : (r.unhide n).addr = r.addr := by
  rw [RowAt.unhide]
  split_ifs <;> rfl

/-- The rows `UnhideRows` walks over are unhidden when they have as many columns as the first. -/
theorem unhideRowsLoop_spec (cols : List SortCol) (ulFirstCols : ℕ)
    (hR : Represents t T) (hL : T.toList = xs ++ s) (hcur : t.lpCurrent = s.head?.map RowAt.addr)
    (hn : s.length < n) : Yields (ECKeyTable.unhideRowsLoop cols ulFirstCols n t) fun res =>
      ∃ heap T', res.2 = { t with
          heap := heap, lpCurrent := (s.dropWhile (walksOver cols)).head?.map RowAt.addr } ∧
        Represents res.2 T' ∧
          T'.toList = xs ++ mapWhile (walksOver cols) (RowAt.unhide ulFirstCols) s ∧
            res.1 = ((s.takeWhile (walksOver cols)).filter fun r =>
              r.sortCols.length = ulFirstCols).map RowAt.sKey := by
  induction s generalizing t T xs n with
  | nil =>
    obtain ⟨n, rfl⟩ : ∃ m, n = m + 1 := ⟨n - 1, by simp at hn; omega⟩
    have hcur : t.lpCurrent = none := hcur
    simp only [ECKeyTable.unhideRowsLoop, hcur, yields_some]
    exact ⟨t.heap, T, (setCursor_self hcur).symm, hR, hL, rfl⟩
  | cons a s ih =>
    rw [List.length_cons] at hn
    obtain ⟨n, rfl⟩ : ∃ m, n = m + 1 := ⟨n - 1, by omega⟩
    have hcur : t.lpCurrent = some a.addr := hcur
    obtain ⟨p, left, x, y, m, j, hcell⟩ := hR.holds.cell (a := a) (by simp [hL])
    simp only [ECKeyTable.unhideRowsLoop, hcur, hcell, Option.bind_eq_bind, Option.bind_some,
      RowAt.cell]
    cases hw : walksOver cols a with
    | false =>
      have hstop : rowcompareprefix cols.length cols a.sortCols = true := by
        simpa [walksOver] using hw
      rw [if_pos hstop, mapWhile_cons_of_neg (by simp [hw]),
        List.takeWhile_cons_of_neg (by simp [hw]), List.dropWhile_cons_of_neg (by simp [hw]),
        yields_some]
      exact ⟨t.heap, T, (setCursor_self hcur).symm, hR, hL, rfl⟩
    | true =>
      have hgo : ¬ rowcompareprefix cols.length cols a.sortCols = true := by
        simpa [walksOver] using hw
      rw [if_neg hgo, mapWhile_cons_of_pos hw, List.takeWhile_cons_of_pos hw,
        List.dropWhile_cons_of_pos hw]
      -- the walk goes on in the same way whether the row was unhidden or left as it is
      have hrest (t₁ : ECKeyTable) (heap : Heap) (T₁ : AvlTree RowAt) (ht₁ : t₁ = { t with heap := heap })
          (hR₁ : Represents t₁ T₁) (hL₁ : T₁.toList = xs ++ a.unhide ulFirstCols :: s) :
          Yields (t₁.nextCursor.bind (ECKeyTable.unhideRowsLoop cols ulFirstCols n)) fun res =>
            ∃ heap T', res.2 = { t with
                heap := heap, lpCurrent := (s.dropWhile (walksOver cols)).head?.map RowAt.addr } ∧
              Represents res.2 T' ∧ T'.toList = xs ++ a.unhide ulFirstCols ::
                mapWhile (walksOver cols) (RowAt.unhide ulFirstCols) s ∧
              res.1 = ((s.takeWhile (walksOver cols)).filter fun r =>
                r.sortCols.length = ulFirstCols).map RowAt.sKey := by
        subst ht₁
        obtain ⟨hnext, hR₂⟩ := nextCursor_suffix hR₁ hL₁ (by rw [hcur, RowAt.unhide_addr])
        rw [hnext]
        have hL₂ : T₁.toList = (xs ++ [a.unhide ulFirstCols]) ++ s := by
          rw [hL₁, List.append_assoc]
          rfl
        refine (ih (n := n) hR₂ hL₂ rfl (by omega)).imp fun res hres => ?_
        obtain ⟨heap', T', ht', hR', hL', hkeys⟩ := hres
        exact ⟨heap', T', ht', hR', by rw [hL', List.append_assoc]; rfl, hkeys⟩
      by_cases hf : a.sortCols.length = ulFirstCols
      · have hunhide : a.unhide ulFirstCols = a.withHidden false := if_pos hf
        simp only [beq_iff_eq, hf, if_true]
        refine (setHidden_spec hR hL false).bind fun t₁ ht₁ => ?_
        obtain ⟨heap, T₁, ht₁, hR₁, hL₁⟩ := ht₁
        obtain ⟨res, hres, heap', T', ht', hR', hL', hkeys⟩ :=
          hrest t₁ heap T₁ ht₁ hR₁ (hunhide ▸ hL₁)
        rw [← Option.bind_assoc, hres]
        refine yields_some.mpr ⟨heap', T', ht', hR', hL', ?_⟩
        rw [hkeys, List.filter_cons_of_pos (by simp [hf])]
        rfl
      · have hunhide : a.unhide ulFirstCols = a := if_neg hf
        simp only [beq_iff_eq, hf, if_false]
        obtain ⟨res, hres, heap', T', ht', hR', hL', hkeys⟩ :=
          hrest t t.heap T rfl hR (hunhide.symm ▸ hL)
        rw [← Option.bind_assoc, hres]
        refine yields_some.mpr ⟨heap', T', ht', hR', hL', ?_⟩
        rw [hkeys, List.filter_cons_of_neg (by simp [hf])]

/-- `UnhideRows` of a row that is not there. -/
theorem unhideRows_notFound {k : SObjectTableKey} (hk : t.mapRow k = none) :
    t.unhideRows k = some (.ZARAFA_E_NOT_FOUND, [], t) := by
  rw [ECKeyTable.unhideRows, ECKeyTable.seekId, hk]

/-- The number of columns of the rows that `UnhideRows` unhides. -/
def firstCols (s : List RowAt) : ℕ := (s.head?.map fun r => r.sortCols.length).getD 0

/-- `UnhideRows` refuses a hidden header, and its cursor is left there. -/
theorem unhideRows_hidden (hR : Represents t T) (ha : a ∈ T.toList) (hh : a.fHidden = true) :
    t.unhideRows a.sKey = some (.ZARAFA_E_NOT_FOUND, [], { t with lpCurrent := some a.addr }) := by
  obtain ⟨p, left, x, y, m, j, hmap, hcell⟩ := hR.cell_of_key ha
  rw [ECKeyTable.unhideRows, ECKeyTable.seekId, hmap]
  simp [hcell, RowAt.cell, hh]

/-- `UnhideRows` unhides, of the rows below a header, those with as many columns as the first. The
cursor stays where the walk ended. -/
theorem unhideRows_spec (hR : Represents t T) (hL : T.toList = xs ++ a :: s) (hh : a.fHidden = false) :
    Yields (t.unhideRows a.sKey) fun res => ∃ heap T', res.1 = .erSuccess ∧
        res.2.1 = ((s.takeWhile (walksOver a.sortCols)).filter fun r =>
          r.sortCols.length = firstCols s).map RowAt.sKey ∧ Represents res.2.2 T' ∧
          T'.toList = xs ++ a :: mapWhile (walksOver a.sortCols) (RowAt.unhide (firstCols s)) s ∧ res.2.2 = { t with
              heap := heap
              lpCurrent := (s.dropWhile (walksOver a.sortCols)).head?.map RowAt.addr } := by
  obtain ⟨p, left, x, y, m, j, hmap, hcell⟩ := hR.cell_of_key (a := a) (by simp [hL])
  have hR₀ : Represents { t with lpCurrent := some a.addr } T :=
    hR.setCursor (.inr (.inr ⟨a, by simp [hL], rfl⟩))
  obtain ⟨hnext, hR₁⟩ := nextCursor_suffix hR₀ hL rfl
  have hlen := hR.holds.length_lt
  rw [hL, List.length_append, List.length_cons] at hlen
  rw [ECKeyTable.unhideRows, ECKeyTable.seekId, hmap]
  simp only [Option.bind_eq_bind, Option.bind_some, hcell, hnext, RowAt.cell, hh,
    Bool.false_eq_true, if_false]
  cases s with
  | nil => exact yields_some.mpr ⟨t.heap, T, rfl, rfl, hR₁, hL, rfl⟩
  | cons b s =>
    obtain ⟨p', left', x', y', m', j', hfirst⟩ := hR.holds.cell (a := b) (by simp [hL])
    simp only [List.head?_cons, Option.map_some, hfirst, Option.bind_some, RowAt.cell]
    have hL₁ : T.toList = (xs ++ [a]) ++ b :: s := by
      rw [hL, List.append_assoc]
      rfl
    refine (unhideRowsLoop_spec a.sortCols b.sortCols.length (n := t.fuel + 1) hR₁ hL₁ rfl
      (by omega)).bind fun res hres => ?_
    obtain ⟨keys, t₂⟩ := res
    obtain ⟨heap, T', rfl, hR', hL', rfl⟩ := hres
    rw [List.append_assoc, List.singleton_append] at hL'
    exact yields_some.mpr ⟨heap, T', rfl, rfl, hR', hL', rfl⟩

end Below

end Zcp.Common
