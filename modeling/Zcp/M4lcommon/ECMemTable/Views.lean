import Zcp.M4lcommon.ECMemTable

/-!
# Views of a memory table

The key table of a view should hold the rows that are not deleted and match the restriction of the
view. `run_views` says in which runs it does.
-/

namespace Zcp.M4lcommon

open Zcp.Common Zcp.Lib

variable {P R S I : Type}

/-! ## The map -/

section Map

variable {mapRows : Rows P I} {ulId id : ℕ} {entry : ECTableEntry P I}

/-- The rows are in the order of their numbers. -/
abbrev Rows.Sorted (mapRows : Rows P I) : Prop := OrderedMap.Sorted Prod.fst mapRows

theorem Rows.find_eq_some (hs : mapRows.Sorted) : Rows.find mapRows id = some entry ↔ (id, entry) ∈ mapRows := by
  rw [Rows.find, Option.map_eq_some_iff]
  constructor
  · rintro ⟨⟨i, e⟩, hget, rfl⟩
    obtain ⟨hmem, rfl⟩ := (OrderedMap.get_eq_some hs).mp hget
    exact hmem
  · intro hmem
    exact ⟨(id, entry), (OrderedMap.get_eq_some hs).mpr ⟨hmem, rfl⟩, rfl⟩

theorem Rows.find_set (hs : mapRows.Sorted) : Rows.find (Rows.set mapRows ulId entry) id =
      if ulId = id then some entry else Rows.find mapRows id := by
  rw [Rows.find, Rows.set, OrderedMap.get_set hs]
  split_ifs
  · rfl
  · rfl

end Map

/-! ## The rows a view shows -/

section Shows

variable [CollationKeys] {t : ECKeyTable} {ids : ℕ → Prop}

omit [CollationKeys] in
/-- The key table is in a valid state and has the rows `ids`. -/
def Shows (t : ECKeyTable) (ids : ℕ → Prop) : Prop :=
  ∃ T, Represents t T ∧ ∀ k, k ∈ T.toList.map RowAt.sKey ↔ ∃ id, ids id ∧ k = rowItem id

omit [CollationKeys] in
theorem rowItem_inj {i j : ℕ} (h : rowItem i = rowItem j) : i = j :=
  congrArg SObjectTableKey.ulObjId h

omit [CollationKeys] in
theorem Shows.congr {ids' : ℕ → Prop} (h : Shows t ids) (hids : ∀ id, ids' id ↔ ids id) : Shows t ids' := by
  rwa [show ids' = ids from funext fun id => propext (hids id)]

omit [CollationKeys] in
theorem shows_new : Shows .new fun _ => False :=
  ⟨.nil, represents_new, by simp⟩

theorem Shows.put (h : Shows t ids) (ulType : UpdateType)
    (htype : ulType = .TABLE_ROW_ADD ∨ ulType = .TABLE_ROW_MODIFY) (ulId : ℕ) (cols : List SortCol) (fHidden : Bool) :
    Yields (t.updateRow ulType (rowItem ulId) cols fHidden) fun res =>
      res.er = .erSuccess ∧ Shows res.table fun id => id = ulId ∨ ids id := by
  obtain ⟨T, hR, hkeys⟩ := h
  have hput : t.updateRow ulType (rowItem ulId) cols fHidden =
      t.putRow (rowItem ulId) cols fHidden := by
    rcases htype with rfl | rfl
    · rfl
    · rfl
  rw [hput]
  refine (putRow_keys hR _ _ _).imp fun res hres => ?_
  obtain ⟨her, T', hR', hkeys'⟩ := hres
  refine ⟨her, T', hR', fun k => ?_⟩
  rw [hkeys', hkeys]
  constructor
  · rintro (rfl | ⟨id, hid, rfl⟩)
    · exact ⟨ulId, .inl rfl, rfl⟩
    · exact ⟨id, .inr hid, rfl⟩
  · rintro ⟨id, rfl | hid, rfl⟩
    · exact .inl rfl
    · exact .inr ⟨id, hid, rfl⟩

open Classical in
theorem Shows.delete (h : Shows t ids) (ulId : ℕ) (cols : List SortCol) (fHidden : Bool) :
    Yields (t.updateRow .TABLE_ROW_DELETE (rowItem ulId) cols fHidden) fun res =>
      res.er = (if ids ulId then .erSuccess else .ZARAFA_E_NOT_FOUND) ∧
        Shows res.table fun id => ids id ∧ id ≠ ulId := by
  obtain ⟨T, hR, hkeys⟩ := h
  refine (deleteRow_keys hR (rowItem ulId)).bind fun res hres => yields_some.mpr ?_
  obtain ⟨her, T', hR', hkeys'⟩ := hres
  have hmem : rowItem ulId ∈ T.toList.map RowAt.sKey ↔ ids ulId := by
    rw [hkeys]
    constructor
    · rintro ⟨id, hid, he⟩
      rwa [rowItem_inj he]
    · exact fun hid => ⟨ulId, hid, rfl⟩
  refine ⟨?_, T', hR', fun k => ?_⟩
  · rw [her]
    simp only [hmem]
  · rw [hkeys', hkeys]
    constructor
    · rintro ⟨⟨id, hid, rfl⟩, hne⟩
      exact ⟨id, ⟨hid, fun he => hne (he ▸ rfl)⟩, rfl⟩
    · rintro ⟨id, ⟨hid, hne⟩, rfl⟩
      exact ⟨⟨id, hid, rfl⟩, fun he => hne (rowItem_inj he)⟩

omit [CollationKeys] in
theorem Shows.clear (h : Shows t ids) : Yields t.clear fun t' => Shows t' fun _ => False := by
  obtain ⟨T, hR, -⟩ := h
  refine (clear_spec hR).imp fun t' ht' => ?_
  obtain ⟨heap, hR', -⟩ := ht'
  exact ⟨.nil, hR', by simp⟩

omit [CollationKeys] in
theorem Shows.seekRow (h : Shows t ids) (org : ℕ) (k : ℤ) :
    Yields (t.seekRow org k) fun res => Shows res.2.2 ids := by
  obtain ⟨T, hR, hkeys⟩ := h
  obtain ⟨er, sought, pos, heq, hpos⟩ := seekRow_valid hR org k
  exact ⟨_, heq, T, hR.setCursor hpos, hkeys⟩

end Shows

variable (ty : MemTableType P R S I)

/-- The restriction of a view lets a row through. -/
def ECMemTableView.Matches (view : ECMemTableView R S) (props : P) : Prop :=
  ∀ r, view.lpsRestriction = some r → ty.testRestriction r props = true

/-- The rows a view should show. -/
def ECMemTableView.Wanted (view : ECMemTableView R S) (mapRows : Rows P I) (id : ℕ) : Prop :=
  ∃ entry, (id, entry) ∈ mapRows ∧ entry.fDeleted = false ∧ view.Matches ty entry.lpsPropVal

/-- A view shows what it should. -/
def ECMemTableView.Consistent (view : ECMemTableView R S) (mapRows : Rows P I) : Prop :=
  Shows view.lpKeyTable (view.Wanted ty mapRows)

/-! ## One view -/

section View

variable [CollationKeys] {mapRows : Rows P I} {view : ECMemTableView R S} {ids : ℕ → Prop}
  {ulId : ℕ} {entry : ECTableEntry P I}

omit [CollationKeys] in
theorem matches_iff (view : ECMemTableView R S) (props : P) :
    (view.lpsRestriction.any fun r => !ty.testRestriction r props) = false ↔ view.Matches ty props := by
  rw [ECMemTableView.Matches]
  cases view.lpsRestriction with
  | none => simp
  | some r => simp

open Classical in
/-- `ModifyRowKey` shows a row if it matches. -/
theorem modifyRowKey_spec (h : Shows view.lpKeyTable ids) (hfind : Rows.find mapRows ulId = some entry) :
    Yields (view.modifyRowKey ty mapRows ulId) fun res => res.1 = .hrSuccess ∧
      ∃ t, res.2 = { view with lpKeyTable := t } ∧ Shows t fun id =>
        if id = ulId then view.Matches ty entry.lpsPropVal else ids id := by
  rw [ECMemTableView.modifyRowKey, hfind]
  cases hany : view.lpsRestriction.any fun r => !ty.testRestriction r entry.lpsPropVal with
  | true =>
    have hno : ¬ view.Matches ty entry.lpsPropVal := by
      rw [← matches_iff ty, hany]
      simp
    simp only [hany, if_true]
    refine (h.delete ulId [] false).bind fun res hres => yields_some.mpr ⟨rfl, res.table, rfl, ?_⟩
    refine hres.2.congr fun id => ?_
    split_ifs with hid
    · exact ⟨fun hm => absurd hm hno, fun hm => absurd hid hm.2⟩
    · exact ⟨fun hi => ⟨hi, hid⟩, And.left⟩
  | false =>
    have hyes := (matches_iff ty view entry.lpsPropVal).mp hany
    simp only [hany, Bool.false_eq_true, if_false]
    refine (h.put .TABLE_ROW_ADD (.inl rfl) ulId _ false).bind fun res hres =>
      yields_some.mpr ⟨rfl, res.table, rfl, ?_⟩
    refine hres.2.congr fun id => ?_
    split_ifs with hid
    · exact ⟨fun _ => .inl hid, fun _ => hyes⟩
    · exact ⟨.inr, fun hi => hi.resolve_left hid⟩

open Classical in
/-- `UpdateRow` for a row that is there. -/
theorem updateRow_put (h : Shows view.lpKeyTable ids)
    (hfind : Rows.find mapRows ulId = some entry) {ulType : UpdateType}
    (htype : ulType = .TABLE_ROW_ADD ∨ ulType = .TABLE_ROW_MODIFY) :
    Yields (view.updateRow ty mapRows ulType ulId) fun res => res.1 = .hrSuccess ∧
      ∃ t, res.2 = { view with lpKeyTable := t } ∧ Shows t fun id =>
        if id = ulId then view.Matches ty entry.lpsPropVal else ids id := by
  rw [ECMemTableView.updateRow]
  split_ifs with hif
  · have hnone : view.lpsRestriction = none := by
      rcases hif with ⟨-, hnone⟩ | rfl
      · exact Option.isNone_iff_eq_none.mp hnone
      · rcases htype with h | h <;> cases h
    have hyes : view.Matches ty entry.lpsPropVal := by
      intro r hr
      rw [hnone] at hr
      cases hr
    refine (h.put ulType htype ulId _ false).bind fun res hres => yields_some.mpr ?_
    obtain ⟨her, hshows⟩ := hres
    refine ⟨by rw [her]; rfl, res.table, rfl, hshows.congr fun id => ?_⟩
    split_ifs with hid
    · exact ⟨fun _ => .inl hid, fun _ => hyes⟩
    · exact ⟨.inr, fun hi => hi.resolve_left hid⟩
  · exact modifyRowKey_spec ty h hfind

open Classical in
/-- `UpdateRow` for a row that is deleted: a row the view does not show is an error. -/
theorem updateRow_delete (h : Shows view.lpKeyTable ids) :
    Yields (view.updateRow ty mapRows .TABLE_ROW_DELETE ulId) fun res =>
      res.1 = (if ids ulId then .hrSuccess else .MAPI_E_NOT_FOUND) ∧
        ∃ t, res.2 = { view with lpKeyTable := t } ∧ Shows t fun id => ids id ∧ id ≠ ulId := by
  rw [ECMemTableView.updateRow, if_pos (.inr rfl)]
  refine (h.delete ulId [] false).bind fun res hres => yields_some.mpr ?_
  obtain ⟨her, hshows⟩ := hres
  refine ⟨?_, res.table, rfl, hshows⟩
  rw [her]
  split_ifs
  · rfl
  · rfl

/-- The loop of `UpdateSortOrRestrict` shows the rows it has passed, as far as they are wanted. -/
theorem addRows_spec (view : ECMemTableView R S) (hs : mapRows.Sorted) (past : Rows P I) {rows : Rows P I}
    (hrows : mapRows = past ++ rows) (h : Shows view.lpKeyTable fun id => view.Wanted ty past id) :
    Yields (view.addRows ty mapRows rows) fun res =>
      ∃ t, res = { view with lpKeyTable := t } ∧ Shows t (view.Wanted ty mapRows) := by
  -- the view shows what it wants of the rows that have been passed
  induction rows generalizing past view with
  | nil =>
    rw [List.append_nil] at hrows
    exact yields_some.mpr ⟨view.lpKeyTable, rfl, hrows ▸ h⟩
  | cons row rows ih =>
    have hmem : row ∈ mapRows := by simp [hrows]
    have hfind : Rows.find mapRows row.1 = some row.2 := (Rows.find_eq_some hs).mpr hmem
    have hnew : ∀ entry, (row.1, entry) ∉ past := by
      intro entry hpast
      rw [hrows] at hs
      exact lt_irrefl _ ((List.pairwise_append.mp hs).2.2 _ hpast row List.mem_cons_self)
    -- one more row changes the answer for its own id only
    have hwanted (id : ℕ) : view.Wanted ty (past ++ [row]) id ↔
        if id = row.1 then row.2.fDeleted = false ∧ view.Matches ty row.2.lpsPropVal
        else view.Wanted ty past id := by
      rw [ECMemTableView.Wanted]
      simp only [List.mem_append, List.mem_singleton]
      split_ifs with hid
      · subst hid
        constructor
        · rintro ⟨entry, hpast | heq, hdm⟩
          · exact absurd hpast (hnew entry)
          · rwa [← heq]
        · exact fun hdm => ⟨row.2, .inr rfl, hdm⟩
      · constructor
        · rintro ⟨entry, hpast | heq, hdm⟩
          · exact ⟨entry, hpast, hdm⟩
          · exact absurd (congrArg Prod.fst heq) hid
        · rintro ⟨entry, hpast, hdm⟩
          exact ⟨entry, .inl hpast, hdm⟩
    have hrows' : mapRows = (past ++ [row]) ++ rows := by
      rw [hrows, List.append_assoc]
      rfl
    rw [ECMemTableView.addRows, List.foldlM_cons]
    by_cases hd : row.2.fDeleted = true
    · rw [if_pos hd]
      refine ih view (past ++ [row]) hrows' (h.congr fun id => ?_)
      rw [hwanted]
      split_ifs with hid
      · subst hid
        rw [hd]
        constructor
        · rintro ⟨⟨⟩, -⟩
        · rintro ⟨entry, hpast, -⟩
          exact absurd hpast (hnew entry)
      · rfl
    · rw [if_neg hd, bind_assoc]
      refine (modifyRowKey_spec ty h hfind).bind fun res hres => ?_
      obtain ⟨-, t, ht, hshows⟩ := hres
      obtain ⟨hr, view'⟩ := res
      obtain rfl : view' = { view with lpKeyTable := t } := ht
      refine ih { view with lpKeyTable := t } (past ++ [row]) hrows' (hshows.congr fun id => ?_)
      rw [show ECMemTableView.Wanted ty { view with lpKeyTable := t } (past ++ [row]) id ↔
        view.Wanted ty (past ++ [row]) id from Iff.rfl, hwanted]
      split_ifs
      · exact ⟨And.right, fun hm => ⟨by simpa using hd, hm⟩⟩
      · rfl

/-- `UpdateSortOrRestrict` makes a view consistent. -/
theorem updateSortOrRestrict_spec (view : ECMemTableView R S) (hs : mapRows.Sorted) (h : Shows view.lpKeyTable ids) :
    Yields (view.updateSortOrRestrict ty mapRows) fun res =>
      res.Consistent ty mapRows ∧ res.lpsRestriction = view.lpsRestriction := by
  refine h.clear.bind fun t ht => ?_
  refine (addRows_spec ty { view with lpKeyTable := t } hs [] rfl
    (ht.congr fun id => ?_)).bind fun view' hview' => ?_
  · exact ⟨fun ⟨_, hmem, _⟩ => absurd hmem List.not_mem_nil, False.elim⟩
  · obtain ⟨t', rfl, hshows⟩ := hview'
    refine (hshows.seekRow EC_SEEK_SET 0).bind fun res hres => yields_some.mpr ⟨hres, rfl⟩

end View

/-! ## All views -/

/-- A table whose views are consistent. -/
structure ECMemTable.Inv (t : ECMemTable P R S I) : Prop where
  sorted : t.mapRows.Sorted
  views : ∀ view ∈ t.lstViews, view.Consistent ty t.mapRows

section Table

variable {ty} {mapRows : Rows P I} {view : ECMemTableView R S} {ulId : ℕ}
  {entry : ECTableEntry P I} {t : ECMemTable P R S I}

/-- Which rows are wanted after one of them is set. -/
theorem wanted_set (hs : mapRows.Sorted) (id : ℕ) : view.Wanted ty (Rows.set mapRows ulId entry) id ↔
      if id = ulId then entry.fDeleted = false ∧ view.Matches ty entry.lpsPropVal
      else view.Wanted ty mapRows id := by
  rw [ECMemTableView.Wanted, Rows.set]
  simp only [OrderedMap.mem_set hs, Prod.mk.injEq]
  split_ifs with hid
  · subst hid
    constructor
    · rintro ⟨e, ⟨-, rfl⟩ | ⟨-, hne⟩, hdm⟩
      · exact hdm
      · exact absurd rfl hne
    · exact fun hdm => ⟨entry, .inl ⟨rfl, rfl⟩, hdm⟩
  · constructor
    · rintro ⟨e, ⟨rfl, -⟩ | ⟨hmem, -⟩, hdm⟩
      · exact absurd rfl hid
      · exact ⟨e, hmem, hdm⟩
    · rintro ⟨e, hmem, hdm⟩
      exact ⟨e, .inr ⟨hmem, hid⟩, hdm⟩

variable [CollationKeys]

/-- All views take over a row that is added or modified. -/
theorem updateViews_put (hs : mapRows.Sorted) (hd : entry.fDeleted = false) {ulType : UpdateType}
    (htype : ulType = .TABLE_ROW_ADD ∨ ulType = .TABLE_ROW_MODIFY)
    {views : List (ECMemTableView R S)} (hviews : ∀ view ∈ views, view.Consistent ty mapRows) :
    Yields (updateViews ty (Rows.set mapRows ulId entry) ulType ulId views) fun res =>
      ∀ view ∈ res.2, view.Consistent ty (Rows.set mapRows ulId entry) := by
  have hfind : Rows.find (Rows.set mapRows ulId entry) ulId = some entry := by
    rw [Rows.find_set hs, if_pos rfl]
  induction views with
  | nil => exact yields_some.mpr (by simp)
  | cons view views ih =>
    obtain ⟨hview, hviews⟩ := List.forall_mem_cons.mp hviews
    refine (updateRow_put ty hview hfind htype).bind fun res hres => ?_
    obtain ⟨hr, view'⟩ := res
    obtain ⟨rfl, t, rfl, hshows⟩ := hres
    refine (ih hviews).bind fun res hres => yields_some.mpr ?_
    refine List.forall_mem_cons.mpr ⟨hshows.congr fun id => ?_, hres⟩
    rw [show ECMemTableView.Wanted ty { view with lpKeyTable := t } (Rows.set mapRows ulId entry) id ↔
      view.Wanted ty (Rows.set mapRows ulId entry) id from Iff.rfl, wanted_set hs]
    split_ifs
    · exact ⟨And.right, fun hm => ⟨hd, hm⟩⟩
    · rfl

/-- All views lose a row that is deleted, when no view shows it behind one that does not. -/
theorem updateViews_delete (hs : mapRows.Sorted) (hd : entry.fDeleted = true)
    {views : List (ECMemTableView R S)} (hviews : ∀ view ∈ views, view.Consistent ty mapRows)
    (hpair : views.Pairwise fun v w => w.Wanted ty mapRows ulId → v.Wanted ty mapRows ulId) :
    Yields (updateViews ty (Rows.set mapRows ulId entry) .TABLE_ROW_DELETE ulId views) fun res =>
      ∀ view ∈ res.2, view.Consistent ty (Rows.set mapRows ulId entry) := by
  have hwanted (view : ECMemTableView R S) (id : ℕ) :
      view.Wanted ty (Rows.set mapRows ulId entry) id ↔ view.Wanted ty mapRows id ∧ id ≠ ulId := by
    rw [wanted_set hs, hd]
    split_ifs with hid
    · exact ⟨fun h => (by cases h.1), fun h => absurd hid h.2⟩
    · exact ⟨fun h => ⟨h, hid⟩, And.left⟩
  induction views with
  | nil => exact yields_some.mpr (by simp)
  | cons view views ih =>
    obtain ⟨hview, hviews⟩ := List.forall_mem_cons.mp hviews
    obtain ⟨hhead, htail⟩ := List.pairwise_cons.mp hpair
    refine (updateRow_delete ty hview).bind fun res hres => ?_
    obtain ⟨hr, view'⟩ := res
    obtain ⟨rfl, t, rfl, hshows⟩ := hres
    have hview' : ECMemTableView.Consistent ty { view with lpKeyTable := t }
        (Rows.set mapRows ulId entry) := hshows.congr fun id => hwanted view id
    by_cases hw : view.Wanted ty mapRows ulId
    · simp only [hw, if_true, ne_eq, not_true_eq_false, if_false]
      refine (ih hviews htail).bind fun res hres => yields_some.mpr ?_
      exact List.forall_mem_cons.mpr ⟨hview', hres⟩
    · -- the loop stops here, and no later view shows the row
      simp only [hw, if_false, ne_eq, reduceCtorEq, not_false_eq_true, if_true]
      refine yields_some.mpr (List.forall_mem_cons.mpr ⟨hview', fun w hmem => ?_⟩)
      refine Shows.congr (hviews w hmem) fun id => (hwanted w id).trans ?_
      refine ⟨And.left, fun h => ⟨h, ?_⟩⟩
      rintro rfl
      exact hw (hhead w hmem h)

omit [CollationKeys] in
theorem clearView_spec (h : view.Consistent ty mapRows) :
    Yields view.clear fun view' => Shows view'.lpKeyTable fun _ => False :=
  (Shows.clear h).bind fun _ ht => yields_some.mpr ht

omit [CollationKeys] in
/-- All views are cleared. -/
theorem clearViews_spec {views : List (ECMemTableView R S)} (hviews : ∀ view ∈ views, view.Consistent ty mapRows) :
    Yields (views.mapM ECMemTableView.clear) fun res => ∀ view ∈ res, Shows view.lpKeyTable fun _ => False := by
  induction views with
  | nil => exact yields_some.mpr (by simp)
  | cons view views ih =>
    obtain ⟨hview, hviews⟩ := List.forall_mem_cons.mp hviews
    rw [List.mapM_cons]
    refine (clearView_spec hview).bind fun view' hview' => ?_
    refine (ih hviews).bind fun res hres => yields_some.mpr ?_
    exact List.forall_mem_cons.mpr ⟨hview', hres⟩

/-- `HrModifyRow` with one of the three updates. -/
def IsRowUpdate (ulUpdateType : UpdateType) : Prop :=
  ulUpdateType = .TABLE_ROW_ADD ∨ ulUpdateType = .TABLE_ROW_MODIFY ∨ ulUpdateType = .TABLE_ROW_DELETE

variable (ty) in
omit [CollationKeys] in
/-- What `HrModifyRow` does to the map. -/
theorem modifyMap_cases {ulType : UpdateType} (htype : IsRowUpdate ulType) (hs : t.mapRows.Sorted)
    (lpsID : Option I) (lpPropVals : P) (ulId : ℕ) : (∃ hr, (∀ entry, (ulId, entry) ∉ t.mapRows) ∧
        t.modifyMap ty ulType lpsID lpPropVals ulId = .error hr) ∨
      (∃ entry entry', ulType = .TABLE_ROW_DELETE ∧ (ulId, entry) ∈ t.mapRows ∧
        entry' = { entry with fDeleted := true, fDirty := false, fNew := false } ∧
        t.modifyMap ty ulType lpsID lpPropVals ulId =
          .ok (.TABLE_ROW_DELETE, Rows.set t.mapRows ulId entry')) ∨
      (∃ entry entry', ulType ≠ .TABLE_ROW_DELETE ∧ (ulId, entry) ∈ t.mapRows ∧
        entry'.fDeleted = false ∧ entry'.fDirty = true ∧ entry'.fNew = entry.fNew ∧
        t.modifyMap ty ulType lpsID lpPropVals ulId =
          .ok (.TABLE_ROW_MODIFY, Rows.set t.mapRows ulId entry')) ∨
      (∃ entry', ulType ≠ .TABLE_ROW_DELETE ∧ (∀ entry, (ulId, entry) ∉ t.mapRows) ∧
        entry'.fDeleted = false ∧ entry'.fNew = true ∧
        t.modifyMap ty ulType lpsID lpPropVals ulId =
          .ok (.TABLE_ROW_ADD, Rows.set t.mapRows ulId entry')) := by
  have hput (hne : ulType ≠ .TABLE_ROW_DELETE) :
      ulType = .TABLE_ROW_ADD ∨ ulType = .TABLE_ROW_MODIFY := by
    rcases htype with h | h | h
    · exact .inl h
    · exact .inr h
    · exact absurd h hne
  rw [ECMemTable.modifyMap]
  cases hfind : Rows.find t.mapRows ulId with
  | some entry =>
    have hmem := (Rows.find_eq_some hs).mp hfind
    by_cases hdel : ulType = .TABLE_ROW_DELETE
    · exact .inr (.inl ⟨entry, _, hdel, hmem, rfl, if_pos hdel⟩)
    · refine .inr (.inr (.inl ⟨entry, _, hdel, hmem, ?_, ?_, ?_, (if_neg hdel).trans
        (if_pos (hput hdel))⟩))
      · rfl
      · rfl
      · rfl
  | none =>
    have hnone : ∀ entry, (ulId, entry) ∉ t.mapRows := by
      intro entry hmem
      rw [(Rows.find_eq_some hs).mpr hmem] at hfind
      cases hfind
    by_cases hdel : ulType = .TABLE_ROW_DELETE
    · exact .inl ⟨_, hnone, if_pos hdel⟩
    · simp only [if_neg hdel, if_pos (hput hdel)]
      cases lpsID with
      | none => exact .inr (.inr (.inr ⟨_, hdel, hnone, rfl, rfl, rfl⟩))
      | some id =>
        cases hid : ty.hrCopyProperty id with
        | none => exact .inl ⟨.MAPI_E_INVALID_PARAMETER, hnone, by simp only [hid]⟩
        | some id' =>
          refine .inr (.inr (.inr ⟨_, hdel, hnone, ?_, ?_, by simp only [hid]; rfl⟩))
          · rfl
          · rfl

/-- A call that leaves the views right. A row that is deleted is not shown by a view behind one that
does not show it, and a restriction that cannot be copied is not put in the place of another one. -/
def MemTableOp.Regular (ty : MemTableType P R S I) (t : ECMemTable P R S I) :
    MemTableOp P R S I → Prop
  | .hrModifyRow ulUpdateType _ lpPropVals => IsRowUpdate ulUpdateType ∧
      (ulUpdateType = .TABLE_ROW_DELETE → ∀ id entry, ty.findRowID lpPropVals = some id →
        (id, entry) ∈ t.mapRows → entry.fDeleted = false →
          t.lstViews.Pairwise fun v w =>
            w.Matches ty entry.lpsPropVal → v.Matches ty entry.lpsPropVal)
  | .restrict n (some r) => ∀ view, t.lstViews[n]? = some view → ty.hrCopySRestriction r = none →
      view.lpsRestriction = none
  | _ => True

theorem hrModifyRow_inv (hi : t.Inv ty) {ulType : UpdateType} {lpsID : Option I} {lpPropVals : P}
    (hreg : (MemTableOp.hrModifyRow ulType lpsID lpPropVals).Regular ty t) :
    Yields (t.hrModifyRow ty ulType lpsID lpPropVals) fun res => res.2.Inv ty := by
  obtain ⟨htype, hdel⟩ := hreg
  rw [ECMemTable.hrModifyRow]
  cases hid : ty.findRowID lpPropVals with
  | none => exact yields_some.mpr hi
  | some ulId =>
    have hsorted (entry : ECTableEntry P I) : (Rows.set t.mapRows ulId entry).Sorted :=
      hi.sorted.set _
    rcases modifyMap_cases ty htype hi.sorted lpsID lpPropVals ulId with ⟨hr, -, hmap⟩ |
      ⟨entry, entry', rfl, hmem, rfl, hmap⟩ | ⟨entry, entry', -, -, hd, -, -, hmap⟩ |
      ⟨entry', -, -, hd, -, hmap⟩
    · simp only [hmap]
      exact yields_some.mpr hi
    · simp only [hmap]
      refine (updateViews_delete hi.sorted rfl hi.views ?_).bind fun res hres =>
        yields_some.mpr ⟨hsorted _, hres⟩
      -- a row that was deleted before is shown nowhere
      have hwanted (view : ECMemTableView R S) : view.Wanted ty t.mapRows ulId ↔
          entry.fDeleted = false ∧ view.Matches ty entry.lpsPropVal := by
        constructor
        · rintro ⟨e, he, hdm⟩
          have hfind := (Rows.find_eq_some hi.sorted).mpr hmem
          rw [(Rows.find_eq_some hi.sorted).mpr he] at hfind
          rwa [← Option.some.inj hfind]
        · exact fun hdm => ⟨entry, hmem, hdm⟩
      cases hd : entry.fDeleted with
      | true =>
        refine List.pairwise_of_forall fun v w hw => ?_
        rw [hwanted, hd] at hw
        cases hw.1
      | false =>
        refine (hdel rfl ulId entry hid hmem hd).imp fun h hw => ?_
        rw [hwanted] at hw ⊢
        exact ⟨hw.1, h hw.2⟩
    · simp only [hmap]
      exact (updateViews_put hi.sorted hd (.inr rfl) hi.views).bind fun res hres =>
        yields_some.mpr ⟨hsorted _, hres⟩
    · simp only [hmap]
      exact (updateViews_put hi.sorted hd (.inl rfl) hi.views).bind fun res hres =>
        yields_some.mpr ⟨hsorted _, hres⟩

omit [CollationKeys] in
theorem hrDeleteAll_inv (hi : t.Inv ty) : Yields t.hrDeleteAll fun res => res.Inv ty := by
  refine (clearViews_spec hi.views).bind fun views hviews => yields_some.mpr
    ⟨hi.sorted.map fun _ => rfl, fun view hview => (hviews view hview).congr fun id => ?_⟩
  refine ⟨fun ⟨entry, hmem, hd, _⟩ => ?_, False.elim⟩
  obtain ⟨row, -, heq⟩ := List.mem_map.mp hmem
  obtain ⟨-, rfl⟩ := Prod.mk.inj heq
  cases hd

omit [CollationKeys] in
theorem hrClear_inv (hi : t.Inv ty) : Yields t.hrClear fun res => res.Inv ty := by
  refine (clearViews_spec hi.views).bind fun views hviews => yields_some.mpr
    ⟨List.Pairwise.nil, fun view hview => (hviews view hview).congr fun id => ?_⟩
  exact ⟨fun ⟨_, hmem, _⟩ => absurd hmem List.not_mem_nil, False.elim⟩

omit [CollationKeys] in
theorem hrSetClean_inv (hi : t.Inv ty) : t.hrSetClean.Inv ty := by
  refine ⟨(hi.sorted.filter _).map fun _ => rfl, fun view hview =>
    (hi.views view hview).congr fun id => ?_⟩
  constructor
  · rintro ⟨entry, hmem, hd, hm⟩
    obtain ⟨row, hrow, heq⟩ := List.mem_map.mp hmem
    obtain ⟨hrow, hdel⟩ := List.mem_filter.mp hrow
    obtain ⟨rfl, rfl⟩ := Prod.mk.inj heq
    exact ⟨row.2, hrow, by simpa using hdel, hm⟩
  · rintro ⟨entry, hmem, hd, hm⟩
    refine ⟨_, List.mem_map.mpr ⟨(id, entry), List.mem_filter.mpr ⟨hmem, ?_⟩, rfl⟩, rfl, hm⟩
    simp [hd]

/-- A regular call keeps the views consistent. -/
theorem step_inv (hi : t.Inv ty) {op : MemTableOp P R S I} (hreg : op.Regular ty t) :
    Yields (op.step ty t) fun t' => t'.Inv ty := by
  -- only the named view changes
  have hset {view : ECMemTableView R S} (n : ℕ) (hview : view.Consistent ty t.mapRows) :
      ECMemTable.Inv ty { t with lstViews := t.lstViews.set n view } := by
    refine ⟨hi.sorted, fun w hw => ?_⟩
    rcases List.mem_or_eq_of_mem_set hw with hw | rfl
    · exact hi.views w hw
    · exact hview
  cases op with
  | hrModifyRow ulType lpsID lpPropVals =>
    exact (hrModifyRow_inv hi hreg).bind fun _ hres => yields_some.mpr hres
  | hrDeleteAll => exact hrDeleteAll_inv hi
  | hrClear => exact hrClear_inv hi
  | hrSetClean => exact yields_some.mpr (hrSetClean_inv hi)
  | hrGetView =>
    refine (updateSortOrRestrict_spec ty ⟨.new, none, ty.sSortDefault⟩ hi.sorted shows_new).bind fun view hview =>
      yields_some.mpr ⟨hi.sorted, fun w hw => ?_⟩
    rcases List.mem_append.mp hw with hw | hw
    · exact hi.views w hw
    · rw [List.mem_singleton.mp hw]
      exact hview.1
  | restrict n lpRestriction =>
    rw [MemTableOp.step]
    cases hn : t.lstViews[n]? with
    | none => exact yields_some.mpr hi
    | some view =>
      have hview := hi.views view (List.mem_of_getElem? hn)
      cases lpRestriction with
      | none =>
        refine Yields.bind (x := view.restrict ty t.mapRows none)
          (Q := fun res => res.2.Consistent ty t.mapRows) ?_ fun res hres => yields_some.mpr (hset n hres)
        exact (updateSortOrRestrict_spec ty { view with lpsRestriction := none } hi.sorted hview).bind fun view' hview' => yields_some.mpr hview'.1
      | some r =>
        refine Yields.bind (x := view.restrict ty t.mapRows (some r))
          (Q := fun res => res.2.Consistent ty t.mapRows) ?_ fun res hres => yields_some.mpr (hset n hres)
        cases hr : ty.hrCopySRestriction r with
        | none =>
          -- the copy failed: the view keeps the rows and loses the restriction
          have hold : view.lpsRestriction = none := hreg view hn hr
          simp only [ECMemTableView.restrict, hr]
          refine yields_some.mpr (Shows.congr hview fun id => ?_)
          rw [ECMemTableView.Wanted, ECMemTableView.Wanted]
          simp only [ECMemTableView.Matches, hold]
        | some r' =>
          simp only [ECMemTableView.restrict, hr]
          exact (updateSortOrRestrict_spec ty { view with lpsRestriction := some r' } hi.sorted
            hview).bind
            fun view' hview' => yields_some.mpr hview'.1
  | sortTable n lpSortCriteria =>
    rw [MemTableOp.step]
    cases hn : t.lstViews[n]? with
    | none => exact yields_some.mpr hi
    | some view =>
      have hview := hi.views view (List.mem_of_getElem? hn)
      refine (updateSortOrRestrict_spec ty { view with
        lpsSortOrderSet := lpSortCriteria.getD ty.sSortDefault } hi.sorted hview).bind
        fun view' hview' => yields_some.mpr (hset n hview'.1)

/-- All calls of a run are regular. -/
def RegularRun (ty : MemTableType P R S I) (t : ECMemTable P R S I) :
    List (MemTableOp P R S I) → Prop
  | [] => True
  | op :: ops => op.Regular ty t ∧ ∀ t', op.step ty t = some t' → RegularRun ty t' ops

theorem run_inv (hi : t.Inv ty) {ops : List (MemTableOp P R S I)} (hreg : RegularRun ty t ops) :
    Yields (MemTableOp.run ty t ops) fun t' => t'.Inv ty := by
  induction ops generalizing t with
  | nil => exact yields_some.mpr hi
  | cons op ops ih =>
    obtain ⟨hop, hops⟩ := hreg
    obtain ⟨t₁, ht₁, hi₁⟩ := step_inv hi hop
    rw [MemTableOp.run, List.foldlM_cons, ht₁]
    exact ih hi₁ (hops t₁ ht₁)

omit [CollationKeys] in
theorem inv_new : (ECMemTable.new : ECMemTable P R S I).Inv ty :=
  ⟨List.Pairwise.nil, by simp [ECMemTable.new]⟩

end Table

/-- Every regular run returns, and in its last state the key table of every view holds exactly the rows
that are not deleted and match the restriction of the view. -/
theorem run_views [CollationKeys] (ty : MemTableType P R S I) (ops : List (MemTableOp P R S I))
    (hreg : RegularRun ty .new ops) : ∃ t, MemTableOp.run ty .new ops = some t ∧ ∀ view ∈ t.lstViews,
      ∃ T, Represents view.lpKeyTable T ∧ ∀ k, k ∈ T.toList.map RowAt.sKey ↔
        ∃ id entry, (id, entry) ∈ t.mapRows ∧ entry.fDeleted = false ∧
          view.Matches ty entry.lpsPropVal ∧ k = rowItem id := by
  obtain ⟨t, ht, hi⟩ := run_inv inv_new hreg
  refine ⟨t, ht, fun view hview => ?_⟩
  obtain ⟨T, hR, hkeys⟩ := hi.views view hview
  refine ⟨T, hR, fun k => (hkeys k).trans ⟨?_, ?_⟩⟩
  · rintro ⟨id, ⟨entry, hmem, hd, hm⟩, hk⟩
    exact ⟨id, entry, hmem, hd, hm, hk⟩
  · rintro ⟨id, entry, hmem, hd, hm, hk⟩
    exact ⟨id, ⟨entry, hmem, hd, hm⟩, hk⟩

/-- Rows that are a number and a flag; a restriction asks for the flag, and there are no sort columns. -/
def flagTable : MemTableType (ℕ × Bool) Bool Unit Unit where
  findRowID props := some props.1
  hrCopyPropertyArray _ props := props
  hrCopyProperty id := some id
  hrCopySRestriction r := some r
  testRestriction r props := r == props.2
  sSortDefault := ()
  cSorts _ := 0
  sortKeys _ _ := []

/-- Two views with different restrictions, and a row for each. -/
theorem run_views_two :
    letI : CollationKeys := .bytewise
    ∃ t, MemTableOp.run flagTable .new [.hrGetView, .hrGetView, .restrict 1 (some true),
        .hrModifyRow .TABLE_ROW_ADD none (7, true), .hrModifyRow .TABLE_ROW_ADD none (8, false)] =
          some t ∧ ∀ view ∈ t.lstViews,
      ∃ T, Represents view.lpKeyTable T ∧ ∀ k, k ∈ T.toList.map RowAt.sKey ↔
        ∃ id entry, (id, entry) ∈ t.mapRows ∧ entry.fDeleted = false ∧
          view.Matches flagTable entry.lpsPropVal ∧ k = rowItem id := by
  let _ : CollationKeys := .bytewise
  refine run_views flagTable _ ⟨trivial, fun _ _ => ⟨trivial, fun _ _ => ⟨?_, fun _ _ =>
    ⟨⟨.inl rfl, ?_⟩, fun _ _ => ⟨⟨.inl rfl, ?_⟩, fun _ _ => trivial⟩⟩⟩⟩⟩
  · rintro view - ⟨⟩
  · rintro ⟨⟩
  · rintro ⟨⟩

/-- The first view does not show the row, so the second one keeps it when it is deleted. -/
theorem run_views_filtered :
    letI : CollationKeys := .bytewise
    ¬ ∃ t, MemTableOp.run flagTable .new [.hrGetView, .hrGetView, .restrict 0 (some false),
        .hrModifyRow .TABLE_ROW_ADD none (7, true), .hrModifyRow .TABLE_ROW_DELETE none (7, true)] =
          some t ∧ ∀ view ∈ t.lstViews,
      ∃ T, Represents view.lpKeyTable T ∧ ∀ k, k ∈ T.toList.map RowAt.sKey ↔
        ∃ id entry, (id, entry) ∈ t.mapRows ∧ entry.fDeleted = false ∧
          view.Matches flagTable entry.lpsPropVal ∧ k = rowItem id := by
  let _ : CollationKeys := .bytewise
  rintro ⟨t, ht, hviews⟩
  have hkept : (MemTableOp.run flagTable .new [.hrGetView, .hrGetView, .restrict 0 (some false),
      .hrModifyRow .TABLE_ROW_ADD none (7, true),
      .hrModifyRow .TABLE_ROW_DELETE none (7, true)]).map (fun t =>
        (t.mapRows.map fun row => row.2.fDeleted, t.lstViews[1]?.map fun view =>
          (view.lpKeyTable.mapRow (rowItem 7)).isSome)) = some ([true], some true) := by
    decide +kernel
  rw [ht, Option.map_some, Option.some.injEq, Prod.mk.injEq] at hkept
  obtain ⟨hdeleted, hshown⟩ := hkept
  obtain ⟨view, hview, hrow⟩ := Option.map_eq_some_iff.mp hshown
  obtain ⟨T, hR, hkeys⟩ := hviews view (List.mem_of_getElem? hview)
  obtain ⟨a, ha⟩ := Option.isSome_iff_exists.mp hrow
  obtain ⟨r, hr, hrk, -⟩ := (hR.mapRow _ _).mp ha
  obtain ⟨id, entry, hmem, hd, -⟩ := (hkeys _).mp (List.mem_map.mpr ⟨r, hr, hrk⟩)
  have hall : entry.fDeleted ∈ [true] := by
    rw [← hdeleted]
    exact List.mem_map_of_mem (f := fun row => row.2.fDeleted) hmem
  rw [hd] at hall
  simp at hall

end Zcp.M4lcommon
