import Zcp.M4lcommon.ECMemTable.Views

/-!
# Row statuses of a memory table

`HrGetAllWithStatus` should tell how the rows changed since the last `HrSetClean`. `run_status_iff`
says after which calls it does.
-/

namespace Zcp.M4lcommon

open Zcp.Common Zcp.Lib

variable {P R S I : Type} {ty : MemTableType P R S I} {t t₀ t' : ECMemTable P R S I}

/-- A row is in the table. -/
def ECMemTable.Has (t : ECMemTable P R S I) (id : ℕ) : Prop :=
  ∃ entry, (id, entry) ∈ t.mapRows

/-- A row is in the table and not deleted. -/
def ECMemTable.Present (t : ECMemTable P R S I) (id : ℕ) : Prop :=
  ∃ entry, (id, entry) ∈ t.mapRows ∧ entry.fDeleted = false

/-- The status tells whether a row was there and is there. -/
def StatusRight (before now : Prop) : RowStatus → Prop
  | .ECROW_ADDED => ¬ before ∧ now
  | .ECROW_DELETED => before ∧ ¬ now
  | .ECROW_MODIFIED => before ∧ now
  | .ECROW_NORMAL => before ∧ now

/-- The report on `t` has the right status for every row, counted from the clean table `t₀`. -/
def ReportRight (ty : MemTableType P R S I) (t₀ t : ECMemTable P R S I) : Prop :=
  (∀ row ∈ t.hrGetAllWithStatus ty, StatusRight (t₀.Present row.1) (t.Present row.1) row.2.2.2) ∧
    ∀ id, t₀.Present id ∨ t.Present id → ∃ row ∈ t.hrGetAllWithStatus ty, row.1 = id

/-- A call that changes rows or views, but neither clears nor cleans the table. -/
def MemTableOp.IsChange : MemTableOp P R S I → Prop
  | .hrModifyRow ulUpdateType _ _ => IsRowUpdate ulUpdateType
  | .hrClear => False
  | .hrSetClean => False
  | _ => True

/-- A call asks for the deletion of a row. -/
def MemTableOp.Deletes (ty : MemTableType P R S I) (id : ℕ) : MemTableOp P R S I → Prop
  | .hrModifyRow ulUpdateType _ lpPropVals =>
    ulUpdateType = .TABLE_ROW_DELETE ∧ ty.findRowID lpPropVals = some id
  | .hrDeleteAll => True
  | _ => False

/-- Of the rows of `t`, a call deletes only those that were in the clean table `t₀`. -/
def MemTableOp.SparesNew (ty : MemTableType P R S I) (t₀ t : ECMemTable P R S I)
    (op : MemTableOp P R S I) : Prop :=
  ∀ id, op.Deletes ty id → t.Has id → t₀.Present id

/-- All calls of a run spare the new rows. -/
def SparesNewRun [CollationKeys] (ty : MemTableType P R S I) (t₀ t : ECMemTable P R S I) :
    List (MemTableOp P R S I) → Prop
  | [] => True
  | op :: ops => op.SparesNew ty t₀ t ∧ ∀ t', op.step ty t = some t' → SparesNewRun ty t₀ t' ops

/-! ## Every run returns -/

section Total

variable [CollationKeys] {view : ECMemTableView R S} {mapRows : Rows P I} {Q : ECKeyTable → Prop}

/-- What the calls that a view makes of its key table keep. -/
structure KeptByViews [CollationKeys] (Q : ECKeyTable → Prop) : Prop where
  new : Q .new
  updateRow : ∀ {t}, Q t → ∀ ulType ulId cols,
    Yields (t.updateRow ulType (rowItem ulId) cols false) fun res => Q res.table
  clear : ∀ {t}, Q t → Yields t.clear Q
  seekRow : ∀ {t}, Q t → ∀ org k, Yields (t.seekRow org k) fun res => Q res.2.2

/-- The map is in order and the key tables of all views have a property. -/
structure ECMemTable.ViewsHave (Q : ECKeyTable → Prop) (t : ECMemTable P R S I) : Prop where
  sorted : t.mapRows.Sorted
  views : ∀ view ∈ t.lstViews, Q view.lpKeyTable

variable (ty) in
theorem modifyRowKey_keeps (hQ : KeptByViews Q) (view : ECMemTableView R S) (h : Q view.lpKeyTable) (ulId : ℕ) :
    Yields (view.modifyRowKey ty mapRows ulId) fun res => Q res.2.lpKeyTable := by
  rw [ECMemTableView.modifyRowKey]
  cases Rows.find mapRows ulId with
  | none => exact yields_some.mpr h
  | some entry =>
    simp only
    split_ifs
    · exact (hQ.updateRow h _ ulId []).bind fun res hres => yields_some.mpr hres
    · exact (hQ.updateRow h _ ulId _).bind fun res hres => yields_some.mpr hres

variable (ty) in
theorem updateRow_keeps (hQ : KeptByViews Q) (view : ECMemTableView R S) (h : Q view.lpKeyTable) (ulType : UpdateType)
    (ulId : ℕ) : Yields (view.updateRow ty mapRows ulType ulId) fun res => Q res.2.lpKeyTable := by
  rw [ECMemTableView.updateRow]
  split_ifs
  · exact (hQ.updateRow h ulType ulId []).bind fun res hres => yields_some.mpr hres
  · exact modifyRowKey_keeps ty hQ view h ulId

theorem updateViews_keeps (hQ : KeptByViews Q) (ulType : UpdateType) (ulId : ℕ) {views : List (ECMemTableView R S)}
    (hviews : ∀ view ∈ views, Q view.lpKeyTable) :
    Yields (updateViews ty mapRows ulType ulId views) fun res => ∀ view ∈ res.2, Q view.lpKeyTable := by
  induction views with
  | nil => exact yields_some.mpr (by simp)
  | cons view views ih =>
    obtain ⟨hview, hviews⟩ := List.forall_mem_cons.mp hviews
    refine (updateRow_keeps ty hQ view hview ulType ulId).bind fun res hres => ?_
    obtain ⟨hr, view'⟩ := res
    show Yields (if hr ≠ .hrSuccess then _ else _) _
    split_ifs
    · exact yields_some.mpr (List.forall_mem_cons.mpr ⟨hres, hviews⟩)
    · exact (ih hviews).bind fun res hrest =>
        yields_some.mpr (List.forall_mem_cons.mpr ⟨hres, hrest⟩)

theorem clearViews_keeps (hQ : KeptByViews Q) {views : List (ECMemTableView R S)}
    (hviews : ∀ view ∈ views, Q view.lpKeyTable) :
    Yields (views.mapM ECMemTableView.clear) fun res => ∀ view ∈ res, Q view.lpKeyTable := by
  induction views with
  | nil => exact yields_some.mpr (by simp)
  | cons view views ih =>
    obtain ⟨hview, hviews⟩ := List.forall_mem_cons.mp hviews
    rw [List.mapM_cons]
    have hclear : Yields view.clear fun view' => Q view'.lpKeyTable :=
      (hQ.clear hview).bind fun _ ht => yields_some.mpr ht
    refine hclear.bind fun view' hview' => ?_
    exact (ih hviews).bind fun res hres =>
      yields_some.mpr (List.forall_mem_cons.mpr ⟨hview', hres⟩)

theorem addRows_keeps (hQ : KeptByViews Q) (view : ECMemTableView R S) (h : Q view.lpKeyTable) (rows : Rows P I) :
    Yields (view.addRows ty mapRows rows) fun view' => Q view'.lpKeyTable := by
  induction rows generalizing view with
  | nil => exact yields_some.mpr h
  | cons row rows ih =>
    rw [ECMemTableView.addRows, List.foldlM_cons]
    split_ifs
    · exact ih view h
    · rw [bind_assoc]
      exact (modifyRowKey_keeps ty hQ view h row.1).bind fun res hres => ih res.2 hres

theorem updateSortOrRestrict_keeps (hQ : KeptByViews Q) (view : ECMemTableView R S) (h : Q view.lpKeyTable) :
    Yields (view.updateSortOrRestrict ty mapRows) fun view' => Q view'.lpKeyTable := by
  refine (hQ.clear h).bind fun t ht => ?_
  refine (addRows_keeps hQ { view with lpKeyTable := t } ht mapRows).bind fun view' hview' => ?_
  exact (hQ.seekRow hview' EC_SEEK_SET 0).bind fun res hres => yields_some.mpr hres

omit [CollationKeys] in
/-- The map of `HrModifyRow` stays in order. -/
theorem modifyMap_sorted (hs : t.mapRows.Sorted) {ulType ulType' : UpdateType} {lpsID : Option I}
    {lpPropVals : P} {ulId : ℕ} {mapRows : Rows P I}
    (h : t.modifyMap ty ulType lpsID lpPropVals ulId = .ok (ulType', mapRows)) : mapRows.Sorted := by
  rw [ECMemTable.modifyMap] at h
  repeat' split at h
  all_goals cases h
  all_goals first | exact hs | exact hs.set _

/-- Every call returns and keeps what its views keep. -/
theorem step_keeps (hQ : KeptByViews Q) (h : t.ViewsHave Q) (op : MemTableOp P R S I) :
    Yields (op.step ty t) (ECMemTable.ViewsHave Q) := by
  -- a call about one view leaves all the others
  have hset {view : ECMemTableView R S} (n : ℕ) (hview : Q view.lpKeyTable) :
      ECMemTable.ViewsHave Q { t with lstViews := t.lstViews.set n view } := by
    refine ⟨h.sorted, fun w hw => ?_⟩
    rcases List.mem_or_eq_of_mem_set hw with hw | rfl
    · exact h.views w hw
    · exact hview
  cases op with
  | hrModifyRow ulType lpsID lpPropVals =>
    refine Yields.bind (x := t.hrModifyRow ty ulType lpsID lpPropVals) (Q := fun res => res.2.ViewsHave Q)
      ?_ fun _ hres => yields_some.mpr hres
    rw [ECMemTable.hrModifyRow]
    cases hid : ty.findRowID lpPropVals with
    | none => exact yields_some.mpr h
    | some ulId =>
      cases hmap : t.modifyMap ty ulType lpsID lpPropVals ulId with
      | error hr =>
        simp only [hmap]
        exact yields_some.mpr h
      | ok res =>
        obtain ⟨ulType', mapRows⟩ := res
        simp only [hmap]
        exact (updateViews_keeps hQ ulType' ulId h.views).bind fun res hres =>
          yields_some.mpr ⟨modifyMap_sorted h.sorted hmap, hres⟩
  | hrDeleteAll =>
    exact (clearViews_keeps hQ h.views).bind fun views hviews =>
      yields_some.mpr ⟨h.sorted.map fun _ => rfl, hviews⟩
  | hrClear =>
    exact (clearViews_keeps hQ h.views).bind fun views hviews =>
      yields_some.mpr ⟨List.Pairwise.nil, hviews⟩
  | hrSetClean =>
    exact yields_some.mpr ⟨(h.sorted.filter _).map fun _ => rfl, h.views⟩
  | hrGetView =>
    refine (updateSortOrRestrict_keeps hQ ⟨.new, none, ty.sSortDefault⟩ hQ.new).bind
      fun view hview => yields_some.mpr ⟨h.sorted, fun w hw => ?_⟩
    rcases List.mem_append.mp hw with hw | hw
    · exact h.views w hw
    · rw [List.mem_singleton.mp hw]
      exact hview
  | restrict n lpRestriction =>
    rw [MemTableOp.step]
    cases hn : t.lstViews[n]? with
    | none => exact yields_some.mpr h
    | some view =>
      have hview := h.views view (List.mem_of_getElem? hn)
      refine Yields.bind (x := view.restrict ty t.mapRows lpRestriction)
        (Q := fun res => Q res.2.lpKeyTable) ?_ fun res hres => yields_some.mpr (hset n hres)
      have hupdate (r : Option R) : Yields (ECMemTableView.updateSortOrRestrict ty { view with lpsRestriction := r }
          t.mapRows) fun view' => Q view'.lpKeyTable := updateSortOrRestrict_keeps hQ _ hview
      cases lpRestriction with
      | none => exact (hupdate none).bind fun view' hview' => yields_some.mpr hview'
      | some r =>
        cases hr : ty.hrCopySRestriction r with
        | none =>
          simp only [ECMemTableView.restrict, hr]
          exact yields_some.mpr hview
        | some r' =>
          simp only [ECMemTableView.restrict, hr]
          exact (hupdate (some r')).bind fun view' hview' => yields_some.mpr hview'
  | sortTable n lpSortCriteria =>
    rw [MemTableOp.step]
    cases hn : t.lstViews[n]? with
    | none => exact yields_some.mpr h
    | some view =>
      have hview := h.views view (List.mem_of_getElem? hn)
      refine (updateSortOrRestrict_keeps hQ { view with
        lpsSortOrderSet := lpSortCriteria.getD ty.sSortDefault } hview).bind
        fun view' hview' => yields_some.mpr (hset n hview')

theorem run_keeps (hQ : KeptByViews Q) (h : t.ViewsHave Q) (ops : List (MemTableOp P R S I)) :
    Yields (MemTableOp.run ty t ops) (ECMemTable.ViewsHave Q) := by
  induction ops generalizing t with
  | nil => exact yields_some.mpr h
  | cons op ops ih =>
    rw [MemTableOp.run, List.foldlM_cons]
    exact (step_keeps hQ h op).bind fun t₁ ht₁ => ih ht₁

omit [CollationKeys] in
theorem viewsHave_new : (ECMemTable.new : ECMemTable P R S I).ViewsHave Q :=
  ⟨List.Pairwise.nil, by simp [ECMemTable.new]⟩

/-- The map is in order and the key tables of all views are in a valid state. -/
structure ECMemTable.Valid (t : ECMemTable P R S I) : Prop where
  sorted : t.mapRows.Sorted
  views : ∀ view ∈ t.lstViews, ∃ ids, Shows view.lpKeyTable ids

/-- The key tables of all views stay in a valid state. -/
theorem keptByViews_shows : KeptByViews fun t => ∃ ids, Shows t ids where
  new := ⟨_, shows_new⟩
  updateRow := by
    rintro t ⟨ids, h⟩ ulType ulId cols
    cases ulType with
    | TABLE_ROW_ADD => exact (h.put .TABLE_ROW_ADD (.inl rfl) ulId cols false).imp fun res hres => ⟨_, hres.2⟩
    | TABLE_ROW_MODIFY => exact (h.put .TABLE_ROW_MODIFY (.inr rfl) ulId cols false).imp fun res hres => ⟨_, hres.2⟩
    | TABLE_ROW_DELETE => exact (h.delete ulId cols false).imp fun res hres => ⟨_, hres.2⟩
    | _ => exact yields_some.mpr ⟨ids, h⟩
  clear := fun ⟨_, h⟩ => h.clear.imp fun _ ht => ⟨_, ht⟩
  seekRow := fun ⟨_, h⟩ org k => (h.seekRow org k).imp fun _ hres => ⟨_, hres⟩

theorem step_valid (hv : t.Valid) (op : MemTableOp P R S I) : Yields (op.step ty t) ECMemTable.Valid :=
  (step_keeps keptByViews_shows ⟨hv.sorted, hv.views⟩ op).imp fun _ h => ⟨h.sorted, h.views⟩

theorem run_valid (hv : t.Valid) (ops : List (MemTableOp P R S I)) : Yields (MemTableOp.run ty t ops) ECMemTable.Valid :=
  (run_keeps keptByViews_shows ⟨hv.sorted, hv.views⟩ ops).imp fun _ h => ⟨h.sorted, h.views⟩

omit [CollationKeys] in
theorem valid_new : (ECMemTable.new : ECMemTable P R S I).Valid :=
  ⟨List.Pairwise.nil, by simp [ECMemTable.new]⟩

end Total

/-! ## The flags -/

/-- The flags of the rows, counted from the clean table `t₀`: its rows are still there and not new,
and a new row is not deleted. -/
structure Tracks (t₀ t : ECMemTable P R S I) : Prop where
  kept : ∀ id, t₀.Present id → t.Has id
  old : ∀ id entry, (id, entry) ∈ t.mapRows → t₀.Present id → entry.fNew = false
  new : ∀ id entry, (id, entry) ∈ t.mapRows → entry.fNew = true → entry.fDeleted = false

/-- The rows that were not in the clean table are marked as new. -/
def MarksNew (t₀ t : ECMemTable P R S I) : Prop :=
  ∀ id entry, (id, entry) ∈ t.mapRows → ¬ t₀.Present id → entry.fNew = true

theorem present_iff (hs : t.mapRows.Sorted) {id : ℕ} {entry : ECTableEntry P I}
    (hmem : (id, entry) ∈ t.mapRows) : t.Present id ↔ entry.fDeleted = false := by
  constructor
  · rintro ⟨e, he, hd⟩
    have hfind := (Rows.find_eq_some hs).mpr hmem
    rw [(Rows.find_eq_some hs).mpr he] at hfind
    rwa [← Option.some.inj hfind]
  · exact fun hd => ⟨entry, hmem, hd⟩

/-- The report is right if and only if the new rows are marked. -/
theorem reportRight_iff (hs : t.mapRows.Sorted) (ht : Tracks t₀ t) : ReportRight ty t₀ t ↔ MarksNew t₀ t := by
  have hrow (id : ℕ) (entry : ECTableEntry P I) (hmem : (id, entry) ∈ t.mapRows) :
      StatusRight (t₀.Present id) (t.Present id) (ECMemTable.rowStatus entry) ↔
        (¬ t₀.Present id → entry.fNew = true) := by
    have hpresent := present_iff hs hmem
    have hold := ht.old id entry hmem
    have hnew := ht.new id entry hmem
    rw [ECMemTable.rowStatus]
    cases hn : entry.fNew with
    | true =>
      have hd := hnew hn
      have hno : ¬ t₀.Present id := fun h => by
        rw [hold h] at hn
        cases hn
      simp [StatusRight, hpresent, hd, hno]
    | false =>
      cases hd : entry.fDeleted with
      | true => simp [StatusRight, hpresent, hd]
      | false =>
        cases hdirty : entry.fDirty with
        | true => simp [StatusRight, hpresent, hd]
        | false => simp [StatusRight, hpresent, hd]
  constructor
  · intro hr id entry hmem
    exact (hrow id entry hmem).mp (hr.1 _ (List.mem_map.mpr ⟨(id, entry), hmem, rfl⟩))
  · intro hm
    refine ⟨fun row hmem => ?_, fun id hid => ?_⟩
    · obtain ⟨⟨id, entry⟩, hentry, rfl⟩ := List.mem_map.mp hmem
      exact (hrow id entry hentry).mpr (hm id entry hentry)
    · have hhas : t.Has id := by
        rcases hid with hid | ⟨entry, hmem, -⟩
        · exact ht.kept id hid
        · exact ⟨entry, hmem⟩
      obtain ⟨entry, hmem⟩ := hhas
      exact ⟨_, List.mem_map.mpr ⟨(id, entry), hmem, rfl⟩, rfl⟩

section Steps

variable [CollationKeys]

/-- The rows after `HrModifyRow` are those of the map it makes. -/
theorem step_hrModifyRow_rows {ulType ulType' : UpdateType} {lpsID : Option I} {lpPropVals : P}
    {ulId : ℕ} {mapRows : Rows P I} (hid : ty.findRowID lpPropVals = some ulId)
    (hmap : t.modifyMap ty ulType lpsID lpPropVals ulId = .ok (ulType', mapRows))
    (h : MemTableOp.step ty t (.hrModifyRow ulType lpsID lpPropVals) = some t') : t'.mapRows = mapRows := by
  obtain ⟨res, hres, ht'⟩ := Option.bind_eq_some_iff.mp h
  rw [ECMemTable.hrModifyRow, hid] at hres
  simp only [hmap] at hres
  obtain ⟨views, -, hviews⟩ := Option.bind_eq_some_iff.mp hres
  rw [← Option.some.inj ht', ← Option.some.inj hviews]

/-- Where a row after a call comes from: it was deleted now, or it keeps its mark, or it is new. -/
inductive RowStep (ty : MemTableType P R S I) (op : MemTableOp P R S I) (t : ECMemTable P R S I)
    (id : ℕ) (entry' : ECTableEntry P I) : Prop where
  | deleted (hop : op.Deletes ty id) (hold : t.Has id) (hnew : entry'.fNew = false)
  | kept (hop : ¬ op.Deletes ty id) (entry : ECTableEntry P I) (hmem : (id, entry) ∈ t.mapRows)
      (hnew : entry'.fNew = entry.fNew) (hdel : entry.fDeleted = false → entry'.fDeleted = false)
  | added (hop : ¬ op.Deletes ty id) (hold : ¬ t.Has id) (hnew : entry'.fNew = true)
      (hdel : entry'.fDeleted = false)

omit [CollationKeys] in
theorem has_set (hs : t.mapRows.Sorted) {ulId id : ℕ} {entry : ECTableEntry P I}
    (hmap : t'.mapRows = Rows.set t.mapRows ulId entry) (h : t.Has id) : t'.Has id := by
  obtain ⟨e, he⟩ := h
  rw [ECMemTable.Has, hmap]
  by_cases heq : id = ulId
  · exact ⟨entry, (OrderedMap.mem_set hs).mpr (.inl (heq ▸ rfl))⟩
  · exact ⟨e, (OrderedMap.mem_set hs).mpr (.inr ⟨he, heq⟩)⟩

omit [CollationKeys] in
/-- A call that only reads the map. -/
theorem step_same {op : MemTableOp P R S I} (hop : ∀ id, t.Has id → ¬ op.Deletes ty id)
    (hmap : t'.mapRows = t.mapRows) : (∀ id, t.Has id → t'.Has id) ∧
      ∀ id entry', (id, entry') ∈ t'.mapRows → RowStep ty op t id entry' := by
  refine ⟨fun id hid => ?_, fun id entry' hmem => ?_⟩
  · rwa [ECMemTable.Has, hmap]
  · rw [hmap] at hmem
    exact .kept (hop id ⟨entry', hmem⟩) entry' hmem rfl fun hd => hd

/-- What a call does to the rows. -/
theorem step_rows (hv : t.Valid) {op : MemTableOp P R S I} (hop : op.IsChange)
    (h : op.step ty t = some t') : (∀ id, t.Has id → t'.Has id) ∧
      ∀ id entry', (id, entry') ∈ t'.mapRows → RowStep ty op t id entry' := by
  cases op with
  | hrModifyRow ulType lpsID lpPropVals =>
    cases hid : ty.findRowID lpPropVals with
    | none =>
      refine step_same (fun id _ hdel => ?_) ?_
      · obtain ⟨-, hdel⟩ := hdel
        rw [hid] at hdel
        cases hdel
      · rw [MemTableOp.step, ECMemTable.hrModifyRow, hid] at h
        rw [← Option.some.inj h]
    | some ulId =>
      have hother {id : ℕ} (hne : id ≠ ulId) :
          ¬ (MemTableOp.hrModifyRow (R := R) (S := S) ulType lpsID lpPropVals).Deletes ty id := by
        rintro ⟨-, hdel⟩
        exact hne (Option.some.inj (hid.symm.trans hdel)).symm
      rcases modifyMap_cases ty hop hv.sorted lpsID lpPropVals ulId with ⟨hr, hnone, hmap⟩ |
        ⟨entry, entry', rfl, hmem, rfl, hmap⟩ | ⟨entry, entry', hne, hmem, hd, -, hn, hmap⟩ |
        ⟨entry', hne, hnone, hd, hn, hmap⟩
      · refine step_same (fun id hhas => ?_) ?_
        · obtain ⟨entry, hmem⟩ := hhas
          refine hother ?_
          rintro rfl
          exact hnone entry hmem
        · rw [MemTableOp.step, ECMemTable.hrModifyRow, hid] at h
          simp only [hmap] at h
          rw [← Option.some.inj h]
      all_goals
        have hrows := step_hrModifyRow_rows hid hmap h
        refine ⟨fun id => has_set hv.sorted hrows, fun id entry' hmem' => ?_⟩
        rw [hrows] at hmem'
        rcases (OrderedMap.mem_set hv.sorted).mp hmem' with heq | ⟨hold, hne'⟩
        rotate_left
        · exact .kept (hother hne') entry' hold rfl fun hd => hd
        obtain ⟨rfl, rfl⟩ := Prod.mk.inj heq
      · exact .deleted ⟨rfl, hid⟩ ⟨entry, hmem⟩ rfl
      · exact .kept (fun hdel => hne hdel.1) entry hmem hn fun _ => hd
      · refine .added (fun hdel => hne hdel.1) ?_ hn hd
        rintro ⟨e, he⟩
        exact hnone e he
  -- every row is marked as deleted, and none is taken out
  | hrDeleteAll =>
    obtain ⟨views, -, ht'⟩ := Option.bind_eq_some_iff.mp h
    rw [← Option.some.inj ht']
    refine ⟨fun id hid => ?_, fun id entry' hmem' => ?_⟩
    · obtain ⟨entry, hmem⟩ := hid
      exact ⟨_, List.mem_map.mpr ⟨(id, entry), hmem, rfl⟩⟩
    obtain ⟨⟨i, entry⟩, hmem, heq⟩ := List.mem_map.mp hmem'
    obtain ⟨rfl, rfl⟩ := Prod.mk.inj heq
    exact .deleted trivial ⟨entry, hmem⟩ rfl
  | hrClear => cases hop
  | hrSetClean => cases hop
  | hrGetView =>
    obtain ⟨view, -, ht'⟩ := Option.bind_eq_some_iff.mp h
    rw [← Option.some.inj ht']
    exact step_same (fun _ _ hdel => hdel) rfl
  -- views change no row of the table
  | restrict n lpRestriction =>
    refine step_same (fun _ _ hdel => hdel) ?_
    rw [MemTableOp.step] at h
    split at h
    · rw [Option.some.inj h]
    · obtain ⟨res, -, ht'⟩ := Option.bind_eq_some_iff.mp h
      rw [← Option.some.inj ht']
  | sortTable n lpSortCriteria =>
    refine step_same (fun _ _ hdel => hdel) ?_
    rw [MemTableOp.step] at h
    split at h
    · rw [Option.some.inj h]
    · obtain ⟨res, -, ht'⟩ := Option.bind_eq_some_iff.mp h
      rw [← Option.some.inj ht']

/-- A call keeps the marks of the new rows if and only if it spares them. -/
theorem step_tracks (hv : t.Valid) (ht : Tracks t₀ t) {op : MemTableOp P R S I}
    (hop : op.IsChange) (h : op.step ty t = some t') :
    Tracks t₀ t' ∧ (MarksNew t₀ t' ↔ op.SparesNew ty t₀ t ∧ MarksNew t₀ t) := by
  obtain ⟨hhas, hrows⟩ := step_rows hv hop h
  refine ⟨⟨fun id hid => hhas id (ht.kept id hid), ?_, ?_⟩, ?_, ?_⟩
  · intro id entry' hmem hid
    cases hrows id entry' hmem with
    | deleted _ _ hnew => exact hnew
    | kept _ entry hold hnew _ => rw [hnew, ht.old id entry hold hid]
    | added _ hold _ _ => exact absurd (ht.kept id hid) hold
  · intro id entry' hmem hn
    cases hrows id entry' hmem with
    | deleted _ _ hnew =>
      rw [hnew] at hn
      cases hn
    | kept _ entry hold hnew hdel => exact hdel (ht.new id entry hold (hnew ▸ hn))
    | added _ _ _ hdel => exact hdel
  · intro hm
    constructor
    · intro id hdel hid
      by_contra hno
      obtain ⟨entry', hmem⟩ := hhas id hid
      have hn := hm id entry' hmem hno
      cases hrows id entry' hmem with
      | deleted _ _ hnew =>
        rw [hnew] at hn
        cases hn
      | kept hno _ _ _ _ => exact hno hdel
      | added hno _ _ _ => exact hno hdel
    · intro id entry hmem hno
      obtain ⟨entry', hmem'⟩ := hhas id ⟨entry, hmem⟩
      have hn := hm id entry' hmem' hno
      cases hrows id entry' hmem' with
      | deleted _ _ hnew =>
        rw [hnew] at hn
        cases hn
      | kept _ e he hnew _ =>
        have hfind := (Rows.find_eq_some hv.sorted).mpr hmem
        rw [(Rows.find_eq_some hv.sorted).mpr he] at hfind
        rw [← Option.some.inj hfind, ← hnew, hn]
      | added _ hold _ _ => exact absurd ⟨entry, hmem⟩ hold
  · rintro ⟨hspares, hm⟩ id entry' hmem hno
    cases hrows id entry' hmem with
    | deleted hdel hold _ => exact absurd (hspares id hdel hold) hno
    | kept _ entry hold hnew _ => rw [hnew, hm id entry hold hno]
    | added _ _ hnew _ => exact hnew

/-- A run keeps the marks of the new rows if and only if all its calls spare them. -/
theorem run_tracks (hv : t.Valid) (ht : Tracks t₀ t) {ops : List (MemTableOp P R S I)}
    (hops : ∀ op ∈ ops, op.IsChange) (h : MemTableOp.run ty t ops = some t') :
    Tracks t₀ t' ∧ (MarksNew t₀ t' ↔ SparesNewRun ty t₀ t ops ∧ MarksNew t₀ t) := by
  induction ops generalizing t with
  | nil =>
    rw [← Option.some.inj h]
    exact ⟨ht, (and_iff_right trivial).symm⟩
  | cons op ops ih =>
    obtain ⟨hop, hops⟩ := List.forall_mem_cons.mp hops
    rw [MemTableOp.run, List.foldlM_cons] at h
    obtain ⟨t₁, ht₁, hrun⟩ := Option.bind_eq_some_iff.mp h
    have hyields : Yields (op.step ty t) ECMemTable.Valid := step_valid hv op
    obtain ⟨t₂, ht₂, hv₁⟩ := hyields
    rw [← Option.some.inj (ht₁.symm.trans ht₂)] at hv₁
    obtain ⟨htr, hstep⟩ := step_tracks hv ht hop ht₁
    obtain ⟨htr', hrun'⟩ := ih hv₁ htr hops hrun
    refine ⟨htr', hrun'.trans ?_⟩
    rw [hstep, SparesNewRun]
    constructor
    · rintro ⟨hrest, hop, hm⟩
      refine ⟨⟨hop, fun t₃ ht₃ => ?_⟩, hm⟩
      rwa [Option.some.inj (ht₃.symm.trans ht₁)]
    · rintro ⟨⟨hop, hrest⟩, hm⟩
      exact ⟨hrest t₁ ht₁, hop, hm⟩

end Steps

theorem tracks_hrSetClean : Tracks t.hrSetClean t.hrSetClean := by
  have hclean {id : ℕ} {entry : ECTableEntry P I} (hmem : (id, entry) ∈ t.hrSetClean.mapRows) :
      entry.fNew = false := by
    obtain ⟨row, -, heq⟩ := List.mem_map.mp hmem
    rw [← (Prod.mk.inj heq).2]
  refine ⟨fun id ⟨entry, hmem, _⟩ => ⟨entry, hmem⟩, fun id entry hmem _ => hclean hmem, ?_⟩
  intro id entry hmem hn
  rw [hclean hmem] at hn
  cases hn

theorem marksNew_hrSetClean : MarksNew t.hrSetClean t.hrSetClean := by
  intro id entry hmem hno
  refine absurd ⟨entry, hmem, ?_⟩ hno
  obtain ⟨row, -, heq⟩ := List.mem_map.mp hmem
  rw [← (Prod.mk.inj heq).2]

/-- After changes of a clean table, the report is right if and only if no call deleted a row that was
not in the clean table. -/
theorem run_status_iff [CollationKeys] (ty : MemTableType P R S I)
    (ops₀ ops : List (MemTableOp P R S I)) (hops : ∀ op ∈ ops, op.IsChange) :
    ∃ t₀ t, MemTableOp.run ty .new ops₀ = some t₀ ∧ MemTableOp.run ty t₀.hrSetClean ops = some t ∧
      (ReportRight ty t₀.hrSetClean t ↔ SparesNewRun ty t₀.hrSetClean t₀.hrSetClean ops) := by
  have hyields₀ : Yields (MemTableOp.run ty .new ops₀) ECMemTable.Valid := run_valid valid_new ops₀
  obtain ⟨t₀, ht₀, hv₀⟩ := hyields₀
  have hv₁ : t₀.hrSetClean.Valid := ⟨(hv₀.sorted.filter _).map fun _ => rfl, hv₀.views⟩
  have hyields : Yields (MemTableOp.run ty t₀.hrSetClean ops) ECMemTable.Valid := run_valid hv₁ ops
  obtain ⟨t, ht, hv⟩ := hyields
  obtain ⟨htr, hmarks⟩ := run_tracks hv₁ tracks_hrSetClean hops ht
  refine ⟨t₀, t, ht₀, ht, ?_⟩
  rw [reportRight_iff hv.sorted htr, hmarks]
  exact and_iff_left marksNew_hrSetClean

/-- A row is changed, one deleted and one added. -/
theorem run_status_iff_two :
    letI : CollationKeys := .bytewise
    ∃ t₀ t, MemTableOp.run flagTable .new [.hrModifyRow .TABLE_ROW_ADD none (7, true),
        .hrModifyRow .TABLE_ROW_ADD none (8, true)] = some t₀ ∧
      MemTableOp.run flagTable t₀.hrSetClean [.hrModifyRow .TABLE_ROW_MODIFY none (7, false),
        .hrModifyRow .TABLE_ROW_DELETE none (8, true)] = some t ∧
      (ReportRight flagTable t₀.hrSetClean t ↔ SparesNewRun flagTable t₀.hrSetClean t₀.hrSetClean
        [.hrModifyRow .TABLE_ROW_MODIFY none (7, false),
          .hrModifyRow .TABLE_ROW_DELETE none (8, true)]) := by
  let _ : CollationKeys := .bytewise
  refine run_status_iff flagTable _ _ fun op hop => ?_
  simp only [List.mem_cons, List.not_mem_nil, or_false] at hop
  rcases hop with rfl | rfl
  · exact .inr (.inl rfl)
  · exact .inr (.inr rfl)

/-- A row that is added and deleted is reported as deleted. -/
theorem run_status_addDelete :
    letI : CollationKeys := .bytewise
    ¬ ∃ t, MemTableOp.run flagTable (ECMemTable.new.hrSetClean)
        [.hrModifyRow .TABLE_ROW_ADD none (7, true), .hrModifyRow .TABLE_ROW_DELETE none (7, true)] =
          some t ∧ ReportRight flagTable (ECMemTable.new.hrSetClean) t := by
  let _ : CollationKeys := .bytewise
  rintro ⟨t, ht, hright, -⟩
  have hreport : (MemTableOp.run flagTable (ECMemTable.new.hrSetClean)
      [.hrModifyRow .TABLE_ROW_ADD none (7, true),
        .hrModifyRow .TABLE_ROW_DELETE none (7, true)]).map (fun t =>
          t.hrGetAllWithStatus flagTable) = some [(7, (7, true), none, .ECROW_DELETED)] := by
    decide +kernel
  rw [ht, Option.map_some, Option.some.injEq] at hreport
  rw [hreport] at hright
  obtain ⟨⟨entry, hmem, -⟩, -⟩ := hright _ (List.mem_singleton.mpr rfl)
  exact List.not_mem_nil hmem

end Zcp.M4lcommon
