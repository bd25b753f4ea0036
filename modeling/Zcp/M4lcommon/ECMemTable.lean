import Zcp.Common.ECKeyTable.Runs
import Zcp.Lib.OrderedMap

/-!
# Memory tables

`ECMemTable` and `ECMemTableView` of `m4lcommon/ECMemTable.cpp`. The table holds the rows, and every
view holds the keys of the rows it shows, in the order of its sort columns, in an `ECKeyTable`.

What a row, a restriction or a sort order is made of is not looked at here: `MemTableType` says how
they are read and copied.
-/

namespace Zcp.M4lcommon

open Zcp.Common Zcp.Lib

/-- What a table reads of the properties of a row (`P`), of restrictions (`R`), of sort orders (`S`)
and of the ids that come with a row (`I`). -/
structure MemTableType (P R S I : Type) where
  /-- `PpropFindProp(lpPropVals, cValues, ulRowPropTag)->Value.ul`. -/
  findRowID : P → Option ℕ
  /-- `Util::HrCopyPropertyArray`: what cannot be copied is left out, errors too if asked for. -/
  hrCopyPropertyArray : (bExcludeErrors : Bool) → P → P
  /-- `Util::HrCopyProperty` on the id. -/
  hrCopyProperty : I → Option I
  /-- `Util::HrCopySRestriction`. -/
  hrCopySRestriction : R → Option R
  /-- `TestRestriction` returns `hrSuccess`. -/
  testRestriction : R → P → Bool
  /-- The sort order of a new view. -/
  sSortDefault : S
  cSorts : S → ℕ
  /-- The sort keys of `GetBinarySortKey` with their flags. -/
  sortKeys : S → P → List SortCol

inductive HRESULT where
  | hrSuccess
  | MAPI_E_INVALID_PARAMETER
  | MAPI_E_NOT_FOUND
  | MAPI_E_INVALID_BOOKMARK
  | MAPI_E_UNABLE_TO_COMPLETE
  | MAPI_W_POSITION_CHANGED
  | MAPI_E_NO_ACCESS
deriving DecidableEq, Repr

/-- `ZarafaErrorToMAPIError`, for the errors of a key table. -/
def zarafaErrorToMAPIError : ECRESULT → HRESULT
  | .erSuccess => .hrSuccess
  | .ZARAFA_E_NOT_FOUND => .MAPI_E_NOT_FOUND
  | .ZARAFA_E_INVALID_PARAMETER => .MAPI_E_INVALID_PARAMETER
  | .ZARAFA_E_INVALID_BOOKMARK => .MAPI_E_INVALID_BOOKMARK
  | .ZARAFA_E_UNABLE_TO_COMPLETE => .MAPI_E_UNABLE_TO_COMPLETE
  | .ZARAFA_W_POSITION_CHANGED => .MAPI_W_POSITION_CHANGED

/-- `ECTableEntry`. -/
structure ECTableEntry (P I : Type) where
  lpsPropVal : P
  lpsID : Option I
  fDeleted : Bool
  fDirty : Bool
  fNew : Bool

/-- The type of `mapRows`. -/
abbrev Rows (P I : Type) := List (ℕ × ECTableEntry P I)

/-- `ECMemTableView`. -/
structure ECMemTableView (R S : Type) where
  lpKeyTable : ECKeyTable
  lpsRestriction : Option R
  lpsSortOrderSet : S

/-- `ECMemTable`. -/
structure ECMemTable (P R S I : Type) where
  mapRows : Rows P I
  lstViews : List (ECMemTableView R S)

/-- The row status of `HrGetAllWithStatus`. -/
inductive RowStatus where
  | ECROW_NORMAL
  | ECROW_ADDED
  | ECROW_MODIFIED
  | ECROW_DELETED
deriving DecidableEq, Repr

variable {P R S I : Type} (ty : MemTableType P R S I)

/-- `sRowItem` of a row. -/
def rowItem (ulId : ℕ) : SObjectTableKey := ⟨ulId, 0⟩

/-- `mapRows.find`. -/
def Rows.find (mapRows : Rows P I) (ulId : ℕ) : Option (ECTableEntry P I) :=
  (OrderedMap.get Prod.fst ulId mapRows).map Prod.snd

/-- `mapRows[ulId] = entry`. -/
def Rows.set (mapRows : Rows P I) (ulId : ℕ) (entry : ECTableEntry P I) : Rows P I :=
  OrderedMap.set Prod.fst (ulId, entry) mapRows

/-! ## Views -/

section Views

variable [CollationKeys]

namespace ECMemTableView

variable (view : ECMemTableView R S)

/-- `ModifyRowKey`. -/
def modifyRowKey (mapRows : Rows P I) (ulId : ℕ) : Option (HRESULT × ECMemTableView R S) :=
  match Rows.find mapRows ulId with
  | none => some (.MAPI_E_NOT_FOUND, view)
  | some entry =>
    if view.lpsRestriction.any fun r => !ty.testRestriction r entry.lpsPropVal then do
      -- no match: the row is removed, and the error of the key table is ignored
      let res ← view.lpKeyTable.updateRow .TABLE_ROW_DELETE (rowItem ulId) [] false
      some (.hrSuccess, { view with lpKeyTable := res.table })
    else do
      let res ← view.lpKeyTable.updateRow .TABLE_ROW_ADD (rowItem ulId)
        (ty.sortKeys view.lpsSortOrderSet entry.lpsPropVal) false
      some (.hrSuccess, { view with lpKeyTable := res.table })

/-- `UpdateRow`. -/
def updateRow (mapRows : Rows P I) (ulUpdateType : UpdateType) (ulId : ℕ) :
    Option (HRESULT × ECMemTableView R S) :=
  if ty.cSorts view.lpsSortOrderSet = 0 ∧ view.lpsRestriction.isNone ∨
      ulUpdateType = .TABLE_ROW_DELETE then do
    let res ← view.lpKeyTable.updateRow ulUpdateType (rowItem ulId) [] false
    some (zarafaErrorToMAPIError res.er, { view with lpKeyTable := res.table })
  else view.modifyRowKey ty mapRows ulId

/-- The loop of `UpdateSortOrRestrict`. -/
def addRows (mapRows : Rows P I) (rows : Rows P I) : Option (ECMemTableView R S) :=
  rows.foldlM (fun view row =>
    if row.2.fDeleted then some view else do
      let (_, view) ← view.modifyRowKey ty mapRows row.1
      some view) view

/-- `UpdateSortOrRestrict`. -/
def updateSortOrRestrict (mapRows : Rows P I) : Option (ECMemTableView R S) := do
  let lpKeyTable ← view.lpKeyTable.clear
  let view ← addRows ty { view with lpKeyTable := lpKeyTable } mapRows mapRows
  let (_, _, lpKeyTable) ← view.lpKeyTable.seekRow EC_SEEK_SET 0
  some { view with lpKeyTable := lpKeyTable }

/-- `Restrict`. The old restriction is freed before the new one is copied. -/
def restrict (mapRows : Rows P I) (lpRestriction : Option R) :
    Option (HRESULT × ECMemTableView R S) :=
  match lpRestriction with
  | none => do
    let view ← updateSortOrRestrict ty { view with lpsRestriction := none } mapRows
    some (.hrSuccess, view)
  | some r =>
    match ty.hrCopySRestriction r with
    | none => some (.MAPI_E_INVALID_PARAMETER, { view with lpsRestriction := none })
    | some r => do
      let view ← updateSortOrRestrict ty { view with lpsRestriction := some r } mapRows
      some (.hrSuccess, view)

/-- `SortTable`. -/
def sortTable (mapRows : Rows P I) (lpSortCriteria : Option S) :
    Option (ECMemTableView R S) :=
  updateSortOrRestrict ty { view with lpsSortOrderSet := lpSortCriteria.getD ty.sSortDefault }
    mapRows

/-- `Clear`. -/
def clear : Option (ECMemTableView R S) := do
  some { view with lpKeyTable := ← view.lpKeyTable.clear }

/-- A new view. -/
def create (mapRows : Rows P I) : Option (ECMemTableView R S) :=
  sortTable ty ⟨.new, none, ty.sSortDefault⟩ mapRows none

end ECMemTableView

/-- The loop over the views at the end of `HrModifyRow`: it stops at the first error. -/
def updateViews (mapRows : Rows P I) (ulUpdateType : UpdateType) (ulId : ℕ) :
    List (ECMemTableView R S) → Option (HRESULT × List (ECMemTableView R S))
  | [] => some (.hrSuccess, [])
  | view :: views => do
    let (hr, view) ← view.updateRow ty mapRows ulUpdateType ulId
    if hr ≠ .hrSuccess then some (hr, view :: views)
    else do
      let (hr, views) ← updateViews mapRows ulUpdateType ulId views
      some (hr, view :: views)

end Views

/-! ## The table -/

namespace ECMemTable

variable (t : ECMemTable P R S I)

def new : ECMemTable P R S I := ⟨[], []⟩

/-- The part of `HrModifyRow` that changes the map: the update that the views get, or the error. -/
def modifyMap (ulUpdateType : UpdateType) (lpsID : Option I) (lpPropVals : P) (ulId : ℕ) :
    Except HRESULT (UpdateType × Rows P I) :=
  match Rows.find t.mapRows ulId with
  | some entry =>
    if ulUpdateType = .TABLE_ROW_DELETE then
      .ok (.TABLE_ROW_DELETE,
        Rows.set t.mapRows ulId { entry with fDeleted := true, fDirty := false, fNew := false })
    else if ulUpdateType = .TABLE_ROW_ADD ∨ ulUpdateType = .TABLE_ROW_MODIFY then
      .ok (.TABLE_ROW_MODIFY, Rows.set t.mapRows ulId
        { entry with
          fDeleted := false
          fDirty := true
          lpsPropVal := ty.hrCopyPropertyArray true lpPropVals })
    else .ok (ulUpdateType, t.mapRows)
  | none =>
    if ulUpdateType = .TABLE_ROW_DELETE then .error .MAPI_E_NOT_FOUND
    else if ulUpdateType = .TABLE_ROW_ADD ∨ ulUpdateType = .TABLE_ROW_MODIFY then
      let entry : ECTableEntry P I :=
        ⟨ty.hrCopyPropertyArray false lpPropVals, none, false, true, true⟩
      match lpsID with
      | none => .ok (.TABLE_ROW_ADD, Rows.set t.mapRows ulId entry)
      | some id =>
        match ty.hrCopyProperty id with
        | none => .error .MAPI_E_INVALID_PARAMETER
        | some id => .ok (.TABLE_ROW_ADD, Rows.set t.mapRows ulId { entry with lpsID := some id })
    else .ok (ulUpdateType, t.mapRows)

/-- `HrModifyRow`. -/
def hrModifyRow [CollationKeys] (ulUpdateType : UpdateType) (lpsID : Option I) (lpPropVals : P) :
    Option (HRESULT × ECMemTable P R S I) :=
  match ty.findRowID lpPropVals with
  | none => some (.MAPI_E_INVALID_PARAMETER, t)
  | some ulId =>
    match t.modifyMap ty ulUpdateType lpsID lpPropVals ulId with
    | .error hr => some (hr, t)
    | .ok (ulUpdateType, mapRows) => do
      let (hr, lstViews) ← updateViews ty mapRows ulUpdateType ulId t.lstViews
      some (hr, ⟨mapRows, lstViews⟩)

/-- `HrDeleteAll`. -/
def hrDeleteAll : Option (ECMemTable P R S I) := do
  let lstViews ← t.lstViews.mapM ECMemTableView.clear
  some ⟨t.mapRows.map fun row =>
    (row.1, { row.2 with fDeleted := true, fDirty := false, fNew := false }), lstViews⟩

/-- `HrClear`. -/
def hrClear : Option (ECMemTable P R S I) := do
  let lstViews ← t.lstViews.mapM ECMemTableView.clear
  some ⟨[], lstViews⟩

/-- `HrSetClean`. -/
def hrSetClean : ECMemTable P R S I :=
  { t with
    mapRows := (t.mapRows.filter fun row => !row.2.fDeleted).map fun row =>
      (row.1, { row.2 with fDeleted := false, fDirty := false, fNew := false }) }

/-- The status of an entry in `HrGetAllWithStatus`. -/
def rowStatus (entry : ECTableEntry P I) : RowStatus :=
  if entry.fNew then .ECROW_ADDED
  else if entry.fDeleted then .ECROW_DELETED
  else if entry.fDirty then .ECROW_MODIFIED
  else .ECROW_NORMAL

/-- `HrGetAllWithStatus`: the properties, the id and the status of every row, each with the number the
row is stored under. -/
def hrGetAllWithStatus : List (ℕ × P × Option I × RowStatus) :=
  t.mapRows.map fun row => (row.1, ty.hrCopyPropertyArray false row.2.lpsPropVal, row.2.lpsID,
    rowStatus row.2)

end ECMemTable

/-! ## Runs -/

/-- A call on a table, or on the view with a number. -/
inductive MemTableOp (P R S I : Type) where
  | hrModifyRow (ulUpdateType : UpdateType) (lpsID : Option I) (lpPropVals : P)
  | hrDeleteAll
  | hrClear
  | hrSetClean
  | hrGetView
  | restrict (view : ℕ) (lpRestriction : Option R)
  | sortTable (view : ℕ) (lpSortCriteria : Option S)

/-- What a call leaves. -/
def MemTableOp.step [CollationKeys] (t : ECMemTable P R S I) :
    MemTableOp P R S I → Option (ECMemTable P R S I)
  | .hrModifyRow ulUpdateType lpsID lpPropVals => do
    some (← t.hrModifyRow ty ulUpdateType lpsID lpPropVals).2
  | .hrDeleteAll => t.hrDeleteAll
  | .hrClear => t.hrClear
  | .hrSetClean => some t.hrSetClean
  | .hrGetView => do
    some { t with lstViews := t.lstViews ++ [← ECMemTableView.create ty t.mapRows] }
  | .restrict n lpRestriction =>
    match t.lstViews[n]? with
    | none => some t
    | some view => do
      let (_, view) ← view.restrict ty t.mapRows lpRestriction
      some { t with lstViews := t.lstViews.set n view }
  | .sortTable n lpSortCriteria =>
    match t.lstViews[n]? with
    | none => some t
    | some view => do
      let view ← view.sortTable ty t.mapRows lpSortCriteria
      some { t with lstViews := t.lstViews.set n view }

/-- The table after a list of calls. -/
def MemTableOp.run [CollationKeys] (t : ECMemTable P R S I) (ops : List (MemTableOp P R S I)) :
    Option (ECMemTable P R S I) :=
  ops.foldlM (step ty) t

end Zcp.M4lcommon
