import Zcp.Common.ECTableRow

/-!
# The key table

`common/ECKeyTable.cpp`. The rows are heap cells linked by pointers into a height-balanced search
tree; each cell also counts the visible rows below it. A heap maps addresses to cells, and `none` is
an address that was never allocated or was freed, so a function that reads or writes through a null
or dangling pointer returns `none`.

A loop runs with a bound on its iterations and returns `none` when the bound is used up. The bound of
a table is the number of cells it ever allocated plus one. Row numbers are integers: the sizes of a
table are far below `2 ^ 31`. Only where the source stores a sum with a caller's number in an `int`,
the sum wraps.

`lpRoot` is a sentinel in front of all rows. The tree of the rows is its right child.
-/

namespace Zcp.Common

/-- An address of a row. -/
abbrev Addr := ℕ

/-- `ECTableRow`. -/
structure ECTableRow where
  sKey : SObjectTableKey
  sortCols : List SortCol
  lpParent : Option Addr
  lpLeft : Option Addr
  lpRight : Option Addr
  ulBranchCount : ℕ
  ulHeight : ℕ
  fLeft : Bool
  fRoot : Bool
  fHidden : Bool
deriving DecidableEq, Repr

/-- The constructor of `ECTableRow`. -/
def ECTableRow.new (sKey : SObjectTableKey) (sortCols : List SortCol) (fHidden : Bool) :
    ECTableRow where
  sKey := sKey
  sortCols := sortCols
  lpParent := none
  lpLeft := none
  lpRight := none
  ulBranchCount := 0
  ulHeight := 0
  fLeft := false
  fRoot := false
  fHidden := fHidden

/-- The left or the right child of a row. -/
def ECTableRow.child (row : ECTableRow) (fLeft : Bool) : Option Addr :=
  if fLeft then row.lpLeft else row.lpRight

/-- `ECTableRow::rowcompare` on rows: the root is before everything. -/
def ECTableRow.rowcompare [CollationKeys] (a b : ECTableRow) : Bool :=
  if a.fRoot && !b.fRoot then true
  else if b.fRoot then false
  else rowcompareCols false a.sortCols b.sortCols

/-- The memory of the rows. -/
abbrev Heap := Addr → Option ECTableRow

namespace Heap

/-- Change the row at an address. -/
def modify (h : Heap) (a : Addr) (f : ECTableRow → ECTableRow) : Option Heap := do
  let row ← h a
  some (Function.update h a (some (f row)))

/-- Make `lpChild` the left or right child of `lpParent`. -/
def setChild (h : Heap) (lpParent : Option Addr) (fLeft : Bool) (lpChild : Option Addr) :
    Option Heap := do
  h.modify (← lpParent) fun row =>
    if fLeft then { row with lpLeft := lpChild } else { row with lpRight := lpChild }

/-- Set the parent of a row, and which child of it the row is; nothing for `NULL`. -/
def setParent (h : Heap) (lpRow : Option Addr) (lpParent : Option Addr) (fLeft : Bool) :
    Option Heap :=
  match lpRow with
  | none => some h
  | some a => h.modify a fun row => { row with lpParent := lpParent, fLeft := fLeft }

/-- Set only the parent of a row; nothing for `NULL`. -/
def moveParent (h : Heap) (lpRow : Option Addr) (lpParent : Addr) : Option Heap :=
  match lpRow with
  | none => some h
  | some a => h.modify a fun row => { row with lpParent := some lpParent }

/-- `lpRow->ulBranchCount`, zero for `NULL`. -/
def branchCount (h : Heap) : Option Addr → Option ℕ
  | none => some 0
  | some a => (h a).map (·.ulBranchCount)

/-- `lpRow->ulHeight`, zero for `NULL`. -/
def height (h : Heap) : Option Addr → Option ℕ
  | none => some 0
  | some a => (h a).map (·.ulHeight)

@[simp] theorem branchCount_none (h : Heap) : h.branchCount none = some 0 := rfl

@[simp] theorem height_none (h : Heap) : h.height none = some 0 := rfl

end Heap

/-! ## Counts and balance -/

section Shape

variable (fuel : ℕ) (lpRoot : Addr)

/-- The body of the loop of `UpdateCounts`. -/
def countRow (h : Heap) (lpRow : Addr) (row : ECTableRow) : Option ECTableRow := do
  let leftCount ← h.branchCount row.lpLeft
  let rightCount ← h.branchCount row.lpRight
  let leftHeight ← h.height row.lpLeft
  let rightHeight ← h.height row.lpRight
  let own := if lpRow = lpRoot then 0 else if row.fHidden then 0 else 1
  let ownHeight := if lpRow = lpRoot then 0 else 1
  some { row with
    ulBranchCount := own + leftCount + rightCount
    ulHeight := ownHeight + max leftHeight rightHeight }

/-- `ECKeyTable::UpdateCounts`, the loop with its bound. -/
def updateCountsLoop : ℕ → Heap → Option Addr → Option Heap
  | _, h, none => some h
  | 0, _, some _ => none
  | n + 1, h, some lpRow => do
    let row ← h lpRow
    let row' ← countRow lpRoot h lpRow row
    updateCountsLoop n (Function.update h lpRow (some row')) row.lpParent

/-- `ECKeyTable::UpdateCounts`. -/
def updateCounts (h : Heap) (lpRow : Option Addr) : Option Heap :=
  updateCountsLoop lpRoot fuel h lpRow

/-- A rotation: the leg of the pivot on the given side takes the place of the pivot. The names of the
source, for the left leg: `lpLeft` is the leg. -/
def rotate (fLeft : Bool) (h : Heap) (lpPivot : Addr) : Option Heap := do
  let pivot ← h lpPivot
  let lpLeg ← pivot.child fLeft
  -- move the leg into position of pivot
  let h ← h.setParent (some lpLeg) pivot.lpParent pivot.fLeft
  let h ← h.setChild pivot.lpParent pivot.fLeft (some lpLeg)
  -- move the inner leg of the leg to the pivot
  let leg ← h lpLeg
  let h ← h.setChild (some lpPivot) fLeft (leg.child !fLeft)
  let h ← h.setParent (leg.child !fLeft) (some lpPivot) fLeft
  -- connect pivot as the other leg of the leg
  let h ← h.setChild (some lpLeg) (!fLeft) (some lpPivot)
  let h ← h.setParent (some lpPivot) (some lpLeg) (!fLeft)
  let h ← updateCounts fuel lpRoot h (some lpPivot)
  updateCounts fuel lpRoot h (some lpLeg)

/-- `ECKeyTable::RotateL`. -/
def rotateL (h : Heap) (lpPivot : Addr) : Option Heap := rotate fuel lpRoot true h lpPivot

/-- `ECKeyTable::RotateR`. -/
def rotateR (h : Heap) (lpPivot : Addr) : Option Heap := rotate fuel lpRoot false h lpPivot

/-- `ECKeyTable::RotateLR`. -/
def rotateLR (h : Heap) (lpPivot : Addr) : Option Heap := do
  let pivot ← h lpPivot
  let h ← rotateR fuel lpRoot h lpPivot
  rotateL fuel lpRoot h (← pivot.lpParent)

/-- `ECKeyTable::RotateRL`. -/
def rotateRL (h : Heap) (lpPivot : Addr) : Option Heap := do
  let pivot ← h lpPivot
  let h ← rotateL fuel lpRoot h lpPivot
  rotateR fuel lpRoot h (← pivot.lpParent)

/-- `ECKeyTable::GetBalance`. -/
def getBalance (h : Heap) : Option Addr → Option ℤ
  | none => some 0
  | some lpPivot => do
    let pivot ← h lpPivot
    let left ← h.height pivot.lpLeft
    let right ← h.height pivot.lpRight
    some ((left : ℤ) - right)

/-- `ECKeyTable::Restructure`. -/
def restructure (h : Heap) (lpPivot : Addr) : Option Heap := do
  let balance ← getBalance h (some lpPivot)
  let pivot ← h lpPivot
  if balance > 1 then
    if (← getBalance h pivot.lpLeft) ≥ 0 then rotateL fuel lpRoot h lpPivot
    else rotateLR fuel lpRoot h (← pivot.lpLeft)
  else if balance < -1 then
    if (← getBalance h pivot.lpRight) ≤ 0 then rotateR fuel lpRoot h lpPivot
    else rotateRL fuel lpRoot h (← pivot.lpRight)
  else some h

/-- `ECKeyTable::RestructureRecursive`, the loop with its bound. -/
def restructureLoop : ℕ → Heap → Option Addr → Option Heap
  | _, h, none => some h
  | 0, _, some _ => none
  | n + 1, h, some lpRow =>
    if lpRow = lpRoot then some h
    else do
      let h ← restructure fuel lpRoot h lpRow
      let row ← h lpRow
      restructureLoop n h row.lpParent

/-- `ECKeyTable::RestructureRecursive`. A rotation puts one more node on the way up. -/
def restructureRecursive (h : Heap) (lpRow : Option Addr) : Option Heap :=
  restructureLoop fuel lpRoot (2 * fuel) h lpRow

/-- `UpdateCounts` and `RestructureRecursive` on the same row. -/
def rebalanceFrom (h : Heap) (lpRow : Option Addr) : Option Heap := do
  restructureRecursive fuel lpRoot (← updateCounts fuel lpRoot h lpRow) lpRow

end Shape

/-! ## Walking the tree -/

section Walk

variable (h : Heap)

/-- The leftmost row below a row. -/
def leftmost : ℕ → Addr → Option Addr
  | 0, _ => none
  | n + 1, a => do
    match (← h a).lpLeft with
    | none => some a
    | some l => leftmost n l

/-- The rightmost row below a row. -/
def rightmost : ℕ → Addr → Option Addr
  | 0, _ => none
  | n + 1, a => do
    match (← h a).lpRight with
    | none => some a
    | some r => rightmost n r

/-- Go to the parent while the row is a child on the given side. -/
def climb (side : Bool) : ℕ → Option Addr → Option (Option Addr)
  | 0, _ => none
  | _ + 1, none => some none
  | n + 1, some a => do
    let row ← h a
    if row.fLeft = side then climb side n row.lpParent else some (some a)

/-- The parent of the row that `climb` ends at. -/
def climbOver (fuel : ℕ) (side : Bool) (a : Addr) : Option (Option Addr) := do
  match ← climb h side fuel (some a) with
  | none => some none
  | some b => some (← h b).lpParent

/-- `ECKeyTable::Next` from a row. -/
def nextRow (fuel : ℕ) (a : Addr) : Option (Option Addr) := do
  match (← h a).lpRight with
  | some r => some <$> leftmost h fuel r
  | none => climbOver h fuel false a

/-- `ECKeyTable::Prev` from a row. -/
def prevRow (fuel : ℕ) (a : Addr) : Option (Option Addr) := do
  match (← h a).lpLeft with
  | some l => some <$> rightmost h fuel l
  | none => climbOver h fuel true a

/-- The key of the row before the subtree of a row, `(0, 0)` when there is none. -/
def keyBefore (fuel : ℕ) (a : Addr) : Option SObjectTableKey := do
  match ← climbOver h fuel true a with
  | none => some .zero
  | some b => some (← h b).sKey

/-- The key of the row before a row that is in the tree; `lpLeft` is its left child. -/
def predecessorOf (fuel : ℕ) (a : Addr) (lpLeft : Option Addr) : Option SObjectTableKey :=
  match lpLeft with
  | some left => do (h (← rightmost h fuel left)).map (·.sKey)
  | none => keyBefore h fuel a

/-- The key of the row before a row that becomes the left or right child of `lpRow`. -/
def predecessorOfNew (fuel : ℕ) (lpRow : Addr) (fLeft : Bool) : Option SObjectTableKey :=
  if fLeft then keyBefore h fuel lpRow else (h lpRow).map (·.sKey)

/-- The loop of `ECKeyTable::CurrentRow`. -/
def currentRowLoop (lpRoot : Addr) : ℕ → Addr → ℤ → Option ℤ
  | 0, _, _ => none
  | n + 1, a, ulCurrentRow => do
    let row ← h a
    match row.lpParent with
    | none => some ulCurrentRow
    | some p =>
      if p = lpRoot then some ulCurrentRow
      else do
        let parent ← h p
        currentRowLoop lpRoot n p <|
          if !row.fLeft then ulCurrentRow + (parent.ulBranchCount - row.ulBranchCount)
          else ulCurrentRow

/-- The loop of `ECKeyTable::SeekRow`: `none` inside is the end of the table. -/
def seekRowLoop : ℕ → Addr → ℤ → Option (Option Addr)
  | 0, _, _ => none
  | n + 1, a, lDestRow => do
    let row ← h a
    let leftCount ← h.branchCount row.lpLeft
    if (leftCount : ℤ) = lDestRow then some (some a)
    else
      match row.lpLeft, row.lpRight with
      | none, none => some none
      | some l, none => seekRowLoop n l lDestRow
      | none, some r => seekRowLoop n r (lDestRow - if row.fHidden then 0 else 1)
      | some l, some r =>
        if (leftCount : ℤ) < lDestRow then
          seekRowLoop n r (lDestRow - (leftCount + if row.fHidden then 0 else 1))
        else seekRowLoop n l lDestRow

/-- The search of `UpdateRow` for the place of a new row: its parent and which child it becomes. -/
def searchParent [CollationKeys] (lpNewRow : ECTableRow) : ℕ → Addr → Option (Addr × Bool)
  | 0, _ => none
  | n + 1, a => do
    let row ← h a
    if lpNewRow.rowcompare row then
      match row.lpLeft with
      | none => some (a, true)
      | some l => searchParent lpNewRow n l
    else
      match row.lpRight with
      | none => some (a, false)
      | some r => searchParent lpNewRow n r

end Walk

/-! ## Linking and unlinking a row -/

/-- The part of `UpdateRow` that links a new row into the table. -/
def linkRow (fuel : ℕ) (lpRoot : Addr) (h : Heap) (lpRow : Addr) (fLeft : Bool) (lpNewRow : Addr) :
    Option Heap := do
  let h ← h.setChild (some lpRow) fLeft (some lpNewRow)
  let h ← h.setParent (some lpNewRow) (some lpRow) fLeft
  rebalanceFrom fuel lpRoot h (some lpNewRow)

/-- Put the predecessor of a row with two children in the place of the row. -/
def replaceRow (h : Heap) (lpRow lpPredecessor : Addr) : Option Heap := do
  -- remove the predecessor from the tree, moving its left tree into place
  let predecessor ← h lpPredecessor
  let h ← h.setChild predecessor.lpParent predecessor.fLeft predecessor.lpLeft
  let h ← h.setParent predecessor.lpLeft predecessor.lpParent predecessor.fLeft
  -- the step above changed the row when the predecessor was its left child
  let row ← h lpRow
  let h ← h.setChild row.lpParent row.fLeft (some lpPredecessor)
  let h ← h.modify lpPredecessor fun p =>
    { p with lpParent := row.lpParent, fLeft := row.fLeft,
             lpLeft := row.lpLeft, lpRight := row.lpRight }
  let h ← h.moveParent row.lpLeft lpPredecessor
  h.moveParent row.lpRight lpPredecessor

/-- The branch of `UpdateRow` that unlinks a row with two children; `left` is the left one. -/
def unlinkInnerRow (fuel : ℕ) (lpRoot : Addr) (h : Heap) (lpsRowItem : SObjectTableKey)
    (lpRow left : Addr) : Option Heap := do
  let lpPredecessor ← rightmost h fuel left
  let lpPredecessorParent := (← h lpPredecessor).lpParent
  let h ← replaceRow h lpRow lpPredecessor
  -- count the branch the predecessor came from, then the branch it went to
  let h ← updateCounts fuel lpRoot h lpPredecessorParent
  let h ← updateCounts fuel lpRoot h (some lpPredecessor)
  let h ← restructureRecursive fuel lpRoot h (some lpPredecessor)
  let predecessorParent ← h (← lpPredecessorParent)
  if predecessorParent.sKey ≠ lpsRowItem then
    restructureRecursive fuel lpRoot h lpPredecessorParent
  else some h

/-- The part of `UpdateRow` that takes a row out of the tree; the row itself is not yet freed. -/
def unlinkRow (fuel : ℕ) (lpRoot : Addr) (h : Heap) (lpsRowItem : SObjectTableKey)
    (lpRow : Addr) : Option Heap := do
  let row ← h lpRow
  match row.lpLeft, row.lpRight with
  | none, none =>
    let h ← h.setChild row.lpParent row.fLeft none
    rebalanceFrom fuel lpRoot h row.lpParent
  | some left, none =>
    let h ← h.setChild row.lpParent row.fLeft (some left)
    let h ← h.setParent (some left) row.lpParent row.fLeft
    rebalanceFrom fuel lpRoot h row.lpParent
  | none, some right =>
    let h ← h.setChild row.lpParent row.fLeft (some right)
    let h ← h.setParent (some right) row.lpParent row.fLeft
    rebalanceFrom fuel lpRoot h row.lpParent
  | some left, some _ => unlinkInnerRow fuel lpRoot h lpsRowItem lpRow left

/-! ## The table -/

/-- The codes the key table returns. -/
inductive ECRESULT where
  | erSuccess
  | ZARAFA_E_NOT_FOUND
  | ZARAFA_E_INVALID_PARAMETER
  | ZARAFA_E_INVALID_BOOKMARK
  | ZARAFA_E_UNABLE_TO_COMPLETE
  | ZARAFA_W_POSITION_CHANGED
deriving DecidableEq, Repr

/-- `ECKeyTable::UpdateType`. -/
inductive UpdateType where
  | TABLE_CHANGE
  | TABLE_ERR
  | TABLE_ROW_ADD
  | TABLE_ROW_DELETE
  | TABLE_ROW_MODIFY
  | TABLE_SORT
  | TABLE_RESTRICT
  | TABLE_SETCOL
  | TABLE_DO_RELOAD
deriving DecidableEq, Repr

/-- `sBookmarkPosition`. -/
structure SBookmarkPosition where
  ulFirstRowPosition : ℤ
  lpPosition : Option Addr
deriving DecidableEq, Repr

def EC_SEEK_SET : ℕ := 0
def EC_SEEK_CUR : ℕ := 1
def EC_SEEK_END : ℕ := 2

def BOOKMARK_LIMIT : ℕ := 100

/-- `ECKeyTable`. `next` is the next address `new` returns. -/
structure ECKeyTable where
  heap : Heap
  next : Addr
  lpRoot : Addr
  lpCurrent : Option Addr
  mapRow : SObjectTableKey → Option Addr
  mapBookmarks : List (ℕ × SBookmarkPosition)
  ulBookmarkPosition : ℕ

/-- The value of a sum stored in an `int`. -/
def toInt (n : ℤ) : ℤ := n.bmod (2 ^ 32)

namespace ECKeyTable

/-- The constructor: an empty table with the sentinel. -/
def new : ECKeyTable where
  heap := fun a => if a = 0 then some { ECTableRow.new .zero [] false with fRoot := true } else none
  next := 1
  lpRoot := 0
  lpCurrent := some 0
  mapRow := fun _ => none
  mapBookmarks := []
  ulBookmarkPosition := 3

variable (t : ECKeyTable)

/-- The bound on the iterations of a loop. -/
def fuel : ℕ := t.next + 1

/-- `lpRoot->ulBranchCount`. -/
def rowCount : Option ℕ := t.heap.branchCount (some t.lpRoot)

/-- `ECKeyTable::CurrentRow`. -/
def currentRow : Option Addr → Option ℤ
  | none => (t.rowCount).map (↑)
  | some lpRow =>
    if lpRow = t.lpRoot then some 0
    else do
      let row ← t.heap lpRow
      let leftCount ← t.heap.branchCount row.lpLeft
      currentRowLoop t.heap t.lpRoot t.fuel lpRow leftCount

/-- `ECKeyTable::GetRowCount`: the row count and the current row. -/
def getRowCount : Option (ℕ × ℤ) := do
  let ulCurrentRow ← t.currentRow t.lpCurrent
  let ulRowCount ← t.rowCount
  some (ulRowCount, ulCurrentRow)

/-- `ECKeyTable::GetBookmark`. -/
def getBookmark (ulbkPosition : ℕ) : Option (ECRESULT × Option ℤ) :=
  match t.mapBookmarks.lookup ulbkPosition with
  | none => some (.ZARAFA_E_INVALID_BOOKMARK, none)
  | some bookmark => do
    let ulCurrPosition ← t.currentRow bookmark.lpPosition
    let er := if bookmark.ulFirstRowPosition ≠ ulCurrPosition then .ZARAFA_W_POSITION_CHANGED
      else .erSuccess
    some (er, some ulCurrPosition)

/-- `ECKeyTable::CreateBookmark`. -/
def createBookmark : Option (ECRESULT × Option ℕ × ECKeyTable) :=
  if t.mapBookmarks.length ≥ BOOKMARK_LIMIT then some (.ZARAFA_E_UNABLE_TO_COMPLETE, none, t)
  else do
    let (_, ulFirstRowPosition) ← t.getRowCount
    let bookmark : SBookmarkPosition := ⟨ulFirstRowPosition, t.lpCurrent⟩
    some (.erSuccess, some t.ulBookmarkPosition,
      { t with
        mapBookmarks := t.mapBookmarks ++ [(t.ulBookmarkPosition, bookmark)]
        ulBookmarkPosition := t.ulBookmarkPosition + 1 })

/-- `ECKeyTable::FreeBookmark`. -/
def freeBookmark (ulbkPosition : ℕ) : ECRESULT × ECKeyTable :=
  match t.mapBookmarks.lookup ulbkPosition with
  | none => (.ZARAFA_E_INVALID_BOOKMARK, t)
  | some _ =>
    (.erSuccess, { t with mapBookmarks := t.mapBookmarks.filter fun b => b.1 ≠ ulbkPosition })

/-- `ECKeyTable::InvalidateBookmark`. -/
def invalidateBookmark (lpRow : Addr) : ECKeyTable :=
  { t with mapBookmarks := t.mapBookmarks.filter fun b => b.2.lpPosition ≠ some lpRow }

/-- `ECKeyTable::SeekId`. -/
def seekId (lpsRowItem : SObjectTableKey) : ECRESULT × ECKeyTable :=
  match t.mapRow lpsRowItem with
  | none => (.ZARAFA_E_NOT_FOUND, t)
  | some a => (.erSuccess, { t with lpCurrent := some a })

/-- The destination of `SeekRow` before it is clamped, with the code of `GetBookmark`. -/
def seekDest (lbkOrgin : ℕ) (lSeekTo ulRowCount ulCurrentRow : ℤ) : Option (ECRESULT × Option ℤ) :=
  if lbkOrgin = EC_SEEK_SET then some (.erSuccess, some lSeekTo)
  else if lbkOrgin = EC_SEEK_CUR then some (.erSuccess, some (toInt (ulCurrentRow + lSeekTo)))
  else if lbkOrgin = EC_SEEK_END then some (.erSuccess, some (toInt (ulRowCount + lSeekTo)))
  else do
    let (er, pos) ← t.getBookmark lbkOrgin
    some (er, pos.map fun p => toInt (p + lSeekTo))

/-- `ECKeyTable::SeekRow`: the code, the rows sought and the table with the new cursor. -/
def seekRow (lbkOrgin : ℕ) (lSeekTo : ℤ) : Option (ECRESULT × Option ℤ × ECKeyTable) := do
  let (ulRowCount, ulCurrentRow) ← t.getRowCount
  match ← t.seekDest lbkOrgin lSeekTo ulRowCount ulCurrentRow with
  | (er, none) => some (er, none, t)
  | (er, some dest) =>
    let lDestRow : ℤ := if dest < 0 then 0 else dest
    let lDestRow : ℤ := if lDestRow ≥ ulRowCount then ulRowCount else lDestRow
    let lRowsSought : ℤ :=
      if lbkOrgin = EC_SEEK_SET then lDestRow
      else if lbkOrgin = EC_SEEK_END then lDestRow - ulRowCount
      else lDestRow - ulCurrentRow
    if ulRowCount = 0 then some (er, some lRowsSought, { t with lpCurrent := some t.lpRoot })
    else do
      let root ← t.heap t.lpRoot
      let lpRow ← seekRowLoop t.heap t.fuel (← root.lpRight) lDestRow
      some (er, some lRowsSought, { t with lpCurrent := lpRow })

/-- `ECKeyTable::Next`. -/
def nextCursor : Option ECKeyTable :=
  match t.lpCurrent with
  | none => some t
  | some a => do some { t with lpCurrent := ← nextRow t.heap t.fuel a }

/-- `ECKeyTable::Prev`. -/
def prevCursor : Option ECKeyTable :=
  match t.lpCurrent with
  | none => do
    let (_, _, t) ← t.seekRow EC_SEEK_END (-1)
    some t
  | some a => do some { t with lpCurrent := ← prevRow t.heap t.fuel a }

/-- The loop of `QueryRows`. -/
def queryRowsLoop (bDirBackward bShowHidden : Bool) :
    ℕ → ECKeyTable → ℕ → Option (List SObjectTableKey × ECKeyTable)
  | 0, _, _ => none
  | n + 1, t, ulRows =>
    if ulRows = 0 then some ([], t)
    else match t.lpCurrent with
    | none => some ([], t)
    | some lpCurrent => do
      let row ← t.heap lpCurrent
      let shown := !row.fHidden || bShowHidden
      let ulRows := if shown then ulRows - 1 else ulRows
      let found := if shown then [row.sKey] else []
      let root ← t.heap t.lpRoot
      if bDirBackward && root.lpRight == some lpCurrent then some (found, t)
      else do
        let t ← if bDirBackward then t.prevCursor else t.nextCursor
        let (rest, t) ← queryRowsLoop bDirBackward bShowHidden n t ulRows
        some (found ++ rest, t)

/-- The start of `QueryRows`: the cursor moves onto a row when it stands past the end of a backward
read or in front of the first row. -/
def queryRowsStart (bDirBackward : Bool) : Option ECKeyTable := do
  let count ← t.rowCount
  if bDirBackward && t.lpCurrent.isNone then do
    let (_, _, t) ← t.seekRow EC_SEEK_CUR (-1)
    some t
  else if t.lpCurrent == some t.lpRoot && count != 0 then do
    let (_, _, t) ← t.seekRow EC_SEEK_SET 0
    some t
  else some t

/-- `ECKeyTable::QueryRows`; `noAdvance` is the flag `EC_TABLE_NOADVANCE`. -/
def queryRows (ulRows : ℕ) (bDirBackward noAdvance bShowHidden : Bool) :
    Option (List SObjectTableKey × ECKeyTable) := do
  let lpOrig := t.lpCurrent
  let t ← t.queryRowsStart bDirBackward
  let count ← t.rowCount
  let ulRows := if ulRows > count then count else ulRows
  -- one more iteration than rows, and one for the sentinel
  let (lpRowList, t) ← queryRowsLoop bDirBackward bShowHidden (t.fuel + 2) t ulRows
  some (lpRowList, if noAdvance then { t with lpCurrent := lpOrig } else t)

/-! ## Changing rows -/

/-- `UpdateRow` with `TABLE_ROW_DELETE`. -/
def deleteRow (lpsRowItem : SObjectTableKey) : Option (ECRESULT × ECKeyTable) :=
  match t.mapRow lpsRowItem with
  | none => some (.ZARAFA_E_NOT_FOUND, t)
  | some lpRow => do
    let h ← unlinkRow t.fuel t.lpRoot t.heap lpsRowItem lpRow
    let t := { t with heap := h }
    -- the cursor moves off the row while the row still has its old links
    let t ←
      if t.lpCurrent = some lpRow then do
        let (_, _, t) ← t.seekRow EC_SEEK_CUR (-1)
        let (_, _, t) ← t.seekRow EC_SEEK_CUR 1
        some t
      else some t
    let t := t.invalidateBookmark lpRow
    some (.erSuccess,
      { t with
        heap := Function.update t.heap lpRow none
        mapRow := Function.update t.mapRow lpsRowItem none })

/-- The part of `UpdateRow` that puts a new row into the tree: the key of the row before it, and the
table. -/
def insertRow [CollationKeys] (newRow : ECTableRow) (fRelocateCursor : Bool) :
    Option (SObjectTableKey × ECKeyTable) := do
  let lpNewRow := t.next
  let t := { t with heap := Function.update t.heap lpNewRow (some newRow), next := t.next + 1 }
  let (lpRow, fLeft) ← searchParent t.heap newRow t.fuel t.lpRoot
  let prevRow ← predecessorOfNew t.heap t.fuel lpRow fLeft
  let h ← linkRow t.fuel t.lpRoot t.heap lpRow fLeft lpNewRow
  some (prevRow,
    { t with
      heap := h
      mapRow := Function.update t.mapRow newRow.sKey (some lpNewRow)
      lpCurrent := if fRelocateCursor then some lpNewRow else t.lpCurrent })

/-- What `UpdateRow` returns: the code, `*lpsPrevRow` and `*lpulAction` where it writes them, and the
table. -/
structure UpdateResult where
  er : ECRESULT
  lpsPrevRow : Option SObjectTableKey
  lpulAction : Option UpdateType
  table : ECKeyTable

/-- `UpdateRow` with `TABLE_ROW_ADD` or `TABLE_ROW_MODIFY`, which do the same. -/
def putRow [CollationKeys] (lpsRowItem : SObjectTableKey) (sortCols : List SortCol)
    (fHidden : Bool) : Option UpdateResult := do
  let newRow := ECTableRow.new lpsRowItem sortCols fHidden
  match t.mapRow lpsRowItem with
  | some lpOld =>
    let old ← t.heap lpOld
    if !old.rowcompare newRow && !newRow.rowcompare old then
      -- the same sort data: only the row before it is looked up
      let prevRow ← predecessorOf t.heap t.fuel lpOld old.lpLeft
      some ⟨.erSuccess, some prevRow, some .TABLE_ROW_MODIFY, t⟩
    else
      let fRelocateCursor := t.lpCurrent = some lpOld
      let (er, t) ← t.deleteRow lpsRowItem
      if er ≠ .erSuccess then some ⟨er, none, some .TABLE_ROW_MODIFY, t⟩
      else
        let (prevRow, t) ← t.insertRow newRow fRelocateCursor
        some ⟨.erSuccess, some prevRow, some .TABLE_ROW_MODIFY, t⟩
  | none =>
    let (prevRow, t) ← t.insertRow newRow false
    some ⟨.erSuccess, some prevRow, some .TABLE_ROW_ADD, t⟩

/-- `ECKeyTable::UpdateRow`. -/
def updateRow [CollationKeys] (ulType : UpdateType) (lpsRowItem : SObjectTableKey)
    (sortCols : List SortCol) (fHidden : Bool) : Option UpdateResult :=
  match ulType with
  | .TABLE_ROW_DELETE => do
    let (er, t) ← t.deleteRow lpsRowItem
    some ⟨er, none, if er = .erSuccess then some .TABLE_ROW_DELETE else none, t⟩
  | .TABLE_ROW_ADD | .TABLE_ROW_MODIFY => t.putRow lpsRowItem sortCols fHidden
  | _ => some ⟨.erSuccess, none, none, t⟩

/-- `ECKeyTable::GetRow`: the address of the row of a key. -/
def getRow (lpsRowItem : SObjectTableKey) : ECRESULT × Option Addr :=
  match t.seekId lpsRowItem with
  | (.erSuccess, t) => (.erSuccess, t.lpCurrent)
  | (er, _) => (er, none)

/-- `ECKeyTable::UpdatePartialSortKey`: the result of `UpdateRow`, and `*lpfHidden`. -/
def updatePartialSortKey [CollationKeys] (lpsRowItem : SObjectTableKey) (ulColumn : ℕ)
    (sortCol : SortCol) : Option (UpdateResult × Option Bool) :=
  match t.getRow lpsRowItem with
  | (.erSuccess, some lpCursor) => do
    let row ← t.heap lpCursor
    if ulColumn ≥ row.sortCols.length then
      some (⟨.ZARAFA_E_INVALID_PARAMETER, none, none, t⟩, none)
    else do
      let result ← t.updateRow .TABLE_ROW_MODIFY lpsRowItem (row.sortCols.set ulColumn sortCol)
        row.fHidden
      some (result, some row.fHidden)
  | (er, _) => some (⟨er, none, none, t⟩, none)

/-- The loop of `Clear`: free the rows depth first. -/
def clearLoop (lpRoot : Addr) : ℕ → Heap → Addr → Option Heap
  | 0, _, _ => none
  | n + 1, h, lpRow => do
    let row ← h lpRow
    match row.lpLeft, row.lpRight with
    | some left, _ => clearLoop lpRoot n h left
    | none, some right => clearLoop lpRoot n h right
    | none, none =>
      if lpRow = lpRoot then some h
      else do
        let lpParent ← row.lpParent
        let h ← h.setChild (some lpParent) row.fLeft none
        clearLoop lpRoot n (Function.update h lpRow none) lpParent

/-- `ECKeyTable::Clear`. -/
def clear : Option ECKeyTable := do
  let h ← clearLoop t.lpRoot (2 * t.fuel) t.heap t.lpRoot
  let h ← h.modify t.lpRoot fun root => { root with ulBranchCount := 0 }
  some { t with heap := h, lpCurrent := some t.lpRoot, mapRow := fun _ => none, mapBookmarks := [] }

/-! ## Hiding rows -/

/-- Set the hidden flag of the cursor's row and count again. -/
def setHidden (lpCurrent : Addr) (fHidden : Bool) : Option ECKeyTable := do
  let h ← t.heap.modify lpCurrent fun row => { row with fHidden := fHidden }
  let h ← updateCounts t.fuel t.lpRoot h (some lpCurrent)
  some { t with heap := h }

/-- The loop of `HideRows`; `lpCursor` is the cursor before the call. -/
def hideRowsLoop [CollationKeys] (prefixCols : List SortCol) (lpCursor : Option Addr) :
    ℕ → ECKeyTable → Bool → Option (List SObjectTableKey × Bool × ECKeyTable)
  | 0, _, _ => none
  | n + 1, t, fCursorHidden =>
    match t.lpCurrent with
    | none => some ([], fCursorHidden, t)
    | some lpCurrent => do
      let row ← t.heap lpCurrent
      if rowcompareprefix prefixCols.length prefixCols row.sortCols then some ([], fCursorHidden, t)
      else do
        let t ← t.setHidden lpCurrent true
        let fCursorHidden := fCursorHidden || lpCursor == some lpCurrent
        let t ← t.nextCursor
        let (rest, fCursorHidden, t) ← hideRowsLoop prefixCols lpCursor n t fCursorHidden
        some (row.sKey :: rest, fCursorHidden, t)

/-- Move the cursor forward to a row that is not hidden. -/
def skipHidden : ℕ → ECKeyTable → Option ECKeyTable
  | 0, _ => none
  | n + 1, t =>
    match t.lpCurrent with
    | none => some t
    | some lpCurrent => do
      let row ← t.heap lpCurrent
      if row.fHidden then skipHidden n (← t.nextCursor) else some t

/-- `ECKeyTable::HideRows`: the code, the keys of the rows it hid, and the table. -/
def hideRows [CollationKeys] (lpsRowItem : SObjectTableKey) :
    Option (ECRESULT × List SObjectTableKey × ECKeyTable) := do
  let lpCursor := t.lpCurrent
  match t.seekId lpsRowItem with
  | (.erSuccess, t) =>
    let header ← t.heap (← t.lpCurrent)
    let t ← t.nextCursor
    let (lpHiddenList, fCursorHidden, t) ←
      hideRowsLoop header.sortCols lpCursor (t.fuel + 1) t false
    if !fCursorHidden then some (.erSuccess, lpHiddenList, { t with lpCurrent := lpCursor })
    else do some (.erSuccess, lpHiddenList, ← skipHidden (t.fuel + 1) t)
  | (er, t) => some (er, [], t)

/-- The loop of `UnhideRows`; `ulFirstCols` is the number of columns of the first row. -/
def unhideRowsLoop [CollationKeys] (prefixCols : List SortCol) (ulFirstCols : ℕ) :
    ℕ → ECKeyTable → Option (List SObjectTableKey × ECKeyTable)
  | 0, _ => none
  | n + 1, t =>
    match t.lpCurrent with
    | none => some ([], t)
    | some lpCurrent => do
      let row ← t.heap lpCurrent
      if rowcompareprefix prefixCols.length prefixCols row.sortCols then some ([], t)
      else do
        let first := row.sortCols.length == ulFirstCols
        let t ← if first then t.setHidden lpCurrent false else some t
        let t ← t.nextCursor
        let (rest, t) ← unhideRowsLoop prefixCols ulFirstCols n t
        some (if first then row.sKey :: rest else rest, t)

/-- `ECKeyTable::UnhideRows`: the code, the keys of the rows it unhid, and the table. The cursor
stays where the walk ended. -/
def unhideRows [CollationKeys] (lpsRowItem : SObjectTableKey) :
    Option (ECRESULT × List SObjectTableKey × ECKeyTable) :=
  match t.seekId lpsRowItem with
  | (.erSuccess, t) => do
    let header ← t.heap (← t.lpCurrent)
    if header.fHidden then some (.ZARAFA_E_NOT_FOUND, [], t)
    else do
      let t ← t.nextCursor
      match t.lpCurrent with
      | none => some (.erSuccess, [], t)
      | some first => do
        let ulFirstCols := (← t.heap first).sortCols.length
        let (lpUnhiddenList, t) ←
          unhideRowsLoop header.sortCols ulFirstCols (t.fuel + 1) t
        some (.erSuccess, lpUnhiddenList, t)
  | (er, t) => some (er, [], t)

/-! ## Searching -/

/-- The loop of `GetPreviousRow`. -/
def skipHiddenBack : ℕ → ECKeyTable → Option ECKeyTable
  | 0, _ => none
  | n + 1, t =>
    match t.lpCurrent with
    | none => some t
    | some lpCurrent => do
      let row ← t.heap lpCurrent
      if row.fHidden then skipHiddenBack n (← t.prevCursor) else some t

/-- `ECKeyTable::GetPreviousRow`: the code and `*lpsPrev`. When the key is not there the cursor is
left where `SeekId` left it, which is where it was. -/
def getPreviousRow (lpsRowItem : SObjectTableKey) : Option (ECRESULT × Option SObjectTableKey) :=
  match t.seekId lpsRowItem with
  | (.erSuccess, t) => do
    let t ← skipHiddenBack (t.fuel + 1) (← t.prevCursor)
    match t.lpCurrent with
    | none => some (.ZARAFA_E_NOT_FOUND, none)
    | some a => do some (.erSuccess, some (← t.heap a).sKey)
  | (er, _) => some (er, none)

/-- The loop of `GetRowsBySortPrefix`. -/
def sortPrefixLoop [CollationKeys] (prefixCols : List SortCol) :
    ℕ → ECKeyTable → Option (List SObjectTableKey)
  | 0, _ => none
  | n + 1, t =>
    match t.lpCurrent with
    | none => some []
    | some lpCurrent => do
      let row ← t.heap lpCurrent
      if rowcompareprefix prefixCols.length prefixCols row.sortCols then some []
      else do
        let rest ← sortPrefixLoop prefixCols n (← t.nextCursor)
        some (row.sKey :: rest)

/-- `ECKeyTable::GetRowsBySortPrefix`. -/
def getRowsBySortPrefix [CollationKeys] (lpsRowItem : SObjectTableKey) :
    Option (ECRESULT × List SObjectTableKey) :=
  match t.seekId lpsRowItem with
  | (.erSuccess, t) => do
    let header ← t.heap (← t.lpCurrent)
    some (.erSuccess, ← sortPrefixLoop header.sortCols (t.fuel + 1) t)
  | (er, _) => some (er, [])

/-- The loop of `LowerBound`: the cursor it ends with. -/
def lowerBoundLoop [CollationKeys] (h : Heap) (fuel : ℕ) (sortCols : List SortCol) :
    ℕ → Addr → Option (Option Addr)
  | 0, _ => none
  | n + 1, lpCurrent => do
    let row ← h lpCurrent
    if rowcompareCols false row.sortCols sortCols then
      match row.lpRight with
      | none => nextRow h fuel lpCurrent
      | some right => lowerBoundLoop h fuel sortCols n right
    else
      match row.lpLeft with
      | none => some (some lpCurrent)
      | some left => lowerBoundLoop h fuel sortCols n left

/-- `ECKeyTable::LowerBound`. -/
def lowerBound [CollationKeys] (sortCols : List SortCol) : Option ECKeyTable := do
  match (← t.heap t.lpRoot).lpRight with
  | none => some { t with lpCurrent := none }
  | some a => do some { t with lpCurrent := ← lowerBoundLoop t.heap t.fuel sortCols t.fuel a }

/-- `ECKeyTable::Find`: the code and `*lpsKey`. -/
def find [CollationKeys] (sortCols : List SortCol) : Option (ECRESULT × Option SObjectTableKey) := do
  match (← t.lowerBound sortCols).lpCurrent with
  | none => some (.ZARAFA_E_NOT_FOUND, none)
  | some a =>
    let row ← t.heap a
    if rowcompareCols false sortCols row.sortCols then some (.ZARAFA_E_NOT_FOUND, none)
    else some (.erSuccess, some row.sKey)

end ECKeyTable

end Zcp.Common
