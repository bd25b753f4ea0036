import Zcp.Common.ECKeyTable.Visible
import Zcp.Libserver.ECGenericObjectTable.FindRow
import Zcp.M4lcommon.ECMemTable.Status

/-!
# Finding a row of a view

`ECMemTableView::FindRow`. It reads one row after another and moves the cursor with every read, and from the row that
matches it goes back by one. Forward this finds the first row that matches. Backward, the read of the root of the tree
leaves the cursor where it is, and the read of the first row leaves it on the sentinel, which has the number of the
first row: the row that the search goes back to is then the wrong one, and when that row does not match, it is read
again and again.
-/

namespace Zcp.M4lcommon

open Zcp.Common Zcp.Lib

variable {P R S I : Type}

/-- What a search reads beside the rows and the restriction. -/
structure FindRowType (P R : Type) where
  /-- `Value.ul` of a `RES_PROPERTY` restriction on `ulRowPropTag`. -/
  rowIdOf : R → Option ℕ
  /-- The properties of an entry that `mapRows[ulObjId]` adds. -/
  noProps : P

/-- `mapRows[ulId]`: an entry that is missing is added. -/
def Rows.at (noProps : P) (mapRows : Rows P I) (ulId : ℕ) : ECTableEntry P I × Rows P I :=
  match Rows.find mapRows ulId with
  | some entry => (entry, mapRows)
  | none =>
    let entry : ECTableEntry P I := ⟨noProps, none, false, false, false⟩
    (entry, Rows.set mapRows ulId entry)

/-- `ZarafaErrorToMAPIError` of a code that is an `HRESULT` already, which it does not know. -/
def zarafaErrorToMAPIErrorAgain : HRESULT → HRESULT
  | .hrSuccess => .hrSuccess
  | _ => .MAPI_E_NO_ACCESS

variable (ty : MemTableType P R S I) (find : FindRowType P R)

namespace ECMemTableView

/-- `SeekRow`. -/
def seekRow (t : ECKeyTable) (bkOrigin : ℕ) (lRowCount : ℤ) : Option (HRESULT × ECKeyTable) := do
  let (er, _, t) ← t.seekRow bkOrigin lRowCount
  some (zarafaErrorToMAPIError er, t)

/-- The loop of `FindRow`, with a bound on the number of rows. -/
def findLoop (lpRestriction : R) (bDirBackward : Bool) :
    ℕ → Rows P I → ECKeyTable → Option (HRESULT × Rows P I × ECKeyTable)
  | 0, _, _ => none
  | fuel + 1, mapRows, t => do
    match ← t.queryRows 1 bDirBackward false false with
    | ([], t) => some (.MAPI_E_NOT_FOUND, mapRows, t)
    | (sRowItem :: _, t) =>
      let (entry, mapRows) := Rows.at find.noProps mapRows sRowItem.ulObjId
      if ty.testRestriction lpRestriction entry.lpsPropVal then do
        let (hr, t) ← seekRow t BOOKMARK_CURRENT (if bDirBackward then 1 else -1)
        some (zarafaErrorToMAPIErrorAgain hr, mapRows, t)
      else findLoop lpRestriction bDirBackward fuel mapRows t

/-- `FindRow`. -/
def findRow (fuel : ℕ) (view : ECMemTableView R S) (mapRows : Rows P I) (lpRestriction : Option R) (bkOrigin : ℕ)
    (bDirBackward : Bool) : Option (HRESULT × Rows P I × ECMemTableView R S) := do
  match lpRestriction with
  | none => some (.MAPI_E_INVALID_PARAMETER, mapRows, view)
  | some r =>
    match if bkOrigin = BOOKMARK_BEGINNING then find.rowIdOf r else none with
    | some ulObjId =>
      let (er, t) := view.lpKeyTable.seekId ⟨ulObjId, 0⟩
      some (zarafaErrorToMAPIError er, mapRows, { view with lpKeyTable := t })
    | none => do
      let (hr, t) ← seekRow view.lpKeyTable bkOrigin (startSeek bkOrigin bDirBackward)
      let hr := zarafaErrorToMAPIErrorAgain hr
      if hr ≠ .hrSuccess then some (hr, mapRows, { view with lpKeyTable := t })
      else do
        let (hr, mapRows, t) ← findLoop ty find r bDirBackward fuel mapRows t
        some (hr, mapRows, { view with lpKeyTable := t })

end ECMemTableView

/-! ## The rows that match -/

/-- Whether the row of a key matches. -/
def rowMatches (mapRows : Rows P I) (r : R) (k : SObjectTableKey) : Bool :=
  ty.testRestriction r (Rows.at find.noProps mapRows k.ulObjId).1.lpsPropVal

section Search

variable {ty find} {mapRows : Rows P I} {r : R} {m : SObjectTableKey → Bool} {t : ECKeyTable} {T : AvlTree RowAt}

/-- The rows match as `m` says. -/
structure MatchesAs (ty : MemTableType P R S I) (find : FindRowType P R) (mapRows : Rows P I) (r : R)
    (m : SObjectTableKey → Bool) : Prop where
  sorted : mapRows.Sorted
  eq : ∀ k, rowMatches ty find mapRows r k = m k

/-- The entry that a look-up adds changes nothing. -/
theorem at_at (hs : mapRows.Sorted) (noProps : P) (id id' : ℕ) :
    (Rows.at noProps (Rows.at noProps mapRows id).2 id').1 = (Rows.at noProps mapRows id').1 := by
  cases hfind : Rows.find mapRows id with
  | some entry =>
    have hsame : (Rows.at noProps mapRows id).2 = mapRows := by rw [Rows.at, hfind]
    rw [hsame]
  | none =>
    have hset : (Rows.at noProps mapRows id).2 = Rows.set mapRows id ⟨noProps, none, false, false, false⟩ := by
      rw [Rows.at, hfind]
    rw [hset, Rows.at, Rows.find_set hs, Rows.at]
    by_cases hid : id = id'
    · rw [if_pos hid, ← hid, hfind]
    · rw [if_neg hid]
      cases Rows.find mapRows id' with
      | some entry => rfl
      | none => rfl

theorem MatchesAs.next (h : MatchesAs ty find mapRows r m) (id : ℕ) :
    MatchesAs ty find (Rows.at find.noProps mapRows id).2 r m := by
  constructor
  · rw [Rows.at]
    split
    · exact h.sorted
    · exact h.sorted.set _
  · intro k
    rw [← h.eq, rowMatches, rowMatches, at_at h.sorted]

/-! ## One turn -/

variable {bDirBackward : Bool}

theorem findLoop_end (hread : t.queryRows 1 bDirBackward false false = some ([], t)) (fuel : ℕ) :
    ECMemTableView.findLoop ty find r bDirBackward (fuel + 1) mapRows t = some (.MAPI_E_NOT_FOUND, mapRows, t) := by
  rw [ECMemTableView.findLoop, hread]
  rfl

variable {k : SObjectTableKey} {t' : ECKeyTable}

/-- A turn on a row that does not match. -/
theorem findLoop_next (h : MatchesAs ty find mapRows r m)
    (hread : t.queryRows 1 bDirBackward false false = some ([k], t')) (hk : m k = false) (fuel : ℕ) :
    ECMemTableView.findLoop ty find r bDirBackward (fuel + 1) mapRows t =
      ECMemTableView.findLoop ty find r bDirBackward fuel (Rows.at find.noProps mapRows k.ulObjId).2 t' := by
  rw [← h.eq, rowMatches] at hk
  rw [ECMemTableView.findLoop, hread]
  simp [hk]

variable {n : ℕ}

/-- A turn on a row that matches. -/
theorem findLoop_found (h : MatchesAs ty find mapRows r m)
    (hread : t.queryRows 1 bDirBackward false false = some ([k], t')) (hk : m k = true) (hR : Represents t' T)
    (hsmall : count T < 2 ^ 31) (hn : RowNumber t'.lpRoot T t'.lpCurrent n) (dest : ℕ) (hle : dest ≤ count T)
    (hdest : (dest : ℤ) = max 0 (n + (if bDirBackward then 1 else -1 : ℤ))) :
    ∃ t'', StandsAt t'' T dest ∧ ∀ fuel, ECMemTableView.findLoop ty find r bDirBackward (fuel + 1) mapRows t =
      some (.hrSuccess, (Rows.at find.noProps mapRows k.ulObjId).2, t'') := by
  obtain ⟨t'', hseek, hstands, -⟩ := seekRow_cur_standsAt dest (k := if bDirBackward then 1 else -1) hR hn hsmall
    (by split_ifs <;> omega) (by split_ifs at hdest ⊢ <;> omega) hdest
  refine ⟨t'', hstands, fun fuel => ?_⟩
  have hseek' : ECMemTableView.seekRow t' BOOKMARK_CURRENT (if bDirBackward then 1 else -1) =
      some (.hrSuccess, t'') := by
    rw [ECMemTableView.seekRow]
    exact congrArg (fun res => res.bind fun res => some (zarafaErrorToMAPIError res.1, res.2.2)) hseek
  rw [← h.eq, rowMatches] at hk
  rw [ECMemTableView.findLoop, hread]
  simp [hk, hseek', zarafaErrorToMAPIErrorAgain]

/-- When a read leaves the table as it is, a search of a row that does not match never ends. -/
theorem findLoop_spins (h : MatchesAs ty find mapRows r m)
    (hread : t.queryRows 1 bDirBackward false false = some ([k], t)) (hk : m k = false) (fuel : ℕ) :
    ECMemTableView.findLoop ty find r bDirBackward fuel mapRows t = none := by
  induction fuel generalizing mapRows with
  | zero => rfl
  | succ fuel ih => rw [findLoop_next h hread hk, ih (h.next k.ulObjId)]

/-- A search that reads the same row from two places. -/
theorem findLoop_congr
    (hread : t.queryRows 1 bDirBackward false false = t'.queryRows 1 bDirBackward false false) (fuel : ℕ) :
    ECMemTableView.findLoop ty find r bDirBackward fuel mapRows t =
      ECMemTableView.findLoop ty find r bDirBackward fuel mapRows t' := by
  cases fuel with
  | zero => rfl
  | succ fuel => rw [ECMemTableView.findLoop, ECMemTableView.findLoop, hread]

/-! ## Searching forward -/

/-- The loop returns, with the first row of a list that matches. -/
def LoopFinds (ty : MemTableType P R S I) (find : FindRowType P R) (mapRows : Rows P I) (r : R)
    (m : SObjectTableKey → Bool) (bDirBackward : Bool) (order : List SObjectTableKey) (t : ECKeyTable) : Prop :=
  ∃ fuel res, ECMemTableView.findLoop ty find r bDirBackward fuel mapRows t = some res ∧
    FindsFirst .hrSuccess .MAPI_E_NOT_FOUND order m (res.1, res.2.2)

/-- The loop goes on behind a row that does not match. -/
theorem loopFinds_next (h : MatchesAs ty find mapRows r m)
    (hread : t.queryRows 1 bDirBackward false false = some ([k], t')) (hk : m k = false) (order : List SObjectTableKey) :
    LoopFinds ty find mapRows r m bDirBackward (k :: order) t ↔
      LoopFinds ty find (Rows.at find.noProps mapRows k.ulObjId).2 r m bDirBackward order t' := by
  have hfirst (res : HRESULT × ECKeyTable) : FindsFirst .hrSuccess .MAPI_E_NOT_FOUND (k :: order) m res ↔
      FindsFirst .hrSuccess .MAPI_E_NOT_FOUND order m res := by
    rw [FindsFirst, FindsFirst, List.find?_cons_of_neg (by simp [hk])]
  constructor
  · rintro ⟨fuel, res, hloop, hright⟩
    cases fuel with
    | zero => cases hloop
    | succ fuel => exact ⟨fuel, res, findLoop_next h hread hk fuel ▸ hloop, (hfirst _).mp hright⟩
  · rintro ⟨fuel, res, hloop, hright⟩
    exact ⟨fuel + 1, res, (findLoop_next h hread hk fuel).trans hloop, (hfirst _).mpr hright⟩

/-- The loop ends behind a row that matches: it is right if and only if the cursor goes back to that row. -/
theorem loopFinds_found (h : MatchesAs ty find mapRows r m)
    (hread : t.queryRows 1 bDirBackward false false = some ([k], t')) (hk : m k = true) (hR : Represents t' T)
    (hsmall : count T < 2 ^ 31) (hn : RowNumber t'.lpRoot T t'.lpCurrent n) (dest : ℕ) (hle : dest ≤ count T)
    (hdest : (dest : ℤ) = max 0 (n + (if bDirBackward then 1 else -1 : ℤ))) (order : List SObjectTableKey) :
    LoopFinds ty find mapRows r m bDirBackward (k :: order) t ↔ (visibleKeys T)[dest]? = some k := by
  obtain ⟨t'', hstands, hloop⟩ := findLoop_found h hread hk hR hsmall hn dest hle hdest
  have hfirst (t₁ : ECKeyTable) : FindsFirst HRESULT.hrSuccess .MAPI_E_NOT_FOUND (k :: order) m (.hrSuccess, t₁) ↔
      ReadsNext t₁ k := by
    rw [FindsFirst, List.find?_cons_of_pos hk]
    exact and_iff_right rfl
  rw [← readsNext_iff hstands.represents hstands.rowNumber, ← hfirst]
  constructor
  · rintro ⟨fuel, res, hres, hright⟩
    cases fuel with
    | zero => cases hres
    | succ fuel =>
      rw [hloop] at hres
      cases hres
      exact hright
  · exact fun hright => ⟨1, _, hloop 0, hright⟩

variable {xs : List RowAt}

/-- Forward, from any row on. -/
theorem loopFinds_forward (h : MatchesAs ty find mapRows r m) (hR : Represents t T) (hvis : AllVisible T.toList)
    (hpos : 0 < count T) (hsmall : count T < 2 ^ 31) {s : List RowAt} (hL : T.toList = xs ++ s)
    (hcur : t.lpCurrent = s.head?.map RowAt.addr) : LoopFinds ty find mapRows r m false (s.map RowAt.sKey) t := by
  induction s generalizing t xs mapRows with
  | nil =>
    have hread := queryRows_one_forward hR hvis hpos hL hcur
    rw [show ([] : List RowAt).tail.head?.map RowAt.addr = t.lpCurrent from hcur.symm] at hread
    exact ⟨1, _, findLoop_end hread 0, rfl⟩
  | cons a ys ih =>
    have hread := queryRows_one_forward hR hvis hpos hL hcur
    have hL' : T.toList = (xs ++ [a]) ++ ys := hL.trans (List.append_cons xs a ys)
    have hR' : Represents { t with lpCurrent := ys.head?.map RowAt.addr } T := hR.setCursor (validPos_head _ hL')
    cases hk : m a.sKey with
    | true =>
      have hlen : xs.length ≤ count T := by
        rw [hvis.count_eq, hL, List.length_append]
        exact Nat.le_add_right _ _
      refine (loopFinds_found h hread hk hR' hsmall (hvis.rowNumber t.lpRoot hL') xs.length hlen ?_ _).mpr ?_
      · simp
      · rw [hvis.visibleKeys_eq, hL]
        simp
    | false => exact (loopFinds_next h hread hk _).mpr (ih (h.next a.sKey.ulObjId) hR' hL' rfl)

/-! ## Searching backward -/

/-- When a backward search from a row is right: a row matches, and the first one that does is neither the root nor the
first row of the table, nor behind the root. -/
def SearchesBack (T : AvlTree RowAt) (m : SObjectTableKey → Bool) (n : ℕ) : Prop :=
  ∃ i, (readingOrder T true n).findIdx? m = some i ∧ i < n ∧ (rootNumber T < n - i ∨ n < rootNumber T)

/-- Behind a row that does not match and is neither the root nor the first row. -/
theorem searchesBack_succ (horder : readingOrder T true (n + 1) = k :: readingOrder T true n)
    (hk : m k = false) (hroot : n + 1 ≠ rootNumber T) : SearchesBack T m (n + 1) ↔ SearchesBack T m n := by
  rw [SearchesBack, SearchesBack, horder, List.findIdx?_cons, hk]
  constructor
  · rintro ⟨i, hfind, hi, hside⟩
    obtain ⟨i, hfind', rfl⟩ := Option.map_eq_some_iff.mp hfind
    exact ⟨i, hfind', by omega, by omega⟩
  · rintro ⟨i, hfind, hi, hside⟩
    refine ⟨i + 1, ?_, by omega, by omega⟩
    rw [hfind]
    rfl

/-- A row that does not match, at the root or in front of all rows: nothing behind it counts. -/
theorem not_searchesBack {order : List SObjectTableKey}
    (horder : readingOrder T true n = k :: order) (hk : m k = false) (hstop : n = rootNumber T ∨ n = 0) :
    ¬ SearchesBack T m n := by
  rw [SearchesBack, horder, List.findIdx?_cons, hk]
  rintro ⟨i, hfind, hi, hside⟩
  obtain ⟨i, -, rfl⟩ := Option.map_eq_some_iff.mp hfind
  omega

theorem not_loopFinds (h : MatchesAs ty find mapRows r m)
    (hread : t.queryRows 1 bDirBackward false false = some ([k], t)) (hk : m k = false) (order : List SObjectTableKey) :
    ¬ LoopFinds ty find mapRows r m bDirBackward order t := by
  rintro ⟨fuel, res, hloop, -⟩
  rw [findLoop_spins h hread hk] at hloop
  cases hloop

/-- Backward, on a row that matches. -/
theorem loopFinds_backward_found (h : MatchesAs ty find mapRows r m) (hR : Represents t T) (hvis : AllVisible T.toList)
    (hsmall : count T < 2 ^ 31) {ys : List RowAt} {a : RowAt} (hL : T.toList = xs ++ a :: ys)
    (hcur : t.lpCurrent = some a.addr) (hk : m a.sKey = true) :
    LoopFinds ty find mapRows r m true (readingOrder T true xs.length) t ↔ SearchesBack T m xs.length := by
  have hread := queryRows_one_backward hR hvis hL hcur
  have hnumber := rowNumber_prevPlace hR hvis hL
  have hcount : xs.length < count T := by
    rw [hvis.count_eq, hL, List.length_append, List.length_cons]
    omega
  have hprev : prevNumber T xs.length + 1 ≤ count T := by
    rw [prevNumber]
    split_ifs <;> omega
  have hkey : (visibleKeys T)[xs.length]? = some a.sKey := by
    rw [hvis.visibleKeys_eq, hL]
    simp
  have hdest : (visibleKeys T)[prevNumber T xs.length + 1]? = some a.sKey ↔ prevNumber T xs.length + 1 = xs.length := by
    rw [← hkey, eq_comm]
    refine (List.getElem?_inj ?_ (nodup_visibleKeys hR)).trans eq_comm
    rw [length_visibleKeys]
    exact hcount
  rw [hvis.readingOrder_backward hL, loopFinds_found h hread hk (hR.setCursor hnumber.validPos) hsmall hnumber
    (prevNumber T xs.length + 1) hprev (by simp; omega), hdest, SearchesBack, hvis.readingOrder_backward hL,
    List.findIdx?_cons, hk, prevNumber]
  constructor
  · intro heq
    refine ⟨0, rfl, ?_⟩
    split_ifs at heq <;> omega
  · rintro ⟨i, hfind, hi, hside⟩
    obtain rfl : 0 = i := Option.some.inj hfind
    split_ifs <;> omega

/-- Backward, from any row on. -/
theorem loopFinds_backward (h : MatchesAs ty find mapRows r m) (hR : Represents t T) (hvis : AllVisible T.toList)
    (hsmall : count T < 2 ^ 31) {ys : List RowAt} {a : RowAt} (hL : T.toList = xs ++ a :: ys)
    (hcur : t.lpCurrent = some a.addr) :
    LoopFinds ty find mapRows r m true (readingOrder T true xs.length) t ↔ SearchesBack T m xs.length := by
  induction xs using List.reverseRecOn generalizing t a ys mapRows with
  | nil =>
    cases hk : m a.sKey with
    | true => exact loopFinds_backward_found h hR hvis hsmall hL hcur hk
    | false =>
      have horder := hvis.readingOrder_backward hL
      refine iff_of_false ?_ (not_searchesBack horder hk (.inr rfl))
      have hread := queryRows_one_backward hR hvis hL hcur
      by_cases hroot : addr? T = some a.addr
      · rw [prevPlace, if_pos hroot, setCursor_self hcur] at hread
        exact not_loopFinds h hread hk _
      · -- the cursor is on the sentinel, and the next read is of the first row again
        rw [prevPlace, if_neg hroot] at hread
        rw [horder, loopFinds_next h hread hk]
        have hR' : Represents { t with lpCurrent := some (lastAddr t.lpRoot []) } T := hR.setCursor (.inr (.inl rfl))
        exact not_loopFinds (h.next _) (queryRows_one_sentinel hR' hvis hL rfl hroot) hk _
  | append_singleton xs b ih =>
    cases hk : m a.sKey with
    | true => exact loopFinds_backward_found h hR hvis hsmall hL hcur hk
    | false =>
      have hread := queryRows_one_backward hR hvis hL hcur
      by_cases hroot : addr? T = some a.addr
      · refine iff_of_false ?_ (not_searchesBack (hvis.readingOrder_backward hL) hk
          (.inl ((addr?_eq_iff hR hvis hL).mp hroot)))
        rw [prevPlace, if_pos hroot, setCursor_self hcur] at hread
        exact not_loopFinds h hread hk _
      · have hL' : T.toList = xs ++ b :: a :: ys := hL.trans (List.append_cons xs b (a :: ys)).symm
        have hlast : lastAddr t.lpRoot (xs ++ [b]) = b.addr := by simp [lastAddr]
        have hlen : (xs ++ [b]).length = xs.length + 1 := by rw [List.length_append, List.length_singleton]
        have hne : xs.length + 1 ≠ rootNumber T := hlen ▸ fun he => hroot ((addr?_eq_iff hR hvis hL).mpr he)
        have hR' : Represents { t with lpCurrent := some b.addr } T :=
          hR.setCursor (.inr (.inr ⟨b, by simp [hL], rfl⟩))
        rw [prevPlace, if_neg hroot, hlast] at hread
        have horder := hvis.readingOrder_succ hL
        rw [hlen, searchesBack_succ horder hk hne, horder, loopFinds_next h hread hk]
        exact ih (h.next _) hR' hL' rfl

/-- Backward, from any place: from past the last row, the last row is the first that is read. -/
theorem loopFinds_backward_place (h : MatchesAs ty find mapRows r m) (hR : Represents t T) (hvis : AllVisible T.toList)
    (hpos : 0 < count T) (hsmall : count T < 2 ^ 31) {s : List RowAt} (hL : T.toList = xs ++ s)
    (hcur : t.lpCurrent = s.head?.map RowAt.addr) :
    LoopFinds ty find mapRows r m true (readingOrder T true xs.length) t ↔
      SearchesBack T m (min xs.length (count T - 1)) := by
  have hcount := hvis.count_eq
  rw [hL, List.length_append] at hcount
  cases s with
  | cons a ys =>
    rw [List.length_cons] at hcount
    rw [min_eq_left (by omega)]
    exact loopFinds_backward h hR hvis hsmall hL hcur
  | nil =>
    rw [List.length_nil, Nat.add_zero] at hcount
    obtain ⟨t₁, hstands, hread⟩ := queryRows_one_end hR hvis hpos hsmall hcur
    obtain ⟨xs', a, ys, hL', hxs', -, hcur'⟩ := hstands.row (by omega)
      (seeksVisible_of_visible hstands.represents hvis (by omega))
    rw [visibleRows_eq_length (hvis.left hL')] at hxs'
    rw [← hcount, min_eq_right (Nat.sub_le _ _), readingOrder_end hpos, ← hxs',
      ← loopFinds_backward h hstands.represents hvis hsmall hL' hcur']
    simp only [LoopFinds, findLoop_congr hread]

/-! ## All searches -/

/-- The row that is looked up at once. -/
def lookedUp (find : FindRowType P R) (r : R) (bkOrigin : ℕ) : Option ℕ :=
  if bkOrigin = BOOKMARK_BEGINNING then find.rowIdOf r else none

/-- `FindRow` returns and does what it is for. -/
def FindsRow (ty : MemTableType P R S I) (find : FindRowType P R) (view : ECMemTableView R S) (mapRows : Rows P I) (r : R)
    (T : AvlTree RowAt) (bkOrigin : ℕ) (bDirBackward : Bool) (n : ℕ) : Prop :=
  ∃ fuel res, view.findRow ty find fuel mapRows (some r) bkOrigin bDirBackward = some res ∧
    FindsFirst .hrSuccess .MAPI_E_NOT_FOUND (readingOrder T bDirBackward n) (rowMatches ty find mapRows r)
      (res.1, res.2.2.lpKeyTable)

/-- A row that is looked up is the first one that matches; and a backward search is in an empty table, or it is right. -/
def LooksRight (find : FindRowType P R) (r : R) (m : SObjectTableKey → Bool) (T : AvlTree RowAt) (bkOrigin : ℕ)
    (bDirBackward : Bool) (n : ℕ) : Prop :=
  match lookedUp find r bkOrigin with
  | some ulObjId => LooksAhead T (readingOrder T bDirBackward n) m (rowItem ulObjId)
  | none => bDirBackward = true → 0 < count T → SearchesBack T m (min (startRow bkOrigin true n) (count T - 1))

variable {view : ECMemTableView R S}

/-- A search that is not looked up at once, from the end of its seek. -/
theorem findsRow_iff_loopFinds (ty : MemTableType P R S I) (mapRows : Rows P I) (bDirBackward : Bool)
    (hR : Represents view.lpKeyTable T) (hsmall : count T < 2 ^ 31) {bkOrigin : ℕ}
    (hn : StartsAt view.lpKeyTable T bkOrigin n) (hsearch : lookedUp find r bkOrigin = none) :
    ∃ t₁, StandsAt t₁ T (startRow bkOrigin bDirBackward n) ∧
      (FindsRow ty find view mapRows r T bkOrigin bDirBackward n ↔
        LoopFinds ty find mapRows r (rowMatches ty find mapRows r) bDirBackward (readingOrder T bDirBackward n) t₁) := by
  obtain ⟨sought, t₁, hseek, hstands, -⟩ := seekRow_start hR hsmall bDirBackward hn
  have hseek' : ECMemTableView.seekRow view.lpKeyTable bkOrigin (startSeek bkOrigin bDirBackward) =
      some (.hrSuccess, t₁) := by
    rw [ECMemTableView.seekRow, hseek]
    rfl
  have hrow (fuel : ℕ) : view.findRow ty find fuel mapRows (some r) bkOrigin bDirBackward =
      (ECMemTableView.findLoop ty find r bDirBackward fuel mapRows t₁).map fun res =>
        (res.1, res.2.1, { view with lpKeyTable := res.2.2 }) := by
    rw [lookedUp] at hsearch
    simp only [ECMemTableView.findRow, hsearch, hseek', Option.bind_eq_bind, Option.bind_some, zarafaErrorToMAPIErrorAgain,
      ne_eq, not_true_eq_false, if_false]
    cases ECMemTableView.findLoop ty find r bDirBackward fuel mapRows t₁ with
    | none => rfl
    | some res => rfl
  refine ⟨t₁, hstands, ?_⟩
  constructor
  · rintro ⟨fuel, res, hres, hright⟩
    rw [hrow, Option.map_eq_some_iff] at hres
    obtain ⟨res', hloop, rfl⟩ := hres
    exact ⟨fuel, res', hloop, hright⟩
  · rintro ⟨fuel, res, hloop, hright⟩
    refine ⟨fuel, (res.1, res.2.1, { view with lpKeyTable := res.2.2 }), ?_, hright⟩
    rw [hrow, hloop]
    rfl

/-- In an empty table. -/
theorem loopFinds_empty (h : StandsAt t T n) (hzero : count T = 0) (bDirBackward : Bool) (k : ℕ) :
    LoopFinds ty find mapRows r m bDirBackward (readingOrder T bDirBackward k) t := by
  have hcur : t.lpCurrent = some t.lpRoot := by
    have hland := h.landed
    rwa [Landed, if_pos hzero] at hland
  have hkeys : visibleKeys T = [] := List.length_eq_zero_iff.mp ((length_visibleKeys T).trans hzero)
  have horder : readingOrder T bDirBackward k = [] := by
    rw [readingOrder, hkeys]
    cases bDirBackward <;> simp
  refine ⟨1, _, findLoop_end (queryRows_one_empty h.represents hcur hzero bDirBackward) 0, ?_⟩
  rw [horder]
  rfl

theorem findsRow_iff_looksRight (hs : mapRows.Sorted) (hR : Represents view.lpKeyTable T) (hvis : AllVisible T.toList)
    (hsmall : count T < 2 ^ 31) {bkOrigin : ℕ} (hn : StartsAt view.lpKeyTable T bkOrigin n) :
    FindsRow ty find view mapRows r T bkOrigin bDirBackward n ↔
      LooksRight find r (rowMatches ty find mapRows r) T bkOrigin bDirBackward n := by
  rw [LooksRight]
  cases hsearch : lookedUp find r bkOrigin with
  | some id =>
    have hrow (fuel : ℕ) : view.findRow ty find fuel mapRows (some r) bkOrigin bDirBackward =
        some (zarafaErrorToMAPIError (view.lpKeyTable.seekId (rowItem id)).1, mapRows,
          { view with lpKeyTable := (view.lpKeyTable.seekId (rowItem id)).2 }) := by
      have hsearch' := hsearch
      rw [lookedUp] at hsearch'
      simp only [ECMemTableView.findRow, hsearch', rowItem]
    refine Iff.trans ?_ (findsFirst_seekId_iff (f := zarafaErrorToMAPIError) (by decide) hR)
    constructor
    · rintro ⟨fuel, res, hres, hright⟩
      rw [hrow] at hres
      cases hres
      exact hright
    · exact fun hright => ⟨0, _, hrow 0, hright⟩
  | none =>
    have hm : MatchesAs ty find mapRows r (rowMatches ty find mapRows r) := ⟨hs, fun _ => rfl⟩
    obtain ⟨t₁, hstands, hiff⟩ := findsRow_iff_loopFinds ty mapRows bDirBackward hR hsmall hn hsearch
    rw [hiff]
    rcases Nat.eq_zero_or_pos (count T) with hzero | hpos
    · exact iff_of_true (loopFinds_empty hstands hzero bDirBackward n) fun _ h => absurd hzero h.ne'
    · obtain ⟨xs, s, hL, hxs, hcur⟩ := hstands.split hvis hpos
      cases bDirBackward with
      | false =>
        have hstart : startRow bkOrigin false n = n := if_neg fun h => Bool.false_ne_true h.2
        have horder : readingOrder T false n = s.map RowAt.sKey := by
          rw [readingOrder, if_neg Bool.false_ne_true, hvis.visibleKeys_eq, hL, ← hxs.trans hstart, List.map_append,
            List.drop_left' (List.length_map _)]
        rw [horder]
        exact iff_of_true (loopFinds_forward hm hstands.represents hvis hpos hsmall hL hcur)
          fun h => absurd h Bool.false_ne_true
      | true =>
        refine Iff.trans ?_ ⟨fun h _ _ => h, fun h => h rfl hpos⟩
        rw [readingOrder_startRow hn, ← hxs]
        exact loopFinds_backward_place hm hstands.represents hvis hpos hsmall hL hcur

end Search

/-! ## Both tables -/

/-- No row of a view is hidden. -/
theorem keptByViews_visible [CollationKeys] : KeptByViews ECKeyTable.Visible where
  new := visible_new
  updateRow h ulType ulId cols := h.updateRow ulType (rowItem ulId) cols
  clear h := h.clear
  seekRow h := h.seekRow

/-- A view with its cursor at some place. -/
def ECMemTableView.withCursor (view : ECMemTableView R S) (pos : Option Addr) : ECMemTableView R S :=
  { view with lpKeyTable := { view.lpKeyTable with lpCurrent := pos } }

/-- In every run, a search in a view is right as `LooksRight` says, wherever the cursor stands. -/
theorem run_findRow [CollationKeys] (ty : MemTableType P R S I) (find : FindRowType P R) (ops : List (MemTableOp P R S I)) :
    Yields (MemTableOp.run ty .new ops) fun t => ∀ view ∈ t.lstViews, ∃ T, Represents view.lpKeyTable T ∧
      (count T < 2 ^ 31 → ∀ pos, ValidPos view.lpKeyTable.lpRoot T.toList pos → ∀ r bkOrigin bDirBackward n,
        StartsAt (view.withCursor pos).lpKeyTable T bkOrigin n →
        (FindsRow ty find (view.withCursor pos) t.mapRows r T bkOrigin bDirBackward n ↔
          LooksRight find r (rowMatches ty find t.mapRows r) T bkOrigin bDirBackward n)) := by
  refine (run_keeps keptByViews_visible viewsHave_new ops).imp fun t ht view hview => ?_
  obtain ⟨T, hR, hvis⟩ := ht.views view hview
  refine ⟨T, hR, fun hsmall pos hpos r bkOrigin bDirBackward n hn => ?_⟩
  have hR' : Represents (view.withCursor pos).lpKeyTable T := hR.setCursor hpos
  exact findsRow_iff_looksRight ht.sorted hR' hvis hsmall hn

/-- Rows that are a number and a flag, with no restriction that looks up a row. -/
def flagFind : FindRowType (ℕ × Bool) Bool where
  rowIdOf _ := none
  noProps := (0, false)

/-- A view of one row. -/
def oneRow : List (MemTableOp (ℕ × Bool) Bool Unit Unit) := [.hrGetView, .hrModifyRow .TABLE_ROW_ADD none (7, true)]

/-- Its key table has one row. -/
theorem oneRow_count :
    letI : CollationKeys := .bytewise
    ∀ t, MemTableOp.run flagTable .new oneRow = some t → ∃ view ∈ t.lstViews, view.lpKeyTable.rowCount = some 1 := by
  let _ : CollationKeys := .bytewise
  intro t ht
  have hone : (MemTableOp.run flagTable .new oneRow).map (fun t => t.lstViews.map fun view => view.lpKeyTable.rowCount) =
      some [some 1] := by
    decide +kernel
  rw [ht, Option.map_some, Option.some.injEq] at hone
  have hmem : some 1 ∈ t.lstViews.map fun view => view.lpKeyTable.rowCount := by
    rw [hone]
    exact List.mem_singleton_self _
  exact List.mem_map.mp hmem

open Zcp.Libserver in
/-- A restriction that matches row 7. -/
def sevenData : ECGenericObjectTable.FindData Unit where
  matchRow _ k := .ok (k.ulObjId == 7)
  GetObjectFromEntryId _ := .error .ZARAFA_E_NOT_FOUND
  fails h := by
    cases h
    decide

end Zcp.M4lcommon
