import Mathlib.Data.List.TakeWhile
import Zcp.Common.ECKeyTable.Cursor

/-!
# Searching a table

`FindRow` of a table and of a memory table reads rows with `QueryRows` and goes to the row it finds with `SeekRow`.
Here is what these calls do by row number, and what it means that a search finds the first row that matches.
-/

namespace Zcp.Common

open Zcp.Lib

def BOOKMARK_BEGINNING : ℕ := 0
def BOOKMARK_CURRENT : ℕ := 1
def BOOKMARK_END : ℕ := 2

/-- The keys of the visible rows. -/
def visibleKeys (T : AvlTree RowAt) : List SObjectTableKey := (visibleList T.toList).map RowAt.sKey

/-- The visible rows in reading order, from a row number on; from past the last row, reading backward starts with the
last row. -/
def readingOrder (T : AvlTree RowAt) (bDirBackward : Bool) (n : ℕ) : List SObjectTableKey :=
  if bDirBackward then ((visibleKeys T).take (n + 1)).reverse else (visibleKeys T).drop n

/-- The row number of a bookmark. -/
def StartsAt (t : ECKeyTable) (T : AvlTree RowAt) (ulBookmark n : ℕ) : Prop :=
  (ulBookmark = BOOKMARK_BEGINNING ∧ n = 0) ∨
    (ulBookmark = BOOKMARK_CURRENT ∧ RowNumber t.lpRoot T t.lpCurrent n) ∨
      (ulBookmark = BOOKMARK_END ∧ n = count T)

/-- A following `QueryRows(1)` returns row `k`. -/
def ReadsNext (t : ECKeyTable) (k : SObjectTableKey) : Prop :=
  (t.queryRows 1 false false false).map Prod.fst = some [k]

/-- A search through `order` succeeds with the first row that matches, and fails with `notFound` exactly when there is
none. -/
def FindsFirst {ε : Type} (success notFound : ε) (order : List SObjectTableKey) (m : SObjectTableKey → Bool)
    (res : ε × ECKeyTable) : Prop :=
  match order.find? m with
  | some k => res.1 = success ∧ ReadsNext res.2 k
  | none => res.1 = notFound

/-- Where `SeekRow` puts the cursor for a row number. -/
def ECKeyTable.place (t : ECKeyTable) (lDestRow : ℤ) : Option (Option Addr) := do
  if (← t.rowCount) = 0 then some (some t.lpRoot)
  else do
    let root ← t.heap t.lpRoot
    seekRowLoop t.heap t.fuel (← root.lpRight) lDestRow

/-- `SeekRow` finds a visible row for the row number. -/
def ECKeyTable.SeeksVisible (t : ECKeyTable) (n : ℕ) : Prop :=
  ∀ a row, t.place n = some (some a) → t.heap a = some row → row.fHidden = false

variable {t : ECKeyTable} {T : AvlTree RowAt}

theorem length_visibleKeys (T : AvlTree RowAt) : (visibleKeys T).length = count T := by
  rw [visibleKeys, List.length_map, length_visibleList, ← count_eq_visibleRows]

theorem nodup_visibleKeys (hR : Represents t T) : (visibleKeys T).Nodup :=
  hR.keys.sublist ((List.filter_sublist (l := T.toList)).map RowAt.sKey)

variable {n : ℕ}

theorem length_readingOrder (hn : n < count T) : (readingOrder T true n).length = n + 1 := by
  show ((visibleKeys T).take (n + 1)).reverse.length = _
  rw [List.length_reverse, List.length_take, length_visibleKeys, min_eq_left hn]

theorem drop_readingOrder {s : ℕ} (hn : n < count T) (hs : s ≤ n) :
    (readingOrder T true n).drop s = readingOrder T true (n - s) := by
  show ((visibleKeys T).take (n + 1)).reverse.drop s = ((visibleKeys T).take (n - s + 1)).reverse
  rw [List.drop_reverse, List.length_take, length_visibleKeys, min_eq_left hn, List.take_take, min_eq_left (by omega),
    Nat.sub_add_comm hs]

theorem readingOrder_end (hpos : 0 < count T) : readingOrder T true (count T) = readingOrder T true (count T - 1) := by
  have hlen := length_visibleKeys T
  show ((visibleKeys T).take (count T + 1)).reverse = ((visibleKeys T).take (count T - 1 + 1)).reverse
  rw [List.take_of_length_le (by omega), List.take_of_length_le (by omega)]

/-! ## Seeking -/

/-- `SeekRow` from any origin goes to the place of the clamped row number. -/
theorem seekRow_eq_place (org : ℕ) (hH : Holds t T) {k cur dest : ℤ} {er : ECRESULT}
    (hcur : t.currentRow t.lpCurrent = some cur) (hdest : t.seekDest org k (count T) cur = some (er, some dest)) :
    ∃ sought, t.seekRow org k = (t.place (clampRow (count T) dest)).map fun pos =>
      (er, some sought, { t with lpCurrent := pos }) := by
  have hclamp : (if (if dest < 0 then 0 else dest) ≥ (count T : ℤ) then (count T : ℤ)
      else if dest < 0 then 0 else dest) = clampRow (count T) dest := by
    rw [clampRow]
    split_ifs <;> omega
  refine ⟨if org = EC_SEEK_SET then clampRow (count T) dest
    else if org = EC_SEEK_END then clampRow (count T) dest - count T else clampRow (count T) dest - cur, ?_⟩
  rw [ECKeyTable.seekRow, ECKeyTable.getRowCount, hcur, ECKeyTable.place, rowCount_spec hH.has]
  simp only [Option.bind_eq_bind, Option.bind_some, hdest, hclamp]
  by_cases hV : count T = 0
  · rw [if_pos hV, if_pos hV]
    rfl
  · rw [if_neg hV, if_neg hV]
    rcases t.heap t.lpRoot with _ | root
    · rfl
    · rcases hright : root.lpRight with _ | lpRow
      · simp [hright]
      · simp only [hright, Option.bind_some]
        cases seekRowLoop t.heap t.fuel lpRow (clampRow (count T) dest) with
        | none => rfl
        | some pos => rfl

/-- The cursor stands where `SeekRow` puts it for row number `n`. -/
structure StandsAt (t : ECKeyTable) (T : AvlTree RowAt) (n : ℕ) : Prop where
  represents : Represents t T
  le : n ≤ count T
  place : t.place n = some t.lpCurrent

/-- For every row number up to the count there is a place, and `SeekRow` lands there. -/
theorem place_lands (hR : Represents t T) (hn : n ≤ count T) :
    ∃ pos, t.place n = some pos ∧ Landed t.lpRoot T n pos := by
  obtain ⟨c, hc⟩ := hR.cursor.rowNumber
  have hcur := currentRow_spec hR.holds hc
  obtain ⟨pos, hseek, hland⟩ := seekRow_set_lands hR.holds hcur n
  obtain ⟨sought, hplace⟩ := seekRow_eq_place EC_SEEK_SET hR.holds (k := n) hcur rfl
  have hclamp : clampRow (count T) n = n := by
    rw [clampRow]
    omega
  rw [hclamp] at hland hplace
  rw [hseek, eq_comm, Option.map_eq_some_iff] at hplace
  obtain ⟨pos', hplace, heq⟩ := hplace
  obtain rfl : pos' = pos := congrArg (fun res => res.2.2.lpCurrent) heq
  exact ⟨pos', hplace, hland⟩

theorem StandsAt.landed (h : StandsAt t T n) : Landed t.lpRoot T n t.lpCurrent := by
  obtain ⟨pos, hplace, hland⟩ := place_lands h.represents h.le
  obtain rfl : pos = t.lpCurrent := Option.some.inj (hplace.symm.trans h.place)
  exact hland

theorem StandsAt.rowNumber (h : StandsAt t T n) : RowNumber t.lpRoot T t.lpCurrent n :=
  h.landed.rowNumber (Int.natCast_nonneg n) (Int.ofNat_le.mpr h.le)

/-- `SeekRow` to a row number. -/
theorem seekRow_standsAt (dest : ℕ) (hR : Represents t T) {org : ℕ} {k : ℤ}
    (hn : RowNumber t.lpRoot T t.lpCurrent n) {d : ℤ}
    (hd : t.seekDest org k (count T) n = some (.erSuccess, some d)) (hdest : clampRow (count T) d = dest) :
    ∃ sought t', t.seekRow org k = some (.erSuccess, some sought, t') ∧ StandsAt t' T dest ∧
      t' = { t with lpCurrent := t'.lpCurrent } ∧ (org = EC_SEEK_CUR → sought = dest - n) := by
  have hcur := currentRow_spec hR.holds hn
  obtain ⟨pos, sought, hseek, hland, -, hsought⟩ := seekRow_lands hR.holds hcur hd
  obtain ⟨sought', hplace⟩ := seekRow_eq_place org hR.holds hcur hd
  rw [hseek, eq_comm, Option.map_eq_some_iff] at hplace
  obtain ⟨pos', hplace, heq⟩ := hplace
  obtain rfl : pos' = pos := congrArg (fun res => res.2.2.lpCurrent) heq
  have hle : dest ≤ count T := by
    rw [clampRow] at hdest
    omega
  rw [hdest] at hland hplace hsought
  have hpos := (hland.rowNumber (Int.natCast_nonneg dest) (Int.ofNat_le.mpr hle)).validPos
  exact ⟨sought, _, hseek, ⟨hR.setCursor hpos, hle, hplace⟩, rfl, hsought⟩

/-- `SeekRow` relative to the cursor goes to the row number that is meant, and not before the first row. -/
theorem seekRow_cur_standsAt (dest : ℕ) (hR : Represents t T) {k : ℤ} (hn : RowNumber t.lpRoot T t.lpCurrent n)
    (hsmall : count T < 2 ^ 31) (hlo : -2 ^ 31 ≤ k) (hhi : n + k ≤ count T) (hdest : dest = max 0 (n + k)) :
    ∃ t', t.seekRow EC_SEEK_CUR k = some (.erSuccess, some ((dest : ℤ) - n), t') ∧ StandsAt t' T dest ∧
      t' = { t with lpCurrent := t'.lpCurrent } := by
  have hint : toInt (n + k) = n + k := toInt_eq (by omega) (by omega)
  have hd : t.seekDest EC_SEEK_CUR k (count T) n = some (.erSuccess, some (toInt (n + k))) := rfl
  obtain ⟨sought, t', hseek, hstands, hframe, hsought⟩ := seekRow_standsAt dest hR hn hd (by
    rw [hint, clampRow]
    omega)
  exact ⟨t', hsought rfl ▸ hseek, hstands, hframe⟩

/-- The seek at the start of a search. -/
def startSeek (ulBookmark : ℕ) (bDirBackward : Bool) : ℤ :=
  if ulBookmark = BOOKMARK_END ∧ bDirBackward then -1 else 0

/-- The row number that the seek at the start of a search goes to. -/
def startRow (ulBookmark : ℕ) (bDirBackward : Bool) (n : ℕ) : ℕ :=
  if ulBookmark = BOOKMARK_END ∧ bDirBackward then n - 1 else n

/-- A search starts where its bookmark says: at the beginning, at the cursor, or at the end; backward from the end
it starts at the last row. -/
theorem seekRow_start (hR : Represents t T) (hsmall : count T < 2 ^ 31) {ulBookmark : ℕ} (bDirBackward : Bool)
    (hn : StartsAt t T ulBookmark n) :
    ∃ sought t', t.seekRow ulBookmark (startSeek ulBookmark bDirBackward) = some (.erSuccess, some sought, t') ∧
      StandsAt t' T (startRow ulBookmark bDirBackward n) ∧ t' = { t with lpCurrent := t'.lpCurrent } := by
  obtain ⟨c, hc⟩ := hR.cursor.rowNumber
  rcases hn with ⟨rfl, rfl⟩ | ⟨rfl, hn⟩ | ⟨rfl, rfl⟩
  · have hd : t.seekDest EC_SEEK_SET 0 (count T) c = some (.erSuccess, some 0) := rfl
    obtain ⟨sought, t', hseek, hstands, hframe, -⟩ := seekRow_standsAt 0 hR hc hd (by
      rw [clampRow]
      omega)
    exact ⟨sought, t', hseek, hstands, hframe⟩
  · have hnV : n ≤ count T := by
      rcases hn with ⟨-, rfl⟩ | ⟨-, rfl⟩ | ⟨xs, a, ys, hL, -, rfl⟩
      · exact le_rfl
      · exact Nat.zero_le _
      · rw [count_eq_visibleRows, hL, visibleRows_append]
        omega
    obtain ⟨t', hseek, hstands, hframe⟩ := seekRow_cur_standsAt n (k := 0) hR hn hsmall (by omega)
      (by omega) (by omega)
    exact ⟨_, t', hseek, hstands, hframe⟩
  · have hint (k : ℤ) (hk : k ≤ 0) (hlo : -2 ^ 31 ≤ k) : toInt (count T + k) = count T + k :=
      toInt_eq (by omega) (by omega)
    have hd (k : ℤ) : t.seekDest EC_SEEK_END k (count T) c = some (.erSuccess, some (toInt (count T + k))) := rfl
    cases bDirBackward with
    | false =>
      obtain ⟨sought, t', hseek, hstands, hframe, -⟩ := seekRow_standsAt (count T) hR hc (hd 0) (by
        rw [hint 0 le_rfl (by omega), clampRow]
        omega)
      exact ⟨sought, t', hseek, hstands, hframe⟩
    | true =>
      obtain ⟨sought, t', hseek, hstands, hframe, -⟩ := seekRow_standsAt (count T - 1) hR hc (hd (-1)) (by
        rw [hint (-1) (by omega) (by omega), clampRow]
        omega)
      exact ⟨sought, t', hseek, hstands, hframe⟩

/-- The rows that a backward search reads are those from where it starts. -/
theorem readingOrder_startRow {ulBookmark : ℕ} (hn : StartsAt t T ulBookmark n) :
    readingOrder T true n = readingOrder T true (startRow ulBookmark true n) := by
  rw [startRow]
  split_ifs with hend
  · rcases hn with ⟨rfl, -⟩ | ⟨rfl, -⟩ | ⟨-, rfl⟩
    · exact absurd hend.1 (by decide)
    · exact absurd hend.1 (by decide)
    · rcases Nat.eq_zero_or_pos (count T) with hz | hpos
      · rw [hz]
      · exact readingOrder_end hpos
  · rfl

/-! ## Reading -/

variable {bShowHidden bDirBackward : Bool} {keys : List SObjectTableKey}

/-- With `EC_TABLE_NOADVANCE` a read leaves the table as it is. -/
theorem queryRows_noAdvance {pos : Option Addr}
    (h : t.queryRows n bDirBackward true bShowHidden = some (keys, { t with lpCurrent := pos })) :
    pos = t.lpCurrent := by
  rw [ECKeyTable.queryRows] at h
  obtain ⟨t₁, -, h⟩ := Option.bind_eq_some_iff.mp h
  obtain ⟨V, -, h⟩ := Option.bind_eq_some_iff.mp h
  obtain ⟨⟨keys', t₂⟩, -, h⟩ := Option.bind_eq_some_iff.mp h
  exact (congrArg (fun res => res.2.lpCurrent) (Option.some.inj h)).symm

/-- `QueryRows` returns no more rows than it was asked for. -/
theorem length_queryRowsLoop_le {fuel ulRows : ℕ}
    {t' : ECKeyTable} (h : ECKeyTable.queryRowsLoop bDirBackward bShowHidden fuel t ulRows = some (keys, t')) :
    keys.length ≤ ulRows := by
  induction fuel generalizing t t' ulRows keys with
  | zero => cases h
  | succ fuel ih =>
    rw [ECKeyTable.queryRowsLoop] at h
    by_cases hzero : ulRows = 0
    · rw [if_pos hzero] at h
      cases h
      exact Nat.zero_le _
    rw [if_neg hzero] at h
    cases hcur : t.lpCurrent with
    | none =>
      rw [hcur] at h
      cases h
      exact Nat.zero_le _
    | some lpCurrent =>
      rw [hcur] at h
      obtain ⟨row, -, h⟩ := Option.bind_eq_some_iff.mp h
      obtain ⟨root, -, h⟩ := Option.bind_eq_some_iff.mp h
      -- the row of this turn is counted when it is shown
      have hfound : (if (!row.fHidden || bShowHidden) = true then [row.sKey] else []).length +
          (if (!row.fHidden || bShowHidden) = true then ulRows - 1 else ulRows) = ulRows := by
        split_ifs
        · rw [List.length_singleton]
          omega
        · exact Nat.zero_add _
      by_cases hstop : (bDirBackward && root.lpRight == some lpCurrent) = true
      · rw [if_pos hstop] at h
        cases h
        omega
      · rw [if_neg hstop] at h
        cases bDirBackward <;>
        · obtain ⟨t₁, -, h⟩ := Option.bind_eq_some_iff.mp h
          obtain ⟨⟨rest, t₂⟩, hrest, h⟩ := Option.bind_eq_some_iff.mp h
          have hle := ih hrest
          cases h
          rw [List.length_append]
          omega

/-- `QueryRows` returns no more rows than it is asked for. -/
theorem length_queryRows_le {noAdvance : Bool}
    {t' : ECKeyTable} (h : t.queryRows n bDirBackward noAdvance bShowHidden = some (keys, t')) : keys.length ≤ n := by
  rw [ECKeyTable.queryRows] at h
  obtain ⟨t₁, -, h⟩ := Option.bind_eq_some_iff.mp h
  obtain ⟨ulCount, -, h⟩ := Option.bind_eq_some_iff.mp h
  obtain ⟨⟨keys', t₂⟩, hread, h⟩ := Option.bind_eq_some_iff.mp h
  obtain rfl : keys' = keys := congrArg Prod.fst (Option.some.inj h)
  have hle := length_queryRowsLoop_le hread
  split_ifs at hle <;> omega

theorem queryRows_forward_block (hR : Represents t T) (hn : RowNumber t.lpRoot T t.lpCurrent n) (k : ℕ) :
    t.queryRows k false true false = some ((readingOrder T false n).take k, t) := by
  obtain ⟨pos, hread, -⟩ := queryRows_forward hR hn k true
  obtain rfl := queryRows_noAdvance hread
  rw [hread, List.map_take, List.map_drop]
  rfl

variable {k : SObjectTableKey}

theorem readsNext_iff (hR : Represents t T) (hn : RowNumber t.lpRoot T t.lpCurrent n) :
    ReadsNext t k ↔ (visibleKeys T)[n]? = some k := by
  obtain ⟨pos, hread, -⟩ := queryRows_forward hR hn 1 false
  rw [ReadsNext, hread, Option.map_some, Option.some.injEq, List.map_take, List.map_drop, ← visibleKeys]
  rw [← List.head?_drop]
  cases (visibleKeys T).drop n with
  | nil => simp
  | cons k' rest => simp

/-! ## Reading a block backward -/

/-- The row number of the root of the tree. -/
def rootNumber : AvlTree RowAt → ℕ
  | .nil => 0
  | .node l _ _ => visibleRows l.toList

/-- How many rows a block of at most `k` rows has that is read backward from row `n`: it ends at the root. -/
def blockSize (T : AvlTree RowAt) (n k : ℕ) : ℕ := min k (n + 1 - if rootNumber T ≤ n then rootNumber T else 0)

/-- What reading at most `k` rows backward from row `n` returns. In front of the root, the sentinel is returned behind
the first row. -/
def backBlock (T : AvlTree RowAt) (n k : ℕ) : List SObjectTableKey :=
  (readingOrder T true n).take (blockSize T n k) ++ if n < rootNumber T ∧ n + 1 < k then [.zero] else []

theorem readingOrder_backward {xs ys : List RowAt} (hL : T.toList = xs ++ ys) (hn : visibleRows xs = n + 1) :
    readingOrder T true n = (visibleList xs).reverse.map RowAt.sKey := by
  show ((visibleKeys T).take (n + 1)).reverse = _
  rw [visibleKeys, hL, visibleList_append, ← List.map_take, List.take_left' (by rw [length_visibleList, hn]),
    List.map_reverse]

section Block

variable {l r : AvlTree RowAt} {root a : RowAt} {xs ys : List RowAt}

private theorem visibleRows_concat (xs : List RowAt) (ha : a.fHidden = false) :
    visibleRows (xs ++ [a]) = visibleRows xs + 1 := by
  rw [visibleRows_append, visibleRows_cons, visibleRows_nil, RowAt.visible, ha]
  rfl

/-- Between the first row and the root. -/
private theorem backBlock_before_root (hL : (AvlTree.node l root r).toList = xs ++ a :: ys) (ha : a.fHidden = false)
    (hnodup : ((AvlTree.node l root r).toList.map RowAt.addr).Nodup) {zs : List RowAt} (hl : l.toList = xs ++ a :: zs)
    (k : ℕ) :
    readBack (some root.addr) false (xs ++ [a]).reverse k = backBlock (.node l root r) (visibleRows xs) k := by
  have hrows := visibleRows_concat xs ha
  have hl' : l.toList = (xs ++ [a]) ++ zs := hl.trans (List.append_cons xs a zs)
  have hnumber : visibleRows xs < rootNumber (.node l root r) := by
    rw [rootNumber, hl', visibleRows_append (xs ++ [a]), hrows]
    omega
  have horder := readingOrder_backward (hL.trans (List.append_cons xs a ys)) hrows
  have hroot : ∀ x ∈ xs ++ [a], some root.addr ≠ some x.addr := by
    intro x hx he
    rw [AvlTree.toList_node, List.map_append, List.map_cons] at hnodup
    have hxl : x.addr ∈ l.toList.map RowAt.addr := List.mem_map_of_mem (hl' ▸ List.mem_append_left zs hx)
    exact (List.nodup_append.mp hnodup).2.2 _ hxl _ (by simp) (Option.some.inj he).symm
  have hlen : (visibleList (xs ++ [a])).reverse.length = visibleRows xs + 1 := by
    rw [List.length_reverse, length_visibleList, hrows]
  rw [readBack_reverse hroot, hrows, backBlock, blockSize, if_neg (not_le.mpr hnumber), Nat.sub_zero, horder,
    ← List.map_take, ← hlen, ← List.take_eq_take_min]
  simp only [hnumber, true_and]

/-- From the root on. -/
private theorem backBlock_from_root (hL : (AvlTree.node l root r).toList = xs ++ a :: ys) (ha : a.fHidden = false)
    (hnodup : ((AvlTree.node l root r).toList.map RowAt.addr).Nodup) {cs : List RowAt} (hxs : xs = l.toList ++ cs)
    (hr : root :: r.toList = cs ++ a :: ys) (k : ℕ) :
    readBack (some root.addr) false (xs ++ [a]).reverse k = backBlock (.node l root r) (visibleRows xs) k := by
  have hrows := visibleRows_concat xs ha
  have hnumber : rootNumber (.node l root r) ≤ visibleRows xs := by
    rw [rootNumber, hxs, visibleRows_append]
    omega
  have horder := readingOrder_backward (hL.trans (List.append_cons xs a ys)) hrows
  obtain ⟨rs, hrs⟩ : ∃ rs, cs ++ [a] = root :: rs := by
    cases cs with
    | nil => exact ⟨[], congrArg (fun x => [x]) (List.cons.inj hr).1.symm⟩
    | cons c cs => exact ⟨cs ++ [a], congrArg (fun x => x :: (cs ++ [a])) (List.cons.inj hr).1.symm⟩
  have hbehind : root :: rs <+: root :: r.toList := ⟨ys, by rw [hr, List.append_cons, hrs]⟩
  have hroot : ∀ x ∈ rs, x.addr ≠ root.addr := by
    intro x hx he
    rw [AvlTree.toList_node, List.map_append, List.map_cons] at hnodup
    have hxr : x ∈ r.toList := (List.cons_prefix_cons.mp hbehind).2.subset hx
    exact (List.nodup_cons.mp (List.nodup_append.mp hnodup).2.1).1 (he ▸ List.mem_map_of_mem hxr)
  have hsplit : xs ++ [a] = l.toList ++ root :: rs := by rw [hxs, List.append_assoc, hrs]
  have hlen : (visibleList (root :: rs)).reverse.length = visibleRows xs + 1 - rootNumber (.node l root r) := by
    rw [List.length_reverse, length_visibleList, ← hrows, hsplit, visibleRows_append, rootNumber,
      Nat.add_sub_cancel_left]
  have hfront : ¬ (visibleRows xs < rootNumber (.node l root r) ∧ visibleRows xs + 1 < k) :=
    fun h => absurd h.1 (not_lt.mpr hnumber)
  rw [backBlock, blockSize, if_pos hnumber, if_neg hfront, List.append_nil, horder, hsplit,
    readBack_reverse_root hroot, visibleList_append, List.reverse_append, ← List.map_take, ← hlen,
    List.take_append_of_le_length (Nat.min_le_right _ _), ← List.take_eq_take_min]

/-- The keys of a backward read by row number. -/
theorem readBack_eq_backBlock (hR : Represents t T) (hL : T.toList = xs ++ a :: ys) (ha : a.fHidden = false) (k : ℕ) :
    readBack (addr? T) false (a :: xs.reverse) k = backBlock T (visibleRows xs) k := by
  have hrev : a :: xs.reverse = (xs ++ [a]).reverse := by simp
  have hnodup := (List.nodup_cons.mp hR.holds.addrs_nodup).2
  rw [hrev]
  cases T with
  | nil => simp at hL
  | node l root r =>
    have hsplit := hL
    rw [AvlTree.toList_node] at hsplit
    rcases List.append_eq_append_iff.mp hsplit with ⟨cs, hxs, hr⟩ | ⟨bs, hl, hbs⟩
    · exact backBlock_from_root hL ha hnodup hxs hr k
    · cases bs with
      | nil =>
        have hr : root :: r.toList = [] ++ a :: ys := hbs.symm
        exact backBlock_from_root hL ha hnodup (by rw [hl, List.append_nil, List.append_nil]) hr k
      | cons b bs =>
        obtain ⟨rfl, -⟩ := List.cons.inj hbs
        exact backBlock_before_root hL ha hnodup hl k

end Block

/-- The row that `SeekRow` finds, when it is visible. -/
theorem StandsAt.row (h : StandsAt t T n) (hn : n < count T) (hvis : t.SeeksVisible n) :
    ∃ xs a ys, T.toList = xs ++ a :: ys ∧ visibleRows xs = n ∧ a.fHidden = false ∧ t.lpCurrent = some a.addr := by
  have hland := h.landed
  rw [Landed, if_neg (by omega)] at hland
  rcases hland with ⟨xs, a, ys, hL, hxs, hcur⟩ | ⟨-, hend⟩
  · obtain ⟨p, left, x, y, i, j, hcell⟩ := h.represents.holds.cell (a := a) (by simp [hL])
    exact ⟨xs, a, ys, hL, by omega, hvis a.addr _ (h.place.trans (congrArg some hcur)) hcell, hcur⟩
  · omega

/-- `QueryRows` backward from a row that `SeekRow` found. -/
theorem queryRows_backward_block (h : StandsAt t T n) (hn : n < count T) (hvis : t.SeeksVisible n) (k : ℕ) :
    t.queryRows k true true false = some (backBlock T n (min k (count T)), t) := by
  obtain ⟨xs, a, ys, hL, rfl, ha, hcur⟩ := h.row hn hvis
  rw [queryRows_backward h.represents hL hcur, readBack_eq_backBlock h.represents hL ha]

/-- The end of a table is behind all rows. -/
theorem StandsAt.end (h : StandsAt t T (count T)) (hpos : 0 < count T) (hvis : t.SeeksVisible (count T)) :
    t.lpCurrent = none := by
  have hland := h.landed
  rw [Landed, if_neg (by omega)] at hland
  rcases hland with ⟨xs, a, ys, hL, hxs, hcur⟩ | ⟨hcur, -⟩
  · -- only hidden rows have this number
    obtain ⟨p, left, x, y, i, j, hcell⟩ := h.represents.holds.cell (a := a) (by simp [hL])
    have ha : a.fHidden = false := hvis a.addr _ (h.place.trans (congrArg some hcur)) hcell
    rw [count_eq_visibleRows, hL, List.append_cons, visibleRows_append (xs ++ [a]), visibleRows_concat xs ha] at hxs
    omega
  · exact hcur

/-- `QueryRows` reads from where it starts. -/
theorem queryRows_of_start {t₁ : ECKeyTable} (hstart : t.queryRowsStart bDirBackward = some t₁)
    (hstart₁ : t₁.queryRowsStart bDirBackward = some t₁) (n : ℕ) (noAdvance bShowHidden : Bool) :
    t.queryRows n bDirBackward noAdvance bShowHidden = (t₁.queryRows n bDirBackward noAdvance bShowHidden).map fun res =>
      (res.1, if noAdvance then { res.2 with lpCurrent := t.lpCurrent } else res.2) := by
  rw [ECKeyTable.queryRows, ECKeyTable.queryRows, hstart, hstart₁]
  simp only [Option.bind_eq_bind, Option.bind_some]
  cases t₁.rowCount with
  | none => rfl
  | some ulCount =>
    simp only [Option.bind_some]
    cases ECKeyTable.queryRowsLoop bDirBackward bShowHidden (t₁.fuel + 2) t₁ (if n > ulCount then ulCount else n) with
    | none => rfl
    | some res => cases noAdvance <;> rfl

/-- From a row, `QueryRows` starts there. -/
theorem queryRowsStart_row (hR : Represents t T) {a : RowAt} (ha : a ∈ T.toList) (hcur : t.lpCurrent = some a.addr)
    (bDirBackward : Bool) : t.queryRowsStart bDirBackward = some t := by
  have hne := hR.holds.addr_ne_root ha
  rw [ECKeyTable.queryRowsStart, rowCount_spec hR.holds.has, hcur]
  simp [hne]

/-- From past the last row, `QueryRows` backward starts with the last row. -/
theorem queryRowsStart_end (hR : Represents t T) (hcur : t.lpCurrent = none) (hpos : 0 < count T)
    (hsmall : count T < 2 ^ 31) :
    ∃ t₁, StandsAt t₁ T (count T - 1) ∧ t₁ = { t with lpCurrent := t₁.lpCurrent } ∧
      t.queryRowsStart true = some t₁ := by
  obtain ⟨t₁, hseek, hstands, hframe⟩ := seekRow_cur_standsAt (count T - 1) (n := count T) (k := -1) hR
    (.inl ⟨hcur, rfl⟩) hsmall (by omega) (by omega) (by omega)
  refine ⟨t₁, hstands, hframe, ?_⟩
  rw [ECKeyTable.queryRowsStart, rowCount_spec hR.holds.has, hcur]
  simp [hseek]

/-- From past the last row, `QueryRows` backward reads as from the last row. -/
theorem queryRows_backward_end (h : StandsAt t T (count T)) (hpos : 0 < count T) (hsmall : count T < 2 ^ 31)
    (hend : t.SeeksVisible (count T)) (hvis : t.SeeksVisible (count T - 1)) (k : ℕ) :
    t.queryRows k true true false = some (backBlock T (count T - 1) (min k (count T)), t) := by
  obtain ⟨t₁, hstands, hframe, hstart⟩ := queryRowsStart_end h.represents (h.end hpos hend) hpos hsmall
  have hvis₁ : t₁.SeeksVisible (count T - 1) := by
    rw [hframe]
    exact hvis
  obtain ⟨xs, a, ys, hL, -, -, hcur₁⟩ := hstands.row (by omega) hvis₁
  have hstart₁ := queryRowsStart_row hstands.represents (by simp [hL]) hcur₁ true
  have hback : { t₁ with lpCurrent := t.lpCurrent } = t := by rw [hframe]
  rw [queryRows_of_start hstart hstart₁, queryRows_backward_block hstands (by omega) hvis₁, Option.map_some, if_pos rfl,
    hback]

/-! ## The row that is found -/

variable {i : ℕ}

theorem StandsAt.readsNext_forward (h : StandsAt t T (n + i)) :
    ReadsNext t k ↔ (readingOrder T false n)[i]? = some k := by
  rw [readsNext_iff h.represents h.rowNumber]
  show _ ↔ ((visibleKeys T).drop n)[i]? = some k
  rw [List.getElem?_drop]

theorem StandsAt.readsNext_backward (h : StandsAt t T (n - i)) (hn : n < count T) (hi : i ≤ n)
    : ReadsNext t k ↔ (readingOrder T true n)[i]? = some k := by
  rw [readsNext_iff h.represents h.rowNumber]
  show _ ↔ ((visibleKeys T).take (n + 1)).reverse[i]? = some k
  have hlen : ((visibleKeys T).take (n + 1)).length = n + 1 := by
    rw [List.length_take, length_visibleKeys]
    omega
  rw [List.getElem?_reverse (by omega), hlen, List.getElem?_take_of_lt (by omega), Nat.add_sub_cancel]

variable {order : List SObjectTableKey} {m : SObjectTableKey → Bool}

/-- Where a search that finds its first match stands. -/
theorem findsFirst_iff_of_some {ε : Type} {success notFound : ε}
    (hfind : order.findIdx? m = some i) (res : ε × ECKeyTable) :
    FindsFirst success notFound order m res ↔ ∃ k, order[i]? = some k ∧ res.1 = success ∧ ReadsNext res.2 k := by
  have hi := (List.findIdx?_eq_some_iff_findIdx_eq.mp hfind).1
  have hkey : order.find? m = some order[i] := by
    rw [List.find?_eq_bind_findIdx?_getElem?, hfind, Option.bind_some, List.getElem?_eq_getElem hi]
  rw [FindsFirst, hkey, List.getElem?_eq_getElem hi]
  constructor
  · exact fun h => ⟨_, rfl, h⟩
  · rintro ⟨k, hk, h⟩
    cases hk
    exact h

theorem findsFirst_iff_of_none {ε : Type} {success notFound : ε}
    (hfind : order.findIdx? m = none) (res : ε × ECKeyTable) :
    FindsFirst success notFound order m res ↔ res.1 = notFound := by
  rw [FindsFirst, List.find?_eq_bind_findIdx?_getElem?, hfind]
  rfl

/-! ## Looking up a row -/

/-- The first visible row from row `k` on, in the order of the table; `none` when the table does not have row `k`. -/
def firstVisible (T : AvlTree RowAt) (k : SObjectTableKey) : Option SObjectTableKey :=
  ((visibleList (T.toList.dropWhile fun r => decide (r.sKey ≠ k))).map RowAt.sKey).head?

/-- The look-up of row `k` does what a search does: the first visible row from row `k` on is the first row in order that
matches; or no row matches and the table does not have row `k`. -/
def LooksAhead (T : AvlTree RowAt) (order : List SObjectTableKey) (m : SObjectTableKey → Bool) (k : SObjectTableKey) :
    Prop :=
  (∃ k', order.find? m = some k' ∧ firstVisible T k = some k') ∨
    order.find? m = none ∧ k ∉ T.toList.map RowAt.sKey

/-- `SeekId` puts the cursor on the row, and the next read returns the first visible row from there on. -/
theorem seekId_readsNext_iff (hR : Represents t T) {r : RowAt} (hr : r ∈ T.toList) (k' : SObjectTableKey) :
    ReadsNext { t with lpCurrent := some r.addr } k' ↔ firstVisible T r.sKey = some k' := by
  obtain ⟨xs, ys, hL⟩ := List.append_of_mem hr
  have hR' : Represents { t with lpCurrent := some r.addr } T := hR.setCursor (.inr (.inr ⟨r, hr, rfl⟩))
  have hkeys := hR.keys
  rw [hL, List.map_append, List.map_cons] at hkeys
  -- no row in front of it has its key
  have hfront : ∀ x ∈ xs, decide (x.sKey ≠ r.sKey) = true := fun x hx =>
    decide_eq_true fun he => (List.nodup_append.mp hkeys).2.2 _ (List.mem_map_of_mem hx) _ (by simp) he
  have hdrop : T.toList.dropWhile (fun x => decide (x.sKey ≠ r.sKey)) = r :: ys := by
    rw [hL, List.dropWhile_append_of_pos hfront, List.dropWhile_cons_of_neg (by simp)]
  have hrow : (visibleKeys T)[visibleRows xs]? = ((visibleList (r :: ys)).map RowAt.sKey).head? := by
    rw [visibleKeys, hL, visibleList_append, List.map_append,
      List.getElem?_append_right (by rw [List.length_map, length_visibleList]), List.length_map, length_visibleList,
      Nat.sub_self, List.head?_eq_getElem?]
  rw [readsNext_iff hR' (n := visibleRows xs) (.inr (.inr ⟨xs, r, ys, hL, rfl, rfl⟩)), hrow, firstVisible, hdrop]

/-- `SeekId` in the place of a search; `f` turns its code into the code of the search. -/
theorem findsFirst_seekId_iff {ε : Type} {f : ECRESULT → ε} (hf : f .erSuccess ≠ f .ZARAFA_E_NOT_FOUND)
    (hR : Represents t T) :
    FindsFirst (f .erSuccess) (f .ZARAFA_E_NOT_FOUND) order m (f (t.seekId k).1, (t.seekId k).2) ↔
      LooksAhead T order m k := by
  rw [LooksAhead, ECKeyTable.seekId]
  by_cases hmem : k ∈ T.toList.map RowAt.sKey
  · obtain ⟨a, ha, rfl⟩ := List.mem_map.mp hmem
    rw [hR.mapRow_of_mem ha, or_iff_left fun h => h.2 hmem]
    cases hfind : order.find? m with
    | none =>
      rw [FindsFirst, hfind]
      refine iff_of_false hf ?_
      rintro ⟨k', h, -⟩
      cases h
    | some k' =>
      rw [FindsFirst, hfind]
      exact (and_iff_right rfl).trans ((seekId_readsNext_iff hR ha k').trans (by simp))
  · have hdrop : T.toList.dropWhile (fun r => decide (r.sKey ≠ k)) = [] :=
      List.dropWhile_eq_nil_iff.mpr fun x hx => decide_eq_true fun he => hmem (he ▸ List.mem_map_of_mem hx)
    have hnone : firstVisible T k = none := by
      rw [firstVisible, hdrop]
      rfl
    have hahead : ¬ ∃ k', order.find? m = some k' ∧ (none : Option SObjectTableKey) = some k' := by
      rintro ⟨k', -, h⟩
      cases h
    rw [hR.mapRow_eq_none.mpr hmem, hnone, and_iff_left hmem, or_iff_right hahead]
    cases hfind : order.find? m with
    | none =>
      rw [FindsFirst, hfind]
      exact iff_of_true rfl rfl
    | some k' =>
      rw [FindsFirst, hfind]
      exact iff_of_false (fun h => hf h.1.symm) (by simp)

/-! ## Tables without hidden rows -/

/-- Without hidden rows, every row that `SeekRow` finds is visible. -/
theorem seeksVisible_of_visible (hR : Represents t T) (hvis : ∀ r ∈ T.toList, r.fHidden = false)
    (hn : n ≤ count T) : t.SeeksVisible n := by
  intro a row hplace hrow
  obtain ⟨pos, hpos, hland⟩ := place_lands hR hn
  obtain rfl : pos = some a := Option.some.inj (hpos.symm.trans hplace)
  rw [Landed] at hland
  split_ifs at hland with hempty
  · obtain rfl : a = t.lpRoot := Option.some.inj hland
    obtain ⟨k, hroot⟩ := hR.holds.has.split.1.exists
    rw [hroot.get] at hrow
    cases hrow
    rfl
  · rcases hland with ⟨xs, r, ys, hL, -, hpos⟩ | ⟨hpos, -⟩
    · obtain rfl : a = r.addr := Option.some.inj hpos
      have hr : r ∈ T.toList := by simp [hL]
      obtain ⟨p, left, x, y, i, j, hcell⟩ := hR.holds.cell hr
      rw [hcell] at hrow
      cases hrow
      exact hvis r hr
    · cases hpos

end Zcp.Common
