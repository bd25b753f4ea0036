import Zcp.Lib.Lexicographic
import Mathlib.Data.UInt

/-!
# Rows of the key table and their order

`common/ECKeyTable.cpp::ECTableRow`. A row holds its key, the sort data of its columns and a hidden
flag; the tree links are in `ECKeyTable`. `rowcompare` is the order the key table sorts by.

A sort column is its bytes together with its flags, so `lpSortLen[i]` is the length of the bytes and
`lpFlags` is never `NULL`; every caller of `UpdateRow` that passes columns passes flags as well.

`Fits` says when rows of one table can be compared: the flags of a column agree between the rows,
except that a column without data (a property the row does not have) may lack the type flags, and no
float column holds a NaN. On such rows `rowcompare` is a strict weak order (`rowcompare_strictWeak`).
-/

namespace Zcp.Common

open Std Zcp.Lib

/-- `sObjectTableKey`. -/
structure SObjectTableKey where
  ulObjId : ℕ
  ulOrderId : ℕ
deriving DecidableEq, Repr

/-- The key of the sentinel row, also the key reported when a row has no predecessor. -/
def SObjectTableKey.zero : SObjectTableKey := ⟨0, 0⟩

def TABLEROW_FLAG_DESC : UInt8 := 1
def TABLEROW_FLAG_FLOAT : UInt8 := 2
def TABLEROW_FLAG_STRING : UInt8 := 4

/-- One sort column of a row: `lppSortKeys[i]` (of length `lpSortLen[i]`) and `lpFlags[i]`. -/
structure SortCol where
  key : List UInt8
  flags : UInt8
deriving DecidableEq, Repr

namespace SortCol

def desc (c : SortCol) : Bool := c.flags &&& TABLEROW_FLAG_DESC != 0

def float (c : SortCol) : Bool := c.flags &&& TABLEROW_FLAG_FLOAT != 0

def string (c : SortCol) : Bool := c.flags &&& TABLEROW_FLAG_STRING != 0

end SortCol

/-- ICU's `CollationKey::compareTo`, which compares the stored keys of two strings. It orders keys
totally, and an empty key is not greater than any other. -/
class CollationKeys where
  compareTo : List UInt8 → List UInt8 → Ordering
  transCmp : TransCmp compareTo
  nil_isLE : ∀ b, (compareTo [] b).isLE

theorem CollationKeys.compareTo_self [CollationKeys] (a : List UInt8) : CollationKeys.compareTo a a = .eq :=
  have := CollationKeys.transCmp
  ReflCmp.compare_self

/-- The comparison ICU documents: bytes, then length. -/
@[reducible] def CollationKeys.bytewise : CollationKeys where
  compareTo := compare
  transCmp := inferInstance
  nil_isLE b := by cases b <;> rfl

/-- `ustringutil.cpp::compareSortKeys`. -/
def compareSortKeys [CollationKeys] (lpKey1 lpKey2 : List UInt8) : Ordering :=
  CollationKeys.compareTo lpKey1 lpKey2

/-! ## Doubles -/

/-- The number stored in eight bytes, least significant first. -/
def leNat : List UInt8 → ℕ
  | [] => 0
  | b :: bs => b.toNat + 256 * leNat bs

/-- The place of an IEEE 754 double in the order of doubles, from its bit pattern: the bits below
the sign order the doubles of one sign, and both zeros are in the same place. `none` is a NaN. -/
def doublePlace (key : List UInt8) : Option ℤ :=
  let bits := leNat key
  let magnitude : ℕ := bits % 2 ^ 63
  if magnitude > 2047 * 2 ^ 52 then none
  else if bits / 2 ^ 63 = 0 then some (magnitude : ℤ) else some (-magnitude : ℤ)

/-- The three-way comparison `rowcompare` makes of `*ad` and `*bd`: a comparison with a NaN is
neither equal nor less. -/
def compareDouble (a b : List UInt8) : Ordering :=
  match doublePlace a, doublePlace b with
  | some x, some y => compare x y
  | _, _ => .gt

/-! ## Comparing rows -/

/-- The sign of `memcmp` over the common length. -/
def memcmpShort (a b : List UInt8) : Ordering :=
  compare (a.take (min a.length b.length)) (b.take (min a.length b.length))

/-- `cmp` for one column, with the flags of the left row. -/
def columnCmp [CollationKeys] (a b : SortCol) : Ordering :=
  if a.float then
    if a.key.length ≠ 8 ∨ b.key.length ≠ 8 then .eq else compareDouble a.key b.key
  else if a.string then compareSortKeys a.key b.key
  else memcmpShort a.key b.key

/-- `ECTableRow::rowcompare` on the sort data of two rows. -/
def rowcompareCols [CollationKeys] (fIgnoreOrder : Bool) : List SortCol → List SortCol → Bool
  | [], [] => false
  | [], _ :: _ => true
  | _ :: _, [] => false
  | a :: as, b :: bs =>
    match (columnCmp a b).then (compare a.key.length b.key.length) with
    | .eq => rowcompareCols fIgnoreOrder as bs
    | ord =>
      let ret := ord == .lt
      if !fIgnoreOrder && a.desc then !ret else ret

/-- `ECTableRow::rowcompareprefix`. -/
def rowcompareprefix [CollationKeys] (ulPrefix : ℕ) (a b : List SortCol) : Bool :=
  rowcompareCols false (a.take ulPrefix) (b.take ulPrefix)

/-! ## Rows that can be compared -/

/-- The flags a table uses for each column. -/
abbrev ColumnFlags := ℕ → UInt8

/-- The column has the flags of its position, or has no data and only agrees on the direction; it
does not hold a NaN. -/
def SortCol.Fits (c : SortCol) (f : UInt8) : Prop :=
  (c.flags = f ∨ c.key = [] ∧ c.flags &&& TABLEROW_FLAG_DESC = f &&& TABLEROW_FLAG_DESC) ∧
    (c.float → c.key.length = 8 → doublePlace c.key ≠ none)

instance (c : SortCol) (f : UInt8) : Decidable (c.Fits f) := by
  unfold SortCol.Fits; infer_instance

/-- Every column fits its position. -/
def FitsFlags : ColumnFlags → List SortCol → Prop
  | _, [] => True
  | fl, c :: cs => c.Fits (fl 0) ∧ FitsFlags (fun i => fl (i + 1)) cs

instance FitsFlags.decidable : (fl : ColumnFlags) → (cols : List SortCol) →
    Decidable (FitsFlags fl cols)
  | _, [] => isTrue trivial
  | fl, c :: cs =>
    have := FitsFlags.decidable (fun i => fl (i + 1)) cs
    inferInstanceAs (Decidable (c.Fits (fl 0) ∧ FitsFlags (fun i => fl (i + 1)) cs))

/-- Every column has the flags of its position. -/
def SameFlags : ColumnFlags → List SortCol → Prop
  | _, [] => True
  | fl, c :: cs => c.flags = fl 0 ∧ SameFlags (fun i => fl (i + 1)) cs

instance SameFlags.decidable : (fl : ColumnFlags) → (cols : List SortCol) →
    Decidable (SameFlags fl cols)
  | _, [] => isTrue trivial
  | fl, c :: cs =>
    have := SameFlags.decidable (fun i => fl (i + 1)) cs
    inferInstanceAs (Decidable (c.flags = fl 0 ∧ SameFlags (fun i => fl (i + 1)) cs))

theorem FitsFlags.set {fl : ColumnFlags} {cols : List SortCol} {c : SortCol} {i : ℕ}
    (hcols : FitsFlags fl cols) (hc : c.Fits (fl i)) : FitsFlags fl (cols.set i c) := by
  induction cols generalizing fl i with
  | nil => trivial
  | cons d cols ih =>
    cases i with
    | zero => exact ⟨hc, hcols.2⟩
    | succ i => exact ⟨hcols.1, ih hcols.2 hc⟩

theorem FitsFlags.take {fl : ColumnFlags} {cols : List SortCol} (h : FitsFlags fl cols) (n : ℕ) :
    FitsFlags fl (cols.take n) := by
  induction cols generalizing fl n with
  | nil =>
    rw [List.take_nil]
    trivial
  | cons c cols ih =>
    cases n with
    | zero => trivial
    | succ n => exact ⟨h.1, ih h.2 n⟩

/-- The comparison of two columns at a position with flags `f`, before the direction. -/
private def kindCmp [CollationKeys] (f : UInt8) (a b : SortCol) : Ordering :=
  if f &&& TABLEROW_FLAG_FLOAT != 0 then
    compareLex (compareOn fun c : SortCol => c.key.length)
      (compareOn fun c : SortCol =>
        if c.key.length = 8 then (doublePlace c.key).getD 0 else 0) a b
  else if f &&& TABLEROW_FLAG_STRING != 0 then
    compareLex (fun a b => CollationKeys.compareTo a.key b.key)
      (compareOn fun c : SortCol => c.key.length) a b
  else compareOn (fun c : SortCol => c.key) a b

/-- The comparison of two columns at a position with flags `f`. -/
private def positionCmp [CollationKeys] (f : UInt8) (a b : SortCol) : Ordering :=
  if f &&& TABLEROW_FLAG_DESC != 0 then kindCmp f b a else kindCmp f a b

private theorem kindCmp_transCmp [CollationKeys] (f : UInt8) : TransCmp (kindCmp f) := by
  have hcoll : TransCmp fun a b : SortCol => CollationKeys.compareTo a.key b.key :=
    { eq_swap := CollationKeys.transCmp.eq_swap
      isLE_trans := CollationKeys.transCmp.isLE_trans }
  unfold kindCmp
  split_ifs <;> infer_instance

private theorem positionCmp_transCmp [CollationKeys] (f : UInt8) : TransCmp (positionCmp f) := by
  have hk := kindCmp_transCmp f
  unfold positionCmp
  split_ifs
  · exact inferInstanceAs (TransCmp fun a b => kindCmp f b a)
  · exact hk

/-- `memcmp` over the common length and then the length is the order of byte strings. -/
theorem memcmpShort_then (a b : List UInt8) :
    (memcmpShort a b).then (compare a.length b.length) = compare a b := by
  induction a generalizing b with
  | nil => cases b <;> simp [memcmpShort, Nat.compare_eq_lt.mpr]
  | cons x a ih =>
    cases b with
    | nil => simp [memcmpShort, Nat.compare_eq_gt.mpr]
    | cons y b =>
      have h := ih b
      rw [memcmpShort] at h ⊢
      rw [List.length_cons, List.length_cons, Nat.succ_min_succ, List.take_succ_cons,
        List.take_succ_cons, List.compare_cons_cons, List.compare_cons_cons, ← h,
        Ordering.then_assoc]
      congr 2
      simp [Nat.compare_eq_ite_lt]

theorem memcmpShort_nil_left (b : List UInt8) : memcmpShort [] b = .eq := by
  simp [memcmpShort]

/-- A column without data is compared the same way whether it has the type flags or not. -/
private theorem kindCmp_nil_left [CollationKeys] (f : UInt8) {a : SortCol} (ha : a.key = [])
    (b : SortCol) : kindCmp f a b = compare a.key.length b.key.length := by
  have hlen (b : List UInt8) (hb : b ≠ []) : compare 0 b.length = .lt :=
    Nat.compare_eq_lt.mpr (List.length_pos_iff.mpr hb)
  by_cases hb : b.key = []
  · simp [kindCmp, compareLex, compareOn, ha, hb, CollationKeys.compareTo_self]
  · have hle := CollationKeys.nil_isLE b.key
    have hcmp : compare [] b.key = Ordering.lt := by
      cases h : b.key with
      | nil => exact absurd h hb
      | cons x xs => rfl
    unfold kindCmp
    split_ifs
    · simp [compareLex, compareOn, ha, hlen b.key hb]
    · cases hc : CollationKeys.compareTo [] b.key with
      | lt => simp [compareLex, ha, hc, hlen b.key hb]
      | eq => simp [compareLex, compareOn, ha, hc]
      | gt => simp [hc] at hle
    · simp [compareOn, ha, hcmp, hlen b.key hb]

/-- The comparison `rowcompare` makes of a column, with the flags of the left row, is the
comparison of the position. -/
private theorem columnCmp_then [CollationKeys] {f : UInt8} {a b : SortCol} (ha : a.Fits f) (hb : b.Fits f) :
    (columnCmp a b).then (compare a.key.length b.key.length) = kindCmp f a b := by
  obtain ⟨rfl | ⟨hnil, -⟩, hnan⟩ := ha
  · unfold columnCmp kindCmp SortCol.float SortCol.string
    split_ifs with hf hlen hs
    · simp only [Ordering.then, compareLex, compareOn]
      by_cases hl : a.key.length = b.key.length
      · rw [if_neg (by omega), if_neg (by omega)]; simp [hl]
      · cases hc : compare a.key.length b.key.length with
        | eq => exact absurd (Nat.compare_eq_eq.mp hc) hl
        | lt => rfl
        | gt => rfl
    · rw [not_or, not_ne_iff, not_ne_iff] at hlen
      obtain ⟨x, hx⟩ := Option.ne_none_iff_exists'.mp (hnan hf hlen.1)
      have hb' : doublePlace b.key ≠ none := by
        rcases hb with ⟨hfl | ⟨hk, -⟩, hnanb⟩
        · exact hnanb (by unfold SortCol.float; rw [hfl]; exact hf) hlen.2
        · simp [hk] at hlen
      obtain ⟨y, hy⟩ := Option.ne_none_iff_exists'.mp hb'
      simp [compareDouble, compareLex, compareOn, hlen.1, hlen.2, hx, hy]
    · rfl
    · exact memcmpShort_then a.key b.key
  · have hcol : columnCmp a b = .eq ∨
        columnCmp a b = CollationKeys.compareTo [] b.key := by
      unfold columnCmp compareSortKeys
      rw [hnil, memcmpShort_nil_left]
      split_ifs <;> simp_all
    rw [kindCmp_nil_left f hnil]
    rcases hcol with hcol | hcol
    · rw [hcol]; rfl
    · rw [hcol, hnil]
      by_cases hbk : b.key = []
      · rw [hbk, CollationKeys.compareTo_self _]; rfl
      · have hle := CollationKeys.nil_isLE b.key
        have hlen : compare ([] : List UInt8).length b.key.length = .lt :=
          Nat.compare_eq_lt.mpr (List.length_pos_iff.mpr hbk)
        cases hc : CollationKeys.compareTo [] b.key with
        | lt => rw [hlen]; rfl
        | eq => rfl
        | gt => simp [hc] at hle

/-- On rows that fit one table, `rowcompare` is the lexicographic order of the positions. -/
private theorem rowcompareCols_eq_lexBy [CollationKeys] {fl : ColumnFlags} {as bs : List SortCol}
    (ha : FitsFlags fl as) (hb : FitsFlags fl bs) :
    rowcompareCols false as bs = (lexBy (fun i => positionCmp (fl i)) as bs).isLT := by
  induction as generalizing bs fl with
  | nil => cases bs <;> rfl
  | cons a as ih =>
    cases bs with
    | nil => rfl
    | cons b bs =>
      have hdesc : a.desc = (fl 0 &&& TABLEROW_FLAG_DESC != 0) := by
        rcases ha.1.1 with h | ⟨-, h⟩ <;> rw [SortCol.desc, h]
      have hswap : kindCmp (fl 0) b a = (kindCmp (fl 0) a b).swap :=
        (kindCmp_transCmp (fl 0)).eq_swap
      rw [rowcompareCols, columnCmp_then ha.1 hb.1, lexBy_cons_cons, hdesc, positionCmp, hswap]
      generalize (fl 0 &&& TABLEROW_FLAG_DESC != 0) = desc
      cases hk : kindCmp (fl 0) a b with
      | eq => simpa using ih ha.2 hb.2
      | lt => cases desc <;> rfl
      | gt => cases desc <;> rfl

/-- **`rowcompare` is a strict weak order** on the rows of one table. -/
theorem rowcompare_strictWeak [CollationKeys] (fl : ColumnFlags) :
    StrictWeakOn (rowcompareCols false) (FitsFlags fl) := by
  refine StrictWeakOn.of_transCmp (lexBy_transCmp fun i => positionCmp_transCmp (fl i)) ?_
  intro a b ha hb
  rw [rowcompareCols_eq_lexBy ha hb]
  cases lexBy (fun i => positionCmp (fl i)) a b <;> simp [Ordering.isLT]

end Zcp.Common
