import Zcp.Common.ECTableRow
import Zcp.Common.PropValues
import Zcp.Lib.Endian

/-!
# Sort keys of property values

`GetBinarySortKey` of `provider/libserver/ECGenericObjectTable.cpp` and of
`m4lcommon/ECMemTable.cpp` make the bytes that the key table sorts by, so the bytes should be ordered
like the values. `getBinarySortKey_ordered_iff` says for which values they are.
-/

namespace Zcp.Common

open Zcp.Lib

/-! ## The keys -/

/-- What the keys of strings, floats and GUIDs are made with. -/
structure SortKeyData where
  /-- `createSortKeyDataFromUTF8` with the locale of the table. -/
  createSortKeyDataFromUTF8 : List UInt8 → List UInt8
  /-- `createSortKeyData` for `char` strings. -/
  createSortKeyDataA : List UInt8 → List UInt8
  /-- `createSortKeyData` for `wchar_t` strings. -/
  createSortKeyDataW : List (BitVec 32) → List UInt8
  /-- The conversion from `float` to `double`. -/
  doubleOfFloat : BitVec 32 → BitVec 64
  /-- What the member `bin` of the union reads when `lpguid` is set. -/
  binOfGuid : GUID → List UInt8

/-- The bytes of `htons`. -/
def htons (v : BitVec 16) : List UInt8 := bigEndian 2 v.toNat

/-- The bytes of `htonl`. -/
def htonl (v : BitVec 32) : List UInt8 := bigEndian 4 v.toNat

/-- The bytes of a `double`. -/
def doubleBytes (v : BitVec 64) : List UInt8 := (bigEndian 8 v.toNat).reverse

namespace ECGenericObjectTable

/-- `Value.b` as a number, for the types that have their key made from it. For `PT_I2` the union holds
`Value.i`, and `Value.b` is its low byte. -/
def valueB : PropValData → BitVec 16
  | .PT_BOOLEAN b => if b then 1 else 0
  | .PT_I2 i => (i.setWidth 8).setWidth 16
  | _ => 0

/-- `GetBinarySortKey`; `none` is `ZARAFA_E_INVALID_TYPE`. -/
def getBinarySortKey (d : SortKeyData) : PropValData → Option (List UInt8)
  | .PT_BOOLEAN b => some (htons (valueB (.PT_BOOLEAN b)))
  | .PT_I2 i => some (htons (valueB (.PT_I2 i)))
  | .PT_LONG ul => some (htonl ul)
  | .PT_R4 flt => some (doubleBytes (d.doubleOfFloat flt))
  | .PT_APPTIME dbl => some (doubleBytes dbl)
  | .PT_DOUBLE dbl => some (doubleBytes dbl)
  | .PT_CURRENCY _ => some []
  | .PT_SYSTIME hilo => some (htonl hilo.hi ++ htonl hilo.lo)
  | .PT_I8 li => some (htonl (li.sshiftRight 32 |>.setWidth 32) ++ htonl (li.setWidth 32))
  | .PT_STRING8 lpszA => some ((lpszA.map d.createSortKeyDataFromUTF8).getD [])
  | .PT_UNICODE lpszA => some ((lpszA.map d.createSortKeyDataFromUTF8).getD [])
  | .PT_CLSID bin => some bin.elems
  | .PT_BINARY bin => some bin.elems
  | .PT_ERROR _ => some []
  | _ => none

/-- `GetSortFlags`, of the tag of a value. -/
def getSortFlags : PropValData → UInt8
  | .PT_DOUBLE _ => TABLEROW_FLAG_FLOAT
  | .PT_APPTIME _ => TABLEROW_FLAG_FLOAT
  | .PT_R4 _ => TABLEROW_FLAG_FLOAT
  | .PT_STRING8 _ => TABLEROW_FLAG_STRING
  | .PT_UNICODE _ => TABLEROW_FLAG_STRING
  | _ => 0

end ECGenericObjectTable

namespace ECMemTableView

/-- `GetBinarySortKey`: the key and the flags, which are always 0; `none` is `MAPI_E_INVALID_TYPE`. For
`PT_I2` the union holds `Value.i`, and `Value.b` has the same bits. -/
def getBinarySortKey (d : SortKeyData) : SPropValue → Option (List UInt8 × UInt8)
  | .PT_BOOLEAN b => some (htons b, 0)
  | .PT_I2 i => some (htons i, 0)
  | .PT_LONG ul => some (htonl ul, 0)
  | .PT_R4 flt => some (doubleBytes (d.doubleOfFloat flt), 0)
  | .PT_DOUBLE dbl => some (doubleBytes dbl, 0)
  | .PT_APPTIME at' => some (doubleBytes at', 0)
  | .PT_CURRENCY _ => some ([], 0)
  | .PT_SYSTIME ft => some (htonl ft.dwHighDateTime ++ htonl ft.dwLowDateTime, 0)
  | .PT_I8 li => some (htonl (li.sshiftRight 32 |>.setWidth 32) ++ htonl (li.setWidth 32), 0)
  | .PT_STRING8 lpszA => some ((lpszA.map d.createSortKeyDataA).getD [], 0)
  | .PT_UNICODE lpszW => some ((lpszW.map d.createSortKeyDataW).getD [], 0)
  | .PT_CLSID lpguid => some (d.binOfGuid lpguid, 0)
  | .PT_BINARY bin => some (bin.elems, 0)
  | .PT_ERROR _ => some ([], 0)
  | _ => none

end ECMemTableView

/-! ## The order of the values -/

/-- The 100-nanosecond intervals of a `FILETIME`, whose halves are unsigned. -/
def filetime (hi lo : BitVec 32) : ℕ := hi.toNat * 2 ^ 32 + lo.toNat

/-- The value order of the types that are sorted by value. -/
def PropValData.Less : PropValData → PropValData → Prop
  | .PT_I2 a, .PT_I2 b => a.toInt < b.toInt
  | .PT_BOOLEAN a, .PT_BOOLEAN b => a < b
  | .PT_LONG a, .PT_LONG b => a.toInt < b.toInt
  | .PT_I8 a, .PT_I8 b => a.toInt < b.toInt
  | .PT_SYSTIME a, .PT_SYSTIME b => filetime a.hi a.lo < filetime b.hi b.lo
  | .PT_CURRENCY a, .PT_CURRENCY b => (a.hi ++ a.lo).toInt < (b.hi ++ b.lo).toInt
  | .PT_BINARY a, .PT_BINARY b => a.elems < b.elems
  | _, _ => False

/-- The value order of the types that are sorted by value. -/
def SPropValue.Less : SPropValue → SPropValue → Prop
  | .PT_I2 a, .PT_I2 b => a.toInt < b.toInt
  | .PT_BOOLEAN a, .PT_BOOLEAN b => a.toNat < b.toNat
  | .PT_LONG a, .PT_LONG b => a.toInt < b.toInt
  | .PT_I8 a, .PT_I8 b => a.toInt < b.toInt
  | .PT_SYSTIME a, .PT_SYSTIME b =>
    filetime a.dwHighDateTime a.dwLowDateTime < filetime b.dwHighDateTime b.dwLowDateTime
  | .PT_CURRENCY a, .PT_CURRENCY b => (a.Hi ++ a.Lo).toInt < (b.Hi ++ b.Lo).toInt
  | .PT_BINARY a, .PT_BINARY b => a.elems < b.elems
  | _, _ => False

/-- Two numbers are both negative or both not. -/
def SameSign {w : ℕ} (a b : BitVec w) : Prop := a.toInt < 0 ↔ b.toInt < 0

/-- The low bytes are in the order of the high bytes, unless the high bytes are equal. -/
def LowBytesFollow (a b : BitVec 16) : Prop :=
  a.toInt / 256 = b.toInt / 256 ∨
    a.toInt / 256 < b.toInt / 256 ∧ a.toInt % 256 < b.toInt % 256 ∨
    b.toInt / 256 < a.toInt / 256 ∧ b.toInt % 256 < a.toInt % 256

/-- Two values of one of the types, whose keys on the server are right. -/
inductive PropValData.KeysFit : PropValData → PropValData → Prop
  | PT_I2 {a b} : LowBytesFollow a b → KeysFit (.PT_I2 a) (.PT_I2 b)
  | PT_BOOLEAN (a b) : KeysFit (.PT_BOOLEAN a) (.PT_BOOLEAN b)
  | PT_LONG {a b} : SameSign a b → KeysFit (.PT_LONG a) (.PT_LONG b)
  | PT_I8 {a b} : SameSign a b → KeysFit (.PT_I8 a) (.PT_I8 b)
  | PT_SYSTIME (a b) : KeysFit (.PT_SYSTIME a) (.PT_SYSTIME b)
  | PT_CURRENCY {a b} : a = b → KeysFit (.PT_CURRENCY a) (.PT_CURRENCY b)
  | PT_BINARY (a b) : KeysFit (.PT_BINARY a) (.PT_BINARY b)

/-- Two values of one of the types, whose keys in a memory table are right. -/
inductive SPropValue.KeysFit : SPropValue → SPropValue → Prop
  | PT_I2 {a b} : SameSign a b → KeysFit (.PT_I2 a) (.PT_I2 b)
  | PT_BOOLEAN (a b) : KeysFit (.PT_BOOLEAN a) (.PT_BOOLEAN b)
  | PT_LONG {a b} : SameSign a b → KeysFit (.PT_LONG a) (.PT_LONG b)
  | PT_I8 {a b} : SameSign a b → KeysFit (.PT_I8 a) (.PT_I8 b)
  | PT_SYSTIME (a b) : KeysFit (.PT_SYSTIME a) (.PT_SYSTIME b)
  | PT_CURRENCY {a b} : a = b → KeysFit (.PT_CURRENCY a) (.PT_CURRENCY b)
  | PT_BINARY (a b) : KeysFit (.PT_BINARY a) (.PT_BINARY b)

/-- Two values of the same type, which is one of those sorted by value. -/
inductive PropValData.SameType : PropValData → PropValData → Prop
  | PT_I2 (a b) : SameType (.PT_I2 a) (.PT_I2 b)
  | PT_BOOLEAN (a b) : SameType (.PT_BOOLEAN a) (.PT_BOOLEAN b)
  | PT_LONG (a b) : SameType (.PT_LONG a) (.PT_LONG b)
  | PT_I8 (a b) : SameType (.PT_I8 a) (.PT_I8 b)
  | PT_SYSTIME (a b) : SameType (.PT_SYSTIME a) (.PT_SYSTIME b)
  | PT_CURRENCY (a b) : SameType (.PT_CURRENCY a) (.PT_CURRENCY b)
  | PT_BINARY (a b) : SameType (.PT_BINARY a) (.PT_BINARY b)

/-- Two values of the same type, which is one of those sorted by value. -/
inductive SPropValue.SameType : SPropValue → SPropValue → Prop
  | PT_I2 (a b) : SameType (.PT_I2 a) (.PT_I2 b)
  | PT_BOOLEAN (a b) : SameType (.PT_BOOLEAN a) (.PT_BOOLEAN b)
  | PT_LONG (a b) : SameType (.PT_LONG a) (.PT_LONG b)
  | PT_I8 (a b) : SameType (.PT_I8 a) (.PT_I8 b)
  | PT_SYSTIME (a b) : SameType (.PT_SYSTIME a) (.PT_SYSTIME b)
  | PT_CURRENCY (a b) : SameType (.PT_CURRENCY a) (.PT_CURRENCY b)
  | PT_BINARY (a b) : SameType (.PT_BINARY a) (.PT_BINARY b)

section Ordered

variable [CollationKeys] {d : SortKeyData}

/-- Two rows with these keys in their only column are ordered like the values, and the keys are equal
only when the values are. -/
def KeysOrdered (ca cb : SortCol) (less equal : Prop) : Prop :=
  (rowcompareCols false [ca] [cb] = true ↔ less) ∧ (ca.key = cb.key → equal)

/-- `rowcompare` compares keys without flags as byte strings. -/
theorem keysOrdered_bytes (ka kb : List UInt8) (less equal : Prop) : KeysOrdered ⟨ka, 0⟩ ⟨kb, 0⟩ less equal ↔
      (compare ka kb = .lt ↔ less) ∧ (ka = kb → equal) := by
  have hcol : columnCmp ⟨ka, 0⟩ ⟨kb, 0⟩ = memcmpShort ka kb := by
    simp [columnCmp, SortCol.float, SortCol.string]
  rw [KeysOrdered, rowcompareCols, hcol, memcmpShort_then]
  cases compare ka kb with
  | lt => simp [SortCol.desc]
  | eq => simp [rowcompareCols]
  | gt => simp [SortCol.desc]

/-- Keys of numbers are right when the numbers are ordered like the values. -/
theorem keysOrdered_numbers (n : ℕ) {va vb : ℕ} (ha : va < 256 ^ n) (hb : vb < 256 ^ n)
    (less equal : Prop) : KeysOrdered ⟨bigEndian n va, 0⟩ ⟨bigEndian n vb, 0⟩ less equal ↔
      (va < vb ↔ less) ∧ (va = vb → equal) := by
  have hinj : bigEndian n va = bigEndian n vb ↔ va = vb := by
    rw [← Std.compare_eq_iff_eq, compare_bigEndian ha hb, Nat.compare_eq_eq]
  rw [keysOrdered_bytes, compare_bigEndian ha hb, Nat.compare_eq_lt, hinj]

omit [CollationKeys] in
/-- The bits of signed numbers are ordered like the numbers if and only if the signs are the same. -/
theorem bits_ordered_iff {w : ℕ} (a b : BitVec w) :
    (a.toNat < b.toNat ↔ a.toInt < b.toInt) ∧ (a.toNat = b.toNat → a = b) ↔ SameSign a b := by
  have ha := a.isLt
  have hb := b.isLt
  rw [and_iff_left BitVec.eq_of_toNat_eq, SameSign, BitVec.toInt_eq_toNat_cond,
    BitVec.toInt_eq_toNat_cond]
  split_ifs
  all_goals omega

omit [CollationKeys] in
theorem filetime_lt (hi lo : BitVec 32) : filetime hi lo < 256 ^ 8 := by
  have hhi := hi.isLt
  have hlo := lo.isLt
  rw [filetime]
  omega

omit [CollationKeys] in
/-- Two halves in network order are the whole in network order. -/
theorem htonl_append (hi lo : BitVec 32) : htonl hi ++ htonl lo = bigEndian 8 (filetime hi lo) := by
  have hlo := lo.isLt
  have hhigh : filetime hi lo / 256 ^ 4 = hi.toNat := by
    rw [filetime]
    omega
  have hlow : filetime hi lo % 256 ^ 4 = lo.toNat := by
    rw [filetime]
    omega
  rw [bigEndian_add 4 4, hhigh, ← bigEndian_mod 4 (filetime hi lo), hlow, htonl, htonl]

omit [CollationKeys] in
/-- The halves of a 64-bit number. -/
theorem filetime_halves (li : BitVec 64) :
    filetime ((li.sshiftRight 32).setWidth 32) (li.setWidth 32) = li.toNat := by
  have hli := li.isLt
  have hshift : (li.sshiftRight 32).setWidth 32 = (li >>> 32).setWidth 32 := by
    ext i hi
    rw [BitVec.getElem_setWidth, BitVec.getElem_setWidth, BitVec.getLsbD_sshiftRight,
      BitVec.getLsbD_ushiftRight, if_pos (by omega)]
    simp
    omega
  rw [filetime, hshift, BitVec.toNat_setWidth, BitVec.toNat_setWidth, BitVec.toNat_ushiftRight,
    Nat.shiftRight_eq_div_pow]
  omega

omit [CollationKeys] in
/-- The bytes of `PT_I2` keys on the server are ordered like the values if and only if the low bytes
are. -/
theorem lowBytes_ordered_iff (a b : BitVec 16) : ((a.setWidth 8).toNat < (b.setWidth 8).toNat ↔ a.toInt < b.toInt) ∧
      ((a.setWidth 8).toNat = (b.setWidth 8).toNat → a = b) ↔ LowBytesFollow a b := by
  have ha := a.isLt
  have hb := b.isLt
  rw [← BitVec.toInt_inj, LowBytesFollow, BitVec.toNat_setWidth, BitVec.toNat_setWidth,
    BitVec.toInt_eq_toNat_cond, BitVec.toInt_eq_toNat_cond]
  split_ifs
  all_goals omega

end Ordered

/-- The keys that the server makes of two values are ordered like the values. -/
def ECGenericObjectTable.Ordered [CollationKeys] (d : SortKeyData) (a b : PropValData) : Prop :=
  ∃ ka kb, getBinarySortKey d a = some ka ∧ getBinarySortKey d b = some kb ∧
    KeysOrdered ⟨ka, getSortFlags a⟩ ⟨kb, getSortFlags b⟩ (a.Less b) (a = b)

/-- The keys that a memory table makes of two values are ordered like the values. -/
def ECMemTableView.Ordered [CollationKeys] (d : SortKeyData) (a b : SPropValue) : Prop :=
  ∃ ka kb, getBinarySortKey d a = some ka ∧ getBinarySortKey d b = some kb ∧
    KeysOrdered ⟨ka.1, ka.2⟩ ⟨kb.1, kb.2⟩ (a.Less b) (a = b)

section Types

variable [CollationKeys] (d : SortKeyData)

theorem ECGenericObjectTable.ordered_iff {a b : PropValData} {ka kb : List UInt8}
    (ha : getBinarySortKey d a = some ka) (hb : getBinarySortKey d b = some kb) : ECGenericObjectTable.Ordered d a b ↔
      KeysOrdered ⟨ka, getSortFlags a⟩ ⟨kb, getSortFlags b⟩ (a.Less b) (a = b) := by
  constructor
  · rintro ⟨ka', kb', ha', hb', h⟩
    rwa [← Option.some.inj (ha.symm.trans ha'), ← Option.some.inj (hb.symm.trans hb')] at h
  · exact fun h => ⟨ka, kb, ha, hb, h⟩

theorem ECMemTableView.ordered_iff {a b : SPropValue} {ka kb : List UInt8}
    (ha : getBinarySortKey d a = some (ka, 0)) (hb : getBinarySortKey d b = some (kb, 0)) :
    ECMemTableView.Ordered d a b ↔ KeysOrdered ⟨ka, 0⟩ ⟨kb, 0⟩ (a.Less b) (a = b) := by
  constructor
  · rintro ⟨ka', kb', ha', hb', h⟩
    rwa [← Option.some.inj (ha.symm.trans ha'), ← Option.some.inj (hb.symm.trans hb')] at h
  · exact fun h => ⟨(ka, 0), (kb, 0), ha, hb, h⟩

omit [CollationKeys] in
/-- Numbers of 100-nanosecond intervals are equal when the halves are. -/
theorem filetime_inj {hi lo hi' lo' : BitVec 32} (h : filetime hi lo = filetime hi' lo') : hi = hi' ∧ lo = lo' := by
  have hlo := lo.isLt
  have hlo' := lo'.isLt
  rw [filetime, filetime] at h
  exact ⟨BitVec.eq_of_toNat_eq (by omega), BitVec.eq_of_toNat_eq (by omega)⟩

omit [CollationKeys] in
theorem counted_ext {w : ℕ} {α : Type} {a b : Counted w α} (h : a.elems = b.elems) : a = b := by
  cases a
  cases b
  rw [Counted.mk.injEq]
  exact h

/-- The keys the server makes. -/
theorem ECGenericObjectTable.ordered_iff_keysFit {a b : PropValData} (hab : a.SameType b) :
    ECGenericObjectTable.Ordered d a b ↔ a.KeysFit b := by
  cases hab with
  | PT_I2 a b =>
    -- the key holds the low byte of the number only
    have hbyte (i : BitVec 16) : ((i.setWidth 8).setWidth 16).toNat = (i.setWidth 8).toNat := by
      rw [BitVec.toNat_setWidth, BitVec.toNat_setWidth]
      omega
    rw [ordered_iff d rfl rfl]
    refine (keysOrdered_numbers 2 (BitVec.isLt _) (BitVec.isLt _) _ _).trans ?_
    rw [PropValData.PT_I2.injEq, valueB, valueB, hbyte, hbyte]
    refine (lowBytes_ordered_iff a b).trans ⟨.PT_I2, fun h => ?_⟩
    cases h with
    | PT_I2 h => exact h
  | PT_BOOLEAN a b =>
    rw [ordered_iff d rfl rfl]
    refine (keysOrdered_numbers 2 (BitVec.isLt _) (BitVec.isLt _) _ _).trans ?_
    rw [PropValData.PT_BOOLEAN.injEq]
    refine iff_of_true ?_ (.PT_BOOLEAN a b)
    revert a b
    show ∀ a b : Bool, ((valueB (.PT_BOOLEAN a)).toNat < (valueB (.PT_BOOLEAN b)).toNat ↔ a < b) ∧
      ((valueB (.PT_BOOLEAN a)).toNat = (valueB (.PT_BOOLEAN b)).toNat → a = b)
    decide
  | PT_LONG a b =>
    rw [ordered_iff d rfl rfl]
    refine (keysOrdered_numbers 4 a.isLt b.isLt _ _).trans ?_
    rw [PropValData.PT_LONG.injEq]
    refine (bits_ordered_iff a b).trans ⟨.PT_LONG, fun h => ?_⟩
    cases h with
    | PT_LONG h => exact h
  | PT_I8 a b =>
    rw [ordered_iff d rfl rfl, htonl_append, htonl_append]
    refine (keysOrdered_numbers 8 (filetime_lt _ _) (filetime_lt _ _) _ _).trans ?_
    rw [filetime_halves, filetime_halves, PropValData.PT_I8.injEq]
    refine (bits_ordered_iff a b).trans ⟨.PT_I8, fun h => ?_⟩
    cases h with
    | PT_I8 h => exact h
  | PT_SYSTIME a b =>
    rw [ordered_iff d rfl rfl, htonl_append, htonl_append]
    refine (keysOrdered_numbers 8 (filetime_lt _ _) (filetime_lt _ _) _ _).trans ?_
    refine iff_of_true ⟨Iff.rfl, fun h => ?_⟩ (.PT_SYSTIME a b)
    cases a
    cases b
    obtain ⟨rfl, rfl⟩ := filetime_inj h
    rfl
  -- the key is empty, so it orders equal values only
  | PT_CURRENCY a b =>
    rw [ordered_iff d rfl rfl]
    refine (keysOrdered_bytes [] [] _ _).trans ⟨fun h => ?_, fun h => ?_⟩
    · exact .PT_CURRENCY (PropValData.PT_CURRENCY.inj (h.2 rfl))
    · cases h with
      | PT_CURRENCY h =>
        subst h
        exact ⟨iff_of_false (by decide) (lt_irrefl _), fun _ => rfl⟩
  | PT_BINARY a b =>
    rw [ordered_iff d rfl rfl]
    refine (keysOrdered_bytes a.elems b.elems _ _).trans ?_
    exact iff_of_true ⟨compare_list_eq_lt, fun h => congrArg _ (counted_ext h)⟩ (.PT_BINARY a b)

/-- The keys a memory table makes. -/
theorem ECMemTableView.ordered_iff_keysFit {a b : SPropValue} (hab : a.SameType b) :
    ECMemTableView.Ordered d a b ↔ a.KeysFit b := by
  cases hab with
  | PT_I2 a b =>
    rw [ordered_iff d rfl rfl]
    refine (keysOrdered_numbers 2 a.isLt b.isLt _ _).trans ?_
    rw [SPropValue.PT_I2.injEq]
    refine (bits_ordered_iff a b).trans ⟨.PT_I2, fun h => ?_⟩
    cases h with
    | PT_I2 h => exact h
  | PT_BOOLEAN a b =>
    rw [ordered_iff d rfl rfl]
    refine (keysOrdered_numbers 2 a.isLt b.isLt _ _).trans ?_
    refine iff_of_true ⟨Iff.rfl, fun h => ?_⟩ (.PT_BOOLEAN a b)
    exact congrArg _ (BitVec.eq_of_toNat_eq h)
  | PT_LONG a b =>
    rw [ordered_iff d rfl rfl]
    refine (keysOrdered_numbers 4 a.isLt b.isLt _ _).trans ?_
    rw [SPropValue.PT_LONG.injEq]
    refine (bits_ordered_iff a b).trans ⟨.PT_LONG, fun h => ?_⟩
    cases h with
    | PT_LONG h => exact h
  | PT_I8 a b =>
    rw [ordered_iff d rfl rfl, htonl_append, htonl_append]
    refine (keysOrdered_numbers 8 (filetime_lt _ _) (filetime_lt _ _) _ _).trans ?_
    rw [filetime_halves, filetime_halves, SPropValue.PT_I8.injEq]
    refine (bits_ordered_iff a b).trans ⟨.PT_I8, fun h => ?_⟩
    cases h with
    | PT_I8 h => exact h
  | PT_SYSTIME a b =>
    rw [ordered_iff d rfl rfl, htonl_append, htonl_append]
    refine (keysOrdered_numbers 8 (filetime_lt _ _) (filetime_lt _ _) _ _).trans ?_
    refine iff_of_true ⟨Iff.rfl, fun h => ?_⟩ (.PT_SYSTIME a b)
    cases a
    cases b
    obtain ⟨rfl, rfl⟩ := filetime_inj h
    rfl
  | PT_CURRENCY a b =>
    rw [ordered_iff d rfl rfl]
    refine (keysOrdered_bytes [] [] _ _).trans ⟨fun h => ?_, fun h => ?_⟩
    · exact .PT_CURRENCY (SPropValue.PT_CURRENCY.inj (h.2 rfl))
    · cases h with
      | PT_CURRENCY h =>
        subst h
        exact ⟨iff_of_false (by decide) (lt_irrefl _), fun _ => rfl⟩
  | PT_BINARY a b =>
    rw [ordered_iff d rfl rfl]
    refine (keysOrdered_bytes a.elems b.elems _ _).trans ?_
    exact iff_of_true ⟨compare_list_eq_lt, fun h => congrArg _ (counted_ext h)⟩ (.PT_BINARY a b)

end Types

/-- The keys of two values of a type are ordered like the values if and only if the values fit: numbers
have the same sign, currencies are equal, and on the server the bytes of a short number agree. -/
theorem getBinarySortKey_ordered_iff [CollationKeys] (d : SortKeyData) :
    (∀ a b : PropValData, a.SameType b → (ECGenericObjectTable.Ordered d a b ↔ a.KeysFit b)) ∧
      ∀ a b : SPropValue, a.SameType b → (ECMemTableView.Ordered d a b ↔ a.KeysFit b) :=
  ⟨fun _ _ => ECGenericObjectTable.ordered_iff_keysFit d,
    fun _ _ => ECMemTableView.ordered_iff_keysFit d⟩

/-- Strings that are their own keys, and no floats. -/
def SortKeyData.plain : SortKeyData where
  createSortKeyDataFromUTF8 s := s
  createSortKeyDataA s := s
  createSortKeyDataW s := s.flatMap fun c => bigEndian 4 c.toNat
  doubleOfFloat _ := 0
  binOfGuid _ := []

/-- A short number on the server and a long one in a memory table. -/
theorem getBinarySortKey_ordered_iff_numbers :
    letI : CollationKeys := .bytewise
    (ECGenericObjectTable.Ordered .plain (.PT_I2 3) (.PT_I2 200) ↔
        PropValData.KeysFit (.PT_I2 3) (.PT_I2 200)) ∧
      (ECMemTableView.Ordered .plain (.PT_LONG 3) (.PT_LONG 70000) ↔
        SPropValue.KeysFit (.PT_LONG 3) (.PT_LONG 70000)) := by
  let _ : CollationKeys := .bytewise
  exact ⟨(getBinarySortKey_ordered_iff .plain).1 _ _ (.PT_I2 3 200),
    (getBinarySortKey_ordered_iff .plain).2 _ _ (.PT_LONG 3 70000)⟩

/-- The keys put -1 behind 0. -/
theorem getBinarySortKey_negative :
    letI : CollationKeys := .bytewise
    ¬ ECGenericObjectTable.Ordered .plain (.PT_LONG (-1)) (.PT_LONG 0) ∧
      ¬ ECMemTableView.Ordered .plain (.PT_LONG (-1)) (.PT_LONG 0) := by
  let _ : CollationKeys := .bytewise
  have hsign : ¬ SameSign (-1 : BitVec 32) 0 := by
    rw [SameSign]
    decide
  constructor
  · intro h
    cases (ECGenericObjectTable.ordered_iff_keysFit .plain (.PT_LONG (-1) 0)).mp h with
    | PT_LONG h => exact hsign h
  · intro h
    cases (ECMemTableView.ordered_iff_keysFit .plain (.PT_LONG (-1) 0)).mp h with
    | PT_LONG h => exact hsign h

end Zcp.Common
