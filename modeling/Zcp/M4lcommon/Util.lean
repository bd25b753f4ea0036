import Zcp.Common.SOAPUtils

/-!
# Comparing property values in the client

`Util::CompareProp` of `m4lcommon/Util.cpp`. `isOrder_iff_regular` says for which values of a type it is
an order, and `compareProp_isOrder_iff` says so for the server and the client.
-/

namespace Zcp.M4lcommon.Util

open Zcp.Lib Zcp.Common
open Std (TransCmp TransOrd)

inductive HRESULT where
  | hrSuccess
  | MAPI_E_INVALID_PARAMETER
  | MAPI_E_INVALID_TYPE
deriving DecidableEq, Repr

/-- A property. The type of its tag is the constructor of the value. -/
structure SProperty where
  ulPropId : BitVec 16
  Value : SPropValue

/-- The id of `PR_ANR`. -/
def PR_ANR : BitVec 16 := 0x360C

/-- What the comparison calls, and the operators of floats. -/
structure Comparers where
  /-- `PT_TSTRING` is `PT_UNICODE`. -/
  UNICODE : Bool
  wcs_icompare : List (BitVec 32) → List (BitVec 32) → ℤ
  wcs_icontains : List (BitVec 32) → List (BitVec 32) → ℤ
  str_icompare : List UInt8 → List UInt8 → ℤ
  str_icontains : List UInt8 → List UInt8 → ℤ
  wcscasecmp : List (BitVec 32) → List (BitVec 32) → ℤ
  stricmp : List UInt8 → List UInt8 → ℤ
  eqFloat : BitVec 32 → BitVec 32 → Bool
  ltFloat : BitVec 32 → BitVec 32 → Bool
  subFloat : BitVec 32 → BitVec 32 → ℤ
  eqDouble : BitVec 64 → BitVec 64 → Bool
  ltDouble : BitVec 64 → BitVec 64 → Bool
  subDouble : BitVec 64 → BitVec 64 → ℤ

/-! ## Values -/

/-- `CompareSBinary`. The difference of the counts is a `ULONG` that becomes an `int`. -/
def compareSBinary (sbin1 sbin2 : SBinary) : ℤ :=
  if sbin1.elems.length > 0 ∧ sbin1.size = sbin2.size then memcmp sbin1.elems sbin2.elems
  else (sbin1.size - sbin2.size).toInt

/-- The low half of a number. -/
def low (li : BitVec 64) : BitVec 32 := li.setWidth 32

/-- The difference of two numbers as an `int`. -/
def compareI8 (a b : BitVec 64) : ℤ := (low (a - b)).toInt

/-- `cur` of two values, by their halves. -/
def compareCur {α : Type} (Hi Lo : α → BitVec 32) (a b : α) : ℤ :=
  if Hi a = Hi b then (Lo a - Lo b).toInt else (Hi a - Hi b).toInt

/-- Multi-values of sizes that are `ULONG`s. -/
def compareMV {α : Type} (cmp : α → α → ℤ) (a b : Counted 32 α) : ℤ :=
  if a.size = b.size then firstDifference cmp a.elems b.elems else (a.size - b.size).toInt

/-- Multi-values of times and currencies, where the sizes are compared by `==`. -/
def compareMVCur {α : Type} (Hi Lo : α → BitVec 32) (a b : Counted 32 α) : ℤ :=
  if a.size = b.size then firstDifference (compareCur Hi Lo) a.elems b.elems
  else boolInt (a.size = b.size)

/-- The memory of an array of `GUID`s. -/
def guidBytes (guids : List GUID) : List UInt8 := guids.flatMap GUID.bytes

def compareMVGuid (a b : Counted 32 GUID) : ℤ :=
  if a.size = b.size then memcmp (guidBytes a.elems) (guidBytes b.elems)
  else (a.size - b.size).toInt

section Values

variable (d : Comparers)

/-- The comparison by types; `none` is a type that is not compared. -/
def compareValues (ulPropId2 : BitVec 16) : SPropValue → SPropValue → Option ℤ
  | .PT_I2 a, .PT_I2 b => some (a.toInt - b.toInt)
  | .PT_LONG a, .PT_LONG b => some (a - b).toInt
  | .PT_R4 a, .PT_R4 b => some (SOAPUtils.compareFloats d.eqFloat d.ltFloat a b)
  | .PT_BOOLEAN a, .PT_BOOLEAN b => some ((a.toNat : ℤ) - b.toNat)
  | .PT_DOUBLE a, .PT_DOUBLE b => some (SOAPUtils.compareFloats d.eqDouble d.ltDouble a b)
  | .PT_APPTIME a, .PT_APPTIME b => some (SOAPUtils.compareFloats d.eqDouble d.ltDouble a b)
  | .PT_I8 a, .PT_I8 b => some (compareI8 a b)
  | .PT_UNICODE a, .PT_UNICODE b =>
    some (compareStrings (if ulPropId2 = PR_ANR ∧ d.UNICODE then d.wcs_icontains else d.wcs_icompare) a b)
  | .PT_STRING8 a, .PT_STRING8 b =>
    some (compareStrings (if ulPropId2 = PR_ANR ∧ ¬ d.UNICODE then d.str_icontains else d.str_icompare) a b)
  | .PT_SYSTIME a, .PT_SYSTIME b =>
    some (compareCur FILETIME.dwHighDateTime FILETIME.dwLowDateTime a b)
  | .PT_CURRENCY a, .PT_CURRENCY b => some (compareCur CURRENCY.Hi CURRENCY.Lo a b)
  | .PT_BINARY a, .PT_BINARY b => some (compareSBinary a b)
  | .PT_CLSID a, .PT_CLSID b => some (memcmp a.bytes b.bytes)
  | .PT_MV_I2 a, .PT_MV_I2 b => some (compareMV (fun x y => x.toInt - y.toInt) a b)
  | .PT_MV_LONG a, .PT_MV_LONG b => some (compareMV (fun x y => (x - y).toInt) a b)
  | .PT_MV_R4 a, .PT_MV_R4 b => some (compareMV d.subFloat a b)
  | .PT_MV_DOUBLE a, .PT_MV_DOUBLE b => some (compareMV d.subDouble a b)
  | .PT_MV_APPTIME a, .PT_MV_APPTIME b => some (compareMV d.subDouble a b)
  | .PT_MV_I8 a, .PT_MV_I8 b => some (compareMV compareI8 a b)
  | .PT_MV_SYSTIME a, .PT_MV_SYSTIME b =>
    some (compareMVCur FILETIME.dwHighDateTime FILETIME.dwLowDateTime a b)
  | .PT_MV_CURRENCY a, .PT_MV_CURRENCY b => some (compareMVCur CURRENCY.Hi CURRENCY.Lo a b)
  | .PT_MV_CLSID a, .PT_MV_CLSID b => some (compareMVGuid a b)
  | .PT_MV_BINARY a, .PT_MV_BINARY b => some (compareMV compareSBinary a b)
  | .PT_MV_UNICODE a, .PT_MV_UNICODE b => some (compareMV (compareStrings d.wcscasecmp) a b)
  | .PT_MV_STRING8 a, .PT_MV_STRING8 b => some (compareMV (compareStrings d.stricmp) a b)
  | _, _ => none

/-- `CompareProp`. -/
def compareProp (lpProp1 lpProp2 : SProperty) : Except HRESULT ℤ :=
  if lpProp1.Value.ctorIdx ≠ lpProp2.Value.ctorIdx then .error .MAPI_E_INVALID_PARAMETER
  else
    match compareValues d lpProp2.ulPropId lpProp1.Value lpProp2.Value with
    | some nCompareResult => .ok nCompareResult
    | none => .error .MAPI_E_INVALID_TYPE

/-- The result of a comparison that succeeds. -/
def result (lpProp1 lpProp2 : SProperty) : Option ℤ :=
  match compareProp d lpProp1 lpProp2 with
  | .ok nCompareResult => some nCompareResult
  | .error _ => none

end Values

/-! ## Signs -/

theorem compareI8_eq (a b : BitVec 64) : compareI8 a b = (low a - low b).toInt := by
  unfold compareI8 low
  refine congrArg BitVec.toInt (BitVec.eq_of_toNat_eq ?_)
  rw [BitVec.toNat_setWidth, BitVec.toNat_sub, BitVec.toNat_sub, BitVec.toNat_setWidth,
    BitVec.toNat_setWidth]
  omega

section Cur

variable {α : Type} {Hi Lo : α → BitVec 32}

/-- Currencies and times are compared by the high parts and then the low ones, both by their 32-bit differences. -/
theorem sgn_compareCur (a b : α) :
    sgn (compareCur Hi Lo a b) = (diffCmp (Hi a) (Hi b)).then (diffCmp (Lo a) (Lo b)) := by
  unfold compareCur
  split_ifs with h
  · rw [diffCmp_eq_eq.mpr h]
    rfl
  · show diffCmp (Hi a) (Hi b) = _
    cases hdiff : diffCmp (Hi a) (Hi b) with
    | eq => exact absurd (diffCmp_eq_eq.mp hdiff) h
    | lt => rfl
    | gt => rfl

/-- The high halves are in a window, and so are the low halves for each high one. -/
def CurRegular (Hi Lo : α → BitVec 32) (S : Set α) : Prop :=
  InWindow (Hi '' S) ∧ ∀ x ∈ S, InWindow (Lo '' {a ∈ S | Hi x = Hi a})

theorem ordersOn_compareCur_iff {S : Set α} :
    OrdersOn (fun a b => sgn (compareCur Hi Lo a b)) S ↔ CurRegular Hi Lo S := by
  unfold CurRegular
  simp only [sgn_compareCur]
  rw [ordersOn_then_iff (respectsEq_diffCmp.comp Hi)]
  simp only [diffCmp_eq_eq, ← ordersOn_diff_iff, ordersOn_image]

theorem sgn_compareCur_eq_eq {a b : α} (hinj : ∀ a b, Hi a = Hi b → Lo a = Lo b → a = b) :
    sgn (compareCur Hi Lo a b) = .eq ↔ a = b := by
  rw [sgn_compareCur, Ordering.then_eq_eq, diffCmp_eq_eq, diffCmp_eq_eq]
  exact ⟨fun h => hinj a b h.1 h.2, by rintro rfl; exact ⟨rfl, rfl⟩⟩

end Cur

/-- Binary values are compared by the 32-bit difference of their lengths, and then byte by byte. -/
theorem sgn_compareSBinary (a b : SBinary) :
    sgn (compareSBinary a b) = (diffCmp a.size b.size).then (compare a.elems b.elems) := by
  unfold compareSBinary
  by_cases hsize : a.size = b.size
  · rw [diffCmp_eq_eq.mpr hsize, Ordering.eq_then]
    split_ifs with h
    · exact sgn_memcmp _ _
    · have hlength := Counted.size_eq_iff.mp hsize
      have hnil : a.elems = [] ∧ b.elems = [] := by
        have hzero : a.elems.length = 0 := by
          by_contra hne
          exact h ⟨Nat.pos_of_ne_zero hne, hsize⟩
        exact ⟨List.eq_nil_of_length_eq_zero hzero,
          List.eq_nil_of_length_eq_zero (hlength.symm.trans hzero)⟩
      rw [hsize, sub_self, hnil.1, hnil.2]
      rfl
  · rw [if_neg fun h => hsize h.2]
    show diffCmp a.size b.size = _
    cases hdiff : diffCmp a.size b.size with
    | eq => exact absurd (diffCmp_eq_eq.mp hdiff) hsize
    | lt => rfl
    | gt => rfl

theorem ordersOn_compareSBinary_iff {S : Set SBinary} :
    OrdersOn (fun a b => sgn (compareSBinary a b)) S ↔ InWindow (Counted.size '' S) := by
  simp only [sgn_compareSBinary]
  rw [ordersOn_then_iff (respectsEq_diffCmp.comp Counted.size), ← ordersOn_image, ordersOn_diff_iff]
  exact and_iff_left fun _ _ => ordersOn_compare _

/-- Only equal binary values compare as equal. -/
theorem sgn_compareSBinary_eq_eq {a b : SBinary} : sgn (compareSBinary a b) = .eq ↔ a = b := by
  rw [sgn_compareSBinary, Ordering.then_eq_eq, Std.compare_eq_iff_eq]
  constructor
  · rintro ⟨-, h⟩
    cases a
    cases b
    cases h
    rfl
  · rintro rfl
    exact ⟨diffCmp_eq_eq.mpr rfl, rfl⟩

section MultiValues

variable {α : Type} {e : α → α → ℤ}

/-- Sizes that are subtracted, and another comparison for the same size. -/
theorem sgn_sized {a b : Counted 32 α} {r : ℤ} {o : Ordering} (h : a.size = b.size → sgn r = o) :
    sgn (if a.size = b.size then r else (a.size - b.size).toInt) =
      (diffCmp a.size b.size).then o := by
  split_ifs with hsize
  · rw [diffCmp_eq_eq.mpr hsize]
    exact h hsize
  · show diffCmp a.size b.size = _
    cases hdiff : diffCmp a.size b.size with
    | eq => exact absurd (diffCmp_eq_eq.mp hdiff) hsize
    | lt => rfl
    | gt => rfl

theorem sgn_compareMV (a b : Counted 32 α) : sgn (compareMV e a b) =
    (diffCmp a.size b.size).then (List.compareLex (fun x y => sgn (e x y)) a.elems b.elems) :=
  sgn_sized fun hsize => sgn_firstDifference (Counted.size_eq_iff.mp hsize)

/-- The sizes are in a window, and the comparison of elements orders the next elements of multi-values of
one size that start with elements that compare as equal. -/
theorem ordersOn_compareMV_iff (he : RespectsEq fun x y => sgn (e x y)) {T : Set (Counted 32 α)} :
    OrdersOn (fun a b => sgn (compareMV e a b)) T ↔
      InWindow (Counted.size '' T) ∧ ∀ n p, OrdersOn (fun x y => sgn (e x y))
        (nextElems (fun x y => sgn (e x y) = .eq) Counted.elems T n p) := by
  have hsize (a b : Counted 32 α) :
      diffCmp a.size b.size = .eq ↔ a.elems.length = b.elems.length :=
    diffCmp_eq_eq.trans Counted.size_eq_iff
  simp only [sgn_compareMV]
  rw [ordersOn_sized_iff respectsEq_diffCmp he hsize, ordersOn_diff_iff]

theorem sgn_compareMV_eq_eq {a b : Counted 32 α} : sgn (compareMV e a b) = .eq ↔
    List.Forall₂ (fun x y => sgn (e x y) = .eq) a.elems b.elems := by
  rw [sgn_compareMV, Ordering.then_eq_eq, compareLex_eq_eq_iff]
  exact and_iff_right_of_imp fun h => diffCmp_eq_eq.mpr (Counted.size_eq_iff.mpr h.length_eq)

theorem elems_eq_of_sgn_compareMV (heq : ∀ x y, sgn (e x y) = .eq ↔ x = y) {a b : Counted 32 α}
    (h : sgn (compareMV e a b) = .eq) : a.elems = b.elems := by
  rw [sgn_compareMV_eq_eq] at h
  simpa only [heq, List.forall₂_eq_eq_eq] using h

/-- Multi-values of one size that start with the same elements have regular next elements. -/
def MVCurRegular (Hi Lo : α → BitVec 32) (T : Set (Counted 32 α)) : Prop :=
  (∀ a ∈ T, ∀ b ∈ T, a.elems.length = b.elems.length) ∧
    ∀ n p, CurRegular Hi Lo (nextElems (· = ·) Counted.elems T n p)

/-- Multi-values of times of different sizes compare as equal. -/
theorem ordersOn_compareMVCur_iff {Hi Lo : α → BitVec 32}
    (hinj : ∀ a b, Hi a = Hi b → Lo a = Lo b → a = b) {T : Set (Counted 32 α)} :
    (OrdersOn (fun a b => sgn (compareMVCur Hi Lo a b)) T ∧
      ∀ a ∈ T, ∀ b ∈ T, sgn (compareMVCur Hi Lo a b) = .eq → a.elems = b.elems) ↔ MVCurRegular Hi Lo T := by
  have hrespects : RespectsEq fun x y => sgn (compareCur Hi Lo x y) :=
    RespectsEq.of_eq_iff fun _ _ => sgn_compareCur_eq_eq hinj
  -- for multi-values of one size, the usual comparison
  have hsame (hlength : ∀ a ∈ T, ∀ b ∈ T, a.elems.length = b.elems.length) :
      OrdersOn (fun a b => sgn (compareMVCur Hi Lo a b)) T ↔
        ∀ n p, CurRegular Hi Lo (nextElems (· = ·) Counted.elems T n p) := by
    have hcongr : ∀ a ∈ T, ∀ b ∈ T,
        sgn (compareMVCur Hi Lo a b) = sgn (compareMV (compareCur Hi Lo) a b) := by
      intro a ha b hb
      have hsize := Counted.size_eq_iff.mpr (hlength a ha b hb)
      rw [compareMVCur, if_pos hsize, compareMV, if_pos hsize]
    rw [ordersOn_congr hcongr, ordersOn_compareMV_iff hrespects]
    simp only [sgn_compareCur_eq_eq hinj, ordersOn_compareCur_iff]
    refine and_iff_right ?_
    rcases T.eq_empty_or_nonempty with rfl | ⟨a, ha⟩
    · exact ⟨0, by rintro _ ⟨_, ⟨⟩, -⟩⟩
    · refine ⟨a.size, ?_⟩
      rintro _ ⟨b, hb, rfl⟩
      rw [Counted.size_eq_iff.mpr (hlength b hb a ha), sub_self]
      decide
  constructor
  · rintro ⟨hc, heq⟩
    have hlength : ∀ a ∈ T, ∀ b ∈ T, a.elems.length = b.elems.length := by
      intro a ha b hb
      by_contra hne
      have hsize : ¬ a.size = b.size := Counted.size_eq_iff.not.mpr hne
      refine hne (congrArg List.length (heq a ha b hb ?_))
      rw [compareMVCur, if_neg hsize, decide_eq_false hsize]
      rfl
    exact ⟨hlength, (hsame hlength).mp hc⟩
  · rintro ⟨hlength, hnext⟩
    refine ⟨(hsame hlength).mpr hnext, fun a ha b hb h => ?_⟩
    rw [compareMVCur, if_pos (Counted.size_eq_iff.mpr (hlength a ha b hb)),
      sgn_firstDifference (hlength a ha b hb), compareLex_eq_eq_iff] at h
    simpa only [sgn_compareCur_eq_eq hinj, List.forall₂_eq_eq_eq] using h

end MultiValues

/-- As many GUIDs with the same bytes are the same GUIDs. -/
theorem guidBytes_inj {as bs : List GUID} (hlength : as.length = bs.length)
    (h : guidBytes as = guidBytes bs) : as = bs := by
  induction as generalizing bs with
  | nil => exact (List.eq_nil_of_length_eq_zero hlength.symm).symm
  | cons a as ih =>
    cases bs with
    | nil => cases hlength
    | cons b bs =>
      unfold guidBytes at h
      rw [List.flatMap_cons, List.flatMap_cons] at h
      obtain ⟨hab, hrest⟩ := List.append_inj h (a.length_eq.trans b.length_eq.symm)
      have heq : a = b := by
        cases a
        cases b
        cases hab
        rfl
      rw [heq, ih (Nat.succ_injective hlength) hrest]

theorem sgn_compareMVGuid (a b : Counted 32 GUID) : sgn (compareMVGuid a b) =
    (diffCmp a.size b.size).then (compare (guidBytes a.elems) (guidBytes b.elems)) :=
  sgn_sized fun _ => sgn_memcmp _ _

theorem ordersOn_compareMVGuid_iff {T : Set (Counted 32 GUID)} :
    OrdersOn (fun a b => sgn (compareMVGuid a b)) T ↔ InWindow (Counted.size '' T) := by
  simp only [sgn_compareMVGuid]
  rw [ordersOn_then_iff (respectsEq_diffCmp.comp Counted.size), ← ordersOn_image, ordersOn_diff_iff]
  exact and_iff_left fun _ _ => ordersOn_compare fun a : Counted 32 GUID => guidBytes a.elems

theorem elems_eq_of_sgn_compareMVGuid {a b : Counted 32 GUID} (h : sgn (compareMVGuid a b) = .eq) :
    a.elems = b.elems := by
  rw [sgn_compareMVGuid, Ordering.then_eq_eq, diffCmp_eq_eq, Counted.size_eq_iff,
    Std.compare_eq_iff_eq] at h
  exact guidBytes_inj h.1 h.2

/-! ## All types -/

section Order

variable (d : Comparers)

/-- Multi-values of one size whose elements are equal. -/
def Same : SPropValue → SPropValue → Prop
  | .PT_MV_I2 a, .PT_MV_I2 b => a.elems = b.elems
  | .PT_MV_LONG a, .PT_MV_LONG b => a.elems = b.elems
  | .PT_MV_I8 a, .PT_MV_I8 b => a.elems = b.elems
  | .PT_MV_SYSTIME a, .PT_MV_SYSTIME b => a.elems = b.elems
  | .PT_MV_CURRENCY a, .PT_MV_CURRENCY b => a.elems = b.elems
  | .PT_MV_CLSID a, .PT_MV_CLSID b => a.elems = b.elems
  | .PT_MV_BINARY a, .PT_MV_BINARY b => a.elems = b.elems
  | .PT_MV_STRING8 a, .PT_MV_STRING8 b => List.Forall₂ (SameString d.stricmp) a.elems b.elems
  | .PT_MV_UNICODE a, .PT_MV_UNICODE b => List.Forall₂ (SameString d.wcscasecmp) a.elems b.elems
  | _, _ => True

/-- Neither a float nor `PR_ANR`. -/
def SProperty.Ordinary (a : SProperty) : Prop :=
  match a.Value with
  | .PT_R4 _ => False
  | .PT_DOUBLE _ => False
  | .PT_APPTIME _ => False
  | .PT_MV_R4 _ => False
  | .PT_MV_DOUBLE _ => False
  | .PT_MV_APPTIME _ => False
  | .PT_STRING8 _ => a.ulPropId ≠ PR_ANR
  | .PT_UNICODE _ => a.ulPropId ≠ PR_ANR
  | _ => True

/-- Properties of one type. -/
structure OneType (S : Set SProperty) : Prop where
  oneType : ∀ a ∈ S, ∀ b ∈ S, a.Value.ctorIdx = b.Value.ctorIdx
  ordinary : ∀ a ∈ S, a.Ordinary

/-- The comparisons of strings are total preorders. -/
structure Comparers.Locale (d : Comparers) : Prop where
  wcs_icompare : TransCmp fun x y => sgn (d.wcs_icompare x y)
  str_icompare : TransCmp fun x y => sgn (d.str_icompare x y)
  wcscasecmp : TransCmp fun x y => sgn (d.wcscasecmp x y)
  stricmp : TransCmp fun x y => sgn (d.stricmp x y)

/-- Multi-values have sizes in a window, and elements that follow the same ones are regular. -/
def MVRegular {α : Type} (regular : Set α → Prop) (same : α → α → Prop) (T : Set (Counted 32 α)) :
    Prop :=
  InWindow (Counted.size '' T) ∧ ∀ n p, regular (nextElems same Counted.elems T n p)

/-- The properties of the type of a value are regular. -/
def RegularFor (S : Set SProperty) : SPropValue → Prop
  | .PT_LONG _ => InWindow (payloads SProperty.Value .PT_LONG S)
  | .PT_I8 _ => InWindow (low '' payloads SProperty.Value .PT_I8 S)
  | .PT_UNICODE _ => NullsAlike (payloads SProperty.Value .PT_UNICODE S)
  | .PT_STRING8 _ => NullsAlike (payloads SProperty.Value .PT_STRING8 S)
  | .PT_SYSTIME _ => CurRegular FILETIME.dwHighDateTime FILETIME.dwLowDateTime
      (payloads SProperty.Value .PT_SYSTIME S)
  | .PT_CURRENCY _ => CurRegular CURRENCY.Hi CURRENCY.Lo (payloads SProperty.Value .PT_CURRENCY S)
  | .PT_BINARY _ => InWindow (Counted.size '' payloads SProperty.Value .PT_BINARY S)
  | .PT_MV_I2 _ => InWindow (Counted.size '' payloads SProperty.Value .PT_MV_I2 S)
  | .PT_MV_LONG _ => MVRegular InWindow (· = ·) (payloads SProperty.Value .PT_MV_LONG S)
  | .PT_MV_I8 _ =>
    MVRegular (fun T => InWindow (low '' T)) (fun x y => low x = low y)
        (payloads SProperty.Value .PT_MV_I8 S) ∧
      ∀ x ∈ payloads SProperty.Value .PT_MV_I8 S, ∀ y ∈ payloads SProperty.Value .PT_MV_I8 S,
        List.Forall₂ (fun x y => low x = low y) x.elems y.elems → x.elems = y.elems
  | .PT_MV_SYSTIME _ => MVCurRegular FILETIME.dwHighDateTime FILETIME.dwLowDateTime
      (payloads SProperty.Value .PT_MV_SYSTIME S)
  | .PT_MV_CURRENCY _ => MVCurRegular CURRENCY.Hi CURRENCY.Lo
      (payloads SProperty.Value .PT_MV_CURRENCY S)
  | .PT_MV_CLSID _ => InWindow (Counted.size '' payloads SProperty.Value .PT_MV_CLSID S)
  | .PT_MV_BINARY _ => MVRegular (fun T => InWindow (Counted.size '' T)) (· = ·)
      (payloads SProperty.Value .PT_MV_BINARY S)
  | .PT_MV_STRING8 _ => MVRegular NullsAlike (SameString d.stricmp)
      (payloads SProperty.Value .PT_MV_STRING8 S)
  | .PT_MV_UNICODE _ => MVRegular NullsAlike (SameString d.wcscasecmp)
      (payloads SProperty.Value .PT_MV_UNICODE S)
  | _ => True

/-- The properties for which the comparison of their type works. -/
def Regular (S : Set SProperty) : Prop := ∀ a ∈ S, RegularFor d S a.Value

variable {d} {S : Set SProperty}

theorem result_eq {a b : SProperty} (htype : a.Value.ctorIdx = b.Value.ctorIdx) :
    result d a b = compareValues d b.ulPropId a.Value b.Value := by
  unfold result compareProp
  rw [if_neg (not_not.mpr htype)]
  cases compareValues d b.ulPropId a.Value b.Value <;> rfl

/-- A type that is not compared. -/
theorem isOrder_of_not_compared (hnone : ∀ a ∈ S, ∀ b ∈ S, result d a b = none) :
    IsOrder (result d) (fun a b => Same d a.Value b.Value) S := by
  refine IsOrder.of_ordersOn (c := fun _ _ => .eq) ⟨fun _ _ _ _ => rfl, fun _ _ _ _ _ _ _ _ => rfl⟩
    (fun a ha b hb r h => ?_) fun a ha b hb h => ?_
  · rw [hnone a ha b hb] at h
    cases h
  · rw [hnone a ha b hb] at h
    cases h

theorem isOrder_of_empty : IsOrder (result d) (fun a b => Same d a.Value b.Value) ∅ :=
  isOrder_of_not_compared fun _ ha => ha.elim

/-- `C` makes the values of one type from what they hold. -/
structure MakesType {β : Type} (C : β → SPropValue) : Prop where
  inj : Function.Injective C
  only : ∀ v x, v.ctorIdx = (C x).ctorIdx → ∃ y, v = C y

namespace MakesType

variable {β : Type} {C : β → SPropValue} {f : β → β → ℤ} {P : Prop} {a₀ : SProperty} {x₀ : β}

/-- A type whose values are ordered as far as what is compared of them is. -/
theorem ordered_iff (hC : MakesType C) (hS : OneType S) (ha₀ : a₀ ∈ S) (hx₀ : a₀.Value = C x₀)
    (hP : ∀ x, RegularFor d S (C x) ↔ P)
    (hcmp : ∀ b ∈ S, ∀ x y, b.Value = C y → compareValues d b.ulPropId (C x) (C y) = some (f x y))
    (h : (OrdersOn (fun x y => sgn (f x y)) (payloads SProperty.Value C S) ∧
      ∀ x ∈ payloads SProperty.Value C S, ∀ y ∈ payloads SProperty.Value C S,
        sgn (f x y) = .eq → Same d (C x) (C y)) ↔ P) :
    IsOrder (result d) (fun a b => Same d a.Value b.Value) S ↔ Regular d S := by
  have hpayload : ∀ a ∈ S, ∃ y, a.Value = C y := fun a ha =>
    hC.only a.Value x₀ (hx₀ ▸ hS.oneType a ha a₀ ha₀)
  have hregular : Regular d S ↔ P := by
    constructor
    · intro hreg
      exact (hP x₀).mp (hx₀ ▸ hreg a₀ ha₀)
    · intro hp a ha
      obtain ⟨y, hy⟩ := hpayload a ha
      rw [hy]
      exact (hP y).mpr hp
  rw [hregular, ← h]
  refine isOrder_iff hC.inj hpayload ?_ ?_
  · intro a ha b hb x y hax hby
    refine ⟨f x y, ?_, rfl⟩
    rw [result_eq (hS.oneType a ha b hb), hax, hby, hcmp b hb x y hby]
  · intro a b x y hax hby
    rw [hax, hby]

/-- A type of single values, of which it is not asked that values that compare as equal be the same. -/
theorem single_iff (hC : MakesType C) (hS : OneType S) (ha₀ : a₀ ∈ S) (hx₀ : a₀.Value = C x₀)
    (hP : ∀ x, RegularFor d S (C x) ↔ P) (hsame : ∀ x y, Same d (C x) (C y))
    (hcmp : ∀ b ∈ S, ∀ x y, b.Value = C y → compareValues d b.ulPropId (C x) (C y) = some (f x y))
    (h : OrdersOn (fun x y => sgn (f x y)) (payloads SProperty.Value C S) ↔ P) :
    IsOrder (result d) (fun a b => Same d a.Value b.Value) S ↔ Regular d S :=
  hC.ordered_iff hS ha₀ hx₀ hP hcmp ((and_iff_left fun _ _ _ _ _ => hsame _ _).trans h)

/-- Nothing is promised for a type that is not compared. -/
theorem not_compared (hC : MakesType C) (hS : OneType S) (ha₀ : a₀ ∈ S) (x₀ : β) (hx₀ : a₀.Value = C x₀)
    (hregular : ∀ x, RegularFor d S (C x)) (hcmp : ∀ id x w, compareValues d id (C x) w = none) :
    IsOrder (result d) (fun a b => Same d a.Value b.Value) S ↔ Regular d S := by
  have hpayload : ∀ a ∈ S, ∃ y, a.Value = C y := fun a ha =>
    hC.only a.Value x₀ (hx₀ ▸ hS.oneType a ha a₀ ha₀)
  refine iff_of_true (isOrder_of_not_compared fun a ha b hb => ?_) fun a ha => ?_
  · obtain ⟨x, hx⟩ := hpayload a ha
    rw [result_eq (hS.oneType a ha b hb), hx, hcmp]
  · obtain ⟨x, hx⟩ := hpayload a ha
    rw [hx]
    exact hregular x

theorem of_I2 : MakesType .PT_I2 where
  inj _ _ := SPropValue.PT_I2.inj
  only v _ h := by cases v <;> first | exact ⟨_, rfl⟩ | cases h

theorem of_LONG : MakesType .PT_LONG where
  inj _ _ := SPropValue.PT_LONG.inj
  only v _ h := by cases v <;> first | exact ⟨_, rfl⟩ | cases h

theorem of_BOOLEAN : MakesType .PT_BOOLEAN where
  inj _ _ := SPropValue.PT_BOOLEAN.inj
  only v _ h := by cases v <;> first | exact ⟨_, rfl⟩ | cases h

theorem of_I8 : MakesType .PT_I8 where
  inj _ _ := SPropValue.PT_I8.inj
  only v _ h := by cases v <;> first | exact ⟨_, rfl⟩ | cases h

theorem of_UNICODE : MakesType .PT_UNICODE where
  inj _ _ := SPropValue.PT_UNICODE.inj
  only v _ h := by cases v <;> first | exact ⟨_, rfl⟩ | cases h

theorem of_STRING8 : MakesType .PT_STRING8 where
  inj _ _ := SPropValue.PT_STRING8.inj
  only v _ h := by cases v <;> first | exact ⟨_, rfl⟩ | cases h

theorem of_SYSTIME : MakesType .PT_SYSTIME where
  inj _ _ := SPropValue.PT_SYSTIME.inj
  only v _ h := by cases v <;> first | exact ⟨_, rfl⟩ | cases h

theorem of_CURRENCY : MakesType .PT_CURRENCY where
  inj _ _ := SPropValue.PT_CURRENCY.inj
  only v _ h := by cases v <;> first | exact ⟨_, rfl⟩ | cases h

theorem of_BINARY : MakesType .PT_BINARY where
  inj _ _ := SPropValue.PT_BINARY.inj
  only v _ h := by cases v <;> first | exact ⟨_, rfl⟩ | cases h

theorem of_CLSID : MakesType .PT_CLSID where
  inj _ _ := SPropValue.PT_CLSID.inj
  only v _ h := by cases v <;> first | exact ⟨_, rfl⟩ | cases h

theorem of_MV_I2 : MakesType .PT_MV_I2 where
  inj _ _ := SPropValue.PT_MV_I2.inj
  only v _ h := by cases v <;> first | exact ⟨_, rfl⟩ | cases h

theorem of_MV_LONG : MakesType .PT_MV_LONG where
  inj _ _ := SPropValue.PT_MV_LONG.inj
  only v _ h := by cases v <;> first | exact ⟨_, rfl⟩ | cases h

theorem of_MV_I8 : MakesType .PT_MV_I8 where
  inj _ _ := SPropValue.PT_MV_I8.inj
  only v _ h := by cases v <;> first | exact ⟨_, rfl⟩ | cases h

theorem of_MV_SYSTIME : MakesType .PT_MV_SYSTIME where
  inj _ _ := SPropValue.PT_MV_SYSTIME.inj
  only v _ h := by cases v <;> first | exact ⟨_, rfl⟩ | cases h

theorem of_MV_CURRENCY : MakesType .PT_MV_CURRENCY where
  inj _ _ := SPropValue.PT_MV_CURRENCY.inj
  only v _ h := by cases v <;> first | exact ⟨_, rfl⟩ | cases h

theorem of_MV_CLSID : MakesType .PT_MV_CLSID where
  inj _ _ := SPropValue.PT_MV_CLSID.inj
  only v _ h := by cases v <;> first | exact ⟨_, rfl⟩ | cases h

theorem of_MV_BINARY : MakesType .PT_MV_BINARY where
  inj _ _ := SPropValue.PT_MV_BINARY.inj
  only v _ h := by cases v <;> first | exact ⟨_, rfl⟩ | cases h

theorem of_MV_STRING8 : MakesType .PT_MV_STRING8 where
  inj _ _ := SPropValue.PT_MV_STRING8.inj
  only v _ h := by cases v <;> first | exact ⟨_, rfl⟩ | cases h

theorem of_MV_UNICODE : MakesType .PT_MV_UNICODE where
  inj _ _ := SPropValue.PT_MV_UNICODE.inj
  only v _ h := by cases v <;> first | exact ⟨_, rfl⟩ | cases h

theorem of_ERROR : MakesType .PT_ERROR where
  inj _ _ := SPropValue.PT_ERROR.inj
  only v _ h := by cases v <;> first | exact ⟨_, rfl⟩ | cases h

theorem of_other : MakesType fun _ : Unit => .other where
  inj _ _ _ := rfl
  only v _ h := by cases v <;> first | exact ⟨(), rfl⟩ | cases h

end MakesType

/-- The name resolution is left out. -/
theorem OneType.notANR (hS : OneType S) {b : SProperty} (hb : b ∈ S)
    (hy : (∃ y, b.Value = .PT_STRING8 y) ∨ ∃ y, b.Value = .PT_UNICODE y) : b.ulPropId ≠ PR_ANR := by
  have hb := hS.ordinary b hb
  unfold SProperty.Ordinary at hb
  rcases hy with ⟨y, hy⟩ | ⟨y, hy⟩
  · rwa [hy] at hb
  · rwa [hy] at hb

section Vectors

variable {α : Type} {e : α → α → ℤ} {T : Set (Counted 32 α)}

/-- Vectors of elements that compare as equal only if they are: their lengths have to be in a window, and the elements
that come to the same place to be ordered. -/
theorem ordersOn_compareMV_elems_iff (heq : ∀ x y, sgn (e x y) = .eq ↔ x = y) :
    (OrdersOn (fun a b => sgn (compareMV e a b)) T ∧
      ∀ a ∈ T, ∀ b ∈ T, sgn (compareMV e a b) = .eq → a.elems = b.elems) ↔
      MVRegular (OrdersOn fun x y => sgn (e x y)) (· = ·) T := by
  rw [ordersOn_compareMV_iff (RespectsEq.of_eq_iff heq),
    and_iff_left fun _ _ _ _ => elems_eq_of_sgn_compareMV heq]
  simp only [heq]
  rfl

/-- Vectors of texts are regular where `NULL` and empty elements that come to the same place are not mixed. -/
theorem ordersOn_compareMVStrings_iff {β : Type} {icompare : β → β → ℤ}
    (hd : TransCmp fun x y => sgn (icompare x y)) {T : Set (Counted 32 (Option β))} :
    (OrdersOn (fun a b => sgn (compareMV (compareStrings icompare) a b)) T ∧
      ∀ a ∈ T, ∀ b ∈ T, sgn (compareMV (compareStrings icompare) a b) = .eq →
        List.Forall₂ (SameString icompare) a.elems b.elems) ↔ MVRegular NullsAlike (SameString icompare) T := by
  rw [ordersOn_compareMV_iff (respectsEq_compareStrings hd)]
  simp only [sgn_compareMV_eq_eq, sgn_compareStrings_eq_eq, ordersOn_compareStrings_iff hd]
  exact and_iff_left fun _ _ _ _ heq => heq

/-- 64-bit elements are compared by their low halves, so that others must not stand in the same place. -/
theorem ordersOn_compareMVI8_iff {T : Set (Counted 32 (BitVec 64))} :
    (OrdersOn (fun a b => sgn (compareMV compareI8 a b)) T ∧
      ∀ a ∈ T, ∀ b ∈ T, sgn (compareMV compareI8 a b) = .eq → a.elems = b.elems) ↔
      MVRegular (fun T => InWindow (low '' T)) (fun x y => low x = low y) T ∧
        ∀ a ∈ T, ∀ b ∈ T, List.Forall₂ (fun x y => low x = low y) a.elems b.elems → a.elems = b.elems := by
  have he : RespectsEq fun x y => sgn (compareI8 x y) := by
    simp only [compareI8_eq]
    exact respectsEq_diffCmp.comp low
  rw [ordersOn_compareMV_iff he]
  simp only [sgn_compareMV_eq_eq, compareI8_eq, sgn_toInt_sub_eq_eq, ordersOn_sgn_sub_iff]
  rfl

end Vectors

theorem FILETIME.eq_of_parts (a b : FILETIME) (hhi : a.dwHighDateTime = b.dwHighDateTime)
    (hlo : a.dwLowDateTime = b.dwLowDateTime) : a = b := by
  cases a
  cases b
  cases hhi
  cases hlo
  rfl

theorem CURRENCY.eq_of_parts (a b : CURRENCY) (hhi : a.Hi = b.Hi) (hlo : a.Lo = b.Lo) : a = b := by
  cases a
  cases b
  cases hhi
  cases hlo
  rfl

/-- The comparison of the values of one type is an order exactly when they are regular. -/
theorem isOrder_iff_regular (hd : d.Locale) (hS : OneType S) :
    IsOrder (result d) (fun a b => Same d a.Value b.Value) S ↔ Regular d S := by
  rcases S.eq_empty_or_nonempty with rfl | ⟨a₀, ha₀⟩
  · exact iff_of_true isOrder_of_empty fun _ ha => ha.elim
  have hordinary := hS.ordinary a₀ ha₀
  unfold SProperty.Ordinary at hordinary
  cases hx₀ : a₀.Value with
  -- numbers: a difference that is taken with more bits than the values have never wraps
  | PT_I2 x₀ =>
    exact MakesType.of_I2.single_iff hS ha₀ hx₀ (fun _ => Iff.rfl) (fun _ _ => trivial) (fun _ _ _ _ _ => rfl)
      (iff_true_intro (SOAPUtils.ordersOn_sub BitVec.toInt))
  | PT_LONG x₀ =>
    exact MakesType.of_LONG.single_iff hS ha₀ hx₀ (fun _ => Iff.rfl) (fun _ _ => trivial) (fun _ _ _ _ _ => rfl)
      ordersOn_diff_iff
  | PT_BOOLEAN x₀ =>
    exact MakesType.of_BOOLEAN.single_iff hS ha₀ hx₀ (fun _ => Iff.rfl) (fun _ _ => trivial) (fun _ _ _ _ _ => rfl)
      (iff_true_intro (SOAPUtils.ordersOn_sub fun x : BitVec 16 => (x.toNat : ℤ)))
  | PT_I8 x₀ =>
    refine MakesType.of_I8.single_iff hS ha₀ hx₀ (fun _ => Iff.rfl) (fun _ _ => trivial) (fun _ _ _ _ _ => rfl) ?_
    simp only [compareI8_eq]
    exact ordersOn_sgn_sub_iff
  -- texts
  | PT_UNICODE x₀ =>
    refine MakesType.of_UNICODE.single_iff (f := compareStrings d.wcs_icompare) hS ha₀ hx₀ (fun _ => Iff.rfl)
      (fun _ _ => trivial) (fun b hb x y hy => ?_) (ordersOn_compareStrings_iff hd.wcs_icompare)
    show some (compareStrings (if _ then _ else _) x y) = _
    rw [if_neg fun h => hS.notANR hb (.inr ⟨y, hy⟩) h.1]
  | PT_STRING8 x₀ =>
    refine MakesType.of_STRING8.single_iff (f := compareStrings d.str_icompare) hS ha₀ hx₀ (fun _ => Iff.rfl)
      (fun _ _ => trivial) (fun b hb x y hy => ?_) (ordersOn_compareStrings_iff hd.str_icompare)
    show some (compareStrings (if _ then _ else _) x y) = _
    rw [if_neg fun h => hS.notANR hb (.inl ⟨y, hy⟩) h.1]
  -- values of two parts, and bytes
  | PT_SYSTIME x₀ =>
    exact MakesType.of_SYSTIME.single_iff hS ha₀ hx₀ (fun _ => Iff.rfl) (fun _ _ => trivial) (fun _ _ _ _ _ => rfl)
      ordersOn_compareCur_iff
  | PT_CURRENCY x₀ =>
    exact MakesType.of_CURRENCY.single_iff hS ha₀ hx₀ (fun _ => Iff.rfl) (fun _ _ => trivial) (fun _ _ _ _ _ => rfl)
      ordersOn_compareCur_iff
  | PT_BINARY x₀ =>
    exact MakesType.of_BINARY.single_iff hS ha₀ hx₀ (fun _ => Iff.rfl) (fun _ _ => trivial) (fun _ _ _ _ _ => rfl)
      ordersOn_compareSBinary_iff
  | PT_CLSID x₀ =>
    refine MakesType.of_CLSID.single_iff hS ha₀ hx₀ (fun _ => Iff.rfl) (fun _ _ => trivial) (fun _ _ _ _ _ => rfl)
      (iff_true_intro ?_)
    simp only [sgn_memcmp]
    exact ordersOn_compare GUID.bytes
  -- vectors, the sizes of which are compared by a difference that wraps
  | PT_MV_I2 x₀ =>
    refine MakesType.of_MV_I2.ordered_iff hS ha₀ hx₀ (fun _ => Iff.rfl) (fun _ _ _ _ _ => rfl)
      ((ordersOn_compareMV_elems_iff SOAPUtils.sgn_toInt_sub_toInt_eq_eq).trans ?_)
    exact and_iff_left fun _ _ => SOAPUtils.ordersOn_sub BitVec.toInt
  | PT_MV_LONG x₀ =>
    refine MakesType.of_MV_LONG.ordered_iff hS ha₀ hx₀ (fun _ => Iff.rfl) (fun _ _ _ _ _ => rfl)
      ((ordersOn_compareMV_elems_iff fun _ _ => sgn_toInt_sub_eq_eq).trans ?_)
    simp only [MVRegular, ordersOn_sgn_sub_iff, Set.image_id']
  | PT_MV_I8 x₀ =>
    exact MakesType.of_MV_I8.ordered_iff hS ha₀ hx₀ (fun _ => Iff.rfl) (fun _ _ _ _ _ => rfl)
      ordersOn_compareMVI8_iff
  | PT_MV_SYSTIME x₀ =>
    exact MakesType.of_MV_SYSTIME.ordered_iff hS ha₀ hx₀ (fun _ => Iff.rfl) (fun _ _ _ _ _ => rfl)
      (ordersOn_compareMVCur_iff FILETIME.eq_of_parts)
  | PT_MV_CURRENCY x₀ =>
    exact MakesType.of_MV_CURRENCY.ordered_iff hS ha₀ hx₀ (fun _ => Iff.rfl) (fun _ _ _ _ _ => rfl)
      (ordersOn_compareMVCur_iff CURRENCY.eq_of_parts)
  | PT_MV_CLSID x₀ =>
    refine MakesType.of_MV_CLSID.ordered_iff hS ha₀ hx₀ (fun _ => Iff.rfl) (fun _ _ _ _ _ => rfl) ?_
    rw [ordersOn_compareMVGuid_iff]
    exact and_iff_left fun _ _ _ _ => elems_eq_of_sgn_compareMVGuid
  | PT_MV_BINARY x₀ =>
    refine MakesType.of_MV_BINARY.ordered_iff hS ha₀ hx₀ (fun _ => Iff.rfl) (fun _ _ _ _ _ => rfl)
      ((ordersOn_compareMV_elems_iff fun _ _ => sgn_compareSBinary_eq_eq).trans ?_)
    simp only [MVRegular, ordersOn_compareSBinary_iff]
  | PT_MV_STRING8 x₀ =>
    exact MakesType.of_MV_STRING8.ordered_iff hS ha₀ hx₀ (fun _ => Iff.rfl) (fun _ _ _ _ _ => rfl)
      (ordersOn_compareMVStrings_iff hd.stricmp)
  | PT_MV_UNICODE x₀ =>
    exact MakesType.of_MV_UNICODE.ordered_iff hS ha₀ hx₀ (fun _ => Iff.rfl) (fun _ _ _ _ _ => rfl)
      (ordersOn_compareMVStrings_iff hd.wcscasecmp)
  | PT_ERROR x₀ => exact MakesType.of_ERROR.not_compared hS ha₀ x₀ hx₀ (fun _ => trivial) fun _ _ _ => rfl
  | other => exact MakesType.of_other.not_compared hS ha₀ () hx₀ (fun _ => trivial) fun _ _ _ => rfl
  | _ =>
    -- floats
    rw [hx₀] at hordinary
    exact hordinary.elim

end Order

/-- On the server and in the client, the comparison of the values of one type is an order exactly when they
are regular. On the server, mixtures of entry ids are left out. -/
theorem compareProp_isOrder_iff (d : SOAPUtils.Comparers)
    (hd : TransCmp fun x y => sgn (d.u8_icompare x y)) (d' : Comparers) (hd' : d'.Locale) :
    (∀ S, SOAPUtils.OneType S → (IsOrder (SOAPUtils.result d) (fun a b => SOAPUtils.Same d a.Value b.Value) S ∧
        ¬ SOAPUtils.MixesEntryIds S ↔ SOAPUtils.Regular d S)) ∧ ∀ S, OneType S →
        (IsOrder (result d') (fun a b => Same d' a.Value b.Value) S ↔ Regular d' S) :=
  ⟨fun _ hS => SOAPUtils.isOrder_iff_regular hd hS, fun _ hS => isOrder_iff_regular hd' hS⟩

/-- The comparison of wide strings by their units. -/
def compareUnits (a b : List (BitVec 32)) : ℤ :=
  match compare (a.map BitVec.toNat) (b.map BitVec.toNat) with
  | .lt => -1
  | .eq => 0
  | .gt => 1

theorem sgn_compareUnits (a b : List (BitVec 32)) :
    sgn (compareUnits a b) = compare (a.map BitVec.toNat) (b.map BitVec.toNat) := by
  unfold compareUnits
  cases compare (a.map BitVec.toNat) (b.map BitVec.toNat) <;> rfl

/-- Strings are compared by their bytes, and floats by their bits. -/
def serverBytes : SOAPUtils.Comparers where
  u8_icompare := memcmp
  u8_istartswith := memcmp
  eqFloat a b := a = b
  ltFloat a b := a.toNat < b.toNat
  eqDouble a b := a = b
  ltDouble a b := a.toNat < b.toNat

/-- Strings are compared by their units, and floats by their bits. -/
def clientUnits : Comparers where
  UNICODE := true
  wcs_icompare := compareUnits
  wcs_icontains := compareUnits
  str_icompare := memcmp
  str_icontains := memcmp
  wcscasecmp := compareUnits
  stricmp := memcmp
  eqFloat a b := a = b
  ltFloat a b := a.toNat < b.toNat
  subFloat a b := a.toNat - b.toNat
  eqDouble a b := a = b
  ltDouble a b := a.toNat < b.toNat
  subDouble a b := a.toNat - b.toNat

theorem transCmp_memcmp : TransCmp fun x y => sgn (memcmp x y) := by
  simp only [sgn_memcmp]
  exact inferInstanceAs (TransOrd (List UInt8))

theorem transCmp_compareUnits : TransCmp fun x y => sgn (compareUnits x y) := by
  simp only [sgn_compareUnits]
  have h : TransOrd (List ℕ) := inferInstance
  exact { eq_swap := h.eq_swap, isLE_trans := h.isLE_trans }

theorem locale_clientUnits : clientUnits.Locale :=
  ⟨transCmp_compareUnits, transCmp_memcmp, transCmp_compareUnits, transCmp_memcmp⟩

/-- Names, of which one is `NULL`. -/
def names : Set SOAPUtils.PropVal := {⟨0x3001, .PT_UNICODE none⟩, ⟨0x3001, .PT_UNICODE (some [])⟩}

/-- Sizes, of which one is half of all numbers. -/
def sizes : Set SProperty := {⟨0x0E08, .PT_LONG 0⟩, ⟨0x0E08, .PT_LONG 0x80000000⟩}

theorem oneType_names : SOAPUtils.OneType names := by
  constructor
  · rintro a (rfl | rfl) b (rfl | rfl) <;> rfl
  · rintro a (rfl | rfl) <;> exact (by decide : (0x3001 : BitVec 16) ≠ SOAPUtils.PR_ANR)

theorem oneType_sizes : OneType sizes := by
  constructor
  · rintro a (rfl | rfl) b (rfl | rfl) <;> rfl
  · rintro a (rfl | rfl) <;> trivial

theorem compareProp_isOrder_iff_names : (IsOrder (SOAPUtils.result serverBytes)
        (fun a b => SOAPUtils.Same serverBytes a.Value b.Value) names ∧
      ¬ SOAPUtils.MixesEntryIds names ↔ SOAPUtils.Regular serverBytes names) ∧
      (IsOrder (result clientUnits) (fun a b => Same clientUnits a.Value b.Value) sizes ↔
        Regular clientUnits sizes) := by
  have h := compareProp_isOrder_iff serverBytes transCmp_memcmp clientUnits locale_clientUnits
  exact ⟨h.1 names oneType_names, h.2 sizes oneType_sizes⟩

/-- A `NULL` name is greater than an empty one and smaller, and the difference of two sizes is the least
`int` in both directions. -/
theorem not_isOrder_names : ¬ IsOrder (SOAPUtils.result serverBytes)
        (fun a b => SOAPUtils.Same serverBytes a.Value b.Value) names ∧
      ¬ IsOrder (result clientUnits) (fun a b => Same clientUnits a.Value b.Value) sizes := by
  constructor
  · intro h
    have hsign := h.antisymm _ (.inl rfl) _ (.inr rfl) 1 1 (by decide) (by decide)
    cases hsign
  · intro h
    have hsign := h.antisymm _ (.inl rfl) _ (.inr rfl) (-2147483648) (-2147483648) (by decide)
      (by decide)
    cases hsign

end Zcp.M4lcommon.Util
