import Zcp.Common.CompareProp
import Zcp.Lib.Endian
import Mathlib.Data.List.TakeWhile

/-!
# Comparing property values on the server

`CompareProp` of `provider/common/SOAPUtils.cpp`. `isOrder_iff_regular` says for which values of a type it
is an order.
-/

namespace Zcp.Common.SOAPUtils

open Zcp.Lib
open Std (TransCmp TransOrd)

inductive ECRESULT where
  | erSuccess
  | ZARAFA_E_INVALID_PARAMETER
deriving DecidableEq, Repr

/-- `propVal`. The type of its tag is the constructor of the value. -/
structure PropVal where
  ulPropId : BitVec 16
  Value : PropValData

/-- The id of `PR_ADDRESS_BOOK_ENTRYID`. -/
def PR_ADDRESS_BOOK_ENTRYID : BitVec 16 := 0x663B

/-- The id of `PR_ANR`. -/
def PR_ANR : BitVec 16 := 0x360C

/-- What the comparison calls, and the operators of floats. -/
structure Comparers where
  u8_icompare : List UInt8 → List UInt8 → ℤ
  u8_istartswith : List UInt8 → List UInt8 → ℤ
  eqFloat : BitVec 32 → BitVec 32 → Bool
  ltFloat : BitVec 32 → BitVec 32 → Bool
  eqDouble : BitVec 64 → BitVec 64 → Bool
  ltDouble : BitVec 64 → BitVec 64 → Bool

/-- `PropCheck`, as far as the union can be wrong for its type. -/
def propCheck : PropValData → Bool
  | .PT_STRING8 lpszA => lpszA.isSome
  | .PT_CLSID bin => bin.elems.length % 16 = 0
  | _ => true

/-! ## Entry ids -/

/-- `MUIDECSAB`, as it is in memory. -/
def MUIDECSAB : List UInt8 :=
  [0xac, 0x21, 0xa9, 0x50, 0x40, 0xd3, 0xee, 0x48, 0xb3, 0x19, 0xfb, 0xa7, 0x53, 0x30, 0x44, 0x25]

namespace ABEID

/-- The member at some offset; `none` is behind the end of the memory. -/
def ulongAt (offset : ℕ) (eid : List UInt8) : Option (BitVec 32) :=
  if offset + 4 ≤ eid.length then
    some (BitVec.ofNat 32 (ofLittleEndian ((eid.drop offset).take 4)))
  else none

def guid (eid : List UInt8) : Option (List UInt8) :=
  if 20 ≤ eid.length then some ((eid.drop 4).take 16) else none

def ulVersion (eid : List UInt8) : Option (BitVec 32) := ulongAt 20 eid

def ulType (eid : List UInt8) : Option (BitVec 32) := ulongAt 24 eid

def ulId (eid : List UInt8) : Option (BitVec 32) := ulongAt 28 eid

/-- The memory from `szExId` on. -/
def szExId (eid : List UInt8) : List UInt8 := eid.drop 32

end ABEID

/-- `strcmp` of the strings at the start of two pieces of memory; `none` is behind the end of one. -/
def strcmp : List UInt8 → List UInt8 → Option ℤ
  | a :: as, b :: bs =>
    if a ≠ b then some (a.toNat - b.toNat) else if a = 0 then some 0 else strcmp as bs
  | _, _ => none

/-- The comparison of two entry ids before their types. -/
def compareABEIDIds (peid1 peid2 : List UInt8) : Option ℤ := do
  let ulVersion1 ← ABEID.ulVersion peid1
  let ulVersion2 ← ABEID.ulVersion peid2
  if ulVersion1 = ulVersion2 ∧ peid1.length ≠ peid2.length then
    some (peid1.length - peid2.length)
  else if ulVersion1 = ulVersion2 ∧ ulVersion1 ≠ 0 then
    strcmp (ABEID.szExId peid1) (ABEID.szExId peid2)
  else do
    let ulId1 ← ABEID.ulId peid1
    let ulId2 ← ABEID.ulId peid2
    some (ulId1 - ulId2).toInt

/-- The comparison of the types of two entry ids, when nothing else differs. -/
def compareABEIDTypes (peid1 peid2 : List UInt8) (iResult : ℤ) : Option ℤ :=
  if iResult = 0 then do
    let ulType1 ← ABEID.ulType peid1
    let ulType2 ← ABEID.ulType peid2
    some (ulType1 - ulType2).toInt
  else some iResult

/-- `CompareABEID`; `none` is a read behind the end of an entry id. -/
def compareABEID (peid1 peid2 : List UInt8) : Option (Except ECRESULT ℤ) := do
  let guid1 ← ABEID.guid peid1
  if guid1 ≠ MUIDECSAB then some (.error .ZARAFA_E_INVALID_PARAMETER)
  else do
    let guid2 ← ABEID.guid peid2
    if guid2 ≠ MUIDECSAB then some (.error .ZARAFA_E_INVALID_PARAMETER)
    else do
      let iResult ← compareABEIDIds peid1 peid2
      let iResult ← compareABEIDTypes peid1 peid2 iResult
      some (.ok iResult)

/-! ## Values -/

section Values

variable (d : Comparers)

def compareFloats {w : ℕ} (eq lt : BitVec w → BitVec w → Bool) (a b : BitVec w) : ℤ :=
  if eq a b then 0 else if lt a b then -1 else 1

/-- The halves of times and currencies. The difference of the high ones is an `int`, which wraps. -/
def compareHilo (a b : HiloLong) : ℤ :=
  if a.hi = b.hi ∧ a.lo.toNat < b.lo.toNat then -1
  else if a.hi = b.hi ∧ a.lo.toNat > b.lo.toNat then 1
  else (a.hi - b.hi).toInt

def compareBinary (a b : Base64Binary) : ℤ :=
  if a.elems.length ≠ 0 ∧ b.elems.length ≠ 0 ∧ a.elems.length = b.elems.length then
    memcmp a.elems b.elems
  else a.elems.length - b.elems.length

/-- Strings of the property with the id `ulPropId2` on the right. -/
def compareText (ulPropId2 : BitVec 16) (a b : LPSTR) : ℤ :=
  compareStrings (if ulPropId2 = PR_ANR then d.u8_istartswith else d.u8_icompare) a b

/-- Multi-values of sizes that are `int`s. -/
def compareMV {α : Type} (cmp : α → α → ℤ) (a b : Counted 31 α) : ℤ :=
  if a.elems.length = b.elems.length then firstDifference cmp a.elems b.elems
  else a.elems.length - b.elems.length

/-- Multi-values of times and currencies, where the sizes are compared by `==`. -/
def compareMVHilo (a b : Counted 31 HiloLong) : ℤ :=
  if a.elems.length = b.elems.length then firstDifference compareHilo a.elems b.elems
  else boolInt (a.elems.length = b.elems.length)

/-- The comparison by types; `none` is a type that is not compared, or two types. -/
def compareValues (ulPropId2 : BitVec 16) : PropValData → PropValData → Option ℤ
  | .PT_I2 a, .PT_I2 b => some (a.toInt - b.toInt)
  | .PT_LONG a, .PT_LONG b => some (compareBranches a.toNat b.toNat)
  | .PT_R4 a, .PT_R4 b => some (compareFloats d.eqFloat d.ltFloat a b)
  | .PT_BOOLEAN a, .PT_BOOLEAN b => some (boolInt a - boolInt b)
  | .PT_DOUBLE a, .PT_DOUBLE b => some (compareFloats d.eqDouble d.ltDouble a b)
  | .PT_APPTIME a, .PT_APPTIME b => some (compareFloats d.eqDouble d.ltDouble a b)
  | .PT_I8 a, .PT_I8 b => some (compareBranches a.toInt b.toInt)
  | .PT_UNICODE a, .PT_UNICODE b => some (compareText d ulPropId2 a b)
  | .PT_UNICODE a, .PT_STRING8 b => some (compareText d ulPropId2 a b)
  | .PT_STRING8 a, .PT_UNICODE b => some (compareText d ulPropId2 a b)
  | .PT_STRING8 a, .PT_STRING8 b => some (compareText d ulPropId2 a b)
  | .PT_SYSTIME a, .PT_SYSTIME b => some (compareHilo a b)
  | .PT_CURRENCY a, .PT_CURRENCY b => some (compareHilo a b)
  | .PT_BINARY a, .PT_BINARY b => some (compareBinary a b)
  | .PT_CLSID a, .PT_CLSID b => some (compareBinary a b)
  | .PT_MV_I2 a, .PT_MV_I2 b => some (compareMV (fun x y => x.toInt - y.toInt) a b)
  | .PT_MV_LONG a, .PT_MV_LONG b => some (compareMV (fun x y => compareBranches x.toNat y.toNat) a b)
  | .PT_MV_R4 a, .PT_MV_R4 b => some (compareMV (compareFloats d.eqFloat d.ltFloat) a b)
  | .PT_MV_DOUBLE a, .PT_MV_DOUBLE b => some (compareMV (compareFloats d.eqDouble d.ltDouble) a b)
  | .PT_MV_APPTIME a, .PT_MV_APPTIME b => some (compareMV (compareFloats d.eqDouble d.ltDouble) a b)
  | .PT_MV_I8 a, .PT_MV_I8 b => some (compareMV (fun x y => compareBranches x.toInt y.toInt) a b)
  | .PT_MV_SYSTIME a, .PT_MV_SYSTIME b => some (compareMVHilo a b)
  | .PT_MV_CURRENCY a, .PT_MV_CURRENCY b => some (compareMVHilo a b)
  | .PT_MV_CLSID a, .PT_MV_CLSID b => some (compareMV compareBinary a b)
  | .PT_MV_BINARY a, .PT_MV_BINARY b => some (compareMV compareBinary a b)
  | .PT_MV_STRING8 a, .PT_MV_STRING8 b => some (compareMV (compareStrings d.u8_icompare) a b)
  | .PT_MV_STRING8 a, .PT_MV_UNICODE b => some (compareMV (compareStrings d.u8_icompare) a b)
  | .PT_MV_UNICODE a, .PT_MV_STRING8 b => some (compareMV (compareStrings d.u8_icompare) a b)
  | .PT_MV_UNICODE a, .PT_MV_UNICODE b => some (compareMV (compareStrings d.u8_icompare) a b)
  | _, _ => none

/-- The two entry ids, when the properties have a comparison of their own. -/
def special (lpProp1 lpProp2 : PropVal) : Option (List UInt8 × List UInt8) :=
  match lpProp1.Value, lpProp2.Value with
  | .PT_BINARY a, .PT_BINARY b =>
    if lpProp1.ulPropId = PR_ADDRESS_BOOK_ENTRYID ∨ lpProp2.ulPropId = PR_ADDRESS_BOOK_ENTRYID then
      some (a.elems, b.elems)
    else none
  | _, _ => none

/-- The comparison without special properties. -/
def regularCompare (lpProp1 lpProp2 : PropVal) : Except ECRESULT ℤ :=
  match compareValues d lpProp2.ulPropId lpProp1.Value lpProp2.Value with
  | some nCompareResult => .ok nCompareResult
  | none => .error .ZARAFA_E_INVALID_PARAMETER

/-- `CompareProp`; `none` is a read behind the end of an entry id. -/
def compareProp (lpProp1 lpProp2 : PropVal) : Option (Except ECRESULT ℤ) :=
  if propCheck lpProp1.Value = false ∨ propCheck lpProp2.Value = false then
    some (.error .ZARAFA_E_INVALID_PARAMETER)
  else
    match special lpProp1 lpProp2 with
    | none => some (regularCompare d lpProp1 lpProp2)
    | some (peid1, peid2) =>
      match compareABEID peid1 peid2 with
      | none => none
      | some (.ok nCompareResult) => some (.ok nCompareResult)
      | some (.error _) => some (regularCompare d lpProp1 lpProp2)

/-- The result of a comparison that succeeds. -/
def result (lpProp1 lpProp2 : PropVal) : Option ℤ :=
  match compareProp d lpProp1 lpProp2 with
  | some (.ok nCompareResult) => some nCompareResult
  | _ => none

end Values

/-! ## Signs -/

/-- 64-bit values are compared by their high halves, whose difference is taken with 32 bits, and then by their low
halves. -/
theorem sgn_compareHilo (a b : HiloLong) :
    sgn (compareHilo a b) = (diffCmp a.hi b.hi).then (compare a.lo.toNat b.lo.toNat) := by
  unfold compareHilo
  by_cases hhi : a.hi = b.hi
  · rw [diffCmp_eq_eq.mpr hhi, Ordering.eq_then]
    simp only [and_iff_right hhi]
    split_ifs with hlt hgt
    · rw [compare_lt_iff_lt.mpr hlt]
      rfl
    · rw [compare_gt_iff_gt.mpr hgt]
      rfl
    · have heq : a.lo.toNat = b.lo.toNat := by omega
      rw [heq, hhi, sub_self, Std.compare_self]
      rfl
  · rw [if_neg fun h => hhi h.1, if_neg fun h => hhi h.1]
    have hne : diffCmp a.hi b.hi ≠ .eq := diffCmp_eq_eq.not.mpr hhi
    show diffCmp a.hi b.hi = _
    cases hdiff : diffCmp a.hi b.hi with
    | eq => exact absurd hdiff hne
    | lt => rfl
    | gt => rfl

theorem sgn_compareHilo_eq_eq {a b : HiloLong} : sgn (compareHilo a b) = .eq ↔ a = b := by
  rw [sgn_compareHilo, Ordering.then_eq_eq, diffCmp_eq_eq, Std.compare_eq_iff_eq, BitVec.toNat_inj]
  cases a
  cases b
  simp

theorem ordersOn_compareHilo_iff {S : Set HiloLong} :
    OrdersOn (fun a b => sgn (compareHilo a b)) S ↔ InWindow (HiloLong.hi '' S) := by
  simp only [sgn_compareHilo]
  rw [ordersOn_then_iff (respectsEq_diffCmp.comp HiloLong.hi), ← ordersOn_image, ordersOn_diff_iff]
  exact and_iff_left fun _ _ => ordersOn_compare _

/-- Binary values are compared by their lengths first, and then byte by byte. -/
theorem sgn_compareBinary (a b : Base64Binary) : sgn (compareBinary a b) =
    (compare a.elems.length b.elems.length).then (compare a.elems b.elems) := by
  unfold compareBinary
  split_ifs with h
  · rw [sgn_memcmp, h.2.2, Std.compare_self]
    rfl
  · rw [sgn_natSub]
    cases hcmp : compare a.elems.length b.elems.length with
    | lt => rfl
    | gt => rfl
    | eq =>
      have heq : a.elems.length = b.elems.length := Std.compare_eq_iff_eq.mp hcmp
      have hnil : a.elems = [] ∧ b.elems = [] := by
        constructor <;> apply List.eq_nil_of_length_eq_zero <;> omega
      rw [hnil.1, hnil.2]
      rfl

theorem ordersOn_compareBinary {S : Set Base64Binary} : OrdersOn (fun a b => sgn (compareBinary a b)) S := by
  simp only [sgn_compareBinary]
  exact (ordersOn_then_iff (respectsEq_compare fun a : Base64Binary => a.elems.length)).mpr
    ⟨ordersOn_compare _, fun _ _ => ordersOn_compare _⟩

/-- Only equal binary values compare as equal. -/
theorem sgn_compareBinary_eq_eq {a b : Base64Binary} : sgn (compareBinary a b) = .eq ↔ a = b := by
  rw [sgn_compareBinary, Ordering.then_eq_eq, Std.compare_eq_iff_eq, Std.compare_eq_iff_eq]
  constructor
  · rintro ⟨-, h⟩
    cases a
    cases b
    cases h
    rfl
  · rintro rfl
    exact ⟨rfl, rfl⟩

section MultiValues

variable {α : Type} {e : α → α → ℤ}

/-- Vectors are compared by their lengths first, and then by the first pair of elements that differ. -/
theorem sgn_compareMV (a b : Counted 31 α) : sgn (compareMV e a b) =
    (compare a.elems.length b.elems.length).then
      (List.compareLex (fun x y => sgn (e x y)) a.elems b.elems) := by
  unfold compareMV
  split_ifs with hlength
  · rw [sgn_firstDifference hlength, hlength, Std.compare_self]
    rfl
  · rw [sgn_natSub]
    cases hcmp : compare a.elems.length b.elems.length with
    | lt => rfl
    | gt => rfl
    | eq => exact absurd (Std.compare_eq_iff_eq.mp hcmp) hlength

/-- Multi-values of one size that start with elements that compare as equal have next elements that the
comparison of elements orders. -/
theorem ordersOn_compareMV_iff (he : RespectsEq fun x y => sgn (e x y)) {T : Set (Counted 31 α)} :
    OrdersOn (fun a b => sgn (compareMV e a b)) T ↔ ∀ n p, OrdersOn (fun x y => sgn (e x y))
        (nextElems (fun x y => sgn (e x y) = .eq) Counted.elems T n p) := by
  have hsize (a b : Counted 31 α) :
      compare a.elems.length b.elems.length = .eq ↔ a.elems.length = b.elems.length :=
    Std.compare_eq_iff_eq
  have hcompare : RespectsEq (compare : ℕ → ℕ → Ordering) := respectsEq_compare id
  simp only [sgn_compareMV]
  rw [ordersOn_sized_iff hcompare he hsize]
  exact and_iff_right (OrdersOn.of_transCmp inferInstance)

theorem sgn_compareMV_eq_eq {a b : Counted 31 α} : sgn (compareMV e a b) = .eq ↔
    List.Forall₂ (fun x y => sgn (e x y) = .eq) a.elems b.elems := by
  rw [sgn_compareMV, Ordering.then_eq_eq, compareLex_eq_eq_iff]
  exact and_iff_right_of_imp fun h => Std.compare_eq_iff_eq.mpr h.length_eq

/-- Elements that are always ordered. -/
theorem ordersOn_compareMV (he : RespectsEq fun x y => sgn (e x y))
    (hc : ∀ S, OrdersOn (fun x y => sgn (e x y)) S) (T : Set (Counted 31 α)) :
    OrdersOn (fun a b => sgn (compareMV e a b)) T :=
  (ordersOn_compareMV_iff he).mpr fun _ _ => hc _

theorem elems_eq_of_sgn_compareMV (heq : ∀ x y, sgn (e x y) = .eq ↔ x = y) {a b : Counted 31 α}
    (h : sgn (compareMV e a b) = .eq) : a.elems = b.elems := by
  rw [sgn_compareMV_eq_eq] at h
  simpa only [heq, List.forall₂_eq_eq_eq] using h

end MultiValues

/-- Multi-values of times and currencies of one size that start with the same elements have next elements
with high halves in a window. -/
def MVHiloRegular (T : Set (Counted 31 HiloLong)) : Prop :=
  (∀ a ∈ T, ∀ b ∈ T, a.elems.length = b.elems.length) ∧
    ∀ n p, InWindow (HiloLong.hi '' nextElems (· = ·) Counted.elems T n p)

/-- Multi-values of times of different sizes compare as equal. -/
theorem ordersOn_compareMVHilo_iff {T : Set (Counted 31 HiloLong)} :
    (OrdersOn (fun a b => sgn (compareMVHilo a b)) T ∧
      ∀ a ∈ T, ∀ b ∈ T, sgn (compareMVHilo a b) = .eq → a.elems = b.elems) ↔ MVHiloRegular T := by
  have hrespects : RespectsEq fun x y => sgn (compareHilo x y) :=
    RespectsEq.of_eq_iff fun _ _ => sgn_compareHilo_eq_eq
  -- for multi-values of one size, the usual comparison
  have hsame (hlength : ∀ a ∈ T, ∀ b ∈ T, a.elems.length = b.elems.length) :
      OrdersOn (fun a b => sgn (compareMVHilo a b)) T ↔
        ∀ n p, InWindow (HiloLong.hi '' nextElems (· = ·) Counted.elems T n p) := by
    have hcongr : ∀ a ∈ T, ∀ b ∈ T, sgn (compareMVHilo a b) = sgn (compareMV compareHilo a b) := by
      intro a ha b hb
      rw [compareMVHilo, if_pos (hlength a ha b hb), compareMV, if_pos (hlength a ha b hb)]
    rw [ordersOn_congr hcongr, ordersOn_compareMV_iff hrespects]
    simp only [sgn_compareHilo_eq_eq, ordersOn_compareHilo_iff]
  constructor
  · rintro ⟨hc, heq⟩
    have hlength : ∀ a ∈ T, ∀ b ∈ T, a.elems.length = b.elems.length := by
      intro a ha b hb
      by_contra hne
      refine hne (congrArg List.length (heq a ha b hb ?_))
      rw [compareMVHilo, if_neg hne, decide_eq_false hne]
      rfl
    exact ⟨hlength, (hsame hlength).mp hc⟩
  · rintro ⟨hlength, hwindow⟩
    refine ⟨(hsame hlength).mpr hwindow, fun a ha b hb h => ?_⟩
    rw [compareMVHilo, if_pos (hlength a ha b hb), sgn_firstDifference (hlength a ha b hb),
      compareLex_eq_eq_iff] at h
    simpa only [sgn_compareHilo_eq_eq, List.forall₂_eq_eq_eq] using h

/-! ## Entry ids of one version -/

/-- The string at `szExId`. -/
def exId (eid : List UInt8) : List UInt8 := (ABEID.szExId eid).takeWhile (· ≠ 0)

/-- The members that are compared can be read: the id, or the end of the string. -/
def Readable (v : BitVec 32) (eid : List UInt8) : Prop :=
  if v = 0 then 32 ≤ eid.length else 0 ∈ ABEID.szExId eid

instance (v : BitVec 32) : DecidablePred (Readable v) :=
  fun eid => inferInstanceAs (Decidable (if v = 0 then 32 ≤ eid.length else 0 ∈ ABEID.szExId eid))

/-- The id of an entry id of version 0. -/
def idOf (eid : List UInt8) : BitVec 32 := (ABEID.ulId eid).getD 0

/-- The type of an entry id that can be read. -/
def typeOf (v : BitVec 32) (eid : List UInt8) : BitVec 32 :=
  if Readable v eid then (ABEID.ulType eid).getD 0 else 0

/-- The comparator of the ids of one version. -/
def idCmp (v : BitVec 32) (a b : List UInt8) : Ordering :=
  if v = 0 then diffCmp (idOf a) (idOf b) else compare (exId a) (exId b)

/-- The comparator of entry ids of one version. -/
def entryCmp (v : BitVec 32) (a b : List UInt8) : Ordering :=
  (compare a.length b.length).then ((idCmp v a b).then (diffCmp (typeOf v a) (typeOf v b)))

/-- Entry ids of one version and one size have ids in a window, when they are compared by them, and those
with the same id have types in a window. -/
def EntryIdsRegular (v : BitVec 32) (T : Set (List UInt8)) : Prop :=
  (v = 0 → ∀ n, InWindow (idOf '' {e ∈ T | e.length = n})) ∧
    ∀ a ∈ T, InWindow (typeOf v '' {e ∈ T | e.length = a.length ∧
      if v = 0 then idOf a = idOf e else exId a = exId e})

variable {r : ℤ}

section EntryIds

variable {v : BitVec 32} {T : Set (List UInt8)}

theorem respectsEq_idCmp (v : BitVec 32) : RespectsEq (idCmp v) := by
  unfold idCmp
  split_ifs
  · exact respectsEq_diffCmp.comp idOf
  · exact respectsEq_compare exId

variable {a b : List UInt8}

theorem idCmp_eq_eq :
    idCmp v a b = .eq ↔ if v = 0 then idOf a = idOf b else exId a = exId b := by
  unfold idCmp
  split_ifs
  · exact diffCmp_eq_eq
  · exact Std.compare_eq_iff_eq

theorem inWindow_of_eq_zero {S : Set (BitVec 32)} (h : ∀ x ∈ S, x = 0) : InWindow S :=
  ⟨0, fun x hx => by rw [h x hx]; decide⟩

/-- Entry ids are ordered when they are in windows. -/
theorem ordersOn_entryCmp_iff : OrdersOn (entryCmp v) T ↔ EntryIdsRegular v T := by
  have htypes (a : List UInt8) (n : ℕ) : OrdersOn (fun a b => diffCmp (typeOf v a) (typeOf v b))
      {e ∈ {e ∈ T | compare n e.length = .eq} | idCmp v a e = .eq} ↔
        InWindow (typeOf v '' {e ∈ T | e.length = n ∧
          if v = 0 then idOf a = idOf e else exId a = exId e}) := by
    have hset : {e ∈ {e ∈ T | compare n e.length = .eq} | idCmp v a e = .eq} =
        {e ∈ T | e.length = n ∧ if v = 0 then idOf a = idOf e else exId a = exId e} := by
      ext e
      simp only [Set.mem_ofPred_eq, Std.compare_eq_iff_eq, idCmp_eq_eq, and_assoc, eq_comm (a := n)]
    rw [hset, ← ordersOn_image, ordersOn_diff_iff]
  have hids (n : ℕ) : OrdersOn (idCmp v) {e ∈ T | compare n e.length = .eq} ↔
      (v = 0 → InWindow (idOf '' {e ∈ T | e.length = n})) := by
    have hset : {e ∈ T | compare n e.length = .eq} = {e ∈ T | e.length = n} := by
      ext e
      simp only [Set.mem_ofPred_eq, Std.compare_eq_iff_eq, eq_comm (a := n)]
    rw [hset]
    unfold idCmp
    split_ifs with hv
    · rw [← ordersOn_image, ordersOn_diff_iff, imp_iff_right hv]
    · exact iff_of_true (ordersOn_compare _) fun h => absurd h hv
  unfold entryCmp
  rw [ordersOn_then_iff (respectsEq_compare List.length)]
  rw [and_iff_right (ordersOn_compare _)]
  simp only [ordersOn_then_iff (respectsEq_idCmp v), hids, htypes]
  constructor
  · intro h
    refine ⟨fun hv n => ?_, fun a ha => ?_⟩
    · by_cases hn : ∃ a ∈ T, a.length = n
      · obtain ⟨a, ha, rfl⟩ := hn
        exact (h a ha).1 hv
      · refine inWindow_of_eq_zero ?_
        rintro _ ⟨e, ⟨he, hen⟩, -⟩
        exact absurd ⟨e, he, hen⟩ hn
    · exact (h a ha).2 a ⟨ha, Std.compare_self⟩
  · rintro ⟨hwindow, hwindow'⟩ a ha
    refine ⟨fun hv => hwindow hv _, fun b hb => ?_⟩
    rw [Std.compare_eq_iff_eq.mp hb.2]
    exact hwindow' b hb.1

/-! ## Results for entry ids of one version -/

theorem sgn_toNat_sub (a b : UInt8) : sgn ((a.toNat : ℤ) - b.toNat) = compare a b := by
  rw [sgn_natSub, UInt8.compare_eq_toNat_compare_toNat]

/-- `strcmp` compares the strings up to their ends, and finds them equal only when it finds both ends. -/
theorem strcmp_some {as bs : List UInt8} (h : strcmp as bs = some r) :
    sgn r = compare (as.takeWhile (· ≠ 0)) (bs.takeWhile (· ≠ 0)) ∧ (r = 0 → 0 ∈ as ∧ 0 ∈ bs) := by
  induction as generalizing bs with
  | nil => cases h
  | cons a as ih =>
    cases bs with
    | nil => cases h
    | cons b bs =>
      rw [strcmp] at h
      split_ifs at h with hne ha
      · obtain rfl := Option.some.inj h
        refine ⟨?_, fun h => absurd (UInt8.toNat_inj.mp (by omega)) hne⟩
        rw [sgn_toNat_sub]
        by_cases ha : a = 0
        · subst ha
          have hb : b ≠ 0 := fun h => hne h.symm
          rw [List.takeWhile_cons_of_neg (by simp), List.takeWhile_cons_of_pos (by simpa using hb)]
          exact Std.compare_eq_lt.mpr (UInt8.pos_iff_ne_zero.mpr hb)
        · rw [List.takeWhile_cons_of_pos (by simpa using ha)]
          by_cases hb : b = 0
          · subst hb
            rw [List.takeWhile_cons_of_neg (by simp)]
            exact Std.compare_eq_gt.mpr (UInt8.pos_iff_ne_zero.mpr ha)
          · rw [List.takeWhile_cons_of_pos (by simpa using hb), List.compare_cons_cons]
            cases hab : compare a b with
            | lt => rfl
            | gt => rfl
            | eq => exact absurd (Std.compare_eq_iff_eq.mp hab) hne
      · rw [not_not] at hne
        obtain rfl := Option.some.inj h
        subst hne ha
        exact ⟨rfl, fun _ => ⟨by simp, by simp⟩⟩
      · rw [not_not] at hne
        subst hne
        obtain ⟨hsgn, hends⟩ := ih h
        rw [List.takeWhile_cons_of_pos (by simpa using ha),
          List.takeWhile_cons_of_pos (by simpa using ha), List.compare_cons_cons, Std.compare_self]
        exact ⟨hsgn, fun h => (hends h).imp (List.mem_cons_of_mem _) (List.mem_cons_of_mem _)⟩

/-- `strcmp` reads no byte behind two texts that have an end. -/
theorem strcmp_isSome {as bs : List UInt8} (ha : 0 ∈ as) (hb : 0 ∈ bs) : (strcmp as bs).isSome := by
  induction as generalizing bs with
  | nil => cases ha
  | cons a as ih =>
    cases bs with
    | nil => cases hb
    | cons b bs =>
      rw [strcmp]
      split_ifs with hne hzero
      · rfl
      · rfl
      · rw [not_not] at hne
        subst hne
        have hmem {cs : List UInt8} (hc : 0 ∈ a :: cs) : 0 ∈ cs :=
          (List.mem_cons.mp hc).resolve_left fun h => hzero h.symm
        exact ih (hmem ha) (hmem hb)

theorem ulongAt_isSome {offset : ℕ} {eid : List UInt8} :
    (ABEID.ulongAt offset eid).isSome ↔ offset + 4 ≤ eid.length := by
  unfold ABEID.ulongAt
  split_ifs with h
  · exact iff_of_true rfl h
  · exact iff_of_false (by simp) h

theorem Readable.le_length {eid : List UInt8} (h : Readable v eid) : 32 ≤ eid.length := by
  unfold Readable at h
  split_ifs at h
  · exact h
  · by_contra hlt
    rw [ABEID.szExId, List.drop_of_length_le (by omega)] at h
    cases h

/-- The comparison of the members of two entry ids. -/
def entryResult (a b : List UInt8) : Option ℤ :=
  (compareABEIDIds a b).bind (compareABEIDTypes a b)

/-- Entry ids of one version are compared by their lengths first, and then by the part that their version has for
it. -/
theorem compareABEIDIds_eq (ha : ABEID.ulVersion a = some v) (hb : ABEID.ulVersion b = some v) : compareABEIDIds a b =
      if a.length ≠ b.length then some ((a.length : ℤ) - b.length)
      else if v ≠ 0 then strcmp (ABEID.szExId a) (ABEID.szExId b)
      else (ABEID.ulId a).bind fun i => (ABEID.ulId b).map fun j => (i - j).toInt := by
  unfold compareABEIDIds
  rw [ha, hb]
  show (if v = v ∧ a.length ≠ b.length then _ else if v = v ∧ v ≠ 0 then _ else _) = _
  simp only [true_and]
  split_ifs
  · rfl
  · rfl
  · cases ABEID.ulId a with
    | none => rfl
    | some i => cases ABEID.ulId b <;> rfl

theorem compareABEIDTypes_of_ne {i : ℤ} (hi : i ≠ 0) :
    compareABEIDTypes a b i = some i := if_neg hi

theorem Readable.ulType (ha : Readable v a) : ABEID.ulType a = some (typeOf v a) := by
  have hsome : (ABEID.ulType a).isSome := ulongAt_isSome.mpr (by have h := ha.le_length; omega)
  obtain ⟨x, hx⟩ := Option.isSome_iff_exists.mp hsome
  rw [typeOf, if_pos ha, hx]
  rfl

theorem compareABEIDTypes_zero (ha : Readable v a) (hb : Readable v b) :
    compareABEIDTypes a b 0 = some (typeOf v a - typeOf v b).toInt := by
  unfold compareABEIDTypes
  rw [if_pos rfl, ha.ulType, hb.ulType]
  rfl

/-- What the comparison of the ids of one size gives. -/
theorem sgn_compareABEIDIds (ha : ABEID.ulVersion a = some v)
    (hb : ABEID.ulVersion b = some v) (hlength : a.length = b.length) {i : ℤ} (h : compareABEIDIds a b = some i) :
    sgn i = idCmp v a b ∧ (i = 0 → Readable v a ∧ Readable v b) := by
  rw [compareABEIDIds_eq ha hb, if_neg (not_not.mpr hlength)] at h
  unfold idCmp Readable
  by_cases hv : v = 0
  · rw [if_neg (not_not.mpr hv)] at h
    simp only [if_pos hv]
    obtain ⟨x, hx, h⟩ := Option.bind_eq_some_iff.mp h
    obtain ⟨y, hy, rfl⟩ := Option.map_eq_some_iff.mp h
    have hlong {e : List UInt8} {z : BitVec 32} (hz : ABEID.ulId e = some z) : 32 ≤ e.length :=
      ulongAt_isSome.mp (Option.isSome_of_eq_some hz)
    rw [idOf, idOf, hx, hy]
    exact ⟨rfl, fun _ => ⟨hlong hx, hlong hy⟩⟩
  · rw [if_pos hv] at h
    simp only [if_neg hv]
    exact strcmp_some h

/-- The comparison has the sign of the comparator. -/
theorem sgn_entryResult (ha : ABEID.ulVersion a = some v)
    (hb : ABEID.ulVersion b = some v) (h : entryResult a b = some r) : sgn r = entryCmp v a b := by
  obtain ⟨i, hi, hr⟩ := Option.bind_eq_some_iff.mp h
  unfold entryCmp
  by_cases hlength : a.length = b.length
  · obtain ⟨hsgn, hreadable⟩ := sgn_compareABEIDIds ha hb hlength hi
    rw [hlength, Std.compare_self, Ordering.eq_then, ← hsgn]
    by_cases hzero : i = 0
    · obtain ⟨hra, hrb⟩ := hreadable hzero
      rw [hzero, compareABEIDTypes_zero hra hrb] at hr
      rw [hzero, ← Option.some.inj hr]
      rfl
    · rw [compareABEIDTypes_of_ne hzero] at hr
      rw [← Option.some.inj hr]
      cases hcmp : sgn i with
      | eq => exact absurd (sgn_eq_eq.mp hcmp) hzero
      | lt => rfl
      | gt => rfl
  · rw [compareABEIDIds_eq ha hb, if_pos hlength] at hi
    obtain rfl := Option.some.inj hi
    rw [compareABEIDTypes_of_ne (by omega)] at hr
    rw [← Option.some.inj hr, sgn_natSub]
    cases hcmp : compare a.length b.length with
    | eq => exact absurd (Std.compare_eq_iff_eq.mp hcmp) hlength
    | lt => rfl
    | gt => rfl

/-- Entry ids that can be read are compared. -/
theorem entryResult_isSome (ha : ABEID.ulVersion a = some v)
    (hb : ABEID.ulVersion b = some v) (hra : Readable v a) (hrb : Readable v b) : ∃ r, entryResult a b = some r := by
  have hids : ∃ i, compareABEIDIds a b = some i := by
    rw [compareABEIDIds_eq ha hb]
    split_ifs with hlength hv
    · exact ⟨_, rfl⟩
    · unfold Readable at hra hrb
      rw [if_neg hv] at hra hrb
      exact Option.isSome_iff_exists.mp (strcmp_isSome hra hrb)
    · have hid {e : List UInt8} (he : Readable v e) : ∃ x, ABEID.ulId e = some x :=
        Option.isSome_iff_exists.mp (ulongAt_isSome.mpr he.le_length)
      obtain ⟨x, hx⟩ := hid hra
      obtain ⟨y, hy⟩ := hid hrb
      exact ⟨_, by rw [hx, hy]; rfl⟩
  obtain ⟨i, hi⟩ := hids
  unfold entryResult
  rw [hi, Option.bind_some]
  by_cases hzero : i = 0
  · rw [hzero, compareABEIDTypes_zero hra hrb]
    exact ⟨_, rfl⟩
  · exact ⟨i, compareABEIDTypes_of_ne hzero⟩

/-- A string has an end when it is shorter than its memory. -/
theorem zero_mem_iff {l : List UInt8} : 0 ∈ l ↔ (l.takeWhile (· ≠ 0)).length ≠ l.length := by
  have hself : (l.takeWhile (· ≠ 0)).length = l.length ↔ l.takeWhile (· ≠ 0) = l :=
    ⟨(List.takeWhile_prefix _).eq_of_length, congrArg _⟩
  rw [ne_eq, hself, List.takeWhile_eq_self_iff]
  constructor
  · intro h hall
    exact of_decide_eq_true (hall 0 h) rfl
  · intro h
    by_contra hmem
    exact h fun x hx => by simpa using fun hzero : x = 0 => hmem (hzero ▸ hx)

/-- The entry ids that cannot be read do not matter. -/
theorem EntryIdsRegular.of_readable (h : EntryIdsRegular v {e ∈ T | Readable v e}) : EntryIdsRegular v T := by
  refine ⟨fun hv n => ?_, fun a ha => ?_⟩
  · by_cases hn : 32 ≤ n
    · obtain ⟨r, hr⟩ := h.1 hv n
      refine ⟨r, ?_⟩
      rintro _ ⟨e, ⟨he, hen⟩, rfl⟩
      refine hr _ ⟨e, ⟨⟨he, ?_⟩, hen⟩, rfl⟩
      unfold Readable
      rw [if_pos hv]
      omega
    · refine inWindow_of_eq_zero ?_
      rintro _ ⟨e, ⟨-, hen⟩, rfl⟩
      unfold idOf ABEID.ulId ABEID.ulongAt
      rw [if_neg (by omega)]
      rfl
  · have hsame {e : List UInt8} (he : e.length = a.length ∧
        if v = 0 then idOf a = idOf e else exId a = exId e) : Readable v e ↔ Readable v a := by
      obtain ⟨hlength, he⟩ := he
      unfold Readable
      split_ifs at he ⊢ with hv
      · rw [hlength]
      · unfold exId at he
        rw [zero_mem_iff, zero_mem_iff, ← he, ABEID.szExId, ABEID.szExId, List.length_drop,
          List.length_drop, hlength]
    by_cases hra : Readable v a
    · obtain ⟨r, hr⟩ := h.2 a ⟨ha, hra⟩
      refine ⟨r, ?_⟩
      rintro _ ⟨e, ⟨he, hae⟩, rfl⟩
      exact hr _ ⟨e, ⟨⟨he, (hsame hae).mpr hra⟩, hae⟩, rfl⟩
    · refine inWindow_of_eq_zero ?_
      rintro _ ⟨e, ⟨-, hae⟩, rfl⟩
      exact if_neg ((hsame hae).not.mpr hra)

end EntryIds

/-! ## Values of one type -/

section Order

variable (d : Comparers)

/-- Multi-values of one size whose elements are equal. -/
def Same : PropValData → PropValData → Prop
  | .PT_MV_I2 a, .PT_MV_I2 b => a.elems = b.elems
  | .PT_MV_LONG a, .PT_MV_LONG b => a.elems = b.elems
  | .PT_MV_I8 a, .PT_MV_I8 b => a.elems = b.elems
  | .PT_MV_SYSTIME a, .PT_MV_SYSTIME b => a.elems = b.elems
  | .PT_MV_CURRENCY a, .PT_MV_CURRENCY b => a.elems = b.elems
  | .PT_MV_CLSID a, .PT_MV_CLSID b => a.elems = b.elems
  | .PT_MV_BINARY a, .PT_MV_BINARY b => a.elems = b.elems
  | .PT_MV_STRING8 a, .PT_MV_STRING8 b => List.Forall₂ (SameString d.u8_icompare) a.elems b.elems
  | .PT_MV_UNICODE a, .PT_MV_UNICODE b => List.Forall₂ (SameString d.u8_icompare) a.elems b.elems
  | _, _ => True

/-- Neither a float nor `PR_ANR`. -/
def PropVal.Ordinary (a : PropVal) : Prop :=
  match a.Value with
  | .PT_R4 _ => False
  | .PT_DOUBLE _ => False
  | .PT_APPTIME _ => False
  | .PT_MV_R4 _ => False
  | .PT_MV_DOUBLE _ => False
  | .PT_MV_APPTIME _ => False
  | .PT_STRING8 _ => a.ulPropId ≠ PR_ANR
  | .PT_UNICODE _ => a.ulPropId ≠ PR_ANR
  | _ => True

/-- Properties of one type. -/
structure OneType (S : Set PropVal) : Prop where
  oneType : ∀ a ∈ S, ∀ b ∈ S, a.Value.ctorIdx = b.Value.ctorIdx
  ordinary : ∀ a ∈ S, a.Ordinary

/-- The memory of an entry id. -/
def PropVal.eid (a : PropVal) : List UInt8 :=
  match a.Value with
  | .PT_BINARY bin => bin.elems
  | _ => []

/-- An entry id of the address book in the property for it. -/
def PropVal.IsEntryId (a : PropVal) : Prop :=
  a.ulPropId = PR_ADDRESS_BOOK_ENTRYID ∧ ABEID.guid a.eid = some MUIDECSAB

/-- Entry ids of one version. -/
def OfVersion (v : BitVec 32) (S : Set PropVal) : Prop :=
  ∀ a ∈ S, a.IsEntryId ∧ ABEID.ulVersion a.eid = some v

/-- Entry ids of several versions, or next to values that are compared otherwise. -/
def MixesEntryIds (S : Set PropVal) : Prop := (∃ a ∈ S, a.IsEntryId) ∧ ¬ ∃ v, OfVersion v S

/-- The properties of the type of a value are regular. -/
def RegularFor (S : Set PropVal) : PropValData → Prop
  | .PT_UNICODE _ => NullsAlike (payloads PropVal.Value .PT_UNICODE S)
  | .PT_SYSTIME _ => InWindow (HiloLong.hi '' payloads PropVal.Value .PT_SYSTIME S)
  | .PT_CURRENCY _ => InWindow (HiloLong.hi '' payloads PropVal.Value .PT_CURRENCY S)
  | .PT_BINARY _ => ¬ MixesEntryIds S ∧ ∀ v, OfVersion v S → EntryIdsRegular v (PropVal.eid '' S)
  | .PT_MV_SYSTIME _ => MVHiloRegular (payloads PropVal.Value .PT_MV_SYSTIME S)
  | .PT_MV_CURRENCY _ => MVHiloRegular (payloads PropVal.Value .PT_MV_CURRENCY S)
  | .PT_MV_STRING8 _ => ∀ n p, NullsAlike (nextElems (SameString d.u8_icompare) Counted.elems
      (payloads PropVal.Value .PT_MV_STRING8 S) n p)
  | .PT_MV_UNICODE _ => ∀ n p, NullsAlike (nextElems (SameString d.u8_icompare) Counted.elems
      (payloads PropVal.Value .PT_MV_UNICODE S) n p)
  | _ => True

/-- The properties for which the comparison of their type works. -/
def Regular (S : Set PropVal) : Prop := ∀ a ∈ S, RegularFor d S a.Value

variable {d} {S : Set PropVal}

/-- Without entry ids of the address book, the comparison is that of the values, after both have been checked. -/
theorem result_eq {a b : PropVal} (hspecial : special a b = none) : result d a b =
    if propCheck a.Value = false ∨ propCheck b.Value = false then none
    else compareValues d b.ulPropId a.Value b.Value := by
  unfold result compareProp
  rw [hspecial]
  split_ifs
  · rfl
  · dsimp only
    unfold regularCompare
    cases compareValues d b.ulPropId a.Value b.Value <;> rfl

section Types

variable {β : Type} {C : β → PropValData} {f : β → β → ℤ}

theorem special_eq_none {a b : PropVal} {x : β} (hx : a.Value = C x)
    (hbinary : ∀ x bin, C x ≠ .PT_BINARY bin) : special a b = none := by
  unfold special
  rw [hx]
  cases hCx : C x with
  | PT_BINARY bin => exact absurd hCx (hbinary x bin)
  | _ => rfl

/-- A type that is always ordered. -/
theorem isOrder_of_compareValues (hC : Function.Injective C) (hS : ∀ a ∈ S, ∃ x, a.Value = C x)
    (hbinary : ∀ x bin, C x ≠ .PT_BINARY bin)
    (hcmp : ∀ b ∈ S, ∀ x y, b.Value = C y → compareValues d b.ulPropId (C x) (C y) = some (f x y))
    (hc : ∀ T, OrdersOn (fun x y => sgn (f x y)) T) (hsame : ∀ x y, sgn (f x y) = .eq → Same d (C x) (C y)) :
    IsOrder (result d) (fun a b => Same d a.Value b.Value) S := by
  refine IsOrder.of_payloads (C := C) hC hS ?_ (hc _) ?_
  · intro a ha b hb x y r hax hby hab
    rw [result_eq (special_eq_none hax hbinary), hax, hby, hcmp b hb x y hby] at hab
    split_ifs at hab
    rw [← Option.some.inj hab]
  · intro a _ b _ x y hax hby heq
    rw [hax, hby]
    exact hsame x y heq

/-- A type whose values always are compared. -/
theorem isOrder_iff_ordersOn (hC : Function.Injective C) (hS : ∀ a ∈ S, ∃ x, a.Value = C x)
    (hbinary : ∀ x bin, C x ≠ .PT_BINARY bin) (hcheck : ∀ x, propCheck (C x) = true)
    (hcmp : ∀ b ∈ S, ∀ x y, b.Value = C y → compareValues d b.ulPropId (C x) (C y) = some (f x y)) :
    IsOrder (result d) (fun a b => Same d a.Value b.Value) S ↔
      OrdersOn (fun x y => sgn (f x y)) (payloads PropVal.Value C S) ∧
        ∀ x ∈ payloads PropVal.Value C S, ∀ y ∈ payloads PropVal.Value C S,
          sgn (f x y) = .eq → Same d (C x) (C y) := by
  refine isOrder_iff hC hS ?_ ?_
  · intro a ha b hb x y hax hby
    refine ⟨f x y, ?_, rfl⟩
    rw [result_eq (special_eq_none hax hbinary), hax, hby, hcmp b hb x y hby, hcheck, hcheck]
    rfl
  · intro a b x y hax hby
    rw [hax, hby]

/-- A type that is not compared. -/
theorem isOrder_of_not_compared (hS : ∀ a ∈ S, ∃ x, a.Value = C x) (hbinary : ∀ x bin, C x ≠ .PT_BINARY bin)
    (hcmp : ∀ id x y, compareValues d id (C x) (C y) = none) :
    IsOrder (result d) (fun a b => Same d a.Value b.Value) S := by
  have hnone {a b : PropVal} (ha : a ∈ S) (hb : b ∈ S) : result d a b = none := by
    obtain ⟨x, hx⟩ := hS a ha
    obtain ⟨y, hy⟩ := hS b hb
    rw [result_eq (special_eq_none hx hbinary), hx, hy, hcmp]
    exact ite_self _
  refine IsOrder.of_ordersOn (c := fun _ _ => .eq) ⟨fun _ _ _ _ => rfl, fun _ _ _ _ _ _ _ _ => rfl⟩
    (fun a ha b hb r h => ?_) fun a ha b hb h => ?_
  · rw [hnone ha hb] at h
    cases h
  · rw [hnone ha hb] at h
    cases h

end Types

/-- Multi-values of elements that are always ordered. -/
theorem isOrder_of_compareMV {α : Type} {C : Counted 31 α → PropValData} {e : α → α → ℤ}
    (hC : Function.Injective C) (hS : ∀ a ∈ S, ∃ x, a.Value = C x) (hbinary : ∀ x bin, C x ≠ .PT_BINARY bin)
    (hcmp : ∀ id x y, compareValues d id (C x) (C y) = some (compareMV e x y))
    (heq : ∀ x y, sgn (e x y) = .eq ↔ x = y) (hc : ∀ T, OrdersOn (fun x y => sgn (e x y)) T)
    (hsame : ∀ x y, Same d (C x) (C y) ↔ x.elems = y.elems) :
    IsOrder (result d) (fun a b => Same d a.Value b.Value) S :=
  isOrder_of_compareValues hC hS hbinary (fun b _ x y _ => hcmp b.ulPropId x y)
    (ordersOn_compareMV (RespectsEq.of_eq_iff heq) hc)
    fun x y h => (hsame x y).mpr (elems_eq_of_sgn_compareMV heq h)

/-! ## Binary values -/

section Binary

/-- Values are compared as entry ids of the address book only when both are binary, and one of the properties is
that entry id. -/
theorem special_eq_some {a b : PropVal} {p : List UInt8 × List UInt8} (h : special a b = some p) :
    ∃ x y, a.Value = .PT_BINARY x ∧ b.Value = .PT_BINARY y ∧ p = (a.eid, b.eid) ∧
      (a.ulPropId = PR_ADDRESS_BOOK_ENTRYID ∨ b.ulPropId = PR_ADDRESS_BOOK_ENTRYID) := by
  unfold special at h
  split at h
  · rename_i x y hx hy
    split_ifs at h with hid
    unfold PropVal.eid
    rw [hx, hy]
    exact ⟨x, y, rfl, rfl, (Option.some.inj h).symm, hid⟩
  · cases h

/-- The result for properties with a comparison of their own. -/
theorem result_special {a b : PropVal} {p : List UInt8 × List UInt8} (h : special a b = some p) :
    result d a b = match compareABEID a.eid b.eid with
      | none => none
      | some (.ok r) => some r
      | some (.error _) => compareValues d b.ulPropId a.Value b.Value := by
  obtain ⟨x, y, hx, hy, rfl, -⟩ := special_eq_some h
  have hcheck : ¬ (propCheck a.Value = false ∨ propCheck b.Value = false) := by
    rw [hx, hy]
    exact fun h => h.elim nofun nofun
  unfold result compareProp
  rw [if_neg hcheck, h]
  dsimp only
  cases compareABEID a.eid b.eid with
  | none => rfl
  | some e =>
    cases e with
    | ok r => rfl
    | error e =>
      dsimp only
      unfold regularCompare
      cases compareValues d b.ulPropId a.Value b.Value <;> rfl

/-- Two address book ids are compared by their members. -/
theorem compareABEID_eq {p q : List UInt8} (hp : ABEID.guid p = some MUIDECSAB) (hq : ABEID.guid q = some MUIDECSAB) :
    compareABEID p q = (entryResult p q).map .ok := by
  unfold compareABEID
  rw [hp, hq, Option.bind_eq_bind, Option.bind_some, if_neg (not_not.mpr rfl), Option.bind_eq_bind, Option.bind_some,
    if_neg (not_not.mpr rfl)]
  unfold entryResult
  cases compareABEIDIds p q with
  | none => rfl
  | some i =>
    show Option.bind (compareABEIDTypes p q i) _ = Option.map _ (compareABEIDTypes _ _ i)
    cases compareABEIDTypes p q i <;> rfl

/-- Within a set of one version, all pairs are compared as entry ids. -/
theorem result_of_ofVersion {v : BitVec 32} (hv : OfVersion v S)
    (hS : ∀ a ∈ S, ∃ bin, a.Value = .PT_BINARY bin) {a b : PropVal} (ha : a ∈ S) (hb : b ∈ S) :
    result d a b = entryResult a.eid b.eid := by
  obtain ⟨x, hx⟩ := hS a ha
  obtain ⟨y, hy⟩ := hS b hb
  have hspecial : special a b = some (x.elems, y.elems) := by
    unfold special
    rw [hx, hy]
    exact if_pos (.inl (hv a ha).1.1)
  rw [result_special hspecial, compareABEID_eq (hv a ha).1.2 (hv b hb).1.2]
  cases entryResult a.eid b.eid <;> rfl

/-- One of two values that are no address book ids ends their own comparison. -/
theorem compareABEID_of_guid_ne {p q : List UInt8}
    (h : ABEID.guid p ≠ some MUIDECSAB ∨ ABEID.guid q ≠ some MUIDECSAB) :
    compareABEID p q = none ∨ ∃ e, compareABEID p q = some (.error e) := by
  unfold compareABEID
  cases hp : ABEID.guid p with
  | none => exact .inl rfl
  | some guid1 =>
    rw [Option.bind_eq_bind, Option.bind_some]
    split_ifs with h1
    · exact .inr ⟨_, rfl⟩
    · rw [not_not] at h1
      cases hq : ABEID.guid q with
      | none => exact .inl rfl
      | some guid2 =>
        rw [Option.bind_eq_bind, Option.bind_some]
        split_ifs with h2
        · exact .inr ⟨_, rfl⟩
        · rw [not_not] at h2
          rw [hp, hq, h1, h2] at h
          simp at h

/-- Without entry ids the bytes are compared. -/
theorem result_of_not_isEntryId {a b : PropVal} (ha : ¬ a.IsEntryId) (hb : ¬ b.IsEntryId)
    {x y : Base64Binary} (hx : a.Value = .PT_BINARY x) (hy : b.Value = .PT_BINARY y)
    (h : result d a b = some r) : r = compareBinary x y := by
  have hregular : compareValues d b.ulPropId a.Value b.Value = some (compareBinary x y) := by
    rw [hx, hy]
    rfl
  cases hspecial : special a b with
  | none =>
    rw [result_eq hspecial, hregular] at h
    split_ifs at h
    exact (Option.some.inj h).symm
  | some p =>
    obtain ⟨_, _, -, -, -, hid⟩ := special_eq_some hspecial
    have hguid : ABEID.guid a.eid ≠ some MUIDECSAB ∨ ABEID.guid b.eid ≠ some MUIDECSAB :=
      hid.imp (fun hid hguid => ha ⟨hid, hguid⟩) fun hid hguid => hb ⟨hid, hguid⟩
    rw [result_special hspecial] at h
    rcases compareABEID_of_guid_ne hguid with hnone | ⟨e, herror⟩
    · rw [hnone] at h
      cases h
    · rw [herror] at h
      dsimp only at h
      rw [hregular] at h
      exact (Option.some.inj h).symm

/-- When binary values are ordered: no value is compared in both ways, and the entry ids of each version are
regular. -/
theorem isOrder_binary_iff (hS : ∀ a ∈ S, ∃ bin, a.Value = .PT_BINARY bin) :
    IsOrder (result d) (fun a b => Same d a.Value b.Value) S ∧ ¬ MixesEntryIds S ↔
      ¬ MixesEntryIds S ∧ ∀ v, OfVersion v S → EntryIdsRegular v (PropVal.eid '' S) := by
  rw [and_comm]
  refine and_congr_right fun hmix => ?_
  have hsame {a b : PropVal} (ha : a ∈ S) : Same d a.Value b.Value := by
    obtain ⟨x, hx⟩ := hS a ha
    rw [hx]
    trivial
  by_cases hentry : ∃ a ∈ S, a.IsEntryId
  · have hversion : ∃ v, OfVersion v S := by
      by_contra hno
      exact hmix ⟨hentry, hno⟩
    obtain ⟨v, hv⟩ := hversion
    obtain ⟨a₀, ha₀, -⟩ := hentry
    have hunique : (∀ v, OfVersion v S → EntryIdsRegular v (PropVal.eid '' S)) ↔
        EntryIdsRegular v (PropVal.eid '' S) := by
      refine ⟨fun h => h v hv, fun h v' hv' => ?_⟩
      have heq : some v = some v' := (hv a₀ ha₀).2.symm.trans (hv' a₀ ha₀).2
      rwa [← Option.some.inj heq]
    rw [hunique]
    constructor
    · intro h
      apply EntryIdsRegular.of_readable
      have himage : {e ∈ PropVal.eid '' S | Readable v e} =
          PropVal.eid '' {a ∈ S | Readable v a.eid} := by
        ext e
        constructor
        · rintro ⟨⟨a, ha, rfl⟩, hread⟩
          exact ⟨a, ⟨ha, hread⟩, rfl⟩
        · rintro ⟨a, ⟨ha, hread⟩, rfl⟩
          exact ⟨⟨a, ha, rfl⟩, hread⟩
      rw [himage, ← ordersOn_entryCmp_iff, ordersOn_image]
      refine h.ordersOn (fun a ha => ha.1) fun a ha b hb => ?_
      obtain ⟨r, hr⟩ := entryResult_isSome (hv a ha.1).2 (hv b hb.1).2 ha.2 hb.2
      refine ⟨r, ?_, sgn_entryResult (hv a ha.1).2 (hv b hb.1).2 hr⟩
      rw [result_of_ofVersion hv hS ha.1 hb.1, hr]
    · intro h
      rw [← ordersOn_entryCmp_iff, ordersOn_image] at h
      refine IsOrder.of_ordersOn h (fun a ha b hb r hab => ?_) fun a ha b _ _ => hsame ha
      rw [result_of_ofVersion hv hS ha hb] at hab
      exact sgn_entryResult (hv a ha).2 (hv b hb).2 hab
  · have hno : ∀ a ∈ S, ¬ a.IsEntryId := fun a ha h => hentry ⟨a, ha, h⟩
    refine iff_of_true ?_ ?_
    · refine IsOrder.of_payloads (C := PropValData.PT_BINARY) (fun _ _ h => PropValData.PT_BINARY.inj h)
        hS ?_ (ordersOn_compareBinary) fun a ha b _ _ _ _ _ _ => hsame ha
      intro a ha b hb x y r hx hy hab
      rw [result_of_not_isEntryId (hno a ha) (hno b hb) hx hy hab]
    · intro v hv
      refine ⟨fun _ n => inWindow_of_eq_zero ?_, ?_⟩
      · rintro _ ⟨_, ⟨⟨a, ha, -⟩, -⟩, -⟩
        exact absurd (hv a ha).1 (hno a ha)
      · rintro _ ⟨a, ha, -⟩
        exact absurd (hv a ha).1 (hno a ha)

end Binary

/-! ## All types -/

theorem OneType.exists_payload {β : Type} {C : β → PropValData} (hS : OneType S) {a₀ : PropVal}
    (ha₀ : a₀ ∈ S) {x₀ : β} (hx₀ : a₀.Value = C x₀)
    (hC : ∀ v, v.ctorIdx = (C x₀).ctorIdx → ∃ x, v = C x) : ∀ a ∈ S, ∃ x, a.Value = C x :=
  fun a ha => hC a.Value (hx₀ ▸ hS.oneType a ha a₀ ha₀)

variable {w : ℕ}

theorem sgn_branches_toNat_eq_eq (x y : BitVec w) : sgn (compareBranches x.toNat y.toNat) = .eq ↔ x = y := by
  rw [sgn_compareBranches, Std.compare_eq_iff_eq, Int.ofNat_inj, BitVec.toNat_inj]

theorem sgn_branches_toInt_eq_eq (x y : BitVec w) : sgn (compareBranches x.toInt y.toInt) = .eq ↔ x = y := by
  rw [sgn_compareBranches, Std.compare_eq_iff_eq, BitVec.toInt_inj]

theorem sgn_toInt_sub_toInt_eq_eq (x y : BitVec w) : sgn (x.toInt - y.toInt) = .eq ↔ x = y := by
  rw [sgn_sub, Std.compare_eq_iff_eq, BitVec.toInt_inj]

theorem ordersOn_branches {α : Type} {T : Set α} (key : α → ℤ) :
    OrdersOn (fun x y => sgn (compareBranches (key x) (key y))) T := by
  simp only [sgn_compareBranches]
  exact ordersOn_compare key

theorem ordersOn_sub {α : Type} {T : Set α} (key : α → ℤ) : OrdersOn (fun x y => sgn (key x - key y)) T := by
  simp only [sgn_sub]
  exact ordersOn_compare key

theorem compareText_eq {id : BitVec 16} (hid : id ≠ PR_ANR) (x y : LPSTR) :
    compareText d id x y = compareStrings d.u8_icompare x y := by
  unfold compareText
  rw [if_neg hid]

/-- `NULL` strings of this type are refused. -/
theorem isOrder_string8 (hd : TransCmp fun x y => sgn (d.u8_icompare x y))
    (hS : ∀ a ∈ S, ∃ x, a.Value = .PT_STRING8 x)
    (hnames : ∀ b ∈ S, ∀ y, b.Value = .PT_STRING8 y → b.ulPropId ≠ PR_ANR) :
    IsOrder (result d) (fun a b => Same d a.Value b.Value) S := by
  have hc : OrdersOn (fun x y : LPSTR => sgn (d.u8_icompare (x.getD []) (y.getD [])))
      (payloads PropVal.Value .PT_STRING8 S) :=
    ordersOn_image.mp (OrdersOn.of_transCmp hd)
  refine IsOrder.of_payloads (fun _ _ => PropValData.PT_STRING8.inj) hS ?_ hc ?_
  · intro a ha b hb x y r hax hby hab
    rw [result_eq (special_eq_none hax nofun), hax, hby] at hab
    cases x with
    | none => cases hab
    | some x =>
      cases y with
      | none => cases hab
      | some y =>
        split_ifs at hab
        rw [← Option.some.inj hab, compareText_eq (hnames b hb _ hby)]
        rfl
  · intro a _ b _ x y hax hby _
    rw [hax, hby]
    trivial

/-- `C` makes the values of one type, which is not `PT_BINARY`, from what they hold. -/
structure MakesType {β : Type} (C : β → PropValData) : Prop where
  inj : Function.Injective C
  only : ∀ v x, v.ctorIdx = (C x).ctorIdx → ∃ y, v = C y
  notBinary : ∀ x bin, C x ≠ .PT_BINARY bin

namespace MakesType

variable {β : Type} {C : β → PropValData} {f : β → β → ℤ} {P : Prop} {a₀ : PropVal} {x₀ : β}

/-- Values of this type are no entry ids, so that they are no mixture of them; it remains to compare what they hold. -/
theorem iff_of_type (hC : MakesType C) (hS : OneType S) (ha₀ : a₀ ∈ S) (hx₀ : a₀.Value = C x₀)
    (hP : ∀ x, RegularFor d S (C x) ↔ P) (h : (∀ a ∈ S, ∃ x, a.Value = C x) →
      (IsOrder (result d) (fun a b => Same d a.Value b.Value) S ↔ P)) :
    IsOrder (result d) (fun a b => Same d a.Value b.Value) S ∧ ¬ MixesEntryIds S ↔ Regular d S := by
  have hpayload := hS.exists_payload ha₀ hx₀ fun v => hC.only v x₀
  have hmix : ¬ MixesEntryIds S := by
    rintro ⟨⟨a, ha, -, hguid⟩, -⟩
    obtain ⟨x, hx⟩ := hpayload a ha
    have heid : a.eid = [] := by
      unfold PropVal.eid
      rw [hx]
      cases hCx : C x with
      | PT_BINARY bin => exact absurd hCx (hC.notBinary x bin)
      | _ => rfl
    rw [heid] at hguid
    cases hguid
  rw [and_iff_left hmix, h hpayload]
  constructor
  · intro hp a ha
    obtain ⟨x, hx⟩ := hpayload a ha
    rw [hx]
    exact (hP x).mpr hp
  · intro hreg
    exact (hP x₀).mp (hx₀ ▸ hreg a₀ ha₀)

/-- A type whose values are ordered whatever they are. -/
theorem ordered (hC : MakesType C) (hS : OneType S) (ha₀ : a₀ ∈ S) (hx₀ : a₀.Value = C x₀)
    (hregular : ∀ x, RegularFor d S (C x))
    (hcmp : ∀ b ∈ S, ∀ x y, b.Value = C y → compareValues d b.ulPropId (C x) (C y) = some (f x y))
    (hc : ∀ T, OrdersOn (fun x y => sgn (f x y)) T) (hsame : ∀ x y, sgn (f x y) = .eq → Same d (C x) (C y)) :
    IsOrder (result d) (fun a b => Same d a.Value b.Value) S ∧ ¬ MixesEntryIds S ↔ Regular d S :=
  hC.iff_of_type hS ha₀ hx₀ (fun x => iff_true_intro (hregular x)) fun hpay =>
    iff_true_intro (isOrder_of_compareValues hC.inj hpay hC.notBinary hcmp hc hsame)

/-- A type whose values are ordered as far as what is compared of them is. -/
theorem ordered_iff (hC : MakesType C) (hS : OneType S) (ha₀ : a₀ ∈ S) (hx₀ : a₀.Value = C x₀)
    (hP : ∀ x, RegularFor d S (C x) ↔ P) (hcheck : ∀ x, propCheck (C x) = true)
    (hcmp : ∀ b ∈ S, ∀ x y, b.Value = C y → compareValues d b.ulPropId (C x) (C y) = some (f x y))
    (h : (OrdersOn (fun x y => sgn (f x y)) (payloads PropVal.Value C S) ∧
      ∀ x ∈ payloads PropVal.Value C S, ∀ y ∈ payloads PropVal.Value C S,
        sgn (f x y) = .eq → Same d (C x) (C y)) ↔ P) :
    IsOrder (result d) (fun a b => Same d a.Value b.Value) S ∧ ¬ MixesEntryIds S ↔ Regular d S :=
  hC.iff_of_type hS ha₀ hx₀ hP fun hpay =>
    (isOrder_iff_ordersOn hC.inj hpay hC.notBinary hcheck hcmp).trans h

/-- A type that is not compared. -/
theorem not_compared (hC : MakesType C) (hS : OneType S) (ha₀ : a₀ ∈ S) (x₀ : β) (hx₀ : a₀.Value = C x₀)
    (hregular : ∀ x, RegularFor d S (C x)) (hcmp : ∀ id x y, compareValues d id (C x) (C y) = none) :
    IsOrder (result d) (fun a b => Same d a.Value b.Value) S ∧ ¬ MixesEntryIds S ↔ Regular d S :=
  hC.iff_of_type hS ha₀ hx₀ (fun x => iff_true_intro (hregular x)) fun hpay =>
    iff_true_intro (isOrder_of_not_compared hpay hC.notBinary hcmp)

/-- Vectors of elements that are ordered whatever they are. -/
theorem ordered_of_elems {α : Type} {C : Counted 31 α → PropValData} {e : α → α → ℤ} {x₀ : Counted 31 α}
    (hC : MakesType C) (hS : OneType S) (ha₀ : a₀ ∈ S) (hx₀ : a₀.Value = C x₀) (hregular : ∀ x, RegularFor d S (C x))
    (hcmp : ∀ id x y, compareValues d id (C x) (C y) = some (compareMV e x y))
    (heq : ∀ x y, sgn (e x y) = .eq ↔ x = y) (hc : ∀ T, OrdersOn (fun x y => sgn (e x y)) T)
    (hsame : ∀ x y, Same d (C x) (C y) ↔ x.elems = y.elems) :
    IsOrder (result d) (fun a b => Same d a.Value b.Value) S ∧ ¬ MixesEntryIds S ↔ Regular d S :=
  hC.iff_of_type hS ha₀ hx₀ (fun x => iff_true_intro (hregular x)) fun hpay =>
    iff_true_intro (isOrder_of_compareMV hC.inj hpay hC.notBinary hcmp heq hc hsame)

theorem of_I2 : MakesType .PT_I2 where
  inj _ _ := PropValData.PT_I2.inj
  only v _ h := by cases v <;> first | exact ⟨_, rfl⟩ | cases h
  notBinary := nofun

theorem of_LONG : MakesType .PT_LONG where
  inj _ _ := PropValData.PT_LONG.inj
  only v _ h := by cases v <;> first | exact ⟨_, rfl⟩ | cases h
  notBinary := nofun

theorem of_BOOLEAN : MakesType .PT_BOOLEAN where
  inj _ _ := PropValData.PT_BOOLEAN.inj
  only v _ h := by cases v <;> first | exact ⟨_, rfl⟩ | cases h
  notBinary := nofun

theorem of_I8 : MakesType .PT_I8 where
  inj _ _ := PropValData.PT_I8.inj
  only v _ h := by cases v <;> first | exact ⟨_, rfl⟩ | cases h
  notBinary := nofun

theorem of_CLSID : MakesType .PT_CLSID where
  inj _ _ := PropValData.PT_CLSID.inj
  only v _ h := by cases v <;> first | exact ⟨_, rfl⟩ | cases h
  notBinary := nofun

theorem of_STRING8 : MakesType .PT_STRING8 where
  inj _ _ := PropValData.PT_STRING8.inj
  only v _ h := by cases v <;> first | exact ⟨_, rfl⟩ | cases h
  notBinary := nofun

theorem of_UNICODE : MakesType .PT_UNICODE where
  inj _ _ := PropValData.PT_UNICODE.inj
  only v _ h := by cases v <;> first | exact ⟨_, rfl⟩ | cases h
  notBinary := nofun

theorem of_SYSTIME : MakesType .PT_SYSTIME where
  inj _ _ := PropValData.PT_SYSTIME.inj
  only v _ h := by cases v <;> first | exact ⟨_, rfl⟩ | cases h
  notBinary := nofun

theorem of_CURRENCY : MakesType .PT_CURRENCY where
  inj _ _ := PropValData.PT_CURRENCY.inj
  only v _ h := by cases v <;> first | exact ⟨_, rfl⟩ | cases h
  notBinary := nofun

theorem of_MV_I2 : MakesType .PT_MV_I2 where
  inj _ _ := PropValData.PT_MV_I2.inj
  only v _ h := by cases v <;> first | exact ⟨_, rfl⟩ | cases h
  notBinary := nofun

theorem of_MV_LONG : MakesType .PT_MV_LONG where
  inj _ _ := PropValData.PT_MV_LONG.inj
  only v _ h := by cases v <;> first | exact ⟨_, rfl⟩ | cases h
  notBinary := nofun

theorem of_MV_I8 : MakesType .PT_MV_I8 where
  inj _ _ := PropValData.PT_MV_I8.inj
  only v _ h := by cases v <;> first | exact ⟨_, rfl⟩ | cases h
  notBinary := nofun

theorem of_MV_CLSID : MakesType .PT_MV_CLSID where
  inj _ _ := PropValData.PT_MV_CLSID.inj
  only v _ h := by cases v <;> first | exact ⟨_, rfl⟩ | cases h
  notBinary := nofun

theorem of_MV_BINARY : MakesType .PT_MV_BINARY where
  inj _ _ := PropValData.PT_MV_BINARY.inj
  only v _ h := by cases v <;> first | exact ⟨_, rfl⟩ | cases h
  notBinary := nofun

theorem of_MV_SYSTIME : MakesType .PT_MV_SYSTIME where
  inj _ _ := PropValData.PT_MV_SYSTIME.inj
  only v _ h := by cases v <;> first | exact ⟨_, rfl⟩ | cases h
  notBinary := nofun

theorem of_MV_CURRENCY : MakesType .PT_MV_CURRENCY where
  inj _ _ := PropValData.PT_MV_CURRENCY.inj
  only v _ h := by cases v <;> first | exact ⟨_, rfl⟩ | cases h
  notBinary := nofun

theorem of_MV_STRING8 : MakesType .PT_MV_STRING8 where
  inj _ _ := PropValData.PT_MV_STRING8.inj
  only v _ h := by cases v <;> first | exact ⟨_, rfl⟩ | cases h
  notBinary := nofun

theorem of_MV_UNICODE : MakesType .PT_MV_UNICODE where
  inj _ _ := PropValData.PT_MV_UNICODE.inj
  only v _ h := by cases v <;> first | exact ⟨_, rfl⟩ | cases h
  notBinary := nofun

theorem of_ERROR : MakesType .PT_ERROR where
  inj _ _ := PropValData.PT_ERROR.inj
  only v _ h := by cases v <;> first | exact ⟨_, rfl⟩ | cases h
  notBinary := nofun

theorem of_other : MakesType fun _ : Unit => .other where
  inj _ _ _ := rfl
  only v _ h := by cases v <;> first | exact ⟨(), rfl⟩ | cases h
  notBinary := nofun

end MakesType

/-- The name resolution is left out. -/
theorem OneType.notANR (hS : OneType S) {b : PropVal} (hb : b ∈ S) {y : LPSTR}
    (hy : b.Value = .PT_STRING8 y ∨ b.Value = .PT_UNICODE y) : b.ulPropId ≠ PR_ANR := by
  have hb := hS.ordinary b hb
  unfold PropVal.Ordinary at hb
  rcases hy with hy | hy
  · rwa [hy] at hb
  · rwa [hy] at hb

/-- Vectors of texts are ordered where `NULL` and empty elements that come to the same place are not mixed. -/
theorem ordersOn_compareMVStrings_iff {icompare : List UInt8 → List UInt8 → ℤ}
    (hd : TransCmp fun x y => sgn (icompare x y)) {T : Set (Counted 31 LPSTR)} :
    (OrdersOn (fun x y => sgn (compareMV (compareStrings icompare) x y)) T ∧
      ∀ x ∈ T, ∀ y ∈ T, sgn (compareMV (compareStrings icompare) x y) = .eq →
        List.Forall₂ (SameString icompare) x.elems y.elems) ↔
      ∀ n p, NullsAlike (nextElems (SameString icompare) Counted.elems T n p) := by
  rw [ordersOn_compareMV_iff (respectsEq_compareStrings hd)]
  simp only [sgn_compareStrings_eq_eq, ordersOn_compareStrings_iff hd]
  refine and_iff_left fun x _ y _ heq => ?_
  simp only [sgn_compareMV_eq_eq, sgn_compareStrings_eq_eq] at heq
  exact heq

/-- The comparison of the values of one type is an order, and they are no mixture of entry ids, exactly
when they are regular. -/
theorem isOrder_iff_regular (hd : TransCmp fun x y => sgn (d.u8_icompare x y)) (hS : OneType S) :
    IsOrder (result d) (fun a b => Same d a.Value b.Value) S ∧ ¬ MixesEntryIds S ↔ Regular d S := by
  rcases S.eq_empty_or_nonempty with rfl | ⟨a₀, ha₀⟩
  · refine iff_of_true ⟨?_, ?_⟩ fun a ha => ha.elim
    · exact IsOrder.of_ordersOn (c := fun _ _ => .eq) (OrdersOn.of_empty fun _ => id)
        (fun a ha => ha.elim) fun a ha => ha.elim
    · rintro ⟨⟨a, ha, -⟩, -⟩
      exact ha
  have hordinary := hS.ordinary a₀ ha₀
  unfold PropVal.Ordinary at hordinary
  cases hx₀ : a₀.Value with
  -- numbers and bytes, which are always ordered
  | PT_I2 x₀ =>
    exact MakesType.of_I2.ordered hS ha₀ hx₀ (fun _ => trivial) (fun _ _ _ _ _ => rfl)
      (fun _ => ordersOn_sub BitVec.toInt) fun _ _ _ => trivial
  | PT_LONG x₀ =>
    exact MakesType.of_LONG.ordered hS ha₀ hx₀ (fun _ => trivial) (fun _ _ _ _ _ => rfl)
      (fun _ => ordersOn_branches fun x : BitVec 32 => x.toNat) fun _ _ _ => trivial
  | PT_BOOLEAN x₀ =>
    exact MakesType.of_BOOLEAN.ordered hS ha₀ hx₀ (fun _ => trivial) (fun _ _ _ _ _ => rfl)
      (fun _ => ordersOn_sub boolInt) fun _ _ _ => trivial
  | PT_I8 x₀ =>
    exact MakesType.of_I8.ordered hS ha₀ hx₀ (fun _ => trivial) (fun _ _ _ _ _ => rfl)
      (fun _ => ordersOn_branches BitVec.toInt) fun _ _ _ => trivial
  | PT_CLSID x₀ =>
    exact MakesType.of_CLSID.ordered hS ha₀ hx₀ (fun _ => trivial) (fun _ _ _ _ _ => rfl)
      (fun _ => ordersOn_compareBinary) fun _ _ _ => trivial
  -- and vectors of them
  | PT_MV_I2 x₀ =>
    exact MakesType.of_MV_I2.ordered_of_elems hS ha₀ hx₀ (fun _ => trivial) (fun _ _ _ => rfl)
      sgn_toInt_sub_toInt_eq_eq (fun _ => ordersOn_sub BitVec.toInt) fun _ _ => Iff.rfl
  | PT_MV_LONG x₀ =>
    exact MakesType.of_MV_LONG.ordered_of_elems hS ha₀ hx₀ (fun _ => trivial) (fun _ _ _ => rfl)
      sgn_branches_toNat_eq_eq (fun _ => ordersOn_branches fun x : BitVec 32 => x.toNat) fun _ _ => Iff.rfl
  | PT_MV_I8 x₀ =>
    exact MakesType.of_MV_I8.ordered_of_elems hS ha₀ hx₀ (fun _ => trivial) (fun _ _ _ => rfl)
      sgn_branches_toInt_eq_eq (fun _ => ordersOn_branches BitVec.toInt) fun _ _ => Iff.rfl
  | PT_MV_CLSID x₀ =>
    exact MakesType.of_MV_CLSID.ordered_of_elems hS ha₀ hx₀ (fun _ => trivial) (fun _ _ _ => rfl)
      (fun _ _ => sgn_compareBinary_eq_eq) (fun _ => ordersOn_compareBinary) fun _ _ => Iff.rfl
  | PT_MV_BINARY x₀ =>
    exact MakesType.of_MV_BINARY.ordered_of_elems hS ha₀ hx₀ (fun _ => trivial) (fun _ _ _ => rfl)
      (fun _ _ => sgn_compareBinary_eq_eq) (fun _ => ordersOn_compareBinary) fun _ _ => Iff.rfl
  -- texts, of which `NULL` is refused in the one type and equal to the empty one in the other
  | PT_STRING8 x₀ =>
    exact MakesType.of_STRING8.iff_of_type hS ha₀ hx₀ (fun _ => Iff.rfl) fun hpay =>
      iff_true_intro (isOrder_string8 hd hpay fun b hb y hy => hS.notANR hb (.inl hy))
  | PT_UNICODE x₀ =>
    refine MakesType.of_UNICODE.ordered_iff hS ha₀ hx₀ (fun _ => Iff.rfl) (fun _ => rfl)
      (fun b hb x y hy => congrArg some (compareText_eq (hS.notANR hb (.inr hy)) x y)) ?_
    rw [ordersOn_compareStrings_iff hd]
    exact and_iff_left fun _ _ _ _ _ => trivial
  | PT_MV_STRING8 x₀ =>
    exact MakesType.of_MV_STRING8.ordered_iff hS ha₀ hx₀ (fun _ => Iff.rfl) (fun _ => rfl) (fun _ _ _ _ _ => rfl)
      (ordersOn_compareMVStrings_iff hd)
  | PT_MV_UNICODE x₀ =>
    exact MakesType.of_MV_UNICODE.ordered_iff hS ha₀ hx₀ (fun _ => Iff.rfl) (fun _ => rfl) (fun _ _ _ _ _ => rfl)
      (ordersOn_compareMVStrings_iff hd)
  -- 64-bit values, whose high halves are compared by a difference that wraps
  | PT_SYSTIME x₀ =>
    refine MakesType.of_SYSTIME.ordered_iff hS ha₀ hx₀ (fun _ => Iff.rfl) (fun _ => rfl) (fun _ _ _ _ _ => rfl) ?_
    rw [ordersOn_compareHilo_iff]
    exact and_iff_left fun _ _ _ _ _ => trivial
  | PT_CURRENCY x₀ =>
    refine MakesType.of_CURRENCY.ordered_iff hS ha₀ hx₀ (fun _ => Iff.rfl) (fun _ => rfl) (fun _ _ _ _ _ => rfl) ?_
    rw [ordersOn_compareHilo_iff]
    exact and_iff_left fun _ _ _ _ _ => trivial
  | PT_MV_SYSTIME x₀ =>
    exact MakesType.of_MV_SYSTIME.ordered_iff hS ha₀ hx₀ (fun _ => Iff.rfl) (fun _ => rfl) (fun _ _ _ _ _ => rfl)
      ordersOn_compareMVHilo_iff
  | PT_MV_CURRENCY x₀ =>
    exact MakesType.of_MV_CURRENCY.ordered_iff hS ha₀ hx₀ (fun _ => Iff.rfl) (fun _ => rfl) (fun _ _ _ _ _ => rfl)
      ordersOn_compareMVHilo_iff
  -- binary values, among which are the entry ids
  | PT_BINARY x₀ =>
    have hpay := hS.exists_payload (C := .PT_BINARY) ha₀ hx₀ fun v h => by
      cases v <;> first | exact ⟨_, rfl⟩ | cases h
    rw [isOrder_binary_iff hpay]
    constructor
    · intro h a ha
      obtain ⟨x, hx⟩ := hpay a ha
      rw [hx]
      exact h
    · intro h
      have h := h a₀ ha₀
      rwa [hx₀] at h
  | PT_ERROR x₀ => exact MakesType.of_ERROR.not_compared hS ha₀ x₀ hx₀ (fun _ => trivial) fun _ _ _ => rfl
  | other => exact MakesType.of_other.not_compared hS ha₀ () hx₀ (fun _ => trivial) fun _ _ _ => rfl
  | _ =>
    -- floats
    rw [hx₀] at hordinary
    exact hordinary.elim

end Order

end Zcp.Common.SOAPUtils
