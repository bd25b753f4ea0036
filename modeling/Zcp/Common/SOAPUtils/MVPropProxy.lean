import Zcp.Common.Restriction
import Zcp.Lib.FloatValue

/-!
# Multi-values and single values

`CompareMVPropWithProp` of `provider/common/SOAPUtils.cpp`, which compares the elements of a multi-value with a single
value in a switch of its own.
-/

namespace Zcp.Common.SOAPUtils

open Zcp.Lib

/-- What the difference of two floats is converted to where it is no `int`, which C leaves open. -/
structure FloatDifferences where
  subFloat : BitVec 32 → BitVec 32 → ℤ
  subDouble : BitVec 64 → BitVec 64 → ℤ

open Float.Model.Format in
/-- The comparisons with the operators of C on floats. -/
def Comparers.ieee (u8_icompare u8_istartswith : List UInt8 → List UInt8 → ℤ) : Comparers where
  u8_icompare := u8_icompare
  u8_istartswith := u8_istartswith
  eqFloat a b := (FloatValue.ofBits binary32 a).eq (.ofBits binary32 b)
  ltFloat a b := (FloatValue.ofBits binary32 a).lt (.ofBits binary32 b)
  eqDouble a b := (FloatValue.ofBits binary64 a).eq (.ofBits binary64 b)
  ltDouble a b := (FloatValue.ofBits binary64 a).lt (.ofBits binary64 b)

def MV_FLAG : BitVec 16 := 0x1000

/-- `PROP_TYPE` of the tag. -/
def PROP_TYPE : PropValData → BitVec 16
  | .PT_I2 _ => 0x0002
  | .PT_LONG _ => 0x0003
  | .PT_R4 _ => 0x0004
  | .PT_DOUBLE _ => 0x0005
  | .PT_CURRENCY _ => 0x0006
  | .PT_APPTIME _ => 0x0007
  | .PT_ERROR _ => 0x000A
  | .PT_BOOLEAN _ => 0x000B
  | .PT_I8 _ => 0x0014
  | .PT_STRING8 _ => 0x001E
  | .PT_UNICODE _ => 0x001F
  | .PT_SYSTIME _ => 0x0040
  | .PT_CLSID _ => 0x0048
  | .PT_BINARY _ => 0x0102
  | .PT_MV_I2 _ => 0x1002
  | .PT_MV_LONG _ => 0x1003
  | .PT_MV_R4 _ => 0x1004
  | .PT_MV_DOUBLE _ => 0x1005
  | .PT_MV_CURRENCY _ => 0x1006
  | .PT_MV_APPTIME _ => 0x1007
  | .PT_MV_I8 _ => 0x1014
  | .PT_MV_STRING8 _ => 0x101E
  | .PT_MV_UNICODE _ => 0x101F
  | .PT_MV_SYSTIME _ => 0x1040
  | .PT_MV_CLSID _ => 0x1048
  | .PT_MV_BINARY _ => 0x1102
  | .other => 0x0000

/-- `(PROP_TYPE(lpMVProp1->ulPropTag) & ~MV_FLAG) == PROP_TYPE(lpProp2->ulPropTag)`. -/
def SameBase (lpMVProp1 lpProp2 : PropValData) : Prop := PROP_TYPE lpMVProp1 &&& ~~~ MV_FLAG = PROP_TYPE lpProp2

instance (lpMVProp1 lpProp2 : PropValData) : Decidable (SameBase lpMVProp1 lpProp2) :=
  inferInstanceAs (Decidable (_ = _))

/-- The memory of `PT_MV_I8` values, as `mvl.__ptr` finds it: each has its low word first. -/
def words (mvli : List (BitVec 64)) : List (BitVec 32) :=
  mvli.flatMap fun (li : BitVec 64) => [li.setWidth 32, (li >>> 32).setWidth 32]

namespace MVPropProxy

def size : PropValData → ℕ
  | .PT_MV_I2 mvi => mvi.elems.length
  | .PT_MV_LONG mvl => mvl.elems.length
  | .PT_MV_R4 mvflt => mvflt.elems.length
  | .PT_MV_DOUBLE mvdbl | .PT_MV_APPTIME mvdbl => mvdbl.elems.length
  | .PT_MV_I8 mvl => mvl.elems.length
  | .PT_MV_SYSTIME mvhilo | .PT_MV_CURRENCY mvhilo => mvhilo.elems.length
  | .PT_MV_CLSID mvbin | .PT_MV_BINARY mvbin => mvbin.elems.length
  | .PT_MV_STRING8 mvszA | .PT_MV_UNICODE mvszA => mvszA.elems.length
  | _ => 0

def compareHilo (a b : HiloLong) : ℤ := if a.hi = b.hi then (a.lo - b.lo).toInt else (a.hi - b.hi).toInt

def compareBinary (a b : Base64Binary) : ℤ :=
  if (a.elems.length : ℤ) - b.elems.length = 0 then memcmp a.elems b.elems else a.elems.length - b.elems.length

/-- The difference of two floats with mantissas of `p` bits as an `int`, if it is one without its fraction. -/
def compareFloats (p : ℕ) (conversion : ℤ) : FloatValue → FloatValue → ℤ
  | .number x, .number y =>
    let r := FloatValue.roundTo p (x - y)
    if -2 ^ 31 - 1 < r ∧ r < 2 ^ 31 then FloatValue.truncate r else conversion
  | _, _ => conversion

open Float.Model.Format in
def compareFlt (fd : FloatDifferences) (a b : BitVec 32) : ℤ :=
  compareFloats 24 (fd.subFloat a b) (.ofBits binary32 a) (.ofBits binary32 b)

open Float.Model.Format in
def compareDbl (fd : FloatDifferences) (a b : BitVec 64) : ℤ :=
  compareFloats 53 (fd.subDouble a b) (.ofBits binary64 a) (.ofBits binary64 b)

/-- `none` is `u8_icompare` with two null pointers, which it asserts not to get. -/
def compareText (d : Comparers) : LPSTR → LPSTR → Option ℤ
  | none, some _ => some 1
  | some _, none => some (-1)
  | some a, some b => some (d.u8_icompare a b)
  | none, none => none

/-- The element at `ulIndex`, if there is one. -/
def atIndex {α : Type} (elems : List α) (ulIndex : ℕ) (compare : α → Option ℤ) : Option (Except ECRESULT ℤ) :=
  match elems[ulIndex]? with
  | none => some (.error .ZARAFA_E_INVALID_PARAMETER)
  | some e => (compare e).map .ok

variable (d : Comparers) (fd : FloatDifferences)

/-- `compare`; `none` is a call that does not return. -/
def compare (lpMVProp lpProp : PropValData) (ulIndex : ℕ) : Option (Except ECRESULT ℤ) :=
  match lpMVProp, lpProp with
  | .PT_MV_I2 mvi, .PT_I2 i => atIndex mvi.elems ulIndex fun e => some (e.toInt - i.toInt)
  | .PT_MV_LONG mvl, .PT_LONG ul => atIndex mvl.elems ulIndex fun e => some (e - ul).toInt
  | .PT_MV_R4 mvflt, .PT_R4 flt => atIndex mvflt.elems ulIndex fun e => some (compareFlt fd e flt)
  | .PT_MV_DOUBLE mvdbl, .PT_DOUBLE dbl => atIndex mvdbl.elems ulIndex fun e => some (compareDbl fd e dbl)
  | .PT_MV_APPTIME mvdbl, .PT_APPTIME dbl => atIndex mvdbl.elems ulIndex fun e => some (compareDbl fd e dbl)
  | .PT_MV_I8 mvl, .PT_I8 li =>
    -- the words are unsigned and the difference is a `LONG64`, which is cut to an `int`
    atIndex ((words mvl.elems).take mvl.elems.length) ulIndex fun e => some ((e.setWidth 64 - li).setWidth 32).toInt
  | .PT_MV_SYSTIME mvhilo, .PT_SYSTIME hilo => atIndex mvhilo.elems ulIndex fun e => some (compareHilo e hilo)
  | .PT_MV_CURRENCY mvhilo, .PT_CURRENCY hilo => atIndex mvhilo.elems ulIndex fun e => some (compareHilo e hilo)
  | .PT_MV_CLSID mvbin, .PT_CLSID bin => atIndex mvbin.elems ulIndex fun e => some (compareBinary e bin)
  | .PT_MV_BINARY mvbin, .PT_BINARY bin => atIndex mvbin.elems ulIndex fun e => some (compareBinary e bin)
  | .PT_MV_STRING8 mvszA, .PT_STRING8 lpszA => atIndex mvszA.elems ulIndex fun e => compareText d e lpszA
  | .PT_MV_UNICODE mvszA, .PT_UNICODE lpszA => atIndex mvszA.elems ulIndex fun e => compareText d e lpszA
  | _, _ => some (.error .ZARAFA_E_INVALID_PARAMETER)

end MVPropProxy

/-- What the switch over `ulType` makes of a result; `none` is `RELOP_RE`, for which nothing matches. -/
def relopHolds (ulType : Option Relop) (nCompareResult : ℤ) : Bool :=
  match ulType with
  | none => false
  | some relop => relop.holds nCompareResult

/-- The loop over the elements from `i` on, of which `n` are left. -/
def matchLoop (compare : ℕ → Option (Except ECRESULT ℤ)) (holds : ℤ → Bool) (i : ℕ) : ℕ → Option (Except ECRESULT Bool)
  | 0 => some (.ok false)
  | n + 1 =>
    match compare i with
    | none => none
    | some (.error er) => some (.error er)
    | some (.ok nCompareResult) => if holds nCompareResult then some (.ok true) else matchLoop compare holds (i + 1) n

/-- `CompareMVPropWithProp`; `none` is a call that does not return. -/
def compareMVPropWithProp (d : Comparers) (fd : FloatDifferences) (lpMVProp1 lpProp2 : PropVal) (ulType : Option Relop) :
    Option (Except ECRESULT Bool) :=
  if ¬ SameBase lpMVProp1.Value lpProp2.Value then some (.error .ZARAFA_E_INVALID_PARAMETER)
  else if propCheck lpMVProp1.Value = false ∨ propCheck lpProp2.Value = false then
    some (.error .ZARAFA_E_INVALID_PARAMETER)
  else
    matchLoop (MVPropProxy.compare d fd lpMVProp1.Value lpProp2.Value) (relopHolds ulType) 0
      (MVPropProxy.size lpMVProp1.Value)

/-! ## The elements -/

/-- The single values of the elements. -/
def elements : PropValData → List PropValData
  | .PT_MV_I2 mvi => mvi.elems.map .PT_I2
  | .PT_MV_LONG mvl => mvl.elems.map .PT_LONG
  | .PT_MV_R4 mvflt => mvflt.elems.map .PT_R4
  | .PT_MV_DOUBLE mvdbl => mvdbl.elems.map .PT_DOUBLE
  | .PT_MV_APPTIME mvdbl => mvdbl.elems.map .PT_APPTIME
  | .PT_MV_I8 mvli => mvli.elems.map .PT_I8
  | .PT_MV_SYSTIME mvhilo => mvhilo.elems.map .PT_SYSTIME
  | .PT_MV_CURRENCY mvhilo => mvhilo.elems.map .PT_CURRENCY
  | .PT_MV_CLSID mvbin => mvbin.elems.map .PT_CLSID
  | .PT_MV_BINARY mvbin => mvbin.elems.map .PT_BINARY
  | .PT_MV_STRING8 mvszA => mvszA.elems.map .PT_STRING8
  | .PT_MV_UNICODE mvszA => mvszA.elems.map .PT_UNICODE
  | _ => []

variable (d : Comparers) (fd : FloatDifferences) (lpMVProp1 lpProp2 : PropVal) (ulType : Option Relop)

/-- The single-valued property of an element stands in the relation, by `CompareProp`. -/
def Stands (e : PropValData) : Prop :=
  ∃ r, result d ⟨lpMVProp1.ulPropId, e⟩ lpProp2 = some r ∧ relopHolds ulType r = true

/-- A match means that some element stands in the relation. -/
def SomeElement : Prop :=
  compareMVPropWithProp d fd lpMVProp1 lpProp2 ulType = some (.ok true) ↔
    ∃ e ∈ elements lpMVProp1.Value, Stands d lpMVProp1 lpProp2 ulType e

end Zcp.Common.SOAPUtils
