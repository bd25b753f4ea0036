import Zcp.Common.StringUtil.MemSubstr
import Zcp.M4lcommon.CommonUtil

/-!
# Contents in the client

The `RES_CONTENT` case of `TestRestriction`, with the variables that its three types share and the bytes that it looks
at. A type sets some of the variables only, the others are `NULL`.
-/

namespace Zcp.M4lcommon.CommonUtil

open Zcp.Common

/-- The search value and the value of the row, of the type of the restriction. A binary value without bytes may be
`NULL`. -/
inductive ContentValues where
  | PT_STRING8 (search data : Option (List UInt8))
  | PT_UNICODE (search data : Option (List (BitVec 32)))
  | PT_BINARY (search data : Option SBinary)

/-- The variables of the case. -/
structure ContentVars where
  ulPropType : PropType
  lpSearchString : Option (List UInt8) := none
  lpSearchData : Option (List UInt8) := none
  lpwSearchString : Option (List (BitVec 32)) := none
  lpwSearchData : Option (List (BitVec 32)) := none
  ulSearchStringSize : BitVec 32
  ulSearchDataSize : BitVec 32

/-- `strlen` and `wcslen` of a pointer that may be `NULL`. -/
def ptrSize {α : Type} (text : Option (List α)) : BitVec 32 := uintSize (text.getD [])

def contentVars : ContentValues → ContentVars
  | .PT_STRING8 search data =>
    { ulPropType := .PT_STRING8
      lpSearchString := search
      lpSearchData := data
      ulSearchStringSize := ptrSize search
      ulSearchDataSize := ptrSize data }
  | .PT_UNICODE search data =>
    { ulPropType := .PT_UNICODE
      lpwSearchString := search
      lpwSearchData := data
      ulSearchStringSize := ptrSize search
      ulSearchDataSize := ptrSize data }
  | .PT_BINARY search data =>
    { ulPropType := .PT_BINARY
      lpSearchString := search.map Counted.elems
      lpSearchData := data.map Counted.elems
      ulSearchStringSize := ptrSize (search.map Counted.elems)
      ulSearchDataSize := ptrSize (data.map Counted.elems) }

/-- A test of two texts, neither of them `NULL`. -/
def textTest {α : Type} (test : List α → List α → Bool) : Option (List α) → Option (List α) → Bool
  | some lpSearchData, some lpSearchString => test lpSearchData lpSearchString
  | _, _ => false

section Tests

variable (str : StringTest → Bool → List UInt8 → List UInt8 → Bool)
  (wcs : StringTest → Bool → List (BitVec 32) → List (BitVec 32) → Bool)

/-- The condition of a mode: the texts are tested, and the binary values compared. -/
def contentCondition (test : StringTest) (ignoreCase : Bool) (v : ContentVars) (binary : Option Bool) : Option Bool :=
  match v.ulPropType with
  | .PT_STRING8 => some (textTest (str test ignoreCase) v.lpSearchData v.lpSearchString)
  | .PT_UNICODE => some (textTest (wcs test ignoreCase) v.lpwSearchData v.lpwSearchString)
  | .PT_BINARY => binary
  | _ => some false

/-- The flag, or `none` if a byte outside of the two values is looked at. -/
def testContent (ulFuzzyLevel : BitVec 32) (values : ContentValues) : Option Bool :=
  let v := contentVars values
  let ignoreCase := ulFuzzyLevel &&& FL_IGNORECASE != 0
  let data := v.lpSearchData.getD []
  let search := v.lpSearchString.getD []
  if ulFuzzyLevel &&& 0xFFFF = FL_FULLSTRING then
    if v.ulSearchDataSize = v.ulSearchStringSize then
      contentCondition str wcs .equals ignoreCase v
        (if v.lpSearchData.isSome ∧ v.lpwSearchString.isSome then StringUtil.memcmp data search v.ulSearchDataSize.toNat
          else some false)
    else some false
  else if ulFuzzyLevel &&& 0xFFFF = FL_PREFIX then
    if v.ulSearchStringSize ≤ v.ulSearchDataSize then
      contentCondition str wcs .startswith ignoreCase v
        (if v.lpSearchData.isSome ∧ v.lpSearchString.isSome then StringUtil.memcmp data search v.ulSearchDataSize.toNat
          else some false)
    else some false
  else if ulFuzzyLevel &&& 0xFFFF = FL_SUBSTRING then
    contentCondition str wcs .contains ignoreCase v
      (if v.lpSearchData.isSome ∧ v.lpSearchString.isSome then
        (StringUtil.memsubstr data v.ulSearchDataSize.toNat search v.ulSearchStringSize.toNat).map fun r => r == 0
      else some false)
  else some false

end Tests

end Zcp.M4lcommon.CommonUtil
