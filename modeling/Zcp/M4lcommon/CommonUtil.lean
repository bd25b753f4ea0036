import Zcp.Common.Restriction

/-!
# Restrictions in the client

`TestRestriction` of `m4lcommon/CommonUtil.cpp`, over a row of properties (`ECRowWrapper`). The result is
folded into the error code. `RES_SUBRESTRICTION`, which opens tables of the message, is left out.
-/

namespace Zcp.M4lcommon.CommonUtil

open Zcp.Common

inductive HRESULT where
  | hrSuccess
  | MAPI_E_NOT_FOUND
  | MAPI_E_TOO_COMPLEX
deriving DecidableEq, Repr

def RESTRICT_MAX_RECURSE_LEVEL : ℕ := 16

variable {T : Type}

/-- `HrGetOneProp` on an `ECRowWrapper`: the first property with the id, with a text in the form asked
for. -/
def getOneProp (row : List (Property T)) (ulPropTag : PropTag) : Option (Property T) :=
  match row.find? fun lpProp => lpProp.ulPropId = ulPropTag.ulPropId with
  | none => none
  | some lpFind =>
    match lpFind.Value, ulPropTag.type with
    | .PT_STRING8 text, .PT_UNICODE => some { lpFind with Value := .PT_UNICODE text }
    | .PT_UNICODE text, .PT_STRING8 => some { lpFind with Value := .PT_STRING8 text }
    | value, type => if value.type = type then some lpFind else none

/-- `Util::PropSize`. -/
def propSize (s : Strings T) : Value T → BitVec 32
  | .PT_I2 _ => 2
  | .PT_BOOLEAN _ | .PT_LONG _ => 4
  | .PT_I8 _ => 8
  | .PT_UNICODE text => uintSize (s.wide text)
  | .PT_STRING8 text => uintSize (s.ansi text)
  | .PT_SYSTIME _ _ | .PT_CURRENCY _ _ => 8
  | .PT_BINARY bin => uintSize bin.elems
  | .PT_CLSID _ => 16

/-- What is in memory from some place on. -/
abbrev Memory := ℕ → UInt8

/-- The binary values of `RES_CONTENT`. The comparison of whole values tests the pointer of a text, which
is `NULL` here. The comparison of prefixes goes over the size of the data, and reads on behind the search
value when that is shorter. -/
def binaryMatches (behind : Memory) (ulFuzzyLevel : BitVec 32) (data search : List UInt8) : Bool :=
  if ulFuzzyLevel &&& 0xFFFF = FL_FULLSTRING then false
  else if ulFuzzyLevel &&& 0xFFFF = FL_PREFIX then
    decide (uintSize search ≤ uintSize data) &&
      decide (memcmp data (search ++ (List.range (data.length - search.length)).map behind) = 0)
  else if ulFuzzyLevel &&& 0xFFFF = FL_SUBSTRING then memsubstr data search == 0
  else false

section Evaluation

variable (s : Strings T) (behind : Memory) (row : List (Property T))

/-- `RES_CONTENT` on a value; other members of the union are not of the type of the restriction. -/
def contentMatches (ulFuzzyLevel : BitVec 32) : Value T → Value T → Bool
  | .PT_STRING8 data, .PT_STRING8 search =>
    textMatches s.str ulFuzzyLevel (s.ansi data) (s.ansi search)
  | .PT_UNICODE data, .PT_UNICODE search =>
    textMatches s.wcs ulFuzzyLevel (s.wide data) (s.wide search)
  | .PT_BINARY data, .PT_BINARY search =>
    binaryMatches behind ulFuzzyLevel data.elems search.elems
  | _, _ => false

/-- `Util::CompareProp` and `TestRelop`. The result of a comparison that fails is not initialised; none
fails for the types of the model. -/
def compareMatches (relop : Relop) (lpProp1 lpProp2 : Property T) : Bool :=
  relop.holds ((Util.result s.client ⟨lpProp1.ulPropId, lpProp1.Value.toClient s⟩
    ⟨lpProp2.ulPropId, lpProp2.Value.toClient s⟩).getD 0)

/-- The end of `TestRestriction`. -/
def matchResult (fMatch : Bool) : HRESULT :=
  if fMatch then .hrSuccess else .MAPI_E_NOT_FOUND

/-- A condition on a property, which cannot hold when the row does not have it. -/
def onProp (ulPropTag : PropTag) (test : Property T → Bool) : HRESULT :=
  match getOneProp row ulPropTag with
  | none => .MAPI_E_NOT_FOUND
  | some lpProp => matchResult (test lpProp)

mutual

/-- `TestRestriction`. -/
def testRestriction (ulLevel : ℕ) : Restriction T → HRESULT
  | .RES_AND lpRes =>
    if RESTRICT_MAX_RECURSE_LEVEL < ulLevel then .MAPI_E_TOO_COMPLEX
    else testAnd ulLevel false lpRes
  | .RES_OR lpRes =>
    if RESTRICT_MAX_RECURSE_LEVEL < ulLevel then .MAPI_E_TOO_COMPLEX
    else testOr ulLevel .hrSuccess lpRes
  | .RES_NOT lpRes =>
    if RESTRICT_MAX_RECURSE_LEVEL < ulLevel then .MAPI_E_TOO_COMPLEX
    else
      match testRestriction (ulLevel + 1) lpRes with
      | .MAPI_E_TOO_COMPLEX => .MAPI_E_TOO_COMPLEX
      | .hrSuccess => .MAPI_E_NOT_FOUND
      | .MAPI_E_NOT_FOUND => .hrSuccess
  | .RES_COMMENT lpRes =>
    if RESTRICT_MAX_RECURSE_LEVEL < ulLevel then .MAPI_E_TOO_COMPLEX
    else testRestriction (ulLevel + 1) lpRes
  | .RES_CONTENT ulFuzzyLevel ulPropTag lpProp =>
    if RESTRICT_MAX_RECURSE_LEVEL < ulLevel then .MAPI_E_TOO_COMPLEX
    else if ulPropTag.type ≠ .PT_STRING8 ∧ ulPropTag.type ≠ .PT_UNICODE ∧
        ulPropTag.type ≠ .PT_BINARY then .MAPI_E_TOO_COMPLEX
    else onProp row ulPropTag fun found =>
      contentMatches s behind ulFuzzyLevel found.Value lpProp.Value
  | .RES_PROPERTY relop ulPropTag lpProp =>
    if RESTRICT_MAX_RECURSE_LEVEL < ulLevel then .MAPI_E_TOO_COMPLEX
    -- cannot compare two different types
    else if ulPropTag.type ≠ lpProp.Value.type then .MAPI_E_TOO_COMPLEX
    else onProp row ulPropTag fun found => compareMatches s relop found lpProp
  | .RES_COMPAREPROPS relop ulPropTag1 ulPropTag2 =>
    if RESTRICT_MAX_RECURSE_LEVEL < ulLevel then .MAPI_E_TOO_COMPLEX
    -- cannot compare two different types
    else if ulPropTag1.type ≠ ulPropTag2.type then .MAPI_E_TOO_COMPLEX
    else
      match getOneProp row ulPropTag1, getOneProp row ulPropTag2 with
      | some lpProp, some lpProp2 => matchResult (compareMatches s relop lpProp lpProp2)
      | _, _ => .MAPI_E_NOT_FOUND
  | .RES_BITMASK relBMR ulPropTag ulMask =>
    if RESTRICT_MAX_RECURSE_LEVEL < ulLevel then .MAPI_E_TOO_COMPLEX
    else if ulPropTag.type ≠ .PT_LONG then .MAPI_E_TOO_COMPLEX
    else onProp row ulPropTag fun found =>
      match found.Value with
      | .PT_LONG ul =>
        let fMatch := ul &&& ulMask == 0
        if relBMR = .BMR_NEZ then !fMatch else fMatch
      | _ => false
  | .RES_SIZE relop ulPropTag cb =>
    if RESTRICT_MAX_RECURSE_LEVEL < ulLevel then .MAPI_E_TOO_COMPLEX
    else onProp row ulPropTag fun found => relop.holds (propSize s found.Value - cb).toInt
  | .RES_EXIST ulPropTag =>
    if RESTRICT_MAX_RECURSE_LEVEL < ulLevel then .MAPI_E_TOO_COMPLEX
    else onProp row ulPropTag fun _ => true

/-- The loop of `RES_AND`: `fMatch` is set once there has been a restriction. -/
def testAnd (ulLevel : ℕ) (fMatch : Bool) : List (Restriction T) → HRESULT
  | [] => matchResult fMatch
  | lpRes :: rest =>
    match testRestriction (ulLevel + 1) lpRes with
    | .hrSuccess => testAnd ulLevel true rest
    | hr => hr

/-- The loop of `RES_OR`, with the result of the restriction before. -/
def testOr (ulLevel : ℕ) (hr : HRESULT) : List (Restriction T) → HRESULT
  | [] => if hr = .hrSuccess then .MAPI_E_NOT_FOUND else hr
  | lpRes :: rest =>
    match testRestriction (ulLevel + 1) lpRes with
    | .hrSuccess => .hrSuccess
    | .MAPI_E_TOO_COMPLEX => .MAPI_E_TOO_COMPLEX
    | hr => testOr ulLevel hr rest

end

end Evaluation

end Zcp.M4lcommon.CommonUtil
