import Zcp.Common.Restriction

/-!
# Restrictions on the server

`ECGenericObjectTable::MatchRowRestrict`. The result is the error code and the flag, which is set when the
call succeeds. `RES_SUBRESTRICTION`, which looks up results from a search in the database, is left out.
-/

namespace Zcp.Libserver.ECGenericObjectTable

open Zcp.Common

inductive Failure where
  | ZARAFA_E_INVALID_TYPE
deriving DecidableEq, Repr

variable {T : Type}

/-- `FindProp`: the first property with the tag. -/
def findProp (row : List (Property T)) (ulPropTag : PropTag) : Option (Property T) :=
  row.find? fun lpProp => lpProp.ulPropId = ulPropTag.ulPropId ∧ lpProp.Value.type = ulPropTag.type

/-- The same string type, for compares. -/
def sameStringType : PropType → PropType
  | .PT_STRING8 => .PT_UNICODE
  | type => type

/-- `PropSize`. -/
def propSize (s : Strings T) : Value T → BitVec 32
  | .PT_I2 _ => 2
  | .PT_BOOLEAN _ | .PT_LONG _ => 4
  | .PT_I8 _ => 8
  | .PT_UNICODE text | .PT_STRING8 text => uintSize (s.utf8 text)
  | .PT_SYSTIME _ _ | .PT_CURRENCY _ _ => 8
  | .PT_BINARY bin => uintSize bin.elems
  | .PT_CLSID guid => uintSize guid.bytes

/-- The binary values of `RES_CONTENT`. -/
def binaryMatches (ulFuzzyLevel : BitVec 32) (data search : List UInt8) : Bool :=
  if ulFuzzyLevel &&& 0xFFFF = FL_FULLSTRING then
    uintSize data == uintSize search && decide (memcmp data search = 0)
  else if ulFuzzyLevel &&& 0xFFFF = FL_PREFIX then
    decide (uintSize search ≤ uintSize data) &&
      decide (memcmp (data.take search.length) search = 0)
  else if ulFuzzyLevel &&& 0xFFFF = FL_SUBSTRING then memsubstr data search == 0
  else false

section Evaluation

variable (s : Strings T) (row : List (Property T))

/-- `RES_CONTENT` on a value; other members of the union are not of the type of the restriction. -/
def contentMatches (ulFuzzyLevel : BitVec 32) : Value T → Value T → Bool
  | .PT_STRING8 data, .PT_STRING8 search | .PT_STRING8 data, .PT_UNICODE search
  | .PT_UNICODE data, .PT_STRING8 search | .PT_UNICODE data, .PT_UNICODE search =>
    textMatches s.u8 ulFuzzyLevel (s.utf8 data) (s.utf8 search)
  | .PT_BINARY data, .PT_BINARY search => binaryMatches ulFuzzyLevel data.elems search.elems
  | _, _ => false

/-- `CompareProp` and the operator; a comparison that fails does not match. -/
def compareMatches (relop : Relop) (lpProp1 lpProp2 : Property T) : Bool :=
  match SOAPUtils.result s.server ⟨lpProp1.ulPropId, lpProp1.Value.toServer s⟩
      ⟨lpProp2.ulPropId, lpProp2.Value.toServer s⟩ with
  | some lCompare => relop.holds lCompare
  | none => false

mutual

/-- `ECGenericObjectTable::MatchRowRestrict`. -/
def matchRowRestrict : Restriction T → Except Failure Bool
  | .RES_COMMENT lpRes => matchRowRestrict lpRes
  | .RES_OR lpRes => matchOr lpRes
  | .RES_AND lpRes => matchAnd lpRes
  | .RES_NOT lpRes =>
    match matchRowRestrict lpRes with
    | .error er => .error er
    | .ok fMatch => .ok !fMatch
  | .RES_CONTENT ulFuzzyLevel ulPropTag lpProp =>
    if sameStringType ulPropTag.type ≠ .PT_UNICODE ∧ ulPropTag.type ≠ .PT_BINARY then .ok false
    else
      match findProp row ulPropTag with
      | none => .ok false
      | some found => .ok (contentMatches s ulFuzzyLevel found.Value lpProp.Value)
  | .RES_PROPERTY relop ulPropTag lpProp =>
    -- cannot compare two different types
    if sameStringType ulPropTag.type ≠ sameStringType lpProp.Value.type then
      .error .ZARAFA_E_INVALID_TYPE
    else
      match findProp row ulPropTag with
      | none => .ok (relop = .RELOP_NE)
      | some found => .ok (compareMatches s relop found lpProp)
  | .RES_COMPAREPROPS relop ulPropTag1 ulPropTag2 =>
    if sameStringType ulPropTag1.type ≠ sameStringType ulPropTag2.type then
      .error .ZARAFA_E_INVALID_TYPE
    else
      match findProp row ulPropTag1, findProp row ulPropTag2 with
      | some lpProp, some lpProp2 => .ok (compareMatches s relop lpProp lpProp2)
      | _, _ => .ok false
  | .RES_BITMASK relBMR ulPropTag ulMask =>
    -- we can only bitmask 32-bit LONG values
    if ulPropTag.type ≠ .PT_LONG then .error .ZARAFA_E_INVALID_TYPE
    else
      match findProp row ulPropTag with
      | none => .ok false
      | some found =>
        match found.Value with
        | .PT_LONG ul =>
          let fMatch := decide (0 < ul &&& ulMask)
          .ok (if relBMR = .BMR_EQZ then !fMatch else fMatch)
        | _ => .ok false
  | .RES_SIZE relop ulPropTag cb =>
    match findProp row ulPropTag with
    | none => .error .ZARAFA_E_INVALID_TYPE
    | some found => .ok (relop.holds (propSize s found.Value - cb).toInt)
  | .RES_EXIST ulPropTag => .ok (findProp row ulPropTag).isSome

/-- The loop of `RES_AND`. -/
def matchAnd : List (Restriction T) → Except Failure Bool
  | [] => .ok true
  | lpRes :: rest =>
    match matchRowRestrict lpRes with
    | .error er => .error er
    | .ok true => matchAnd rest
    | .ok false => .ok false

/-- The loop of `RES_OR`. -/
def matchOr : List (Restriction T) → Except Failure Bool
  | [] => .ok false
  | lpRes :: rest =>
    match matchRowRestrict lpRes with
    | .error er => .error er
    | .ok true => .ok true
    | .ok false => matchOr rest

end

end Evaluation

end Zcp.Libserver.ECGenericObjectTable
