import Zcp.Libserver.ECGenericObjectTable

/-!
# Restrictions on a row that can change

`ECGenericObjectTable::MatchRowRestrict` with the properties as they are in memory: a tag of 32 bits and a union, found
and changed through pointers into the row. The row is a state here. A condition on `PR_ANR` writes tags into it.

Reference: `provider/libserver/ECGenericObjectTable.cpp`; `FindProp` is in `provider/common/SOAPUtils.cpp`.
-/

namespace Zcp.Libserver.ECGenericObjectTable.RowState

/-! ## Property tags -/

def PROP_TYPE (ulPropTag : BitVec 32) : BitVec 32 := ulPropTag &&& 0xFFFF

def PROP_ID (ulPropTag : BitVec 32) : BitVec 32 := ulPropTag >>> 16

def CHANGE_PROP_TYPE (ulPropTag ulPropType : BitVec 32) : BitVec 32 := 0xFFFF0000 &&& ulPropTag ||| ulPropType

def MV_FLAG : BitVec 32 := 0x1000

def PT_UNSPECIFIED : BitVec 32 := 0x0000

def PT_LONG : BitVec 32 := 0x0003

def PT_STRING8 : BitVec 32 := 0x001E

/-- `PT_UNICODE`. -/
def PT_TSTRING : BitVec 32 := 0x001F

def PT_BINARY : BitVec 32 := 0x0102

def PT_MV_STRING8 : BitVec 32 := MV_FLAG ||| PT_STRING8

def PT_MV_TSTRING : BitVec 32 := MV_FLAG ||| PT_TSTRING

def PT_MV_BINARY : BitVec 32 := MV_FLAG ||| PT_BINARY

def PR_ENTRYID : BitVec 32 := 0x0FFF0102

def PR_DISPLAY_NAME : BitVec 32 := 0x3001001F

def PR_ANR : BitVec 32 := 0x360C001F

def PR_SMTP_ADDRESS : BitVec 32 := 0x39FE001F

def PR_ACCOUNT : BitVec 32 := 0x3A00001F

def PR_OFFICE_TELEPHONE_NUMBER : BitVec 32 := 0x3A08001F

def PR_SURNAME : BitVec 32 := 0x3A11001F

def PR_DEPARTMENT_NAME : BitVec 32 := 0x3A18001F

def PR_OFFICE_LOCATION : BitVec 32 := 0x3A19001F

def PR_PRIMARY_FAX_NUMBER : BitVec 32 := 0x3A23001F

/-- The properties that a condition on `PR_ANR` is about. -/
def sANRProps : List (BitVec 32) :=
  [PR_DISPLAY_NAME, PR_SMTP_ADDRESS, PR_ACCOUNT, PR_DEPARTMENT_NAME, PR_OFFICE_TELEPHONE_NUMBER, PR_OFFICE_LOCATION,
    PR_PRIMARY_FAX_NUMBER, PR_SURNAME]

/-- `PROP_ID(ulPropTag) == PROP_ID(PR_ANR)`. -/
def IsAnr (ulPropTag : BitVec 32) : Prop := PROP_ID ulPropTag = PROP_ID PR_ANR

instance (ulPropTag : BitVec 32) : Decidable (IsAnr ulPropTag) := inferInstanceAs (Decidable (_ = _))

/-- The same string type in compares. -/
def sameStringTag (ulPropTag : BitVec 32) : BitVec 32 :=
  if PROP_TYPE ulPropTag &&& PT_MV_STRING8 = PT_STRING8 then CHANGE_PROP_TYPE ulPropTag PT_TSTRING
  else if PROP_TYPE ulPropTag &&& PT_MV_STRING8 = PT_MV_STRING8 then CHANGE_PROP_TYPE ulPropTag PT_MV_TSTRING
  else ulPropTag

/-! ## Operators -/

def RELOP_LT : BitVec 32 := 0

def RELOP_LE : BitVec 32 := 1

def RELOP_GT : BitVec 32 := 2

def RELOP_GE : BitVec 32 := 3

def RELOP_EQ : BitVec 32 := 4

def RELOP_NE : BitVec 32 := 5

def RELOP_RE : BitVec 32 := 6

def BMR_EQZ : BitVec 32 := 0

/-- `match`; nothing matches `RELOP_RE` or a number that is no operator. -/
def relopMatch (relop : BitVec 32) (equality : ℤ) : Bool :=
  if relop = RELOP_GE then 0 ≤ equality
  else if relop = RELOP_GT then 0 < equality
  else if relop = RELOP_LE then equality ≤ 0
  else if relop = RELOP_LT then equality < 0
  else if relop = RELOP_NE then equality ≠ 0
  else if relop = RELOP_EQ then equality = 0
  else false

/-! ## Rows -/

/-- `propVal`. The type of the tag says how the union `Value` is read, and nothing keeps the two together. -/
structure PropVal (U : Type) where
  ulPropTag : BitVec 32
  Value : U
deriving DecidableEq

/-- `propValArray`. -/
abbrev Row (U : Type) := List (PropVal U)

/-- The condition of `FindProp` on the tag of a property; a tag of type `PT_UNSPECIFIED` finds each type. -/
def Answers (ulPropTag tag : BitVec 32) : Prop :=
  tag = ulPropTag ∨ (PROP_TYPE ulPropTag = PT_UNSPECIFIED ∧ PROP_ID tag = PROP_ID ulPropTag)

instance (ulPropTag tag : BitVec 32) : Decidable (Answers ulPropTag tag) := inferInstanceAs (Decidable (_ ∨ _))

variable {U : Type}

/-- `FindProp`. -/
def findProp (lpPropVals : Row U) (ulPropTag : BitVec 32) : Option (PropVal U) :=
  lpPropVals.find? fun lpProp => Answers ulPropTag lpProp.ulPropTag

/-- The assignment to `lpProp->ulPropTag`, with the pointer that `FindProp` returns for `ulPropTag`. -/
def retag (lpPropVals : Row U) (ulPropTag newTag : BitVec 32) : Row U :=
  lpPropVals.replaceF fun lpProp =>
    if Answers ulPropTag lpProp.ulPropTag then some { lpProp with ulPropTag := newTag } else none

/-! ## Restrictions -/

/-- `restrictTable`. A restriction whose structure is a null pointer is `null`, and `other` has a type that is none of
these. -/
inductive RestrictTable (U : Type) where
  | RES_COMMENT (lpResTable : RestrictTable U)
  | RES_OR (lpOr : List (RestrictTable U))
  | RES_AND (lpAnd : List (RestrictTable U))
  | RES_NOT (lpNot : RestrictTable U)
  | RES_CONTENT (ulFuzzyLevel ulPropTag : BitVec 32) (lpProp : Option (PropVal U))
  | RES_PROPERTY (ulType ulPropTag : BitVec 32) (lpProp : Option (PropVal U))
  | RES_COMPAREPROPS (ulType ulPropTag1 ulPropTag2 : BitVec 32)
  | RES_BITMASK (ulType ulMask ulPropTag : BitVec 32)
  | RES_SIZE (ulType ulPropTag cb : BitVec 32)
  | RES_EXIST (ulPropTag : BitVec 32)
  | RES_SUBRESTRICTION
  | null
  | other (ulType : BitVec 32)

/-- What the evaluation calls, with the locale and the cache that it is given. None of these writes to a property. -/
structure Calls (U : Type) where
  /-- `CompareProp`; with `none` the call fails, and `lCompare` is as it was. -/
  compareProp : PropVal U → PropVal U → Option ℤ
  /-- `CompareMVPropWithProp`; `none` is an error. -/
  compareMVPropWithProp : PropVal U → PropVal U → BitVec 32 → Option Bool
  /-- The loop of `RES_CONTENT` over the values, by the two tags with the same string type. -/
  contentMatches : BitVec 32 → BitVec 32 → BitVec 32 → U → U → Bool
  /-- `regcomp` of the first text and `regexec` on the second. -/
  regularExpression : U → U → Bool
  /-- `PropSize`. -/
  propSize : PropVal U → BitVec 32
  /-- The member `ul`. -/
  ul : U → BitVec 32
  /-- `GetObjectFromEntryId` of the member `bin`. -/
  GetObjectFromEntryId : U → Option ℕ

/-! ## The evaluation -/

section Evaluation

variable (c : Calls U) (lpSubResults : Option (List (List ℕ)))

/-- `RES_CONTENT`, with the property that is found. -/
def matchContent (ulFuzzyLevel ulPropTag : BitVec 32) (lpProp : PropVal U) (found : Option (PropVal U)) : Bool :=
  let ulPropTagRestrict := sameStringTag ulPropTag
  let ulPropTagValue := sameStringTag lpProp.ulPropTag
  if PROP_TYPE ulPropTagRestrict ≠ PT_TSTRING ∧ PROP_TYPE ulPropTagRestrict ≠ PT_BINARY ∧
      PROP_TYPE ulPropTagRestrict ≠ PT_MV_TSTRING ∧ PROP_TYPE ulPropTagRestrict ≠ PT_MV_BINARY then false
  else
    match found with
    | none => false
    | some found => c.contentMatches ulFuzzyLevel ulPropTagRestrict ulPropTagValue found.Value lpProp.Value

/-- The tag of the value of `RES_PROPERTY`, where only `PT_STRING8` is replaced. -/
def valueTag (ulPropTag : BitVec 32) : BitVec 32 :=
  if PROP_TYPE ulPropTag = PT_STRING8 then CHANGE_PROP_TYPE ulPropTag PT_TSTRING else ulPropTag

/-- A multi-value is compared with a single value, and nothing else with another type. -/
def SameTypes (ulPropTag : BitVec 32) (lpProp : PropVal U) : Prop :=
  PROP_TYPE (sameStringTag ulPropTag) &&& ~~~MV_FLAG = PROP_TYPE (valueTag lpProp.ulPropTag)

instance (ulPropTag : BitVec 32) (lpProp : PropVal U) : Decidable (SameTypes ulPropTag lpProp) :=
  inferInstanceAs (Decidable (_ = _))

/-- `RELOP_RE`, with the property that is found. -/
def matchRegularExpression (ulPropTag : BitVec 32) (lpProp : PropVal U) (found : Option (PropVal U)) :
    Except Failure Bool :=
  match found with
  | none => .ok false
  | some found =>
    if PROP_TYPE (valueTag lpProp.ulPropTag) ≠ PT_TSTRING ∨ PROP_TYPE (sameStringTag ulPropTag) ≠ PT_TSTRING then
      .error .ZARAFA_E_INVALID_TYPE
    else .ok (c.regularExpression lpProp.Value found.Value)

/-- `RES_PROPERTY` on a property, with the one that is found. A comparison that fails does not match. -/
def matchValue (ulType ulPropTag : BitVec 32) (lpProp : PropVal U) (found : Option (PropVal U)) : Bool :=
  match found with
  | none => ulType = RELOP_NE
  | some found =>
    if sameStringTag ulPropTag &&& MV_FLAG ≠ 0 then (c.compareMVPropWithProp found lpProp ulType).getD false
    else
      match c.compareProp found lpProp with
      | none => false
      | some lCompare => relopMatch ulType lCompare

/-- `lCompare` after the comparison with an ANR property, whose error is ignored. -/
def anrCompare (found lpProp : PropVal U) (lCompare : ℤ) : ℤ :=
  if (c.compareProp { found with ulPropTag := lpProp.ulPropTag } lpProp).getD lCompare ≠ 0 then 0 else -1

/-- The loop over `sANRProps`. Each property that is found gets the tag of the value. -/
def anrLoop (ulType : BitVec 32) (lpProp : PropVal U) : List (BitVec 32) → Row U → ℤ → Bool × Row U
  | [], lpPropVals, _ => (false, lpPropVals)
  | tag :: rest, lpPropVals, lCompare =>
    match findProp lpPropVals tag with
    | none => anrLoop ulType lpProp rest lpPropVals lCompare
    | some found =>
      let lpPropVals := retag lpPropVals tag lpProp.ulPropTag
      let lCompare := anrCompare c found lpProp lCompare
      if relopMatch ulType lCompare then (true, lpPropVals) else anrLoop ulType lpProp rest lpPropVals lCompare

/-- `RES_PROPERTY`. -/
def matchProperty (ulType ulPropTag : BitVec 32) (lpProp : PropVal U) (lpPropVals : Row U) :
    Except Failure Bool × Row U :=
  -- cannot compare two different types
  if ¬ SameTypes ulPropTag lpProp then (.error .ZARAFA_E_INVALID_TYPE, lpPropVals)
  else if ulType = RELOP_RE then
    (matchRegularExpression c ulPropTag lpProp (findProp lpPropVals ulPropTag), lpPropVals)
  else if IsAnr (sameStringTag ulPropTag) then
    ((anrLoop c ulType lpProp sANRProps lpPropVals 0).map .ok id)
  else (.ok (matchValue c ulType ulPropTag lpProp (findProp lpPropVals ulPropTag)), lpPropVals)

/-- `RES_COMPAREPROPS`, with the properties that are found. -/
def matchCompareProps (ulType ulPropTag1 ulPropTag2 : BitVec 32) (lpProp lpProp2 : Option (PropVal U)) :
    Except Failure Bool :=
  if PROP_TYPE (sameStringTag ulPropTag1) ≠ PROP_TYPE (sameStringTag ulPropTag2) then .error .ZARAFA_E_INVALID_TYPE
  else
    match lpProp, lpProp2 with
    | some lpProp, some lpProp2 =>
      match c.compareProp lpProp lpProp2 with
      | none => .ok false
      | some lCompare => .ok (relopMatch ulType lCompare)
    | _, _ => .ok false

/-- `RES_BITMASK`, with the property that is found. -/
def matchBitmask (ulType ulMask ulPropTag : BitVec 32) (found : Option (PropVal U)) : Except Failure Bool :=
  -- we can only bitmask 32-bit LONG values
  if PROP_TYPE ulPropTag ≠ PT_LONG then .error .ZARAFA_E_INVALID_TYPE
  else
    match found with
    | none => .ok false
    | some found =>
      let fMatch := decide (0 < c.ul found.Value &&& ulMask)
      .ok (if ulType = BMR_EQZ then !fMatch else fMatch)

/-- `RES_SIZE`, with the property that is found. The difference of the sizes is an `int`. -/
def matchSize (ulType cb : BitVec 32) (found : Option (PropVal U)) : Except Failure Bool :=
  match found with
  | none => .error .ZARAFA_E_INVALID_TYPE
  | some found => .ok (relopMatch ulType (c.propSize found - cb).toInt)

/-- `RES_SUBRESTRICTION`, with the entry id that is found: whether the object is in the first of the results. -/
def matchSubRestriction (found : Option (PropVal U)) : Except Failure Bool :=
  match found with
  | none => .error .ZARAFA_E_INVALID_TYPE
  | some found =>
    match lpSubResults with
    | none => .ok false
    | some results =>
      match results[0]? with
      | none => .ok false
      | some result =>
        match c.GetObjectFromEntryId found.Value with
        | none => .ok false
        | some ulResId => .ok (ulResId ∈ result)

mutual

/-- `MatchRowRestrict`, with the row that it leaves behind. -/
def matchRowRestrict : RestrictTable U → Row U → Except Failure Bool × Row U
  | .RES_COMMENT lpResTable, lpPropVals => matchRowRestrict lpResTable lpPropVals
  | .RES_OR lpOr, lpPropVals => matchOr lpOr lpPropVals
  | .RES_AND lpAnd, lpPropVals => matchAnd lpAnd lpPropVals
  | .RES_NOT lpNot, lpPropVals =>
    let (result, lpPropVals) := matchRowRestrict lpNot lpPropVals
    (result.map not, lpPropVals)
  | .RES_CONTENT ulFuzzyLevel ulPropTag lpProp, lpPropVals =>
    match lpProp with
    | none => (.error .ZARAFA_E_INVALID_TYPE, lpPropVals)
    | some lpProp => (.ok (matchContent c ulFuzzyLevel ulPropTag lpProp (findProp lpPropVals ulPropTag)), lpPropVals)
  | .RES_PROPERTY ulType ulPropTag lpProp, lpPropVals =>
    match lpProp with
    | none => (.error .ZARAFA_E_INVALID_TYPE, lpPropVals)
    | some lpProp => matchProperty c ulType ulPropTag lpProp lpPropVals
  | .RES_COMPAREPROPS ulType ulPropTag1 ulPropTag2, lpPropVals =>
    (matchCompareProps c ulType ulPropTag1 ulPropTag2 (findProp lpPropVals ulPropTag1)
      (findProp lpPropVals ulPropTag2), lpPropVals)
  | .RES_BITMASK ulType ulMask ulPropTag, lpPropVals =>
    (matchBitmask c ulType ulMask ulPropTag (findProp lpPropVals ulPropTag), lpPropVals)
  | .RES_SIZE ulType ulPropTag cb, lpPropVals => (matchSize c ulType cb (findProp lpPropVals ulPropTag), lpPropVals)
  | .RES_EXIST ulPropTag, lpPropVals => (.ok (findProp lpPropVals ulPropTag).isSome, lpPropVals)
  | .RES_SUBRESTRICTION, lpPropVals =>
    (matchSubRestriction c lpSubResults (findProp lpPropVals PR_ENTRYID), lpPropVals)
  | .null, lpPropVals => (.error .ZARAFA_E_INVALID_TYPE, lpPropVals)
  | .other _, lpPropVals => (.error .ZARAFA_E_INVALID_TYPE, lpPropVals)

/-- The loop of `RES_OR`. -/
def matchOr : List (RestrictTable U) → Row U → Except Failure Bool × Row U
  | [], lpPropVals => (.ok false, lpPropVals)
  | lpRes :: rest, lpPropVals =>
    match matchRowRestrict lpRes lpPropVals with
    | (.error er, lpPropVals) => (.error er, lpPropVals)
    | (.ok true, lpPropVals) => (.ok true, lpPropVals)
    | (.ok false, lpPropVals) => matchOr rest lpPropVals

/-- The loop of `RES_AND`. -/
def matchAnd : List (RestrictTable U) → Row U → Except Failure Bool × Row U
  | [], lpPropVals => (.ok true, lpPropVals)
  | lpRes :: rest, lpPropVals =>
    match matchRowRestrict lpRes lpPropVals with
    | (.error er, lpPropVals) => (.error er, lpPropVals)
    | (.ok true, lpPropVals) => matchAnd rest lpPropVals
    | (.ok false, lpPropVals) => (.ok false, lpPropVals)

end

end Evaluation

end Zcp.Libserver.ECGenericObjectTable.RowState
