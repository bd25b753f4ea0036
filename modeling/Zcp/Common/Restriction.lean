import Zcp.M4lcommon.Util

/-!
# Restrictions

The restrictions that a client and the server both evaluate, over rows of properties. A value is given
once, as what it means, with its form in the client (`toClient`) and on the server (`toServer`); a text is
in the client in `wchar_t`s or in the charset of the process, and on the server in UTF-8.
-/

namespace Zcp.Common

/-! ## Values -/

/-- The types of the properties: those with a single value, other than floats. -/
inductive PropType where
  | PT_I2
  | PT_LONG
  | PT_BOOLEAN
  | PT_I8
  | PT_STRING8
  | PT_UNICODE
  | PT_SYSTIME
  | PT_CURRENCY
  | PT_BINARY
  | PT_CLSID
deriving DecidableEq, Repr

/-- A value. The texts are the elements of `T`. -/
inductive Value (T : Type) where
  | PT_I2 (i : BitVec 16)
  | PT_LONG (ul : BitVec 32)
  | PT_BOOLEAN (b : Bool)
  | PT_I8 (li : BitVec 64)
  | PT_STRING8 (text : T)
  | PT_UNICODE (text : T)
  | PT_SYSTIME (hi lo : BitVec 32)
  | PT_CURRENCY (hi lo : BitVec 32)
  | PT_BINARY (bin : Counted 31 UInt8)
  | PT_CLSID (guid : GUID)

variable {T : Type}

def Value.type : Value T → PropType
  | .PT_I2 _ => .PT_I2
  | .PT_LONG _ => .PT_LONG
  | .PT_BOOLEAN _ => .PT_BOOLEAN
  | .PT_I8 _ => .PT_I8
  | .PT_STRING8 _ => .PT_STRING8
  | .PT_UNICODE _ => .PT_UNICODE
  | .PT_SYSTIME _ _ => .PT_SYSTIME
  | .PT_CURRENCY _ _ => .PT_CURRENCY
  | .PT_BINARY _ => .PT_BINARY
  | .PT_CLSID _ => .PT_CLSID

/-- The tag of a property other than `PR_ANR`. -/
structure PropTag where
  ulPropId : BitVec 16
  type : PropType
  notANR : ulPropId ≠ SOAPUtils.PR_ANR
deriving DecidableEq

/-- A property other than `PR_ANR`. -/
structure Property (T : Type) where
  ulPropId : BitVec 16
  Value : Value T
  notANR : ulPropId ≠ SOAPUtils.PR_ANR

/-- The tests of `RES_CONTENT`, each with and without regard to case. -/
inductive StringTest where
  | equals
  | startswith
  | contains
deriving DecidableEq, Repr

/-- The texts: how the client and the server write them, and how they compare and test them. -/
structure Strings (T : Type) where
  wide : T → List (BitVec 32)
  ansi : T → List UInt8
  utf8 : T → List UInt8
  client : M4lcommon.Util.Comparers
  server : SOAPUtils.Comparers
  /-- `wcs_equals`, `wcs_iequals`, and so on. -/
  wcs : StringTest → Bool → List (BitVec 32) → List (BitVec 32) → Bool
  /-- `str_equals`, `str_iequals`, and so on. -/
  str : StringTest → Bool → List UInt8 → List UInt8 → Bool
  /-- `u8_equals`, `u8_iequals`, and so on. -/
  u8 : StringTest → Bool → List UInt8 → List UInt8 → Bool

/-- The client and the server collate alike. -/
structure Strings.SameCollation (s : Strings T) : Prop where
  icompare_wide : ∀ a b, sgn (s.client.wcs_icompare (s.wide a) (s.wide b)) =
    sgn (s.server.u8_icompare (s.utf8 a) (s.utf8 b))
  icompare_ansi : ∀ a b, sgn (s.client.str_icompare (s.ansi a) (s.ansi b)) =
    sgn (s.server.u8_icompare (s.utf8 a) (s.utf8 b))
  test_wide : ∀ test ignoreCase a b, s.wcs test ignoreCase (s.wide a) (s.wide b) =
    s.u8 test ignoreCase (s.utf8 a) (s.utf8 b)
  test_ansi : ∀ test ignoreCase a b, s.str test ignoreCase (s.ansi a) (s.ansi b) =
    s.u8 test ignoreCase (s.utf8 a) (s.utf8 b)

namespace Value

variable (s : Strings T)

def toClient : Value T → SPropValue
  | .PT_I2 i => .PT_I2 i
  | .PT_LONG ul => .PT_LONG ul
  | .PT_BOOLEAN b => .PT_BOOLEAN (if b then 1 else 0)
  | .PT_I8 li => .PT_I8 li
  | .PT_STRING8 text => .PT_STRING8 (some (s.ansi text))
  | .PT_UNICODE text => .PT_UNICODE (some (s.wide text))
  | .PT_SYSTIME hi lo => .PT_SYSTIME ⟨hi, lo⟩
  | .PT_CURRENCY hi lo => .PT_CURRENCY ⟨hi, lo⟩
  | .PT_BINARY bin => .PT_BINARY ⟨bin.elems, bin.length_lt.trans (by decide)⟩
  | .PT_CLSID guid => .PT_CLSID guid

def toServer : Value T → PropValData
  | .PT_I2 i => .PT_I2 i
  | .PT_LONG ul => .PT_LONG ul
  | .PT_BOOLEAN b => .PT_BOOLEAN b
  | .PT_I8 li => .PT_I8 li
  | .PT_STRING8 text => .PT_STRING8 (some (s.utf8 text))
  | .PT_UNICODE text => .PT_UNICODE (some (s.utf8 text))
  | .PT_SYSTIME hi lo => .PT_SYSTIME ⟨hi, lo⟩
  | .PT_CURRENCY hi lo => .PT_CURRENCY ⟨hi, lo⟩
  | .PT_BINARY bin => .PT_BINARY bin
  | .PT_CLSID guid => .PT_CLSID ⟨guid.bytes, by rw [guid.length_eq]; decide⟩

end Value

/-! ## Restrictions -/

/-- The operators, other than `RELOP_RE`. -/
inductive Relop where
  | RELOP_LT
  | RELOP_LE
  | RELOP_GT
  | RELOP_GE
  | RELOP_EQ
  | RELOP_NE
deriving DecidableEq, Repr

/-- What an operator makes of the result of a comparison. -/
def Relop.holds (relop : Relop) (result : ℤ) : Bool :=
  match relop with
  | .RELOP_LT => result < 0
  | .RELOP_LE => result ≤ 0
  | .RELOP_GT => result > 0
  | .RELOP_GE => result ≥ 0
  | .RELOP_EQ => result = 0
  | .RELOP_NE => result ≠ 0

inductive RelBMR where
  | BMR_EQZ
  | BMR_NEZ
deriving DecidableEq, Repr

/-- `SRestriction` and `restrictTable`. -/
inductive Restriction (T : Type) where
  | RES_AND (lpRes : List (Restriction T))
  | RES_OR (lpRes : List (Restriction T))
  | RES_NOT (lpRes : Restriction T)
  | RES_COMMENT (lpRes : Restriction T)
  | RES_CONTENT (ulFuzzyLevel : BitVec 32) (ulPropTag : PropTag) (lpProp : Property T)
  | RES_PROPERTY (relop : Relop) (ulPropTag : PropTag) (lpProp : Property T)
  | RES_COMPAREPROPS (relop : Relop) (ulPropTag1 ulPropTag2 : PropTag)
  | RES_BITMASK (relBMR : RelBMR) (ulPropTag : PropTag) (ulMask : BitVec 32)
  | RES_SIZE (relop : Relop) (ulPropTag : PropTag) (cb : BitVec 32)
  | RES_EXIST (ulPropTag : PropTag)

/-! ## Contents -/

def FL_FULLSTRING : BitVec 32 := 0x0
def FL_SUBSTRING : BitVec 32 := 0x1
def FL_PREFIX : BitVec 32 := 0x2
def FL_IGNORECASE : BitVec 32 := 0x10000

/-- A size that is kept in an `unsigned int`. -/
def uintSize {α : Type} (l : List α) : BitVec 32 := BitVec.ofNat 32 l.length

/-- The test of one text of `RES_CONTENT`, which the client and the server write alike. -/
def textMatches {α : Type} (test : StringTest → Bool → List α → List α → Bool)
    (ulFuzzyLevel : BitVec 32) (data search : List α) : Bool :=
  let ignoreCase := ulFuzzyLevel &&& FL_IGNORECASE != 0
  if ulFuzzyLevel &&& 0xFFFF = FL_FULLSTRING then
    uintSize data == uintSize search && test .equals ignoreCase data search
  else if ulFuzzyLevel &&& 0xFFFF = FL_PREFIX then
    decide (uintSize search ≤ uintSize data) && test .startswith ignoreCase data search
  else if ulFuzzyLevel &&& 0xFFFF = FL_SUBSTRING then test .contains ignoreCase data search
  else false

/-- The loop of `memsubstr`: `match'` bytes of the needle have been found at `start`. The first byte of an
empty needle is compared too, but then nothing is ever found. -/
def memsubstrLoop (haystack needle : List UInt8) (start match' : ℕ) : ℤ :=
  if start + match' < haystack.length then
    if haystack[start + match']? = needle[match']? then
      if match' + 1 = needle.length then 0 else memsubstrLoop haystack needle start (match' + 1)
    else memsubstrLoop haystack needle (start + 1) 0
  else 1
termination_by (haystack.length - start, haystack.length - (start + match'))

/-- `memsubstr`. -/
def memsubstr (haystack needle : List UInt8) : ℤ :=
  if haystack.length < needle.length then (haystack.length : ℤ) - needle.length
  else memsubstrLoop haystack needle 0 0

end Zcp.Common
