import Zcp.Common.ECSerializer
import Zcp.Common.SOAPUtils

/-!
# Property streams

`SerializePropVal` and `DeserializePropVal` of `provider/libserver/StreamUtil.cpp`, over an
`ECStreamSerializer`.
-/

namespace Zcp.Libserver.StreamUtil

open Zcp.Lib
open Zcp.Common
open Zcp.Common.SOAPUtils (PropVal)
open Zcp.Common.ECSerializer (Failure Source)
open Zcp.Common.ECStreamSerializer (write read readOne readBytes)

structure StreamCaps where
  bSupportUnicode : Bool
deriving DecidableEq, Repr

/-- `g_StreamCaps`, by the version of the stream. -/
def g_StreamCaps : List StreamCaps := [⟨false⟩, ⟨true⟩]

/-- A charset with a character for each byte: the conversions from and to UTF-8. -/
structure Charset where
  encode : List UInt8 → List UInt8
  /-- The character of a byte, in UTF-8. -/
  char : UInt8 → List UInt8

def Charset.decode (charset : Charset) (encoded : List UInt8) : List UInt8 :=
  encoded.flatMap charset.char

/-! ## Tags -/

section Types

@[match_pattern] abbrev PT_NULL : ℕ := 0x0001
@[match_pattern] abbrev PT_I2 : ℕ := 0x0002
@[match_pattern] abbrev PT_LONG : ℕ := 0x0003
@[match_pattern] abbrev PT_R4 : ℕ := 0x0004
@[match_pattern] abbrev PT_DOUBLE : ℕ := 0x0005
@[match_pattern] abbrev PT_CURRENCY : ℕ := 0x0006
@[match_pattern] abbrev PT_APPTIME : ℕ := 0x0007
@[match_pattern] abbrev PT_ERROR : ℕ := 0x000A
@[match_pattern] abbrev PT_BOOLEAN : ℕ := 0x000B
@[match_pattern] abbrev PT_I8 : ℕ := 0x0014
@[match_pattern] abbrev PT_STRING8 : ℕ := 0x001E
@[match_pattern] abbrev PT_UNICODE : ℕ := 0x001F
@[match_pattern] abbrev PT_SYSTIME : ℕ := 0x0040
@[match_pattern] abbrev PT_CLSID : ℕ := 0x0048
@[match_pattern] abbrev PT_BINARY : ℕ := 0x0102
@[match_pattern] abbrev PT_MV_I2 : ℕ := 0x1002
@[match_pattern] abbrev PT_MV_LONG : ℕ := 0x1003
@[match_pattern] abbrev PT_MV_R4 : ℕ := 0x1004
@[match_pattern] abbrev PT_MV_DOUBLE : ℕ := 0x1005
@[match_pattern] abbrev PT_MV_CURRENCY : ℕ := 0x1006
@[match_pattern] abbrev PT_MV_APPTIME : ℕ := 0x1007
@[match_pattern] abbrev PT_MV_I8 : ℕ := 0x1014
@[match_pattern] abbrev PT_MV_STRING8 : ℕ := 0x101E
@[match_pattern] abbrev PT_MV_UNICODE : ℕ := 0x101F
@[match_pattern] abbrev PT_MV_SYSTIME : ℕ := 0x1040
@[match_pattern] abbrev PT_MV_CLSID : ℕ := 0x1048
@[match_pattern] abbrev PT_MV_BINARY : ℕ := 0x1102

end Types

/-- The type of a value; `other` stands for the types without a value, like `PT_NULL`. -/
def propType : PropValData → ℕ
  | .PT_I2 _ => PT_I2
  | .PT_LONG _ => PT_LONG
  | .PT_R4 _ => PT_R4
  | .PT_DOUBLE _ => PT_DOUBLE
  | .PT_APPTIME _ => PT_APPTIME
  | .PT_BOOLEAN _ => PT_BOOLEAN
  | .PT_I8 _ => PT_I8
  | .PT_STRING8 _ => PT_STRING8
  | .PT_UNICODE _ => PT_UNICODE
  | .PT_SYSTIME _ => PT_SYSTIME
  | .PT_CURRENCY _ => PT_CURRENCY
  | .PT_BINARY _ => PT_BINARY
  | .PT_CLSID _ => PT_CLSID
  | .PT_MV_I2 _ => PT_MV_I2
  | .PT_MV_LONG _ => PT_MV_LONG
  | .PT_MV_R4 _ => PT_MV_R4
  | .PT_MV_DOUBLE _ => PT_MV_DOUBLE
  | .PT_MV_APPTIME _ => PT_MV_APPTIME
  | .PT_MV_I8 _ => PT_MV_I8
  | .PT_MV_STRING8 _ => PT_MV_STRING8
  | .PT_MV_UNICODE _ => PT_MV_UNICODE
  | .PT_MV_SYSTIME _ => PT_MV_SYSTIME
  | .PT_MV_CURRENCY _ => PT_MV_CURRENCY
  | .PT_MV_BINARY _ => PT_MV_BINARY
  | .PT_MV_CLSID _ => PT_MV_CLSID
  | .PT_ERROR _ => PT_ERROR
  | .other => PT_NULL

/-- The strings in a value. -/
def strings : PropValData → List LPSTR
  | .PT_STRING8 lpszA | .PT_UNICODE lpszA => [lpszA]
  | .PT_MV_STRING8 mvszA | .PT_MV_UNICODE mvszA => mvszA.elems
  | _ => []

/-- `PROP_TAG`. -/
def propTag (type : ℕ) (id : BitVec 16) : BitVec 32 := BitVec.ofNat 32 (id.toNat * 0x10000 + type)

/-- `PROP_TYPE`. -/
def typeOf (ulPropTag : BitVec 32) : ℕ := ulPropTag.toNat % 0x10000

/-- `PROP_ID`. -/
def idOf (ulPropTag : BitVec 32) : BitVec 16 := BitVec.ofNat 16 (ulPropTag.toNat / 0x10000)

/-- The type that is streamed: always `PT_STRING8` for strings. -/
def streamType (type : ℕ) : ℕ :=
  if type = PT_UNICODE then PT_STRING8
  else if type = PT_MV_UNICODE then PT_MV_STRING8
  else type

/-! ## Names -/

def MNID_ID : BitVec 32 := 0

def MNID_STRING : BitVec 32 := 1

/-- `NAMEDPROPDEF`; the name is from a column of the database. -/
structure NamedPropDef where
  guid : GUID
  ulKind : BitVec 32
  ulId : BitVec 32
  strName : Counted 32 UInt8

/-- `NamedPropDefMap`. -/
abbrev NamedPropDefMap := BitVec 32 → Option NamedPropDef

/-- The names that `NamedPropertyMapper` looks up or adds in the database: `GetId`. -/
structure NamedPropertyMapper where
  getId : List UInt8 → BitVec 32 → Except Failure (BitVec 32)
  getStringId : List UInt8 → List UInt8 → Except Failure (BitVec 32)

/-! ## Writing -/

inductive ECRESULT where
  | erSuccess
  | ZARAFA_E_NOT_FOUND
  | ZARAFA_E_INVALID_TYPE
  | ZARAFA_E_INVALID_PARAMETER
  | ZARAFA_E_NO_SUPPORT
  /-- Bytes may have been stored outside of the block of a memory stream. -/
  | outside
deriving DecidableEq, Repr

section Writing

variable (lpStreamCaps : StreamCaps) (charset : Charset)

def encodeString (text : List UInt8) : List UInt8 :=
  if lpStreamCaps.bSupportUnicode then text else charset.encode text

/-- The length and the bytes of a string. There is no length of a `NULL` string; it is written here like
an empty one. -/
def writeString (lpszA : LPSTR) : List UInt8 :=
  let strEncoded := encodeString lpStreamCaps charset (lpszA.getD [])
  let ulLen : BitVec 32 := BitVec.ofNat 32 strEncoded.length
  write 4 [ulLen] ++ strEncoded.take ulLen.toNat

/-- The size and the bytes of a binary value. -/
def writeBinary (bin : Base64Binary) : List UInt8 :=
  write 4 [BitVec.ofNat 32 bin.elems.length] ++ bin.elems

def writeHilo (hilo : HiloLong) : List UInt8 := write 4 [hilo.hi] ++ write 4 [hilo.lo]

/-- The loop over a multi-value, with its size. -/
def writeMulti {α : Type} (writeElem : α → List UInt8) (mv : Counted 31 α) : List UInt8 :=
  write 4 [BitVec.ofNat 32 mv.elems.length] ++ mv.elems.flatMap writeElem

/-- The switch of `SerializePropVal`; `none` is its default. -/
def serializeValue : PropValData → Option (List UInt8)
  | .PT_I2 i => some (write 2 [i])
  | .PT_LONG ul => some (write 4 [ul])
  | .PT_R4 flt => some (write 4 [flt])
  | .PT_BOOLEAN b => some [if b then 1 else 0]
  | .PT_DOUBLE dbl | .PT_APPTIME dbl => some (write 8 [dbl])
  | .PT_CURRENCY hilo | .PT_SYSTIME hilo => some (writeHilo hilo)
  | .PT_I8 li => some (write 8 [li])
  | .PT_STRING8 lpszA | .PT_UNICODE lpszA => some (writeString lpStreamCaps charset lpszA)
  | .PT_CLSID bin | .PT_BINARY bin => some (writeBinary bin)
  | .PT_MV_I2 mvi => some (writeMulti (fun i => write 2 [i]) mvi)
  | .PT_MV_LONG mvl => some (writeMulti (fun ul => write 4 [ul]) mvl)
  | .PT_MV_R4 mvflt => some (writeMulti (fun flt => write 4 [flt]) mvflt)
  | .PT_MV_DOUBLE mvdbl | .PT_MV_APPTIME mvdbl =>
    some (writeMulti (fun dbl => write 8 [dbl]) mvdbl)
  | .PT_MV_CURRENCY mvhilo | .PT_MV_SYSTIME mvhilo => some (writeMulti writeHilo mvhilo)
  | .PT_MV_BINARY mvbin | .PT_MV_CLSID mvbin => some (writeMulti writeBinary mvbin)
  | .PT_MV_STRING8 mvszA | .PT_MV_UNICODE mvszA =>
    some (writeMulti (writeString lpStreamCaps charset) mvszA)
  | .PT_MV_I8 mvli => some (writeMulti (fun li => write 8 [li]) mvli)
  | .PT_ERROR _ | .other => none

/-- The name of a property in the dynamic range. -/
def serializeName (namedPropDef : NamedPropDef) : ECRESULT × List UInt8 :=
  let head := namedPropDef.guid.bytes ++ write 4 [namedPropDef.ulKind]
  if namedPropDef.ulKind = MNID_ID then (.erSuccess, head ++ write 4 [namedPropDef.ulId])
  else if namedPropDef.ulKind = MNID_STRING then
    (.erSuccess, head ++ (write 4 [BitVec.ofNat 32 namedPropDef.strName.elems.length] ++
      namedPropDef.strName.elems))
  else (.ZARAFA_E_INVALID_TYPE, head)

/-- `SerializePropVal`, with the bytes that it writes. The result for the value is lost when a name
follows. -/
def serializePropVal (sPropVal : PropVal) (lpNamedPropDefs : Option NamedPropDefMap) :
    ECRESULT × List UInt8 :=
  let ulPropTag := propTag (streamType (propType sPropVal.Value)) sPropVal.ulPropId
  let (er, value) :=
    match serializeValue lpStreamCaps charset sPropVal.Value with
    | some bytes => (ECRESULT.erSuccess, bytes)
    | none => (ECRESULT.ZARAFA_E_INVALID_TYPE, [])
  if 0x8500 < sPropVal.ulPropId then
    match lpNamedPropDefs with
    | none => (.ZARAFA_E_INVALID_TYPE, [])
    | some map =>
      match map ulPropTag with
      | none => (.ZARAFA_E_NOT_FOUND, [])
      | some namedPropDef =>
        let (er, name) := serializeName namedPropDef
        (er, write 4 [ulPropTag] ++ (value ++ name))
  else (er, write 4 [ulPropTag] ++ value)

end Writing

/-! ## Reading -/

section Reading

variable (lpStreamCaps : StreamCaps) (charset : Charset)

/-- A string ends at its first zero. -/
def cString (memory : List UInt8) : List UInt8 := memory.takeWhile (· ≠ 0)

/-- A string. The memory of one in UTF-8 has room for a zero, unless the sum is cut. -/
def readString : Source LPSTR := do
  let ulLen ← readOne 4
  if lpStreamCaps.bSupportUnicode then
    let memory ← readBytes (ulLen + 1).toNat ulLen.toNat
    pure (some (cString memory))
  else
    let strData ← readBytes ulLen.toNat ulLen.toNat
    pure (some (cString (charset.decode strData)))

/-- The size of memory, as an `int`. -/
def counted {α : Type} (elems : List α) : Source (Counted 31 α) :=
  if h : elems.length < 2 ^ 31 then pure ⟨elems, h⟩ else ByteReader.stop .negative

def readBinary : Source Base64Binary := do
  let ulLen ← readOne 4
  let elems ← readBytes ulLen.toNat ulLen.toNat
  counted elems

def readHilo : Source HiloLong := do
  let hi ← readOne 4
  let lo ← readOne 4
  pure ⟨hi, lo⟩

/-- A multi-value that is read into its memory at once. -/
def readArray (size : ℕ) : Source (Counted 31 (BitVec (8 * size))) := do
  let ulCount ← readOne 4
  let elems ← read (size * ulCount.toNat) size ulCount.toNat
  counted elems

/-- A multi-value that is read one element after another. -/
def readMulti {α : Type} (readElem : Source α) : Source (Counted 31 α) := do
  let ulCount ← readOne 4
  let elems ← ByteReader.collect readElem ulCount.toNat
  counted elems

/-- Words that are stored from some place on. -/
def store (memory : List (BitVec 32)) (place : ℕ) (words : List (BitVec 32)) : List (BitVec 32) :=
  memory.take place ++ words ++ memory.drop (place + words.length)

/-- The loop over the `hiloLong`s of a multi-value, with `left` of them to go. It reads `ulCount` words
from each half on. -/
def readHilosLoop (ulCount : ℕ) : ℕ → List (BitVec 32) → Source (List (BitVec 32))
  | 0, memory => pure memory
  | left + 1, memory => do
    let x := ulCount - (left + 1)
    let hi ← read (8 * ulCount - 8 * x) 4 ulCount
    let lo ← read (8 * ulCount - (8 * x + 4)) 4 ulCount
    readHilosLoop ulCount left (store (store memory (2 * x) hi) (2 * x + 1) lo)

/-- The `hiloLong`s in memory. -/
def hilos : List (BitVec 32) → List HiloLong
  | hi :: lo :: memory => ⟨hi, lo⟩ :: hilos memory
  | _ => []

def readHilos : Source (Counted 31 HiloLong) := do
  let ulCount ← readOne 4
  let memory ← readHilosLoop ulCount.toNat ulCount.toNat (List.replicate (2 * ulCount.toNat) 0)
  counted (hilos memory)

/-- The switch of `DeserializePropVal`. -/
def deserializeValue (type : ℕ) : Source PropValData :=
  match type with
  | PT_I2 => do return .PT_I2 (← readOne 2)
  | PT_LONG => do return .PT_LONG (← readOne 4)
  | PT_R4 => do return .PT_R4 (← readOne 4)
  | PT_BOOLEAN => do
    let b ← readBytes 1 1
    return .PT_BOOLEAN (b.headD 0 != 0)
  | PT_DOUBLE => do return .PT_DOUBLE (← readOne 8)
  | PT_APPTIME => do return .PT_APPTIME (← readOne 8)
  | PT_CURRENCY => do return .PT_CURRENCY (← readHilo)
  | PT_SYSTIME => do return .PT_SYSTIME (← readHilo)
  | PT_I8 => do return .PT_I8 (← readOne 8)
  | PT_STRING8 => do return .PT_STRING8 (← readString lpStreamCaps charset)
  | PT_UNICODE => do return .PT_UNICODE (← readString lpStreamCaps charset)
  | PT_CLSID => do return .PT_CLSID (← readBinary)
  | PT_BINARY => do return .PT_BINARY (← readBinary)
  | PT_MV_I2 => do return .PT_MV_I2 (← readArray 2)
  | PT_MV_LONG => do return .PT_MV_LONG (← readArray 4)
  | PT_MV_R4 => do return .PT_MV_R4 (← readArray 4)
  | PT_MV_DOUBLE => do return .PT_MV_DOUBLE (← readArray 8)
  | PT_MV_APPTIME => do return .PT_MV_APPTIME (← readArray 8)
  | PT_MV_CURRENCY => do return .PT_MV_CURRENCY (← readHilos)
  | PT_MV_SYSTIME => do return .PT_MV_SYSTIME (← readHilos)
  | PT_MV_BINARY => do return .PT_MV_BINARY (← readMulti readBinary)
  | PT_MV_CLSID => do return .PT_MV_CLSID (← readMulti readBinary)
  | PT_MV_STRING8 => do return .PT_MV_STRING8 (← readMulti (readString lpStreamCaps charset))
  | PT_MV_UNICODE => do return .PT_MV_UNICODE (← readMulti (readString lpStreamCaps charset))
  | PT_MV_I8 => do return .PT_MV_I8 (← readArray 8)
  | _ => ByteReader.stop .ZARAFA_E_INVALID_TYPE

/-- The answer of the database. -/
def answered {α : Type} : Except Failure α → Source α
  | .ok a => pure a
  | .error er => ByteReader.stop er

/-- The local id of a property in the dynamic range. -/
def deserializeName (namedPropertyMapper : NamedPropertyMapper) : Source (BitVec 32) := do
  let guid ← readBytes 16 16
  let ulKind ← readOne 4
  if ulKind = MNID_ID then
    let ulNameId ← readOne 4
    answered (namedPropertyMapper.getId guid ulNameId)
  else if ulKind = MNID_STRING then
    let ulLen ← readOne 4
    let strNameString ← readBytes ulLen.toNat ulLen.toNat
    answered (namedPropertyMapper.getStringId guid strNameString)
  else pure 0

/-- `DeserializePropVal`. The local id is cut to the bits that it has in a tag. -/
def deserializePropVal (namedPropertyMapper : NamedPropertyMapper) : Source PropVal := do
  let ulPropTag ← readOne 4
  let value ← deserializeValue lpStreamCaps charset (typeOf ulPropTag)
  if 0x8500 < idOf ulPropTag then
    let ulLocalId ← deserializeName namedPropertyMapper
    pure ⟨ulLocalId.setWidth 16, value⟩
  else pure ⟨idOf ulPropTag, value⟩

end Reading

end Zcp.Libserver.StreamUtil
