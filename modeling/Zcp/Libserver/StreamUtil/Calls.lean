import Zcp.Lib.DeviceCalls
import Zcp.Libserver.ECDatabaseUtils
import Zcp.Libserver.StreamUtil

/-!
# Property streams, call by call

`SerializePropVal`, `SerializeDatabasePropVal` and `DeserializePropVal` with any `ECSerializer`, that is with whatever
its `Write` or `Read` answers. The name of a property in the dynamic range follows its value, and the functions go on to
it whether the value could be written, or read, or not: the name's `er` takes the place of the value's.
-/

namespace Zcp.Libserver.StreamUtil.Calls

open Zcp.Lib
open Zcp.Common
open Zcp.Common.SOAPUtils (PropVal)
open Zcp.Common.ECStreamSerializer (write elements)
open Zcp.Libserver.ECDatabaseUtils (DbRow Externals PropType MVScan atoui parseMVProp PROP_TAG)

/-- What a call or a function can fail with. -/
inductive StreamError where
  | ZARAFA_E_NOT_FOUND
  | ZARAFA_E_INVALID_TYPE
  | ZARAFA_E_INVALID_PARAMETER
  | other (er : BitVec 32)
deriving DecidableEq

/-! ## Writing -/

/-- `Write` of bytes, in elements of some size. -/
abbrev Sink (σ : Type) := σ → ℕ → List UInt8 → Except StreamError Unit × σ

section Writing

variable {σ : Type} (lpSink : Sink σ) (lpStreamCaps : StreamCaps) (charset : Charset)

/-- `Write` of one number. -/
def writeOne (size : ℕ) (x : BitVec (8 * size)) : Caller σ StreamError Unit :=
  .call fun s => lpSink s size (write size [x])

/-- `Write` of single bytes. -/
def writeBytes (bytes : List UInt8) : Caller σ StreamError Unit := .call fun s => lpSink s 1 bytes

/-- `Write` from a column, which may be `NULL`: all serializers answer `ZARAFA_E_INVALID_PARAMETER` to that. -/
def writeColumn (column : Option (List UInt8)) : Caller σ StreamError Unit :=
  match column with
  | some bytes => writeBytes lpSink bytes
  | none => .call fun s => (.error .ZARAFA_E_INVALID_PARAMETER, s)

/-- The length and the bytes of a string. -/
def writeString (text : List UInt8) : Caller σ StreamError Unit := do
  let strEncoded := encodeString lpStreamCaps charset text
  let ulLen : BitVec 32 := BitVec.ofNat 32 strEncoded.length
  writeOne lpSink 4 ulLen
  writeBytes lpSink (strEncoded.take ulLen.toNat)

/-- The size and the bytes of a binary value. -/
def writeBinary (bytes : List UInt8) : Caller σ StreamError Unit := do
  writeOne lpSink 4 (BitVec.ofNat 32 bytes.length)
  writeBytes lpSink bytes

def writeHilo (hilo : HiloLong) : Caller σ StreamError Unit := do
  writeOne lpSink 4 hilo.hi
  writeOne lpSink 4 hilo.lo

/-- The size and the elements of a multi-value. -/
def writeMulti {α : Type} (writeElem : α → Caller σ StreamError Unit) (size : BitVec 32) (elems : List α) :
    Caller σ StreamError Unit := do
  writeOne lpSink 4 size
  .each writeElem elems

/-- The elements of a counted multi-value. -/
def writeCounted {α : Type} (writeElem : α → Caller σ StreamError Unit) (mv : Counted 31 α) :
    Caller σ StreamError Unit :=
  writeMulti lpSink writeElem (BitVec.ofNat 32 mv.elems.length) mv.elems

/-- The switch of `SerializePropVal`. -/
def serializeValue : PropValData → Caller σ StreamError Unit
  | .PT_I2 i => writeOne lpSink 2 i
  | .PT_LONG ul => writeOne lpSink 4 ul
  | .PT_R4 flt => writeOne lpSink 4 flt
  | .PT_BOOLEAN b => writeBytes lpSink [if b then 1 else 0]
  | .PT_DOUBLE dbl | .PT_APPTIME dbl => writeOne lpSink 8 dbl
  | .PT_CURRENCY hilo | .PT_SYSTIME hilo => writeHilo lpSink hilo
  | .PT_I8 li => writeOne lpSink 8 li
  | .PT_STRING8 lpszA | .PT_UNICODE lpszA => writeString lpSink lpStreamCaps charset (lpszA.getD [])
  | .PT_CLSID bin | .PT_BINARY bin => writeBinary lpSink bin.elems
  | .PT_MV_I2 mvi => writeCounted lpSink (writeOne lpSink 2) mvi
  | .PT_MV_LONG mvl => writeCounted lpSink (writeOne lpSink 4) mvl
  | .PT_MV_R4 mvflt => writeCounted lpSink (writeOne lpSink 4) mvflt
  | .PT_MV_DOUBLE mvdbl | .PT_MV_APPTIME mvdbl => writeCounted lpSink (writeOne lpSink 8) mvdbl
  | .PT_MV_CURRENCY mvhilo | .PT_MV_SYSTIME mvhilo => writeCounted lpSink (writeHilo lpSink) mvhilo
  | .PT_MV_BINARY mvbin | .PT_MV_CLSID mvbin =>
    writeCounted lpSink (fun bin => writeBinary lpSink bin.elems) mvbin
  | .PT_MV_STRING8 mvszA | .PT_MV_UNICODE mvszA =>
    writeCounted lpSink (fun lpszA => writeString lpSink lpStreamCaps charset (lpszA.getD [])) mvszA
  | .PT_MV_I8 mvli => writeCounted lpSink (writeOne lpSink 8) mvli
  | .PT_ERROR _ | .other => .fail .ZARAFA_E_INVALID_TYPE

/-- The name of a property in the dynamic range. -/
def serializeName (namedPropDef : NamedPropDef) : Caller σ StreamError Unit := do
  writeBytes lpSink namedPropDef.guid.bytes
  writeOne lpSink 4 namedPropDef.ulKind
  if namedPropDef.ulKind = MNID_ID then writeOne lpSink 4 namedPropDef.ulId
  else if namedPropDef.ulKind = MNID_STRING then
    writeBinary lpSink namedPropDef.strName.elems
  else .fail .ZARAFA_E_INVALID_TYPE

/-- The tag that is streamed. -/
def streamTag (sPropVal : PropVal) : BitVec 32 :=
  propTag (streamType (propType sPropVal.Value)) sPropVal.ulPropId

/-- The name that `SerializePropVal` looks up. -/
def lookUpName (sPropVal : PropVal) (lpNamedPropDefs : Option NamedPropDefMap) : Except StreamError NamedPropDef :=
  match lpNamedPropDefs with
  | none => .error .ZARAFA_E_INVALID_TYPE
  | some map =>
    match map (streamTag sPropVal) with
    | none => .error .ZARAFA_E_NOT_FOUND
    | some namedPropDef => .ok namedPropDef

/-- `SerializePropVal`. -/
def serializePropVal (sPropVal : PropVal) (lpNamedPropDefs : Option NamedPropDefMap) : Caller σ StreamError Unit :=
  if 0x8500 < sPropVal.ulPropId then
    match lookUpName sPropVal lpNamedPropDefs with
    | .error er => .fail er
    | .ok namedPropDef => do
      writeOne lpSink 4 (streamTag sPropVal)
      let _ ← Caller.attempt (serializeValue lpSink lpStreamCaps charset sPropVal.Value)
      serializeName lpSink namedPropDef
  else do
    writeOne lpSink 4 (streamTag sPropVal)
    serializeValue lpSink lpStreamCaps charset sPropVal.Value

/-! ## Writing from a row -/

/-- A row with the columns of its name (`FIELD_NR_NAMEGUID`, `FIELD_NR_NAMEID` and `FIELD_NR_NAMESTR`). -/
structure StreamRow extends DbRow where
  nameguid : Option (List UInt8)
  nameid : Option (List UInt8)
  namestr : Option (List UInt8)

/-- The type in a row. -/
def rowType (lpRow : DbRow) : Option PropType :=
  PropType.all.find? fun p => (p.code.setWidth 32 : BitVec 32) = Lib.atoi lpRow.type

/-- The columns that a type needs are there. -/
def hasColumns (lpRow : DbRow) : PropType → Bool
  | .PT_I2 | .PT_LONG | .PT_BOOLEAN | .PT_MV_I2 | .PT_MV_LONG => lpRow.values.val_ulong.isSome
  | .PT_R4 | .PT_DOUBLE | .PT_APPTIME | .PT_MV_R4 | .PT_MV_DOUBLE | .PT_MV_APPTIME => lpRow.values.val_double.isSome
  | .PT_CURRENCY | .PT_SYSTIME | .PT_MV_CURRENCY | .PT_MV_SYSTIME =>
    lpRow.values.val_hi.isSome && lpRow.values.val_lo.isSome
  | .PT_I8 | .PT_MV_I8 => lpRow.values.val_longint.isSome
  | .PT_STRING8 | .PT_UNICODE | .PT_MV_STRING8 | .PT_MV_UNICODE => lpRow.values.val_string.isSome
  | .PT_CLSID | .PT_BINARY | .PT_MV_CLSID | .PT_MV_BINARY => lpRow.values.val_binary.isSome

/-- The answers of `GetValidatedPropType`. -/
inductive ValidatedType where
  | erSuccess (type : PropType)
  | ZARAFA_E_DATABASE_ERROR
  | ZARAFA_E_INVALID_TYPE

/-- `GetValidatedPropType`. -/
def getValidatedPropType (lpRow : DbRow) : ValidatedType :=
  match rowType lpRow with
  | none => .ZARAFA_E_INVALID_TYPE
  | some type => if hasColumns lpRow type then .erSuccess type else .ZARAFA_E_DATABASE_ERROR

/-- A string from a column, whose length is that of the row. -/
def writeStringColumn (text : List UInt8) : Caller σ StreamError Unit :=
  if lpStreamCaps.bSupportUnicode then do
    writeOne lpSink 4 (BitVec.ofNat 32 text.length)
    writeBytes lpSink text
  else writeString lpSink lpStreamCaps charset text

/-- The loop over the elements of a column, with `n` of them to go: each is what `ParseMVProp` has left in `strData`. -/
def writeElements (writeElem : List UInt8 → Caller σ StreamError Unit) (lpRowData : List UInt8) :
    ℕ → MVScan → Caller σ StreamError Unit
  | 0, _ => pure ()
  | n + 1, scan => do
    let scan := (parseMVProp lpRowData scan.ulLastPos).toOption.getD scan
    writeElem scan.strData
    writeElements writeElem lpRowData n scan

/-- The loop over two columns. Both of them use the same `strData`. -/
def writeHiloElements (hi lo : List UInt8) : ℕ → ℕ → ℕ → List UInt8 → Caller σ StreamError Unit
  | 0, _, _, _ => pure ()
  | n + 1, ulLastPos, ulLastPos2, strData => do
    let scanLo := (parseMVProp lo ulLastPos).toOption.getD ⟨ulLastPos, strData⟩
    let scanHi := (parseMVProp hi ulLastPos2).toOption.getD ⟨ulLastPos2, scanLo.strData⟩
    writeHilo lpSink ⟨Lib.atoi scanHi.strData, atoui scanLo.strData⟩
    writeHiloElements hi lo n scanLo.ulLastPos scanHi.ulLastPos scanHi.strData

/-- A multi-value, with the number of its elements from the row. -/
def writeMultiColumn (writeElem : List UInt8 → Caller σ StreamError Unit) (ulCount : BitVec 32)
    (lpRowData : List UInt8) : Caller σ StreamError Unit := do
  writeOne lpSink 4 ulCount
  writeElements writeElem lpRowData ulCount.toNat ⟨0, []⟩

variable (d : Externals)

/-- The switch of `SerializeDatabasePropVal`; `none` if a column is `NULL`. -/
def serializeColumns (type : PropType) (lpRow : DbRow) : Option (Caller σ StreamError Unit) :=
  let ulCount := Lib.atoi lpRow.id
  match type with
  | .PT_I2 => lpRow.values.val_ulong.map fun s => writeOne lpSink 2 ((Lib.atoi s).setWidth 16)
  | .PT_LONG => lpRow.values.val_ulong.map fun s => writeOne lpSink 4 (atoui s)
  | .PT_R4 => lpRow.values.val_double.map fun s => writeOne lpSink 4 (d.toFloat (d.strtod s))
  | .PT_BOOLEAN => lpRow.values.val_ulong.map fun s => writeBytes lpSink [if Lib.atoi s ≠ 0 then 1 else 0]
  | .PT_DOUBLE | .PT_APPTIME => lpRow.values.val_double.map fun s => writeOne lpSink 8 (d.strtod s)
  | .PT_CURRENCY | .PT_SYSTIME => do
    let hi ← lpRow.values.val_hi
    let lo ← lpRow.values.val_lo
    some (writeHilo lpSink ⟨Lib.atoi hi, atoui lo⟩)
  | .PT_I8 => lpRow.values.val_longint.map fun s => writeOne lpSink 8 (atoll s)
  | .PT_STRING8 | .PT_UNICODE => lpRow.values.val_string.map (writeStringColumn lpSink lpStreamCaps charset)
  | .PT_CLSID | .PT_BINARY => lpRow.values.val_binary.map (writeBinary lpSink)
  | .PT_MV_I2 => lpRow.values.val_ulong.map
      (writeMultiColumn lpSink (fun strData => writeOne lpSink 2 ((Lib.atoi strData).setWidth 16)) ulCount)
  | .PT_MV_LONG => lpRow.values.val_ulong.map
      (writeMultiColumn lpSink (fun strData => writeOne lpSink 4 (atoui strData)) ulCount)
  | .PT_MV_R4 => lpRow.values.val_double.map
      (writeMultiColumn lpSink (fun strData => writeOne lpSink 4 (d.toFloat (d.strtod strData))) ulCount)
  | .PT_MV_DOUBLE | .PT_MV_APPTIME => lpRow.values.val_double.map
      (writeMultiColumn lpSink (fun strData => writeOne lpSink 8 (d.strtod strData)) ulCount)
  | .PT_MV_CURRENCY | .PT_MV_SYSTIME => do
    let hi ← lpRow.values.val_hi
    let lo ← lpRow.values.val_lo
    some do
      writeOne lpSink 4 ulCount
      writeHiloElements lpSink hi lo ulCount.toNat 0 0 []
  | .PT_MV_BINARY | .PT_MV_CLSID => lpRow.values.val_binary.map
      (writeMultiColumn lpSink (writeBinary lpSink) ulCount)
  | .PT_MV_STRING8 | .PT_MV_UNICODE => lpRow.values.val_string.map
      (writeMultiColumn lpSink (writeStringColumn lpSink lpStreamCaps charset) ulCount)
  | .PT_MV_I8 => lpRow.values.val_longint.map
      (writeMultiColumn lpSink (fun strData => writeOne lpSink 8 (atoll strData)) ulCount)

/-- The name in a row. -/
def serializeNameColumns (lpRow : StreamRow) : Caller σ StreamError Unit := do
  writeColumn lpSink lpRow.nameguid
  match lpRow.nameid, lpRow.namestr with
  | some nameid, _ => do
    writeOne lpSink 4 MNID_ID
    writeOne lpSink 4 (atoui nameid)
  | none, some namestr => do
    let ulLen : BitVec 32 := BitVec.ofNat 32 namestr.length
    writeOne lpSink 4 MNID_STRING
    writeOne lpSink 4 ulLen
    writeBytes lpSink (namestr.take ulLen.toNat)
  | none, none => .fail .ZARAFA_E_INVALID_TYPE

/-- The id of the property in a row. -/
def rowId (lpRow : DbRow) : BitVec 16 := (Lib.atoi lpRow.tag).setWidth 16

/-- `SerializeDatabasePropVal`. -/
def serializeDatabasePropVal (lpRow : StreamRow) : Caller σ StreamError Unit :=
  match getValidatedPropType lpRow.toDbRow with
  | .ZARAFA_E_DATABASE_ERROR => pure ()
  | .ZARAFA_E_INVALID_TYPE => .fail .ZARAFA_E_INVALID_TYPE
  | .erSuccess type => do
    writeOne lpSink 4 (PROP_TAG type.code (rowId lpRow.toDbRow))
    match serializeColumns lpSink lpStreamCaps charset d type lpRow.toDbRow with
    | none => .fail .ZARAFA_E_NOT_FOUND
    | some serializeValue =>
      if 0x8500 < rowId lpRow.toDbRow then do
        let _ ← Caller.attempt serializeValue
        serializeNameColumns lpSink lpRow
      else serializeValue

end Writing

/-! ## Reading -/

/-- `Read` of a number of elements of some size. -/
abbrev Source (σ : Type) :=
  σ → (size nmemb : ℕ) → Except StreamError { bytes : List UInt8 // bytes.length = size * nmemb } × σ

/-- `GetId` of a `NamedPropertyMapper`, for numbers and for strings. -/
structure NameMapper where
  GetId : List UInt8 → BitVec 32 → Except StreamError (BitVec 32)
  GetStringId : List UInt8 → List UInt8 → Except StreamError (BitVec 32)

section Reading

variable {σ : Type} (lpSource : Source σ) (lpStreamCaps : StreamCaps) (charset : Charset)

/-- `Read` of single bytes into memory with some room. -/
def readBytes (room nmemb : ℕ) : Caller σ StreamError (List UInt8) := do
  let bytes ← Caller.call fun s => lpSource s 1 nmemb
  if room < nmemb then .undefined else pure bytes.1

/-- `Read` of elements of 2, 4 or 8 bytes into memory with some room. -/
def read (room size nmemb : ℕ) : Caller σ StreamError (List (BitVec (8 * size))) := do
  let bytes ← Caller.call fun s => lpSource s size nmemb
  if room < size * nmemb then .undefined else pure (elements size nmemb bytes.1)

/-- `Read` of one number into a variable. -/
def readOne (size : ℕ) : Caller σ StreamError (BitVec (8 * size)) := do
  let elems ← read lpSource size size 1
  pure (elems.headD 0)

/-- A string. The memory of one in UTF-8 has room for a zero, unless the sum is cut. -/
def readString : Caller σ StreamError LPSTR := do
  let ulLen ← readOne lpSource 4
  if lpStreamCaps.bSupportUnicode then do
    let memory ← readBytes lpSource (ulLen + 1).toNat ulLen.toNat
    pure (some (cString memory))
  else do
    let strData ← readBytes lpSource ulLen.toNat ulLen.toNat
    pure (some (cString (charset.decode strData)))

/-- Memory with its size, if this is not negative as an `int`. -/
def counted {α : Type} (elems : List α) : Option (Counted 31 α) :=
  if h : elems.length < 2 ^ 31 then some ⟨elems, h⟩ else none

def readBinary : Caller σ StreamError (Option Base64Binary) := do
  let ulLen ← readOne lpSource 4
  let elems ← readBytes lpSource ulLen.toNat ulLen.toNat
  pure (counted elems)

def readHilo : Caller σ StreamError HiloLong := do
  let hi ← readOne lpSource 4
  let lo ← readOne lpSource 4
  pure ⟨hi, lo⟩

/-- A multi-value that is read into its memory at once. -/
def readArray (size : ℕ) : Caller σ StreamError (Option (Counted 31 (BitVec (8 * size)))) := do
  let ulCount ← readOne lpSource 4
  let elems ← read lpSource (size * ulCount.toNat) size ulCount.toNat
  pure (counted elems)

/-- A multi-value that is read one element after another. -/
def readMulti {α : Type} (readElem : Caller σ StreamError α) : Caller σ StreamError (List α) := do
  let ulCount ← readOne lpSource 4
  .collect readElem ulCount.toNat

/-- The loop over the `hiloLong`s of a multi-value, with `left` of them to go. It reads `ulCount` words
from each half on. -/
def readHilosLoop (ulCount : ℕ) : ℕ → List (BitVec 32) → Caller σ StreamError (List (BitVec 32))
  | 0, memory => pure memory
  | left + 1, memory => do
    let x := ulCount - (left + 1)
    let hi ← read lpSource (8 * ulCount - 8 * x) 4 ulCount
    let lo ← read lpSource (8 * ulCount - (8 * x + 4)) 4 ulCount
    readHilosLoop ulCount left (store (store memory (2 * x) hi) (2 * x + 1) lo)

def readHilos : Caller σ StreamError (Option (Counted 31 HiloLong)) := do
  let ulCount ← readOne lpSource 4
  let memory ← readHilosLoop lpSource ulCount.toNat ulCount.toNat (List.replicate (2 * ulCount.toNat) 0)
  pure (counted (hilos memory))

/-- The binary values of a multi-value, if their sizes and their number are not negative. -/
def binaries (elems : List (Option Base64Binary)) : Option (Counted 31 Base64Binary) :=
  elems.mapM id >>= counted

/-- The switch of `DeserializePropVal`; `none` is its default. A value with a negative size is not a value. -/
def deserializeValue (type : ℕ) : Option (Caller σ StreamError (Option PropValData)) :=
  match type with
  | PT_I2 => some do return some (.PT_I2 (← readOne lpSource 2))
  | PT_LONG => some do return some (.PT_LONG (← readOne lpSource 4))
  | PT_R4 => some do return some (.PT_R4 (← readOne lpSource 4))
  | PT_BOOLEAN => some do
    let b ← readBytes lpSource 1 1
    return some (.PT_BOOLEAN (b.headD 0 != 0))
  | PT_DOUBLE => some do return some (.PT_DOUBLE (← readOne lpSource 8))
  | PT_APPTIME => some do return some (.PT_APPTIME (← readOne lpSource 8))
  | PT_CURRENCY => some do return some (.PT_CURRENCY (← readHilo lpSource))
  | PT_SYSTIME => some do return some (.PT_SYSTIME (← readHilo lpSource))
  | PT_I8 => some do return some (.PT_I8 (← readOne lpSource 8))
  | PT_STRING8 => some do return some (.PT_STRING8 (← readString lpSource lpStreamCaps charset))
  | PT_UNICODE => some do return some (.PT_UNICODE (← readString lpSource lpStreamCaps charset))
  | PT_CLSID => some do return (← readBinary lpSource).map .PT_CLSID
  | PT_BINARY => some do return (← readBinary lpSource).map .PT_BINARY
  | PT_MV_I2 => some do return (← readArray lpSource 2).map .PT_MV_I2
  | PT_MV_LONG => some do return (← readArray lpSource 4).map .PT_MV_LONG
  | PT_MV_R4 => some do return (← readArray lpSource 4).map .PT_MV_R4
  | PT_MV_DOUBLE => some do return (← readArray lpSource 8).map .PT_MV_DOUBLE
  | PT_MV_APPTIME => some do return (← readArray lpSource 8).map .PT_MV_APPTIME
  | PT_MV_CURRENCY => some do return (← readHilos lpSource).map .PT_MV_CURRENCY
  | PT_MV_SYSTIME => some do return (← readHilos lpSource).map .PT_MV_SYSTIME
  | PT_MV_BINARY => some do return (binaries (← readMulti lpSource (readBinary lpSource))).map .PT_MV_BINARY
  | PT_MV_CLSID => some do return (binaries (← readMulti lpSource (readBinary lpSource))).map .PT_MV_CLSID
  | PT_MV_STRING8 => some do
    return (counted (← readMulti lpSource (readString lpSource lpStreamCaps charset))).map .PT_MV_STRING8
  | PT_MV_UNICODE => some do
    return (counted (← readMulti lpSource (readString lpSource lpStreamCaps charset))).map .PT_MV_UNICODE
  | PT_MV_I8 => some do return (← readArray lpSource 8).map .PT_MV_I8
  | _ => none

/-- The answer of the database. -/
def answered {α : Type} : Except StreamError α → Caller σ StreamError α
  | .ok a => pure a
  | .error er => .fail er

/-- The local id of a property in the dynamic range. -/
def deserializeName (namedPropertyMapper : NameMapper) : Caller σ StreamError (BitVec 32) := do
  let guid ← readBytes lpSource 16 16
  let ulKind ← readOne lpSource 4
  if ulKind = MNID_ID then do
    let ulNameId ← readOne lpSource 4
    answered (namedPropertyMapper.GetId guid ulNameId)
  else if ulKind = MNID_STRING then do
    let ulLen ← readOne lpSource 4
    let strNameString ← readBytes lpSource ulLen.toNat ulLen.toNat
    answered (namedPropertyMapper.GetStringId guid strNameString)
  else pure 0

/-- The property that is handed out, if it is a whole one. -/
structure ReadPropVal where
  ulPropId : BitVec 16
  Value : Option PropValData

/-- `DeserializePropVal` behind the tag. -/
def deserializeTagged (namedPropertyMapper : NameMapper) (ulPropTag : BitVec 32) : Caller σ StreamError ReadPropVal :=
  match deserializeValue lpSource lpStreamCaps charset (typeOf ulPropTag) with
  | none => .fail .ZARAFA_E_INVALID_TYPE
  | some readValue =>
    if 0x8500 < idOf ulPropTag then do
      let value ← Caller.attempt readValue
      let ulLocalId ← deserializeName lpSource namedPropertyMapper
      pure ⟨ulLocalId.setWidth 16, value.toOption.join⟩
    else do
      let value ← readValue
      pure ⟨idOf ulPropTag, value⟩

/-- `DeserializePropVal`. -/
def deserializePropVal (namedPropertyMapper : NameMapper) : Caller σ StreamError ReadPropVal := do
  let ulPropTag ← readOne lpSource 4
  deserializeTagged lpSource lpStreamCaps charset namedPropertyMapper ulPropTag

end Reading

end Zcp.Libserver.StreamUtil.Calls
