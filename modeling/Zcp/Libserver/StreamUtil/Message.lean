import Zcp.Libserver.StreamUtil

/-!
# Message streams

`SerializeMessage` and `DeserializeObject` of `provider/libserver/StreamUtil.cpp`. The writer gets a tree of
objects from the database. The texts in the columns of a row are not parsed here: a row has the value that
they stand for. The reader gives the tree that it makes in the database, with the properties that it has
read; which of them are stored (not those that the server makes itself) is left out.
-/

namespace Zcp.Libserver.StreamUtil

open Zcp.Lib
open Zcp.Common
open Zcp.Common.SOAPUtils (PropVal)
open Zcp.Common.ECSerializer (Failure Source)
open Zcp.Common.ECStreamSerializer (write readOne readBytes)

def MAPI_FOLDER : BitVec 32 := 3

def MAPI_MESSAGE : BitVec 32 := 5

def MAPI_MAILUSER : BitVec 32 := 6

def MAPI_ATTACH : BitVec 32 := 7

def MAPI_DISTLIST : BitVec 32 := 8

/-- `RealObjType`. -/
def realObjType (ulObjType ulParentType : BitVec 32) : BitVec 32 :=
  if ulParentType = MAPI_MESSAGE ∧ ulObjType ≠ MAPI_MAILUSER ∧ ulObjType ≠ MAPI_DISTLIST ∧
      ulObjType ≠ MAPI_ATTACH then MAPI_MAILUSER
  else ulObjType

/-! ## Objects of the database -/

/-- A row of `properties` or `mvproperties`, with its row of `names`. The value is `none` when a column
that its type needs is NULL. -/
structure Row where
  ulPropId : BitVec 16
  Value : Option PropValData
  name : NamedPropDef
  /-- A column is shorter than `2 ^ 32` bytes. -/
  short : ∀ value, Value = some value → ∀ text, some text ∈ strings value → text.length < 2 ^ 32

/-- A recipient or an attachment. The properties are what `PrepareReadProps` has found, `none` when it has
found no row at all; `data` is the `PR_ATTACH_DATA_BIN` of the attachment storage. -/
structure SubObject where
  ulSubObjType : BitVec 32
  ulSubObjId : BitVec 32
  props : Option (Counted 31 PropVal)
  data : Option (List UInt8)

mutual

/-- A message of the hierarchy, with its rows, the names of the properties of its sub-objects, and these. -/
inductive Message where
  | mk (rows : Counted 31 Row) (mapNamedPropDefs : NamedPropDefMap) (subObjects : SubObjects)

/-- The sub-objects of a message, some with an object of their own. -/
inductive SubObjects where
  | nil
  | sub (object : SubObject) (rest : SubObjects)
  | embedding (object : SubObject) (ulSubObjType ulSubObjId : BitVec 32) (message : Message)
    (rest : SubObjects)

end

def SubObjects.numRows : SubObjects → ℕ
  | .nil => 0
  | .sub _ rest | .embedding _ _ _ _ rest => rest.numRows + 1

/-! ## Writing -/

section Writing

variable (lpStreamCaps : StreamCaps) (charset : Charset)

/-- What has been written, unless there was an error. -/
def written (result : ECRESULT × List UInt8) : Except ECRESULT (List UInt8) :=
  match result with
  | (.erSuccess, bytes) => .ok bytes
  | (er, _) => .error er

/-- The loops over rows and properties. -/
def serializeAll {α : Type} (item : α → Except ECRESULT (List UInt8)) :
    List α → Except ECRESULT (List UInt8)
  | [] => .ok []
  | a :: l => do
    let bytes ← item a
    let rest ← serializeAll item l
    return bytes ++ rest

/-- `SerializeDatabasePropVal`. A row that does not pass `GetValidatedPropType` is skipped. -/
def serializeDatabasePropVal (lpRow : Row) : Except ECRESULT (List UInt8) :=
  match lpRow.Value with
  | none => .ok []
  | some value =>
    match serializeValue lpStreamCaps charset value with
    | none => .error .ZARAFA_E_INVALID_TYPE
    | some bytes => do
      let name ← if 0x8500 < lpRow.ulPropId then written (serializeName lpRow.name) else .ok []
      return write 4 [propTag (propType value) lpRow.ulPropId] ++ (bytes ++ name)

/-- `SerializeProps` of properties in memory. -/
def serializeProps (lpPropVals : Counted 31 PropVal) (lpNamedPropDefs : NamedPropDefMap) :
    Except ECRESULT (List UInt8) := do
  let props ← serializeAll
    (fun sPropVal => written (serializePropVal lpStreamCaps charset sPropVal (some lpNamedPropDefs)))
    lpPropVals.elems
  return write 4 [BitVec.ofNat 32 lpPropVals.elems.length] ++ props

/-- `PR_SOURCE_KEY` of the top message, which is computed. -/
def sourceKeyProp (sourceKey : Base64Binary) : PropVal := ⟨0x65E0, .PT_BINARY sourceKey⟩

/-- `EC_MEMBLOCK_SIZE`. -/
def EC_MEMBLOCK_SIZE : ℕ := 8192

/-- The bytes in the temporary stream of `SerializeProps` on their way to the sink. The buffer of a stream without
a byte is `NULL`, which `Write` refuses. From half of the range of a `ULONG` on, the size of the buffer can be cut
when it grows. -/
def copyBuffer (bytes : List UInt8) : Except ECRESULT (List UInt8) :=
  if bytes = [] then .error .ZARAFA_E_INVALID_PARAMETER
  else if 2 ^ 31 - EC_MEMBLOCK_SIZE ≤ bytes.length then .error .outside
  else .ok bytes

/-- `SerializeProps` of an object in the database: every row is counted. -/
def serializeRows (sourceKey : Option Base64Binary) (rows : Counted 31 Row) :
    Except ECRESULT (List UInt8) := do
  let props ← serializeAll (serializeDatabasePropVal lpStreamCaps charset) rows.elems
  let computed ← serializeAll
    (fun sPropVal => written (serializePropVal lpStreamCaps charset sPropVal none))
    (sourceKey.map sourceKeyProp).toList
  let ulCount := rows.elems.length + sourceKey.toList.length
  let buffer ← copyBuffer (props ++ computed)
  return write 4 [BitVec.ofNat 32 ulCount] ++ buffer

/-- The type and the id of a sub-object, and its properties if there are any. -/
def serializeSubObject (lpNamedPropDefs : NamedPropDefMap) (object : SubObject) :
    Except ECRESULT (List UInt8) := do
  let props ←
    match object.props with
    | none => .ok []
    | some props => serializeProps lpStreamCaps charset props lpNamedPropDefs
  return write 4 [object.ulSubObjType] ++ (write 4 [object.ulSubObjId] ++ props)

/-- The data of an attachment. -/
def serializeData (data : Option (List UInt8)) : List UInt8 :=
  let ulLen : BitVec 32 := BitVec.ofNat 32 (data.getD []).length
  write 4 [ulLen] ++ (data.getD []).take ulLen.toNat

mutual

/-- `SerializeMessage`, after the version of the stream. -/
def serializeMessage (ulObjType : BitVec 32) (sourceKey : Option Base64Binary) :
    Message → Except ECRESULT (List UInt8)
  | .mk rows mapNamedPropDefs subObjects =>
    if ulObjType ≠ MAPI_MESSAGE then .error .ZARAFA_E_NO_SUPPORT
    else do
      let props ← serializeRows lpStreamCaps charset sourceKey rows
      let subs ← serializeSubObjects mapNamedPropDefs subObjects
      return props ++ (write 4 [BitVec.ofNat 32 subObjects.numRows] ++ subs)

/-- The loop over the sub-objects. -/
def serializeSubObjects (mapNamedPropDefs : NamedPropDefMap) :
    SubObjects → Except ECRESULT (List UInt8)
  | .nil => .ok []
  | .sub object rest => do
    let head ← serializeSubObject lpStreamCaps charset mapNamedPropDefs object
    let tail ← serializeSubObjects mapNamedPropDefs rest
    if object.ulSubObjType = MAPI_ATTACH then
      return head ++ (serializeData object.data ++ write 4 [(0 : BitVec 32)]) ++ tail
    else return head ++ tail
  | .embedding object ulSubObjType ulSubObjId message rest => do
    let head ← serializeSubObject lpStreamCaps charset mapNamedPropDefs object
    if object.ulSubObjType = MAPI_ATTACH then
      let embedded ← serializeMessage ulSubObjType none message
      let tail ← serializeSubObjects mapNamedPropDefs rest
      return head ++ (serializeData object.data ++ (write 4 [(1 : BitVec 32)] ++
        (write 4 [ulSubObjType] ++ (write 4 [ulSubObjId] ++ embedded)))) ++ tail
    else
      let tail ← serializeSubObjects mapNamedPropDefs rest
      return head ++ tail

end

/-- The version of the stream, for the capabilities of the session. -/
def streamVersion (lpStreamCaps : StreamCaps) : BitVec 32 :=
  if lpStreamCaps.bSupportUnicode then 1 else 0

/-- The stream of a message. -/
def serializeStream (sourceKey : Option Base64Binary) (message : Message) :
    Except ECRESULT (List UInt8) := do
  let bytes ← serializeMessage lpStreamCaps charset MAPI_MESSAGE sourceKey message
  return write 4 [streamVersion lpStreamCaps] ++ bytes

end Writing

/-! ## Reading -/

/-- An object as it is made from a stream. -/
inductive Object where
  | mk (ulObjType : BitVec 32) (props : List PropVal) (data : List UInt8) (subObjects : List Object)

section Reading

variable (lpStreamCaps : StreamCaps) (charset : Charset) (namedPropertyMapper : NamedPropertyMapper)

/-- The loop of `DeserializeProps`. -/
def deserializeProps : Source (List PropVal) := do
  let ulCount ← readOne 4
  ByteReader.collect (deserializePropVal lpStreamCaps charset namedPropertyMapper) ulCount.toNat

/-- The size of the buffer of the attachment storage. -/
def CHUNK_SIZE : ℕ := 384 * 1024

/-- `SaveAttachmentInstance`: chunks that fit into the buffer, one after another. -/
def saveAttachmentInstance (iSizeLeft : ℕ) : Source (List UInt8) :=
  if iSizeLeft = 0 then pure []
  else do
    let chunk ← readBytes CHUNK_SIZE (min iSizeLeft CHUNK_SIZE)
    let rest ← saveAttachmentInstance (iSizeLeft - min iSizeLeft CHUNK_SIZE)
    pure (chunk ++ rest)
termination_by iSizeLeft
decreasing_by
  unfold CHUNK_SIZE
  omega

/-- The data of an attachment. -/
def deserializeData : Source (List UInt8) := do
  let ulLen ← readOne 4
  saveAttachmentInstance ulLen.toNat

/-- A count and as many sub-objects, with a reader for one of them. The id in the stream is not looked at:
a new object gets an id of its own. -/
def deserializeSubObjects (object : BitVec 32 → BitVec 32 → Source Object) (ulObjType : BitVec 32) :
    Source (List Object) := do
  let ulSubObjCount ← readOne 4
  ByteReader.collect (do
    let ulSubObjType ← readOne 4
    let _ulSubObjId ← readOne 4
    object ulSubObjType ulObjType) ulSubObjCount.toNat

/-- `DeserializeObject` of an object with its parent's type, after the version of the stream. -/
def deserializeObject : ℕ → BitVec 32 → BitVec 32 → Source Object
  | 0, _, _ => ByteReader.stop .tooDeep
  | depth + 1, ulObjType, ulParentType => do
    let ulRealObjType := realObjType ulObjType ulParentType
    if ulRealObjType ≠ MAPI_MESSAGE ∧ ulRealObjType ≠ MAPI_ATTACH ∧ ulRealObjType ≠ MAPI_MAILUSER ∧
        ulRealObjType ≠ MAPI_DISTLIST then ByteReader.stop .ZARAFA_E_NO_SUPPORT
    else
      let props ← deserializeProps lpStreamCaps charset namedPropertyMapper
      let data ← (if ulRealObjType = MAPI_ATTACH then deserializeData else pure [])
      let subObjects ←
        (if ulRealObjType = MAPI_MESSAGE ∨ ulRealObjType = MAPI_ATTACH then
          deserializeSubObjects (deserializeObject depth) ulObjType
        else pure [])
      pure (.mk ulObjType props data subObjects)

/-- The stream of a message, into a message of a folder. -/
def deserializeStream (depth : ℕ) : Source Object := do
  let ulStreamVersion ← readOne 4
  match g_StreamCaps[ulStreamVersion.toNat]? with
  | none => ByteReader.stop .ZARAFA_E_NO_SUPPORT
  | some lpStreamCaps =>
    deserializeObject lpStreamCaps charset namedPropertyMapper depth MAPI_MESSAGE MAPI_FOLDER

end Reading

end Zcp.Libserver.StreamUtil
