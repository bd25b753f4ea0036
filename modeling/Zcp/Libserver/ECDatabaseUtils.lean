import Zcp.Common.PropValues
import Zcp.Lib.Decimal

/-!
# Properties in the database

`CopySOAPPropValToDatabasePropVal`, `CopySOAPPropValToDatabaseMVPropVal` and
`CopyDatabasePropValToSOAPPropVal` of `provider/libserver/ECDatabaseUtils.cpp`: a property value becomes the
text of a column, or one text for each of its elements, and the columns become a property value again. What the
tables do with the texts in between is `insertValue`, `selectProperty` and `selectMVProperty`.
-/

namespace Zcp.Libserver.ECDatabaseUtils

open Zcp.Common Zcp.Lib

/-- Why there is no value; `undefined` is an access outside of an array. -/
inductive PropError where
  | ZARAFA_E_INVALID_PARAMETER
  | ZARAFA_E_INVALID_TYPE
  | ZARAFA_E_NOT_FOUND
  | undefined
deriving DecidableEq, Repr

/-- What is called outside: the client library and the server of the database, and numbers with a point. -/
structure Externals where
  mysql_real_escape_string : List UInt8 → List UInt8
  /-- The string that a quoted literal of a statement stands for. -/
  literal : List UInt8 → Option (List UInt8)
  /-- What a column of floating-point numbers makes of a literal. -/
  doubleColumn : List UInt8 → Option (List UInt8)
  stringify_float : BitVec 32 → List UInt8
  stringify_double : BitVec 64 → List UInt8
  strtod : List UInt8 → BitVec 64
  toFloat : BitVec 64 → BitVec 32
  /-- `utf8::unchecked::next`: a code point, and the rest behind it. -/
  next : List UInt8 → ℕ × List UInt8

/-! ## Property values -/

/-- The types that can be stored. -/
inductive PropType where
  | PT_I2
  | PT_LONG
  | PT_R4
  | PT_DOUBLE
  | PT_CURRENCY
  | PT_APPTIME
  | PT_BOOLEAN
  | PT_I8
  | PT_STRING8
  | PT_UNICODE
  | PT_SYSTIME
  | PT_CLSID
  | PT_BINARY
  | PT_MV_I2
  | PT_MV_LONG
  | PT_MV_R4
  | PT_MV_DOUBLE
  | PT_MV_CURRENCY
  | PT_MV_APPTIME
  | PT_MV_I8
  | PT_MV_STRING8
  | PT_MV_UNICODE
  | PT_MV_SYSTIME
  | PT_MV_CLSID
  | PT_MV_BINARY
deriving DecidableEq, Repr

namespace PropType

/-- The number of a type. -/
def code : PropType → BitVec 16
  | PT_I2 => 0x0002
  | PT_LONG => 0x0003
  | PT_R4 => 0x0004
  | PT_DOUBLE => 0x0005
  | PT_CURRENCY => 0x0006
  | PT_APPTIME => 0x0007
  | PT_BOOLEAN => 0x000B
  | PT_I8 => 0x0014
  | PT_STRING8 => 0x001E
  | PT_UNICODE => 0x001F
  | PT_SYSTIME => 0x0040
  | PT_CLSID => 0x0048
  | PT_BINARY => 0x0102
  | PT_MV_I2 => 0x1002
  | PT_MV_LONG => 0x1003
  | PT_MV_R4 => 0x1004
  | PT_MV_DOUBLE => 0x1005
  | PT_MV_CURRENCY => 0x1006
  | PT_MV_APPTIME => 0x1007
  | PT_MV_I8 => 0x1014
  | PT_MV_STRING8 => 0x101E
  | PT_MV_UNICODE => 0x101F
  | PT_MV_SYSTIME => 0x1040
  | PT_MV_CLSID => 0x1048
  | PT_MV_BINARY => 0x1102

def all : List PropType :=
  [PT_I2, PT_LONG, PT_R4, PT_DOUBLE, PT_CURRENCY, PT_APPTIME, PT_BOOLEAN, PT_I8, PT_STRING8, PT_UNICODE, PT_SYSTIME,
    PT_CLSID, PT_BINARY, PT_MV_I2, PT_MV_LONG, PT_MV_R4, PT_MV_DOUBLE, PT_MV_CURRENCY, PT_MV_APPTIME, PT_MV_I8,
    PT_MV_STRING8, PT_MV_UNICODE, PT_MV_SYSTIME, PT_MV_CLSID, PT_MV_BINARY]

/-- The type of a number, where a `switch` over the types has a case for it. -/
def ofCode (type : BitVec 16) : Option PropType := all.find? fun p => p.code = type

end PropType

def MV_FLAG : BitVec 16 := 0x1000

def MVI_FLAG : BitVec 16 := 0x3000

def PROP_TYPE (ulPropTag : BitVec 32) : BitVec 16 := ulPropTag.extractLsb' 0 16

def PROP_ID (ulPropTag : BitVec 32) : BitVec 16 := ulPropTag.extractLsb' 16 16

/-- `PROP_TAG`, of a type and an id that have 16 bits as in the tables. -/
def PROP_TAG (ulPropType ulPropID : BitVec 16) : BitVec 32 := ulPropID ++ ulPropType

def CHANGE_PROP_TYPE (ulPropTag : BitVec 32) (p : PropType) : BitVec 32 := PROP_TAG p.code (PROP_ID ulPropTag)

/-- A pointer (`__ptr`) with its size (`__size`, an `int`), as in the SOAP types; `none` is `NULL`. -/
structure SizedPtr (α : Type) where
  ptr : Option (List α)
  size : BitVec 32
deriving DecidableEq

/-- The union of `propVal`, with the member that `__union` names. -/
inductive PropValUnion where
  | i (i : BitVec 16)
  | ul (ul : BitVec 32)
  | flt (flt : BitVec 32)
  | b (b : Bool)
  | dbl (dbl : BitVec 64)
  | hilo (hilo : Option HiloLong)
  | li (li : BitVec 64)
  | lpszA (lpszA : LPSTR)
  | bin (bin : Option (SizedPtr UInt8))
  | mvi (mvi : SizedPtr (BitVec 16))
  | mvl (mvl : SizedPtr (BitVec 32))
  | mvflt (mvflt : SizedPtr (BitVec 32))
  | mvdbl (mvdbl : SizedPtr (BitVec 64))
  | mvhilo (mvhilo : SizedPtr HiloLong)
  | mvbin (mvbin : SizedPtr (SizedPtr UInt8))
  | mvszA (mvszA : SizedPtr LPSTR)
  | mvli (mvli : SizedPtr (BitVec 64))
deriving DecidableEq

/-- `propVal`. -/
structure PropVal where
  ulPropTag : BitVec 32
  Value : PropValUnion
deriving DecidableEq

/-! ## Texts -/

/-- `stringify` in decimal. -/
def stringify (x : BitVec 32) (_signed : Bool) : List UInt8 :=
  if _signed then signedDecimal x.toInt else decimal x.toNat

def stringify_int64 (x : BitVec 64) : List UInt8 := signedDecimal x.toInt

/-- `atoui`, which is `strtoul` made an `unsigned int`. -/
def atoui (szString : List UInt8) : BitVec 32 := BitVec.ofNat 32 (strtoul szString).1

/-- The bytes of a C string. -/
def cstr (s : List UInt8) : List UInt8 := s.takeWhile (· ≠ 0)

/-- `ci_find_substr`, as far as whether there is one. -/
def ciContains (first second : List UInt8) : Bool :=
  let tolower (c : UInt8) : UInt8 := if 65 ≤ c ∧ c ≤ 90 then c + 32 else c
  decide (second.map tolower <:+: first.map tolower)

/-- The length of a sequence that `ECDatabaseMySQL::FilterBMP` takes a lead byte for. -/
def sequenceLength (c : UInt8) : ℕ :=
  if c &&& 0x80 = 0 then 1
  else if c &&& 0xE0 = 0xC0 then 2
  else if c &&& 0xF0 = 0xE0 then 3
  else if c &&& 0xF8 = 0xF0 then 4
  else if c &&& 0xFC = 0xF8 then 5
  else if c &&& 0xFE = 0xFC then 6
  else 1

/-- The loop of `ECDatabaseMySQL::FilterBMP`, which drops sequences of 4 bytes and more. A sequence that is cut off takes
the NUL behind the string along. -/
def filterBMPLoop : ℕ → List UInt8 → Except PropError (List UInt8)
  | _, [] => .ok []
  | 0, _ :: _ => .ok []
  | fuel + 1, c :: s =>
    let len := sequenceLength c
    if len < 4 ∧ s.length + 2 < len then .error .undefined
    else do
      let strFiltered ← filterBMPLoop fuel ((c :: s).drop len)
      .ok ((if len < 4 then (c :: s ++ [0]).take len else []) ++ strFiltered)

/-- `ECDatabaseMySQL::FilterBMP`. -/
def filterBMP (strToFilter : List UInt8) : Except PropError (List UInt8) :=
  filterBMPLoop strToFilter.length strToFilter

section Externals

variable (d : Externals)

/-- Where `u8_ncpy` stops. -/
def u8_ncpyEnd : ℕ → List UInt8 → List UInt8
  | 0, it => it
  | n + 1, it =>
    let (cp, tmp) := d.next it
    if cp = 0 then it else u8_ncpyEnd n tmp

/-- `u8_ncpy`: the first `n` characters of a string. -/
def u8_ncpy (src : List UInt8) (n : ℕ) : List UInt8 := src.take (src.length - (u8_ncpyEnd d n src).length)

/-- `ECDatabaseMySQL::Escape`: the escaped text is copied as a C string. -/
def escape (strToEscape : List UInt8) : List UInt8 := cstr (d.mysql_real_escape_string strToEscape)

/-- A text between single quotes. -/
def quote (s : List UInt8) : List UInt8 := 39 :: (s ++ [39])

/-- `ECDatabaseMySQL::EscapeBinary`, of the first `ulLen` bytes. -/
def escapeBinary (lpData : List UInt8) (ulLen : ℕ) : Except PropError (List UInt8) :=
  if ulLen ≤ lpData.length then .ok (quote (escape d (lpData.take ulLen))) else .error .undefined

/-- The text for a string. -/
def stringData (strData : List UInt8) : Except PropError (List UInt8) := do
  let strFiltered ← filterBMP strData
  .ok (quote (escape d strFiltered))

/-- The halves of a time or a currency, for both of their columns. -/
def hiloData (hilo : HiloLong) : List UInt8 := stringify hilo.hi true ++ 44 :: stringify hilo.lo false

/-! ## Writing -/

/-- The columns for values (`VALUE_NR_ULONG` and so on, and the names of `PROPCOL_ULONG` and so on). -/
inductive ValueColumn where
  | ULONG
  | STRING
  | BINARY
  | DOUBLE
  | LONGINT
  | HILO
deriving DecidableEq, Repr

def TABLE_CAP_STRING : ℕ := 255

def TABLE_CAP_BINARY : ℕ := 511

/-- The text of a column for a binary value. -/
def binaryData (bin : Option (SizedPtr UInt8)) (cap : BitVec 32 → BitVec 32) :
    Except PropError (ValueColumn × List UInt8) :=
  match bin with
  | some ⟨some ptr, size⟩ => (escapeBinary d ptr (cap size).toNat).map fun strColData => (.BINARY, strColData)
  | _ => .error .ZARAFA_E_INVALID_PARAMETER

/-- `CopySOAPPropValToDatabasePropVal`: the column and the text for a value. -/
def copySOAPPropValToDatabasePropVal (v : PropVal) (bTruncate : Bool) :
    Except PropError (ValueColumn × List UInt8) :=
  match PropType.ofCode (PROP_TYPE v.ulPropTag) with
  | some .PT_I2 =>
    match v.Value with
    | .i i => .ok (.ULONG, stringify (i.signExtend 32) false)
    | _ => .error .ZARAFA_E_INVALID_PARAMETER
  | some .PT_LONG =>
    match v.Value with
    | .ul ul => .ok (.ULONG, stringify ul false)
    | _ => .error .ZARAFA_E_INVALID_PARAMETER
  | some .PT_R4 =>
    match v.Value with
    | .flt flt => .ok (.DOUBLE, d.stringify_float flt)
    | _ => .error .ZARAFA_E_INVALID_PARAMETER
  | some .PT_BOOLEAN =>
    match v.Value with
    | .b b => .ok (.ULONG, stringify (if b then 1 else 0) false)
    | _ => .error .ZARAFA_E_INVALID_PARAMETER
  | some .PT_DOUBLE =>
    match v.Value with
    | .dbl dbl =>
      -- a NaN is stored as 0.0
      let strColData := d.stringify_double dbl
      .ok (.DOUBLE, if ciContains strColData [110, 97, 110] then [48, 46, 48] else strColData)
    | _ => .error .ZARAFA_E_INVALID_PARAMETER
  | some .PT_APPTIME =>
    match v.Value with
    | .dbl dbl => .ok (.DOUBLE, d.stringify_double dbl)
    | _ => .error .ZARAFA_E_INVALID_PARAMETER
  | some .PT_CURRENCY | some .PT_SYSTIME =>
    match v.Value with
    | .hilo (some hilo) => .ok (.HILO, hiloData hilo)
    | _ => .error .ZARAFA_E_INVALID_PARAMETER
  | some .PT_I8 =>
    match v.Value with
    | .li li => .ok (.LONGINT, stringify_int64 li)
    | _ => .error .ZARAFA_E_INVALID_PARAMETER
  | some .PT_UNICODE | some .PT_STRING8 =>
    match v.Value with
    | .lpszA (some lpszA) =>
      let strData := if bTruncate then u8_ncpy d (cstr lpszA) TABLE_CAP_STRING else cstr lpszA
      (stringData d strData).map fun strColData => (.STRING, strColData)
    | _ => .error .ZARAFA_E_INVALID_PARAMETER
  | some .PT_BINARY =>
    match v.Value with
    | .bin bin => binaryData d bin fun size =>
        if bTruncate ∧ size.toInt > TABLE_CAP_BINARY then BitVec.ofNat 32 TABLE_CAP_BINARY else size
    | _ => .error .ZARAFA_E_INVALID_PARAMETER
  | some .PT_CLSID =>
    match v.Value with
    | .bin bin => binaryData d bin id
    | _ => .error .ZARAFA_E_INVALID_PARAMETER
  | _ => .error .ZARAFA_E_INVALID_TYPE

/-- `GetMVItemCount`. -/
def getMVItemCount (v : PropVal) : BitVec 32 :=
  let sizeOf {α : Type} (x : SizedPtr α) : BitVec 32 := if x.ptr.isNone then 0 else x.size
  match PropType.ofCode (PROP_TYPE v.ulPropTag), v.Value with
  | some .PT_MV_I2, .mvi x => sizeOf x
  | some .PT_MV_LONG, .mvl x => sizeOf x
  | some .PT_MV_R4, .mvflt x => sizeOf x
  | some .PT_MV_DOUBLE, .mvdbl x => sizeOf x
  | some .PT_MV_CURRENCY, .mvhilo x => sizeOf x
  | some .PT_MV_APPTIME, .mvdbl x => sizeOf x
  | some .PT_MV_SYSTIME, .mvhilo x => sizeOf x
  | some .PT_MV_BINARY, .mvbin x => sizeOf x
  | some .PT_MV_STRING8, .mvszA x => sizeOf x
  | some .PT_MV_UNICODE, .mvszA x => sizeOf x
  | some .PT_MV_CLSID, .mvbin x => sizeOf x
  | some .PT_MV_I8, .mvli x => sizeOf x
  | _, _ => 0

/-- The text for an element of a multi-value. -/
def itemData {α : Type} (x : SizedPtr α) (nItem : ℕ) (strColName : ValueColumn) (text : α → Except PropError (List UInt8)) :
    Except PropError (ValueColumn × List UInt8) :=
  match x.ptr with
  | none => .error .ZARAFA_E_INVALID_PARAMETER
  | some l =>
    match l[nItem]? with
    | none => .error .undefined
    | some a => (text a).map fun strColData => (strColName, strColData)

/-- The text for a binary value that is an element. -/
def binaryItem (bin : SizedPtr UInt8) : Except PropError (List UInt8) :=
  match bin.ptr with
  | none => if bin.size = 0 then escapeBinary d [] 0 else .error .undefined
  | some ptr => escapeBinary d ptr bin.size.toNat

/-- The text for a string that is an element. -/
def stringItem (lpszA : LPSTR) : Except PropError (List UInt8) :=
  match lpszA with
  | none => .error .undefined
  | some s => stringData d (cstr s)

/-- `CopySOAPPropValToDatabaseMVPropVal`: the column and the text for the element `nItem`. -/
def copySOAPPropValToDatabaseMVPropVal (v : PropVal) (nItem : ℕ) : Except PropError (ValueColumn × List UInt8) :=
  match PropType.ofCode (PROP_TYPE v.ulPropTag) with
  | some .PT_MV_I2 =>
    match v.Value with
    | .mvi x => itemData x nItem .ULONG fun i => .ok (stringify (i.signExtend 32) false)
    | _ => .error .ZARAFA_E_INVALID_PARAMETER
  | some .PT_MV_LONG =>
    match v.Value with
    | .mvl x => itemData x nItem .ULONG fun ul => .ok (stringify ul false)
    | _ => .error .ZARAFA_E_INVALID_PARAMETER
  | some .PT_MV_R4 =>
    match v.Value with
    | .mvflt x => itemData x nItem .DOUBLE fun flt => .ok (d.stringify_float flt)
    | _ => .error .ZARAFA_E_INVALID_PARAMETER
  | some .PT_MV_DOUBLE | some .PT_MV_APPTIME =>
    match v.Value with
    | .mvdbl x => itemData x nItem .DOUBLE fun dbl => .ok (d.stringify_double dbl)
    | _ => .error .ZARAFA_E_INVALID_PARAMETER
  | some .PT_MV_CURRENCY | some .PT_MV_SYSTIME =>
    match v.Value with
    | .mvhilo x => itemData x nItem .HILO fun hilo => .ok (hiloData hilo)
    | _ => .error .ZARAFA_E_INVALID_PARAMETER
  | some .PT_MV_BINARY | some .PT_MV_CLSID =>
    match v.Value with
    | .mvbin x => itemData x nItem .BINARY (binaryItem d)
    | _ => .error .ZARAFA_E_INVALID_PARAMETER
  | some .PT_MV_STRING8 | some .PT_MV_UNICODE =>
    match v.Value with
    | .mvszA x => itemData x nItem .STRING (stringItem d)
    | _ => .error .ZARAFA_E_INVALID_PARAMETER
  | some .PT_MV_I8 =>
    match v.Value with
    | .mvli x => itemData x nItem .LONGINT fun li => .ok (stringify_int64 li)
    | _ => .error .ZARAFA_E_INVALID_PARAMETER
  | _ => .error .ZARAFA_E_INVALID_TYPE

/-! ## The tables -/

/-- The columns for values of a row, as texts; `none` is `NULL`. -/
structure DbValues where
  val_ulong : Option (List UInt8)
  val_string : Option (List UInt8)
  val_binary : Option (List UInt8)
  val_double : Option (List UInt8)
  val_longint : Option (List UInt8)
  val_hi : Option (List UInt8)
  val_lo : Option (List UInt8)

/-- A row of a result (`FIELD_NR_ID`, `FIELD_NR_TAG`, `FIELD_NR_TYPE` and the values). -/
structure DbRow where
  id : List UInt8
  tag : List UInt8
  type : List UInt8
  values : DbValues

/-- What a column of integers from `lo` to `hi` makes of a literal. -/
def integerColumn (lo hi : ℤ) (text : List UInt8) : Option (List UInt8) :=
  let (z, rest) := scanInt text
  if text ≠ [] ∧ rest = [] ∧ lo ≤ z ∧ z ≤ hi then some (signedDecimal z) else none

/-- `int unsigned`. -/
def unsignedColumn : List UInt8 → Option (List UInt8) := integerColumn 0 (2 ^ 32 - 1)

/-- The values of a row that is inserted with a text for one column and `NULL` for the others. -/
def insertValue (col : ValueColumn) (strColData : List UInt8) : Option DbValues :=
  let null : DbValues := ⟨none, none, none, none, none, none, none⟩
  match col with
  | .ULONG => (unsignedColumn strColData).map fun s => { null with val_ulong := some s }
  | .STRING => (d.literal strColData).map fun s => { null with val_string := some s }
  | .BINARY => (d.literal strColData).map fun s => { null with val_binary := some s }
  | .DOUBLE => (d.doubleColumn strColData).map fun s => { null with val_double := some s }
  | .LONGINT => (integerColumn (-2 ^ 63) (2 ^ 63 - 1) strColData).map fun s => { null with val_longint := some s }
  | .HILO => do
    let hi ← integerColumn (-2 ^ 31) (2 ^ 31 - 1) (strColData.takeWhile (· ≠ 44))
    let lo ← unsignedColumn ((strColData.dropWhile (· ≠ 44)).drop 1)
    some { null with val_hi := some hi, val_lo := some lo }

end Externals

/-- What a result has room for: a column is shorter than 2^32 bytes. -/
def resultColumn (s : Option (List UInt8)) : Option (Option (List UInt8)) :=
  if (s.getD []).length < 2 ^ 32 then some s else none

/-- The row of `SELECT` with `PROPCOLORDER`. -/
def selectProperty (ulPropTag : BitVec 32) (values : DbValues) : Option DbRow := do
  let val_string ← resultColumn values.val_string
  let val_binary ← resultColumn values.val_binary
  some
    { id := decimal 0
      tag := decimal (PROP_ID ulPropTag).toNat
      type := decimal (PROP_TYPE ulPropTag).toNat
      values := { values with val_string, val_binary } }

/-- `group_concat(length(val), ':', val ORDER BY orderid SEPARATOR '')`, which leaves `NULL`s out. -/
def groupConcat (vals : List (Option (List UInt8))) : Option (List UInt8) :=
  if vals.filterMap id = [] then none
  else some ((vals.filterMap id).flatMap fun s => decimal s.length ++ 58 :: s)

/-- The row of `SELECT` with `MVPROPCOLORDER`, of the rows with the elements. -/
def selectMVProperty (ulPropTag : BitVec 32) (rows : List DbValues) : Option DbRow := do
  let concat (val : DbValues → Option (List UInt8)) := resultColumn (groupConcat (rows.map val))
  let val_ulong ← concat DbValues.val_ulong
  let val_string ← concat DbValues.val_string
  let val_binary ← concat DbValues.val_binary
  let val_double ← concat DbValues.val_double
  let val_longint ← concat DbValues.val_longint
  let val_hi ← concat DbValues.val_hi
  let val_lo ← concat DbValues.val_lo
  some
    { id := decimal rows.length
      tag := decimal (PROP_ID ulPropTag).toNat
      type := decimal (PROP_TYPE ulPropTag).toNat
      values := ⟨val_ulong, val_string, val_binary, val_double, val_longint, val_hi, val_lo⟩ }

/-! ## Reading -/

/-- Where `ParseMVProp` is in a column, and the string it assigned last. -/
structure MVScan where
  ulLastPos : ℕ
  strData : List UInt8

/-- `ParseMVProp`, of a text with `ulSize` bytes before its NUL. -/
def parseMVProp (lpRowData : List UInt8) (ulLastPos : ℕ) : Except PropError MVScan :=
  let ulSize := lpRowData.length % 2 ^ 32
  let text := lpRowData.drop ulLastPos
  let (n, rest) := strtoul text
  let ulLen := n % 2 ^ 32
  let lpEnd := lpRowData.length - rest.length
  if ulLastPos ≥ ulSize then .error .ZARAFA_E_INVALID_PARAMETER
  else if rest.length = text.length ∨ rest.head? ≠ some 58 then .error .ZARAFA_E_INVALID_PARAMETER
  else if ulSize < lpEnd + 1 + ulLen then .error .ZARAFA_E_INVALID_PARAMETER
  else .ok ⟨(lpEnd + 1 + ulLen) % 2 ^ 32, (rest.drop 1).take ulLen⟩

/-- The strings of `n` elements. The loops do not look at what `ParseMVProp` returns; where it fails they go on with what
they have. -/
def scanMV (lpRowData : List UInt8) : ℕ → MVScan → List (List UInt8)
  | 0, _ => []
  | n + 1, scan =>
    let scan' := (parseMVProp lpRowData scan.ulLastPos).toOption.getD scan
    scan'.strData :: scanMV lpRowData n scan'

/-- The strings of a column for `size` elements. -/
def mvStrings (lpRowData : List UInt8) (size : BitVec 32) : List (List UInt8) :=
  scanMV lpRowData size.toInt.toNat ⟨0, []⟩

/-- A column, which must not be `NULL`. -/
def column (val : Option (List UInt8)) : Except PropError (List UInt8) :=
  match val with
  | some s => .ok s
  | none => .error .ZARAFA_E_NOT_FOUND

/-- The bytes of a binary value of the length that the row has. -/
def binaryOf (s : List UInt8) : SizedPtr UInt8 := ⟨some s, BitVec.ofNat 32 s.length⟩

section Externals

variable (d : Externals)

/-- The value that `CopyDatabasePropValToSOAPPropVal` makes of the columns of a row. -/
def readValue (type : PropType) (row : DbRow) : Except PropError PropValUnion :=
  let size := atoi row.id
  let mv {α : Type} (s : List UInt8) (read : List UInt8 → α) : SizedPtr α :=
    ⟨some ((mvStrings s size).map read), size⟩
  match type with
  | .PT_I2 => do
    let s ← column row.values.val_ulong
    .ok (.i ((atoi s).setWidth 16))
  | .PT_LONG => do
    let s ← column row.values.val_ulong
    .ok (.ul (atoui s))
  | .PT_R4 => do
    let s ← column row.values.val_double
    .ok (.flt (d.toFloat (d.strtod s)))
  | .PT_BOOLEAN => do
    let s ← column row.values.val_ulong
    .ok (.b (atoi s ≠ 0))
  | .PT_DOUBLE | .PT_APPTIME => do
    let s ← column row.values.val_double
    .ok (.dbl (d.strtod s))
  | .PT_CURRENCY | .PT_SYSTIME => do
    let hi ← column row.values.val_hi
    let lo ← column row.values.val_lo
    .ok (.hilo (some ⟨atoi hi, atoui lo⟩))
  | .PT_I8 => do
    let s ← column row.values.val_longint
    .ok (.li (atoll s))
  | .PT_STRING8 | .PT_UNICODE => do
    let s ← column row.values.val_string
    .ok (.lpszA (some (cstr s)))
  | .PT_CLSID | .PT_BINARY => do
    let s ← column row.values.val_binary
    .ok (.bin (some (binaryOf s)))
  | .PT_MV_I2 => do
    let s ← column row.values.val_ulong
    .ok (.mvi (mv s fun strData => (atoui strData).setWidth 16))
  | .PT_MV_LONG => do
    let s ← column row.values.val_ulong
    .ok (.mvl (mv s atoui))
  | .PT_MV_R4 => do
    let s ← column row.values.val_double
    .ok (.mvflt (mv s fun strData => d.toFloat (d.strtod strData)))
  | .PT_MV_DOUBLE | .PT_MV_APPTIME => do
    let s ← column row.values.val_double
    .ok (.mvdbl (mv s d.strtod))
  | .PT_MV_CURRENCY | .PT_MV_SYSTIME => do
    let hi ← column row.values.val_hi
    let lo ← column row.values.val_lo
    .ok (.mvhilo ⟨some (((mvStrings hi size).map atoi).zipWith HiloLong.mk ((mvStrings lo size).map atoui)), size⟩)
  | .PT_MV_BINARY | .PT_MV_CLSID => do
    let s ← column row.values.val_binary
    .ok (.mvbin (mv s binaryOf))
  | .PT_MV_STRING8 | .PT_MV_UNICODE => do
    let s ← column row.values.val_string
    .ok (.mvszA (mv s fun strData => some (cstr strData)))
  | .PT_MV_I8 => do
    let s ← column row.values.val_longint
    .ok (.mvli (mv s atoll))

/-- The type a value is returned with: strings are returned as Unicode. -/
def PropType.toUnicode : PropType → PropType
  | .PT_STRING8 => .PT_UNICODE
  | .PT_MV_STRING8 => .PT_MV_UNICODE
  | p => p

/-- `CopyDatabasePropValToSOAPPropVal`. -/
def copyDatabasePropValToSOAPPropVal (row : DbRow) : Except PropError PropVal :=
  let type := (atoi row.type).setWidth 16
  -- an instance of a multi-value is treated as a normal property
  let type := if type &&& MVI_FLAG = MVI_FLAG then type &&& ~~~MVI_FLAG else type
  match PropType.ofCode type with
  | none => .error .ZARAFA_E_INVALID_TYPE
  | some p => do
    let Value ← readValue d p row
    .ok ⟨PROP_TAG p.toUnicode.code ((atoi row.tag).setWidth 16), Value⟩

/-! ## Storing -/

/-- The columns and texts that a value is written as, without truncation: one, or one for each element of a multi-value. -/
def written (v : PropVal) : Except PropError (List (ValueColumn × List UInt8)) :=
  if PROP_TYPE v.ulPropTag &&& MV_FLAG = MV_FLAG then
    (List.range (getMVItemCount v).toNat).mapM (copySOAPPropValToDatabaseMVPropVal d v)
  else (copySOAPPropValToDatabasePropVal d v false).map fun text => [text]

/-- The row that is selected for the rows of a property. -/
def selected (ulPropTag : BitVec 32) (rows : List DbValues) : Option DbRow :=
  if PROP_TYPE ulPropTag &&& MV_FLAG = MV_FLAG then selectMVProperty ulPropTag rows
  else rows.head?.bind (selectProperty ulPropTag)

end Externals

end Zcp.Libserver.ECDatabaseUtils
