import Mathlib.Data.UInt

/-!
# Property values

The values of properties as the server has them (`propVal` of `provider/include/ZarafaProto.h`) and as
the client has them (`SPropValue` of `mapi4linux/include/mapidefs.h`). A constructor is the type of a
property tag together with the member of the union that the type uses. Numbers are their bits, and
`float` and `double` are the bits they are stored in.
-/

namespace Zcp.Common

/-- A pointer with a count of `w` bits. -/
structure Counted (w : ℕ) (α : Type) where
  elems : List α
  length_lt : elems.length < 2 ^ w
deriving DecidableEq

/-- `LPSTR`; `none` is `NULL`. -/
abbrev LPSTR := Option (List UInt8)

/-- `LPWSTR`; `none` is `NULL`. -/
abbrev LPWSTR := Option (List (BitVec 32))

/-! ## On the server -/

/-- `hiloLong`. -/
structure HiloLong where
  hi : BitVec 32
  lo : BitVec 32
deriving DecidableEq

/-- `xsd__base64Binary`; its size is an `int`. -/
abbrev Base64Binary := Counted 31 UInt8

/-- `propValData`, for the types that are compared or sorted. -/
inductive PropValData where
  | PT_I2 (i : BitVec 16)
  | PT_LONG (ul : BitVec 32)
  | PT_R4 (flt : BitVec 32)
  | PT_DOUBLE (dbl : BitVec 64)
  | PT_APPTIME (dbl : BitVec 64)
  | PT_BOOLEAN (b : Bool)
  | PT_I8 (li : BitVec 64)
  | PT_STRING8 (lpszA : LPSTR)
  | PT_UNICODE (lpszA : LPSTR)
  | PT_SYSTIME (hilo : HiloLong)
  | PT_CURRENCY (hilo : HiloLong)
  | PT_BINARY (bin : Base64Binary)
  | PT_CLSID (bin : Base64Binary)
  | PT_MV_I2 (mvi : Counted 31 (BitVec 16))
  | PT_MV_LONG (mvl : Counted 31 (BitVec 32))
  | PT_MV_R4 (mvflt : Counted 31 (BitVec 32))
  | PT_MV_DOUBLE (mvdbl : Counted 31 (BitVec 64))
  | PT_MV_APPTIME (mvdbl : Counted 31 (BitVec 64))
  | PT_MV_I8 (mvli : Counted 31 (BitVec 64))
  | PT_MV_STRING8 (mvszA : Counted 31 LPSTR)
  | PT_MV_UNICODE (mvszA : Counted 31 LPSTR)
  | PT_MV_SYSTIME (mvhilo : Counted 31 HiloLong)
  | PT_MV_CURRENCY (mvhilo : Counted 31 HiloLong)
  | PT_MV_BINARY (mvbin : Counted 31 Base64Binary)
  | PT_MV_CLSID (mvbin : Counted 31 Base64Binary)
  | PT_ERROR (ul : BitVec 32)
  | other

/-! ## In the client -/

/-- `FILETIME`. -/
structure FILETIME where
  dwHighDateTime : BitVec 32
  dwLowDateTime : BitVec 32
deriving DecidableEq

/-- `CURRENCY`. -/
structure CURRENCY where
  Hi : BitVec 32
  Lo : BitVec 32
deriving DecidableEq

/-- `SBinary`; its count is a `ULONG`. -/
abbrev SBinary := Counted 32 UInt8

/-- `GUID`. -/
structure GUID where
  bytes : List UInt8
  length_eq : bytes.length = 16
deriving DecidableEq

/-- `SPropValue`, for the types that are compared or sorted. -/
inductive SPropValue where
  | PT_I2 (i : BitVec 16)
  | PT_LONG (ul : BitVec 32)
  | PT_R4 (flt : BitVec 32)
  | PT_DOUBLE (dbl : BitVec 64)
  | PT_APPTIME (at' : BitVec 64)
  | PT_BOOLEAN (b : BitVec 16)
  | PT_I8 (li : BitVec 64)
  | PT_STRING8 (lpszA : LPSTR)
  | PT_UNICODE (lpszW : LPWSTR)
  | PT_SYSTIME (ft : FILETIME)
  | PT_CURRENCY (cur : CURRENCY)
  | PT_BINARY (bin : SBinary)
  | PT_CLSID (lpguid : GUID)
  | PT_MV_I2 (MVi : Counted 32 (BitVec 16))
  | PT_MV_LONG (MVl : Counted 32 (BitVec 32))
  | PT_MV_R4 (MVflt : Counted 32 (BitVec 32))
  | PT_MV_DOUBLE (MVdbl : Counted 32 (BitVec 64))
  | PT_MV_APPTIME (MVdbl : Counted 32 (BitVec 64))
  | PT_MV_I8 (MVli : Counted 32 (BitVec 64))
  | PT_MV_STRING8 (MVszA : Counted 32 LPSTR)
  | PT_MV_UNICODE (MVszW : Counted 32 LPWSTR)
  | PT_MV_SYSTIME (MVft : Counted 32 FILETIME)
  | PT_MV_CURRENCY (MVcur : Counted 32 CURRENCY)
  | PT_MV_BINARY (MVbin : Counted 32 SBinary)
  | PT_MV_CLSID (MVguid : Counted 32 GUID)
  | PT_ERROR (err : BitVec 32)
  | other

end Zcp.Common
