import Zcp.Lib.BoundedQuantifiers

/-!
# Codes of the server

The answers, the object types and the permissions that the server's parts share.
-/

namespace Zcp.Libserver

/-- An object id. -/
abbrev ObjId := UInt32

/-- A user, group or company id. -/
abbrev UserId := UInt32

abbrev ECSESSIONID := UInt64

/-- What the server's functions answer. -/
inductive ECRESULT where
  | erSuccess
  | ZARAFA_E_NO_ACCESS
  | ZARAFA_E_NOT_FOUND
  | ZARAFA_E_DATABASE_ERROR
deriving DecidableEq, Repr

/-- An answer that is an error. -/
abbrev Failure := { er : ECRESULT // er ≠ .erSuccess }

def notFound : Failure := ⟨.ZARAFA_E_NOT_FOUND, by decide⟩

def MAPI_STORE : UInt32 := 1

def MAPI_FOLDER : UInt32 := 3

def MSGFLAG_DELETED : UInt32 := 0x400

def ECSTORE_TYPE_ARCHIVE : UInt32 := 2

def ACCESS_TYPE_GRANT : UInt32 := 2

/-! The permissions that can be asked for, -/

def ecSecurityRead : UInt32 := 1

def ecSecurityCreate : UInt32 := 2

def ecSecurityEdit : UInt32 := 3

def ecSecurityDelete : UInt32 := 4

def ecSecurityCreateFolder : UInt32 := 5

def ecSecurityFolderVisible : UInt32 := 6

def ecSecurityFolderAccess : UInt32 := 7

def ecSecurityOwner : UInt32 := 8

def ecSecurityAdmin : UInt32 := 9

/-! and the rights that an access list gives. -/

def ecRightsReadAny : UInt32 := 0x1

def ecRightsCreate : UInt32 := 0x2

def ecRightsEditOwned : UInt32 := 0x8

def ecRightsDeleteOwned : UInt32 := 0x10

def ecRightsEditAny : UInt32 := 0x20

def ecRightsDeleteAny : UInt32 := 0x40

def ecRightsCreateSubfolder : UInt32 := 0x80

def ecRightsFolderAccess : UInt32 := 0x100

def ecRightsFolderVisible : UInt32 := 0x400

end Zcp.Libserver
