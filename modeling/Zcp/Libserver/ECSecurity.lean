import Mathlib.Data.UInt
import Zcp.Libserver.ZarafaCode

/-!
# Permissions

`ECSecurity::CheckPermission` with the walks it makes over the parents of an object: one for the
nearest access list (`GetObjectPermission`), one that refuses to write below a deleted folder
(`CheckDeletedParent`). A chain of parents that is too long ends the first walk without rights. The
second walk compares its counter for equality, so that it only notices chains of one length
(`checkDeletedParent_iff`).
-/

namespace Zcp.Libserver

/-- What the cache knows of an object. -/
structure CacheObject where
  ulParent : ObjId
  ulOwner : UserId
  ulFlags : UInt32
  ulType : UInt32
deriving DecidableEq, Repr

/-- The parent of an object that has none. -/
def CACHE_NO_PARENT : ObjId := 0xFFFFFFFF

/-- `MAX_PARENT_LIMIT`. -/
def MAX_PARENT_LIMIT : ℕ := 64

/-- `ECCacheManager::GetObject`, for all objects. -/
abbrev ObjectCache := ObjId → Except Failure CacheObject

/-- An entry of an access list. -/
structure Rights where
  ulUserid : UserId
  ulType : UInt32
  ulRights : UInt32
deriving DecidableEq, Repr

/-- The user of a session, and what the cache and the user management answer for it. -/
structure ECSecurity where
  m_ulUserID : UserId
  m_ulCompanyID : UserId
  m_bRestrictedAdmin : Bool
  m_bOwnerAutoFullAccess : Bool
  /-- The groups of the user, `none` when they cannot be read. -/
  groups : Option (List UserId)
  GetObject : ObjectCache
  /-- The store of an object, with its type. -/
  GetStoreAndType : ObjId → Except Failure (ObjId × UInt32)
  GetACLs : ObjId → Except Failure (List Rights)
  IsAdminOverUserObject : UserId → ECRESULT

namespace ECSecurity

variable (sec : ECSecurity)

def ZARAFA_UID_SYSTEM : UserId := 2

/-! ## Owners and access lists -/

/-- `ECCacheManager::GetParent`. -/
def GetParent (ulObjId : ObjId) : Except Failure ObjId := do
  let obj ← sec.GetObject ulObjId
  if obj.ulParent = CACHE_NO_PARENT then .error notFound else .ok obj.ulParent

/-- `ECSecurity::GetOwner`. The owner is set to 0 when there is none to read. -/
def GetOwner (ulObjId : ObjId) : ECRESULT × UserId :=
  match sec.GetObject ulObjId with
  | .ok obj => (.erSuccess, obj.ulOwner)
  | .error _ => (.ZARAFA_E_NOT_FOUND, 0)

/-- `ECSecurity::GetStoreOwnerAndType`, with the owner and the type it stores. -/
def GetStoreOwnerAndType (ulObjId : ObjId) : ECRESULT × UserId × UInt32 :=
  match sec.GetStoreAndType ulObjId with
  | .error er => (er.1, 0, 0)
  | .ok (ulStoreId, ulStoreType) =>
    let (er, ulOwner) := sec.GetOwner ulStoreId
    (er, ulOwner, ulStoreType)

/-- `ECSecurity::IsAdminOverOwnerOfObject`. -/
def IsAdminOverOwnerOfObject (ulObjId : ObjId) : ECRESULT :=
  match sec.GetStoreOwnerAndType ulObjId with
  | (.erSuccess, ulOwner, _) => sec.IsAdminOverUserObject ulOwner
  | (er, _, _) => er

/-- The grants of an access list for the user, the company and the groups. -/
def grantsOf (rights : List Rights) : List UInt32 :=
  let granted := rights.filter fun r => r.ulType = ACCESS_TYPE_GRANT
  let forId (id : UserId) := (granted.filter fun r => r.ulUserid = id).map (·.ulRights)
  forId sec.m_ulUserID ++ forId sec.m_ulCompanyID ++ (sec.groups.getD []).flatMap forId

/-- The loop of `GetObjectPermission`; `left` counts the parents it may still look at. -/
def objectRights : ℕ → ObjId → UInt32
  | left, ulCurObj =>
    let found := match sec.GetACLs ulCurObj with
      | .ok rights => sec.grantsOf rights
      | .error _ => []
    if found ≠ [] then found.foldl (· ||| ·) 0
    else
      match sec.GetParent ulCurObj, left with
      | .ok ulParent, left + 1 => objectRights left ulParent
      | _, _ => 0

/-- `ECSecurity::GetObjectPermission`: the rights of the nearest object with a grant. -/
def GetObjectPermission (ulObjId : ObjId) : UInt32 := sec.objectRights MAX_PARENT_LIMIT ulObjId

/-- `ECSecurity::HaveObjectPermission`: any of the rights is enough. -/
def HaveObjectPermission (ulObjId : ObjId) (ulACLMask : UInt32) : ECRESULT :=
  if sec.GetObjectPermission ulObjId &&& ulACLMask ≠ 0 then .erSuccess else .ZARAFA_E_NO_ACCESS

/-! ## Deleted parents -/

/-- The loop of `CheckDeletedParent` from its `ulDepth`-th object on, with the depth it ends with. It
runs as long as its own condition holds; `left` is how often that can be. -/
def parentWalk (cache : ObjectCache) : (left : ℕ) → (ulId : ObjId) → (ulDepth : ℕ) →
    Except Failure ℕ
  | 0, _, ulDepth => .ok ulDepth
  | left + 1, ulId, ulDepth => do
    let obj ← cache ulId
    if obj.ulFlags &&& MSGFLAG_DELETED ≠ 0 then .error notFound
    else if obj.ulType ≠ MAPI_STORE ∧ obj.ulParent ≠ CACHE_NO_PARENT ∧
        ulDepth + 1 ≤ MAX_PARENT_LIMIT then
      parentWalk cache left obj.ulParent (ulDepth + 1)
    else .ok (ulDepth + 1)

/-- `ECSecurity::CheckDeletedParent`. -/
def CheckDeletedParent (ulId : ObjId) : ECRESULT :=
  match parentWalk sec.GetObject (MAX_PARENT_LIMIT + 1) ulId 0 with
  | .error er => er.1
  | .ok ulDepth => if ulDepth = MAX_PARENT_LIMIT then .ZARAFA_E_NOT_FOUND else .erSuccess

/-! ## Permissions -/

/-- A store, and a root container, may be opened by everybody; a failed lookup is final, too. Without
an answer (`none`) the checks go on, with `er` being `erSuccess`. -/
def openContainer (ulObjId : ObjId) : Option ECRESULT :=
  match sec.GetObject ulObjId with
  | .error er => some er.1
  | .ok obj =>
    if obj.ulType = MAPI_STORE then some .erSuccess
    else
      match sec.GetObject obj.ulParent with
      | .error er => some er.1
      | .ok parent =>
        if obj.ulType = MAPI_FOLDER ∧ parent.ulType = MAPI_STORE then some .erSuccess else none

/-- The rights that a permission needs and the kind of check, `nCheckType`. -/
def neededACL (bOwnerFound : Bool) (ulStoreType ulecRights : UInt32) : UInt32 × ℕ :=
  if ulecRights = ecSecurityRead then (ecRightsReadAny, 1)
  else if ulecRights = ecSecurityCreate then (ecRightsCreate, 1)
  else if ulecRights = ecSecurityEdit then
    (ecRightsEditAny ||| (if bOwnerFound then ecRightsEditOwned else 0), 1)
  else if ulecRights = ecSecurityDelete then
    (ecRightsDeleteAny ||| (if bOwnerFound then ecRightsDeleteOwned else 0), 1)
  else if ulecRights = ecSecurityCreateFolder then (ecRightsCreateSubfolder, 1)
  else if ulecRights = ecSecurityFolderVisible then (ecRightsFolderVisible, 1)
  else if ulecRights = ecSecurityFolderAccess then
    (if !bOwnerFound ∨ ulStoreType = ECSTORE_TYPE_ARCHIVE then ecRightsFolderAccess else 0, 1)
  else if ulecRights = ecSecurityOwner then (0, 2)
  else if ulecRights = ecSecurityAdmin then (0, 3)
  else (0, 0)

/-- The permission is to look, not to change. -/
def isVisit (ulecRights : UInt32) : Bool :=
  ulecRights = ecSecurityFolderVisible ∨ ulecRights = ecSecurityRead

/-- The checks after the special case of stores and root containers, with `er` as that left it. -/
def checkRights (er : ECRESULT) (ulObjId : ObjId) (ulecRights : UInt32) : ECRESULT :=
  let (erStore, ulStoreOwnerId, ulStoreType) := sec.GetStoreOwnerAndType ulObjId
  let (erOwner, ulObjectOwnerId) := sec.GetOwner ulObjId
  let bOwnerFound := erOwner = .erSuccess ∧ ulObjectOwnerId = sec.m_ulUserID ∧
    sec.m_bOwnerAutoFullAccess
  let archive := ulStoreType = ECSTORE_TYPE_ARCHIVE
  -- the owner of the store
  if erStore = .erSuccess ∧ ulStoreOwnerId = sec.m_ulUserID ∧ (archive → isVisit ulecRights) then
    .erSuccess
  -- the owner of the object
  else if bOwnerFound ∧
      (isVisit ulecRights ∨ ¬ archive ∧ ulecRights = ecSecurityCreate) then
    .erSuccess
  -- an administrator
  else if sec.IsAdminOverOwnerOfObject ulObjId = .erSuccess ∧
      (sec.m_bRestrictedAdmin → ulecRights = ecSecurityFolderVisible ∨
        ulecRights = ecSecurityFolderAccess ∨ ulecRights = ecSecurityCreateFolder) then
    .erSuccess
  else
    match neededACL bOwnerFound ulStoreType ulecRights with
    | (ulACL, 1) => if ulACL = 0 then .erSuccess else sec.HaveObjectPermission ulObjId ulACL
    | (_, 2) => if bOwnerFound then .erSuccess else er
    | (_, 3) => .erSuccess
    | _ => er

/-- `CheckPermission` up to its exit. -/
def grants (ulObjId : ObjId) (ulecRights : UInt32) : ECRESULT :=
  if sec.m_ulUserID = ZARAFA_UID_SYSTEM then .erSuccess
  else if isVisit ulecRights then
    match sec.openContainer ulObjId with
    | some er => er
    | none => sec.checkRights .erSuccess ulObjId ulecRights
  else sec.checkRights .ZARAFA_E_NO_ACCESS ulObjId ulecRights

/-- The permissions that write: edit, create and create a folder. -/
def isWrite (ulecRights : UInt32) : Bool :=
  ulecRights = ecSecurityCreate ∨ ulecRights = ecSecurityEdit ∨ ulecRights = ecSecurityCreateFolder

/-- `ECSecurity::CheckPermission`. -/
def CheckPermission (ulObjId : ObjId) (ulecRights : UInt32) : ECRESULT :=
  let er := sec.grants ulObjId ulecRights
  if er = .erSuccess ∧ isWrite ulecRights then sec.CheckDeletedParent ulObjId else er

end ECSecurity

end Zcp.Libserver
