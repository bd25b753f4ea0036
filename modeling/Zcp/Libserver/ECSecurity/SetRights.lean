import Zcp.Libserver.ECSecurity

/-!
# Setting rights

`ECSecurity::SetRights` of `provider/libserver/ECSecurity.cpp`: the statements on the table `acl` that it
sends for an array of rights, one after the other, each of them committed on its own.
-/

namespace Zcp.Libserver

namespace ECSecurity

/-! ## Rights -/

def ACCESS_TYPE_DENIED : UInt32 := 1

def ecRightsAllMask : UInt32 := 0x15FB

def RIGHT_NORMAL : UInt32 := 0

def RIGHT_NEW : UInt32 := 1

def RIGHT_MODIFY : UInt32 := 2

def RIGHT_DELETED : UInt32 := 4

def RIGHT_AUTOUPDATE_DENIED : UInt32 := 8

/-- An element of `rightsArray`. An entry id without bytes is no entry id. -/
structure RightsEntry where
  sUserId : List UInt8
  ulUserid : UserId
  ulType : UInt32
  ulRights : UInt32
  ulState : UInt32

/-- Owning implies less than any: the denied right for the owned objects follows the one for any. -/
def denyOwned (ulRights any owned ulDeniedRights : UInt32) : UInt32 :=
  if ulRights &&& any ≠ 0 then ulDeniedRights &&& ~~~owned
  else if ulRights &&& owned ≠ 0 then (ulDeniedRights &&& ~~~owned) ||| any
  else ulDeniedRights

/-- The denied rights that are created for rights. -/
def deniedRights (ulRights : UInt32) : UInt32 :=
  denyOwned ulRights ecRightsDeleteAny ecRightsDeleteOwned
    (denyOwned ulRights ecRightsEditAny ecRightsEditOwned (ulRights ^^^ ecRightsAllMask))

/-! ## Statements -/

/-- A row of the table `acl`. -/
structure AclRow where
  hierarchy_id : ObjId
  right : Rights
deriving DecidableEq, Repr

/-- Rows with the same primary key. -/
def AclRow.SameKey (row row' : AclRow) : Prop :=
  row.hierarchy_id = row'.hierarchy_id ∧ row.right.ulUserid = row'.right.ulUserid ∧
    row.right.ulType = row'.right.ulType

instance (row row' : AclRow) : Decidable (row.SameKey row') := inferInstanceAs (Decidable (_ ∧ _))

/-- `REPLACE INTO acl` and `DELETE FROM acl`, with the object left out. -/
inductive AclStatement where
  | replace (right : Rights)
  | delete (id : UserId) (type : UInt32)

/-- Put a row in the place of the row with its key, or behind all rows. -/
def replaceInto (row : AclRow) : List AclRow → List AclRow
  | [] => [row]
  | r :: acl => if r.SameKey row then row :: acl else r :: replaceInto row acl

/-- A statement on the rows of an object. -/
def AclStatement.run (objid : ObjId) (acl : List AclRow) : AclStatement → List AclRow
  | .replace right => replaceInto ⟨objid, right⟩ acl
  | .delete id type => acl.filter fun row => ¬ row.SameKey ⟨objid, ⟨id, type, 0⟩⟩

/-- The rows of an object. -/
def selectRights (acl : List AclRow) (objid : ObjId) : List Rights :=
  (acl.filter fun row => row.hierarchy_id = objid).map AclRow.right

/-! ## The array -/

/-- The class of a user object, as far as rights care for it. -/
inductive ObjectClass where
  | ACTIVE_USER
  | DISTLIST_SECURITY
  | CONTAINER_COMPANY
  | other
deriving DecidableEq, Repr

/-- What the user management and the address book know. -/
structure UserManagement where
  /-- The local id and the extern id of an entry id. -/
  ABEntryIDToID : List UInt8 → Except Failure (UserId × List UInt8)
  GetLocalId : List UInt8 → Except Failure UserId
  GetObjectDetails : UserId → Except Failure ObjectClass

/-- The local id of the user of an entry, and the class of this user. -/
def UserManagement.user (users : UserManagement) (r : RightsEntry) :
    Except Failure (UserId × ObjectClass) := do
  let ulUserId ←
    (if r.sUserId ≠ [] then do
      let (ulUserId, sExternId) ← users.ABEntryIDToID r.sUserId
      -- an internal user or group has no extern id
      if sExternId ≠ [] then users.GetLocalId sExternId else .ok ulUserId
    else .ok r.ulUserid : Except Failure UserId)
  let sDetails ← users.GetObjectDetails ulUserId
  .ok (ulUserId, sDetails)

/-- Rights can only be set on active users, on security groups and on companies; they can always be
deleted. -/
def RightsEntry.Refused (r : RightsEntry) (sDetails : ObjectClass) : Prop :=
  r.ulState &&& ~~~(RIGHT_DELETED ||| RIGHT_AUTOUPDATE_DENIED) ≠ 0 ∧ sDetails = .other

instance (r : RightsEntry) (sDetails : ObjectClass) : Decidable (r.Refused sDetails) :=
  inferInstanceAs (Decidable (_ ∧ _))

/-- The statements for an entry. -/
def RightsEntry.statements (r : RightsEntry) (ulUserId : UserId) : List AclStatement :=
  let withDenied := r.ulState &&& RIGHT_AUTOUPDATE_DENIED ≠ 0
  if r.ulState = RIGHT_NORMAL then []
  else if r.ulState &&& RIGHT_NEW ≠ 0 ∨ r.ulState &&& RIGHT_MODIFY ≠ 0 then
    .replace ⟨ulUserId, r.ulType, r.ulRights⟩ ::
      if withDenied then [.replace ⟨ulUserId, ACCESS_TYPE_DENIED, deniedRights r.ulRights⟩] else []
  else if r.ulState &&& RIGHT_DELETED ≠ 0 then
    .delete ulUserId r.ulType :: if withDenied then [.delete ulUserId ACCESS_TYPE_DENIED] else []
  else []

/-- The answer of `SetRights`. -/
inductive SetRightsResult where
  | erSuccess
  | failure (er : Failure)
  | ZARAFA_E_INVALID_PARAMETER
  | ZARAFA_W_PARTIAL_COMPLETION

/-- The loop of `SetRights`: the statements, up to a user that is not found, and the answer if all of them
succeed. -/
def setRightsLoop (users : UserManagement) (size : ℕ) :
    (ulErrors : ℕ) → List RightsEntry → List AclStatement × SetRightsResult
  | ulErrors, [] =>
    ([], if ulErrors = size then .ZARAFA_E_INVALID_PARAMETER
      else if ulErrors ≠ 0 then .ZARAFA_W_PARTIAL_COMPLETION else .erSuccess)
  | ulErrors, r :: rights =>
    match users.user r with
    | .error er => ([], .failure er)
    | .ok (ulUserId, sDetails) =>
      if r.Refused sDetails then setRightsLoop users size (ulErrors + 1) rights
      else
        let (rest, er) := setRightsLoop users size ulErrors rights
        (r.statements ulUserId ++ rest, er)

/-- The statements of `SetRights`, and its answer if all of them succeed. -/
def SetRights (users : UserManagement) (lpsRightsArray : List RightsEntry) :
    List AclStatement × SetRightsResult :=
  setRightsLoop users lpsRightsArray.length 0 lpsRightsArray

/-! ## What a statement changes -/

theorem selectRights_replaceInto {o objid : ObjId} (ho : o ≠ objid) (right : Rights) (acl : List AclRow) :
    selectRights (replaceInto ⟨objid, right⟩ acl) o = selectRights acl o := by
  have hnew : decide (objid = o) = false := decide_eq_false fun h => ho h.symm
  induction acl with
  | nil => rw [replaceInto, selectRights, List.filter_cons_of_neg (by simpa using ho.symm)]; rfl
  | cons r acl ih =>
    rw [replaceInto]
    split_ifs with hkey
    · have hr : r.hierarchy_id ≠ o := fun h => ho (h.symm.trans hkey.1)
      rw [selectRights, selectRights, List.filter_cons_of_neg (by simpa using ho.symm),
        List.filter_cons_of_neg (by simpa using hr)]
    · rw [selectRights] at ih ⊢
      rw [selectRights] at ih ⊢
      rw [List.filter_cons, List.filter_cons]
      split_ifs
      · rw [List.map_cons, ih, List.map_cons]
      · exact ih

/-- A statement leaves the rows of other objects. -/
theorem selectRights_run {o objid : ObjId} (ho : o ≠ objid) (acl : List AclRow) (s : AclStatement) :
    selectRights (s.run objid acl) o = selectRights acl o := by
  cases s with
  | replace right => exact selectRights_replaceInto ho right acl
  | delete id type =>
    show List.map _ (List.filter _ (List.filter _ acl)) = _
    rw [List.filter_filter, selectRights]
    congr 1
    refine List.filter_congr fun row _ => ?_
    by_cases hrow : row.hierarchy_id = o
    · have hkey : ¬ row.SameKey ⟨objid, ⟨id, type, 0⟩⟩ := fun h => ho (hrow.symm.trans h.1)
      simp [hrow, hkey]
    · simp [hrow]

end ECSecurity

end Zcp.Libserver
