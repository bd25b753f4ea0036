import Zcp.Libserver.ECGenericObjectTable

/-!
# Subrestrictions

Reference: `provider/libserver/ECSubRestriction.cpp`, and `RES_SUBRESTRICTION` of `ECGenericObjectTable::MatchRowRestrict`.

A subrestriction asks for an attachment or a recipient of a message that meets a restriction of its own. The
subrestrictions of a tree are numbered in depth-first order and each is run first, for all messages at once; the tree is
then evaluated with their results.
-/

namespace Zcp.Libserver.ECSubRestriction

open Zcp.Common

inductive Failure where
  | ZARAFA_E_INVALID_TYPE
  | ZARAFA_E_INVALID_PARAMETER
  | ZARAFA_E_TOO_COMPLEX
deriving DecidableEq, Repr

def SUBRESTRICTION_MAXDEPTH : ℕ := 64

/-- `restrictTable`; `other` is one of the restrictions that have no restriction below them, and `S` are the
subrestrictions. -/
inductive RestrictTable (L S : Type) where
  | RES_AND (lpAnd : List (RestrictTable L S))
  | RES_OR (lpOr : List (RestrictTable L S))
  | RES_NOT (lpNot : RestrictTable L S)
  | RES_COMMENT (lpResTable : RestrictTable L S)
  | RES_SUBRESTRICTION (lpSub : S)
  | other (lpRes : L)

/-- A restriction with no restriction below it. -/
def IsLeaf {T : Type} : Restriction T → Bool
  | .RES_AND _ | .RES_OR _ | .RES_NOT _ | .RES_COMMENT _ => false
  | _ => true

abbrev Leaf (T : Type) := {lpRes : Restriction T // IsLeaf lpRes = true}

/-- What a subrestriction is about; `other` is refused. -/
inductive SubObject where
  | PR_MESSAGE_RECIPIENTS
  | PR_MESSAGE_ATTACHMENTS
  | other
deriving DecidableEq, Repr

/-- `restrictSub`. -/
inductive RestrictSub (T : Type) where
  | mk (ulSubObject : SubObject) (lpSubObject : RestrictTable (Leaf T) (RestrictSub T))

section Numbering

variable {L S : Type}

mutual

/-- `GetSubRestrictionRecursive`: the count, and what is found under the number that is looked for. A comment is not
descended into. -/
def GetSubRestrictionRecursive (ulSubRestriction : Option ℕ) :
    RestrictTable L S → ℕ → ℕ × Option S → Except Failure (ℕ × Option S)
  | _, 0, _ => .error .ZARAFA_E_TOO_COMPLEX
  | .RES_AND lpAnd, maxdepth + 1, st => GetSubRestrictionAll ulSubRestriction lpAnd maxdepth st
  | .RES_OR lpOr, maxdepth + 1, st => GetSubRestrictionAll ulSubRestriction lpOr maxdepth st
  | .RES_NOT lpNot, maxdepth + 1, st => GetSubRestrictionRecursive ulSubRestriction lpNot maxdepth st
  | .RES_COMMENT _, _ + 1, st => .ok st
  | .other _, _ + 1, st => .ok st
  | .RES_SUBRESTRICTION lpSub, _ + 1, (ulCount, lpSubRestrict) =>
    .ok (ulCount + 1, if ulSubRestriction = some ulCount then some lpSub else lpSubRestrict)

/-- The loops of `RES_AND` and `RES_OR`. -/
def GetSubRestrictionAll (ulSubRestriction : Option ℕ) :
    List (RestrictTable L S) → ℕ → ℕ × Option S → Except Failure (ℕ × Option S)
  | [], _, st => .ok st
  | lpRes :: rest, maxdepth, st =>
    match GetSubRestrictionRecursive ulSubRestriction lpRes maxdepth st with
    | .error er => .error er
    | .ok st => GetSubRestrictionAll ulSubRestriction rest maxdepth st

end

def GetSubRestrictionCount (lpRestrict : RestrictTable L S) : Except Failure ℕ :=
  (GetSubRestrictionRecursive none lpRestrict SUBRESTRICTION_MAXDEPTH (0, none)).map Prod.fst

/-- `lpSubRestrict` is what the caller's variable holds before. -/
def GetSubRestriction (lpBase : RestrictTable L S) (ulCount : ℕ) (lpSubRestrict : Option S) : Except Failure (Option S) :=
  (GetSubRestrictionRecursive (some ulCount) lpBase SUBRESTRICTION_MAXDEPTH (0, lpSubRestrict)).map Prod.snd

/-- The loop of `RunSubRestrictions` from `i` on, with `n` turns left. A subrestriction that is not found would be a null
pointer. -/
def runLoop (run : S → Except Failure (List ℕ)) (lpRestrict : RestrictTable L S) (i : ℕ) (lpSubRestrict : Option S) :
    ℕ → Except Failure (List (List ℕ))
  | 0 => .ok []
  | n + 1 =>
    match GetSubRestriction lpRestrict i lpSubRestrict with
    | .error er => .error er
    | .ok none => .error .ZARAFA_E_INVALID_PARAMETER
    | .ok (some lpSub) =>
      match run lpSub with
      | .error er => .error er
      | .ok lpResult => (runLoop run lpRestrict (i + 1) (some lpSub) n).map (lpResult :: ·)

/-- `RunSubRestrictions`, with the function that runs a single one. -/
def RunSubRestrictions (run : S → Except Failure (List ℕ)) (lpRestrict : RestrictTable L S) :
    Except Failure (List (List ℕ)) :=
  match GetSubRestrictionCount lpRestrict with
  | .error er => .error er
  | .ok ulCount => runLoop run lpRestrict 0 none ulCount

end Numbering

section Evaluation

variable {L S : Type} (leaf : L → Except Failure Bool) (sub : S → Except Failure Bool)

mutual

/-- The switch of `MatchRowRestrict`, with the cases of its leaves. -/
def matchTree : RestrictTable L S → Except Failure Bool
  | .RES_COMMENT lpResTable => matchTree lpResTable
  | .RES_OR lpOr => matchOr lpOr
  | .RES_AND lpAnd => matchAnd lpAnd
  | .RES_NOT lpNot =>
    match matchTree lpNot with
    | .error er => .error er
    | .ok fMatch => .ok !fMatch
  | .RES_SUBRESTRICTION lpSub => sub lpSub
  | .other lpRes => leaf lpRes

/-- The loop of `RES_AND`. -/
def matchAnd : List (RestrictTable L S) → Except Failure Bool
  | [] => .ok true
  | lpRes :: rest =>
    match matchTree lpRes with
    | .error er => .error er
    | .ok true => matchAnd rest
    | .ok false => .ok false

/-- The loop of `RES_OR`. -/
def matchOr : List (RestrictTable L S) → Except Failure Bool
  | [] => .ok false
  | lpRes :: rest =>
    match matchTree lpRes with
    | .error er => .error er
    | .ok true => .ok true
    | .ok false => matchOr rest

end

end Evaluation

section Rows

variable {T : Type} (s : Strings T) (GetObjectFromEntryId : List UInt8 → Option ℕ) (row : List (Property T))

def PR_ENTRYID : PropTag := ⟨0x0FFF, .PT_BINARY, by decide⟩

/-- A restriction without restrictions below it, on a row. -/
def leafMatch (lpRes : Leaf T) : Except Failure Bool :=
  match ECGenericObjectTable.matchRowRestrict s row lpRes.1 with
  | .error .ZARAFA_E_INVALID_TYPE => .error .ZARAFA_E_INVALID_TYPE
  | .ok fMatch => .ok fMatch

/-- The bytes of the entry id of the row. -/
def entryIdOf : Option (List UInt8) :=
  match ECGenericObjectTable.findProp row PR_ENTRYID with
  | some ⟨_, .PT_BINARY bin, _⟩ => some bin.elems
  | _ => none

/-- The case of `RES_SUBRESTRICTION`: whether the object of the row is in the results at `ulSubRestrict`. -/
def subMatch (lpSubResults : Option (List (List ℕ))) (ulSubRestrict : ℕ) : Except Failure Bool :=
  match entryIdOf row with
  | none => .error .ZARAFA_E_INVALID_TYPE
  | some sEntryId =>
    match lpSubResults with
    | none => .ok false
    | some results =>
      match results[ulSubRestrict]? with
      | none => .ok false
      | some result =>
        match GetObjectFromEntryId sEntryId with
        | none => .ok false
        | some ulResId => .ok (ulResId ∈ result)

/-- `MatchRowRestrict`. Each call looks at the results with its own variable `ulSubRestrict`, which is 0 from its
declaration on; the pointer `lpulSubRestriction` is passed down, but nothing is read or written through it. -/
def MatchRowRestrict (lpSubResults : Option (List (List ℕ))) (lpsRestrict : RestrictTable (Leaf T) (RestrictSub T)) :
    Except Failure Bool :=
  let ulSubRestrict := 0
  matchTree (leafMatch s row) (fun _ => subMatch GetObjectFromEntryId row lpSubResults ulSubRestrict) lpsRestrict

end Rows

/-! ## The search in the database -/

/-- A row of the table `hierarchy`, of a recipient or an attachment. -/
structure HierarchyRow where
  parent : ℕ
  id : ℕ
  type : SubObject
deriving DecidableEq

/-- What a subrestriction is run on. -/
structure SearchData (T : Type) where
  strings : Strings T
  GetObjectFromEntryId : List UInt8 → Option ℕ
  hierarchy : List HierarchyRow
  /-- `QueryRowData` of a single object. -/
  rowData : ℕ → List (Property T)
  /-- The messages to be searched. -/
  lpObjects : List ℕ

/-- The loop over the recipients or attachments: the parents of those that match. -/
def subObjectLoop {T : Type} (data : SearchData T) (lpSubObject : RestrictTable (Leaf T) (RestrictSub T)) :
    List HierarchyRow → Except Failure (List ℕ)
  | [] => .ok []
  | object :: rest =>
    match MatchRowRestrict data.strings data.GetObjectFromEntryId (data.rowData object.id) none lpSubObject with
    | .error er => .error er
    | .ok fMatch =>
      (subObjectLoop data lpSubObject rest).map fun lpResult => if fMatch then object.parent :: lpResult else lpResult

/-- `RunSubRestriction`: the messages with a recipient or an attachment that meets the restriction. -/
def RunSubRestriction {T : Type} (data : SearchData T) : RestrictSub T → Except Failure (List ℕ)
  | .mk ulSubObject lpSubObject =>
    if data.lpObjects.isEmpty then .ok []
    else if ulSubObject = .other then .error .ZARAFA_E_INVALID_PARAMETER
    else
      subObjectLoop data lpSubObject
        (data.hierarchy.filter fun object => object.type = ulSubObject ∧ object.parent ∈ data.lpObjects)

end Zcp.Libserver.ECSubRestriction
