import Zcp.Libserver.ECICS

/-!
# Importing changes

`IsProcessed` and `IsConflict` of `provider/client/ECExchangeImportContentsChanges.cpp`: does a message have to be
imported, and does this overwrite a change that the other side has not seen. A property that is missing is
`none`. Numbers are stored least significant byte first.
-/

namespace Zcp.Client.ECExchangeImportContentsChanges

open Zcp.Lib
open Zcp.Common
open Zcp.Libserver.ECICS

/-- An entry of a change list is the change key. -/
def isEntry (lpRemoteCK entry : List UInt8) (ulSize : ℕ) : Option Bool :=
  if sizeofGUID < lpRemoteCK.length then
    match memcmp entry lpRemoteCK sizeofGUID with
    | none => none
    | some false => some false
    | some true =>
      if ulSize = lpRemoteCK.length then memcmp entry lpRemoteCK ulSize else some false
  else some false

/-- The loop of `IsProcessed`. It is `none` when memory outside of the list is looked at, or when the loop
does not come to an end. -/
def isProcessedLoop (lpRemoteCK strChangeList : List UInt8) : ℕ → ℕ → Option Bool
  | 0, _ => none
  | fuel + 1, ulPos =>
    if ulPos < strChangeList.length then
      let ulSize := ofChar 64 (strChangeList.getD ulPos 0)
      if ulSize ≤ sizeofGUID then some false
      else
        match isEntry lpRemoteCK (strChangeList.drop (ulPos + 1)) ulSize with
        | none => none
        | some true => some true
        | some false =>
          isProcessedLoop lpRemoteCK strChangeList fuel ((ulPos + 1 + ulSize) % 2 ^ 64)
    else some false

def isProcessed (lpRemoteCK lpLocalPCL : Option (List UInt8)) : Option Bool :=
  match lpRemoteCK, lpLocalPCL with
  | some lpRemoteCK, some strChangeList =>
    isProcessedLoop lpRemoteCK strChangeList (strChangeList.length + 1) 0
  | _, _ => some false

/-- The number behind the GUID. -/
def changeNumber (lpb : List UInt8) : Option ℕ :=
  if sizeofGUID + 4 ≤ lpb.length then some (ofLittleEndian ((lpb.drop sizeofGUID).take 4)) else none

/-- An entry of a change list against the local change key: `none` for another GUID, or if the local number
is higher. -/
def isNewer (lpLocalCK entry : List UInt8) : Option (Option Bool) :=
  if sizeofGUID < lpLocalCK.length then
    match memcmp entry lpLocalCK sizeofGUID with
    | none => none
    | some false => some none
    | some true =>
      match changeNumber entry, changeNumber lpLocalCK with
      | some ulRemoteChangeNumber, some ulLocalChangeNumber =>
        some (some (ulRemoteChangeNumber < ulLocalChangeNumber))
      | _, _ => none
  else some none

/-- The loop of `IsConflict`. -/
def isConflictLoop (lpLocalCK strChangeList : List UInt8) : ℕ → ℕ → Bool → Option Bool
  | 0, _, _ => none
  | fuel + 1, ulPos, bGuidFound =>
    if ulPos < strChangeList.length then
      let ulSize := ofChar 64 (strChangeList.getD ulPos 0)
      if ulSize ≤ sizeofGUID then some (!bGuidFound)
      else
        let ulNext := (ulPos + 1 + ulSize) % 2 ^ 64
        match isNewer lpLocalCK (strChangeList.drop (ulPos + 1)) with
        | none => none
        | some none => isConflictLoop lpLocalCK strChangeList fuel ulNext bGuidFound
        | some (some true) => some true
        | some (some false) => isConflictLoop lpLocalCK strChangeList fuel ulNext true
    else some (!bGuidFound)

def isConflict (lpLocalCK lpRemotePCL : Option (List UInt8)) : Option Bool :=
  match lpLocalCK, lpRemotePCL with
  | some lpLocalCK, some strChangeList =>
    isConflictLoop lpLocalCK strChangeList (strChangeList.length + 1) 0 false
  | _, _ => some false

/-! ## Lists of changes -/

section Changes

variable {changes : List (GUID × BitVec 32)} {fuel : ℕ}

/-- The place behind an entry. -/
theorem next_entry {before : List UInt8} (change : GUID × BitVec 32)
    (hlt : (before ++ 20 :: (szChangeKey change.1 change.2 ++ changeList changes)).length < 2 ^ 31) :
    (before.length + 1 + 20) % 2 ^ 64 = (before ++ 20 :: szChangeKey change.1 change.2).length ∧
      before ++ 20 :: (szChangeKey change.1 change.2 ++ changeList changes) =
        (before ++ 20 :: szChangeKey change.1 change.2) ++ changeList changes := by
  rw [List.length_append, List.length_cons, List.length_append, length_szChangeKey] at hlt
  constructor
  · rw [List.length_append, List.length_cons, length_szChangeKey]
    exact Nat.mod_eq_of_lt (by omega)
  · rw [List.append_assoc, List.cons_append]

theorem ofLittleEndian_changeid (changeid : BitVec 32) :
    ofLittleEndian (littleEndian 4 changeid.toNat) = changeid.toNat :=
  (ofLittleEndian_littleEndian 4 _).trans (Nat.mod_eq_of_lt changeid.isLt)

theorem isEntry_szChangeKey (remote change : GUID × BitVec 32) (rest : List UInt8) :
    isEntry (szChangeKey remote.1 remote.2) (szChangeKey change.1 change.2 ++ rest) 20 =
      some (decide (change = remote)) := by
  have hguid := memcmp_szChangeKey change remote rest []
  rw [List.append_nil] at hguid
  have hremote := length_szChangeKey remote.1 remote.2
  have hchange := length_szChangeKey change.1 change.2
  unfold isEntry
  rw [hremote, if_pos (by decide), hguid]
  by_cases heq : change.1 = remote.1
  · have hall : memcmp (szChangeKey change.1 change.2 ++ rest) (szChangeKey remote.1 remote.2) 20 =
        some (szChangeKey change.1 change.2 == szChangeKey remote.1 remote.2) := by
      have hlong : 20 ≤ (szChangeKey change.1 change.2 ++ rest).length := by
        rw [List.length_append, hchange]
        exact Nat.le_add_right 20 _
      unfold Libserver.ECICS.memcmp
      rw [if_pos ⟨hlong, hremote.ge⟩, List.take_left' hchange, List.take_of_length_le hremote.le]
    rw [decide_eq_true heq]
    change (if 20 = 20 then _ else _) = _
    rw [if_pos rfl, hall, Option.some_inj, Bool.eq_iff_iff, beq_iff_eq, decide_eq_true_eq]
    constructor
    · intro hkey
      refine Prod.ext heq (BitVec.eq_of_toNat_eq ?_)
      have hnumber := congrArg ofLittleEndian (List.append_inj_right hkey
        (change.1.length_eq.trans remote.1.length_eq.symm))
      rwa [ofLittleEndian_changeid, ofLittleEndian_changeid] at hnumber
    · rintro rfl
      rfl
  · rw [decide_eq_false heq]
    exact congrArg some (decide_eq_false fun h => heq (congrArg Prod.fst h)).symm

theorem changeNumber_szChangeKey (change : GUID × BitVec 32) (rest : List UInt8) :
    changeNumber (szChangeKey change.1 change.2 ++ rest) = some change.2.toNat := by
  have hlong : sizeofGUID + 4 ≤ (szChangeKey change.1 change.2 ++ rest).length := by
    rw [List.length_append, length_szChangeKey]
    exact Nat.le_add_right 20 _
  have hnumber : ((szChangeKey change.1 change.2 ++ rest).drop sizeofGUID).take 4 =
      littleEndian 4 change.2.toNat := by
    have hdrop : (change.1.bytes ++ (littleEndian 4 change.2.toNat ++ rest)).drop sizeofGUID =
        littleEndian 4 change.2.toNat ++ rest := List.drop_left' change.1.length_eq
    rw [szChangeKey, List.append_assoc, hdrop]
    exact List.take_left' (length_littleEndian 4 _)
  unfold changeNumber
  rw [if_pos hlong, hnumber, ofLittleEndian_changeid]

theorem isNewer_szChangeKey (localChange change : GUID × BitVec 32) (rest : List UInt8) :
    isNewer (szChangeKey localChange.1 localChange.2) (szChangeKey change.1 change.2 ++ rest) =
      some (if change.1 = localChange.1 then some (decide (change.2 < localChange.2)) else none) := by
  have hguid := memcmp_szChangeKey change localChange rest []
  have hnumber := changeNumber_szChangeKey localChange []
  rw [List.append_nil] at hguid hnumber
  unfold isNewer
  rw [length_szChangeKey, if_pos (by decide), hguid]
  by_cases heq : change.1 = localChange.1
  · rw [decide_eq_true heq, if_pos heq, hnumber, changeNumber_szChangeKey]
    rfl
  · rw [decide_eq_false heq, if_neg heq]

/-- A change is in the list, or it is to be imported. -/
theorem isProcessedLoop_changeList (before : List UInt8) (remote : GUID × BitVec 32) (hfuel : changes.length < fuel)
    (hlt : (before ++ changeList changes).length < 2 ^ 31) :
    isProcessedLoop (szChangeKey remote.1 remote.2) (before ++ changeList changes) fuel before.length =
      some (decide (remote ∈ changes)) := by
  induction changes generalizing fuel before with
  | nil =>
    obtain ⟨fuel, rfl⟩ := Nat.exists_eq_succ_of_ne_zero (Nat.ne_of_gt hfuel)
    have hend : ¬ before.length < (before ++ changeList []).length := by
      rw [List.length_append]
      exact lt_irrefl _
    rw [isProcessedLoop, if_neg hend, decide_eq_false List.not_mem_nil]
  | cons change changes ih =>
    obtain ⟨fuel, rfl⟩ := Nat.exists_eq_succ_of_ne_zero (Nat.ne_of_gt (Nat.zero_lt_of_lt hfuel))
    rw [changeList_cons] at hlt ⊢
    obtain ⟨hnext, happend⟩ := next_entry change hlt
    have hsmall : ¬ 20 ≤ sizeofGUID := by decide
    rw [isProcessedLoop, if_pos (length_entry before _)]
    simp only [getD_entry, ofChar_key, if_neg hsmall, drop_entry, isEntry_szChangeKey]
    by_cases heq : change = remote
    · rw [decide_eq_true heq, decide_eq_true (heq ▸ List.mem_cons_self)]
    · rw [decide_eq_false heq]
      simp only
      rw [hnext, happend, ih _ (Nat.lt_of_succ_lt_succ hfuel) (happend ▸ hlt)]
      exact congrArg some (decide_eq_decide.mpr (List.mem_cons.trans
        (or_iff_right (Ne.symm heq))).symm)

theorem isProcessed_changeList (remote : GUID × BitVec 32) (hlt : (changeList changes).length < 2 ^ 31) :
    isProcessed (some (szChangeKey remote.1 remote.2)) (some (changeList changes)) =
      some (decide (remote ∈ changes)) :=
  isProcessedLoop_changeList [] remote
    (Nat.lt_succ_of_le (length_le_changeList changes)) hlt

/-- The local change is not in the list, neither itself nor behind a higher number. -/
def unseen (localChange : GUID × BitVec 32) (changes : List (GUID × BitVec 32)) : Bool :=
  (changes.any fun change => change.1 = localChange.1 ∧ change.2 < localChange.2) ||
    !(changes.any fun change => change.1 = localChange.1)

theorem isConflictLoop_changeList (before : List UInt8) (localChange : GUID × BitVec 32)
    (bGuidFound : Bool) (hfuel : changes.length < fuel) (hlt : (before ++ changeList changes).length < 2 ^ 31) :
    isConflictLoop (szChangeKey localChange.1 localChange.2) (before ++ changeList changes) fuel
        before.length bGuidFound =
      some ((changes.any fun change => change.1 = localChange.1 ∧ change.2 < localChange.2) ||
        !(bGuidFound || changes.any fun change => change.1 = localChange.1)) := by
  induction changes generalizing fuel before bGuidFound with
  | nil =>
    obtain ⟨fuel, rfl⟩ := Nat.exists_eq_succ_of_ne_zero (Nat.ne_of_gt hfuel)
    have hend : ¬ before.length < (before ++ changeList []).length := by
      rw [List.length_append]
      exact lt_irrefl _
    rw [isConflictLoop, if_neg hend, List.any_nil, List.any_nil, Bool.false_or, Bool.or_false]
  | cons change changes ih =>
    obtain ⟨fuel, rfl⟩ := Nat.exists_eq_succ_of_ne_zero (Nat.ne_of_gt (Nat.zero_lt_of_lt hfuel))
    rw [changeList_cons] at hlt ⊢
    obtain ⟨hnext, happend⟩ := next_entry change hlt
    have hsmall : ¬ 20 ≤ sizeofGUID := by decide
    have hrest (b : Bool) := ih (before ++ 20 :: szChangeKey change.1 change.2) b (Nat.lt_of_succ_lt_succ hfuel) (happend ▸ hlt)
    rw [isConflictLoop, if_pos (length_entry before _)]
    simp only [getD_entry, ofChar_key, if_neg hsmall, drop_entry, isNewer_szChangeKey, hnext]
    rw [List.any_cons, List.any_cons]
    by_cases heq : change.1 = localChange.1
    · have hsame := decide_eq_true heq
      by_cases hnewer : change.2 < localChange.2
      · have hboth := decide_eq_true (And.intro heq hnewer)
        simp only [if_pos heq, decide_eq_true hnewer, hboth, Bool.true_or]
      · have hboth : decide (change.1 = localChange.1 ∧ change.2 < localChange.2) = false :=
          decide_eq_false fun h => hnewer h.2
        simp only [if_pos heq, decide_eq_false hnewer, hsame, hboth, Bool.false_or, Bool.true_or,
          Bool.or_true]
        rw [happend, hrest true, Bool.true_or]
    · have hboth : decide (change.1 = localChange.1 ∧ change.2 < localChange.2) = false :=
        decide_eq_false fun h => heq h.1
      simp only [if_neg heq, decide_eq_false heq, hboth, Bool.false_or]
      rw [happend, hrest bGuidFound]

theorem isConflict_changeList (localChange : GUID × BitVec 32) (hlt : (changeList changes).length < 2 ^ 31) :
    isConflict (some (szChangeKey localChange.1 localChange.2)) (some (changeList changes)) =
      some (unseen localChange changes) :=
  isConflictLoop_changeList [] localChange false
    (Nat.lt_succ_of_le (length_le_changeList changes)) hlt

end Changes

end Zcp.Client.ECExchangeImportContentsChanges
