import Zcp.Client.ECExchangeImportContentsChanges

/-!
# What to do with a change

`ImportMessageChange` and `ImportMessageChangeAsAStream` up to the point where the message is written: the message
is gone on this side, the change is known already, or it is to be applied, with or without a copy of what it
overwrites. A message that was soft-deleted still has its entry id and its properties, but it cannot be opened.
`sameDecision_iff` says for which messages and changes the two functions decide alike.
-/

namespace Zcp.Client.ECExchangeImportContentsChanges

/-! ## Messages and changes -/

/-- The properties of a message that `getChangeInfo` selects. -/
structure ChangeInfo where
  sPropCK : Option (List UInt8)
  sPropPCL : Option (List UInt8)
deriving DecidableEq

/-- What the server has under a source key. -/
inductive LocalMessage where
  | absent
  | softDeleted (info : ChangeInfo)
  | present (info : ChangeInfo)
deriving DecidableEq

/-- Can the message be opened? -/
def LocalMessage.OpenEntry : LocalMessage → Bool
  | .absent | .softDeleted _ => false
  | .present _ => true

/-- The properties of the change that are looked at. -/
structure PropArray where
  lpMessageSourceKey : Option (List UInt8)
  lpMessageFlags : Option (BitVec 32)
  lpMessageAssociated : Option Bool
  lpRemotePCL : Option (List UInt8)
  lpRemoteCK : Option (List UInt8)

def MSGFLAG_ASSOCIATED : BitVec 32 := 0x40

def SYNC_NEW_MESSAGE : BitVec 32 := 0x800

def PropArray.bAssociatedMessage (lpPropArray : PropArray) : Bool :=
  lpPropArray.lpMessageFlags.any (fun ul => ul &&& MSGFLAG_ASSOCIATED != 0) ||
    lpPropArray.lpMessageAssociated.any id

/-- `SYNC_E_OBJECT_DELETED`, `SYNC_E_IGNORE`, or the message is written, for a conflict after a copy of it was
saved. -/
inductive Decision where
  | objectDeleted
  | ignore
  | apply
  | applyAfterConflict
deriving DecidableEq

variable (lpTransport : List UInt8 → LocalMessage) (lpPropArray : PropArray) (ulFlags : BitVec 32)

/-- The message that the change is about: `HrEntryIDFromSourceKey`, if there is a source key. -/
def localMessage : LocalMessage :=
  match lpPropArray.lpMessageSourceKey with
  | some lpMessageSourceKey => lpTransport lpMessageSourceKey
  | none => .absent

/-- The flags after the source key was looked for. -/
def newFlags : BitVec 32 :=
  if lpPropArray.lpMessageSourceKey.isNone then ulFlags ||| SYNC_NEW_MESSAGE else ulFlags

/-! ## The two functions -/

/-- `none` when `IsProcessed` or `IsConflict` have no result. -/
def ImportMessageChange : Option Decision :=
  match localMessage lpTransport lpPropArray with
  | .absent =>
    if newFlags lpPropArray ulFlags &&& SYNC_NEW_MESSAGE = 0 then some .objectDeleted else some .apply
  -- OpenEntry
  | .softDeleted _ => some .objectDeleted
  | .present info =>
    -- lpPropPCL is NULL here
    match isProcessed lpPropArray.lpRemoteCK none with
    | none => none
    | some true => some .ignore
    | some false =>
      if lpPropArray.bAssociatedMessage = false ∧ info.sPropCK.isSome then
        match isConflict info.sPropCK lpPropArray.lpRemotePCL with
        | none => none
        | some true => some .applyAfterConflict
        | some false => some .apply
      else some .apply

/-- `GetChangeInfo`: `none` for `MAPI_E_NOT_FOUND`. The server does not ask whether the message is deleted. -/
def GetChangeInfo : LocalMessage → Option (List UInt8 × List UInt8)
  | .absent => none
  | .softDeleted info | .present info =>
    match info.sPropCK, info.sPropPCL with
    | some ptrPropCK, some ptrPropPCL => some (ptrPropCK, ptrPropPCL)
    | _, _ => none

def ImportMessageUpdateAsStream (lpMessage : LocalMessage) : Option Decision :=
  match GetChangeInfo lpMessage with
  | none => some .objectDeleted
  | some (ptrPropCK, ptrPropPCL) =>
    match isProcessed lpPropArray.lpRemoteCK (some ptrPropPCL) with
    | none => none
    | some true => some .ignore
    | some false =>
      if lpPropArray.bAssociatedMessage then some .apply
      else
        match isConflict (some ptrPropCK) lpPropArray.lpRemotePCL with
        | none => none
        | some false => some .apply
        | some true => if lpMessage.OpenEntry then some .applyAfterConflict else some .objectDeleted

def ImportMessageChangeAsAStream : Option Decision :=
  match localMessage lpTransport lpPropArray with
  | .absent =>
    if newFlags lpPropArray ulFlags &&& SYNC_NEW_MESSAGE = 0 then some .objectDeleted else some .apply
  | lpMessage => ImportMessageUpdateAsStream lpPropArray lpMessage

/-! ## When they decide alike -/

/-- Both functions come to the same decision. -/
def SameDecision : Prop :=
  ∃ decision, ImportMessageChange lpTransport lpPropArray ulFlags = some decision ∧
    ImportMessageChangeAsAStream lpTransport lpPropArray ulFlags = some decision

/-- The server has both properties of the message. -/
def ChangeInfo.Complete (info : ChangeInfo) : Prop := info.sPropCK.isSome ∧ info.sPropPCL.isSome

/-- The local change list does not have the change. -/
def Unprocessed (info : ChangeInfo) : Prop := isProcessed lpPropArray.lpRemoteCK info.sPropPCL = some false

/-- What the functions decide alike on: no message; a message with both properties whose list does not have the
change; a soft-deleted message for which the stream function has to open it, or without the properties. -/
def DecidesAlike : LocalMessage → Prop
  | .absent => True
  | .softDeleted info => info.Complete → Unprocessed lpPropArray info ∧
      lpPropArray.bAssociatedMessage = false ∧ isConflict info.sPropCK lpPropArray.lpRemotePCL = some true
  | .present info => info.Complete ∧ Unprocessed lpPropArray info ∧
      (lpPropArray.bAssociatedMessage = false →
        (isConflict info.sPropCK lpPropArray.lpRemotePCL).isSome)

variable {lpPropArray}

theorem GetChangeInfo_of_not_complete {info : ChangeInfo} (h : ¬ info.Complete) :
    GetChangeInfo (.softDeleted info) = none ∧ GetChangeInfo (.present info) = none := by
  obtain ⟨_ | ptrPropCK, _ | ptrPropPCL⟩ := info
  · exact ⟨rfl, rfl⟩
  · exact ⟨rfl, rfl⟩
  · exact ⟨rfl, rfl⟩
  · exact absurd ⟨rfl, rfl⟩ h

/-- The stream function says that a soft-deleted message is gone when it has to open it, or cannot ask for its
properties. -/
theorem update_softDeleted (info : ChangeInfo) :
    ImportMessageUpdateAsStream lpPropArray (.softDeleted info) = some .objectDeleted ↔
      DecidesAlike lpPropArray (.softDeleted info) := by
  by_cases hinfo : info.Complete
  · obtain ⟨⟨ptrPropCK, hck⟩, ⟨ptrPropPCL, hpcl⟩⟩ := hinfo.imp Option.isSome_iff_exists.mp Option.isSome_iff_exists.mp
    simp only [DecidesAlike, forall_prop_of_true hinfo, Unprocessed, ImportMessageUpdateAsStream, GetChangeInfo,
      hck, hpcl, LocalMessage.OpenEntry]
    rcases isProcessed lpPropArray.lpRemoteCK (some ptrPropPCL) with _ | _ | _
    · simp
    · cases lpPropArray.bAssociatedMessage
      · rcases isConflict (some ptrPropCK) lpPropArray.lpRemotePCL with _ | _ | _ <;> simp
      · simp
    · simp
  · rw [DecidesAlike, ImportMessageUpdateAsStream, (GetChangeInfo_of_not_complete hinfo).1]
    exact ⟨fun _ h => absurd h hinfo, fun _ => rfl⟩

/-- For a message that is there the stream function also needs that the list does not have the change. -/
theorem update_present (info : ChangeInfo) (hmessage : localMessage lpTransport lpPropArray = .present info) :
    (∃ decision, ImportMessageChange lpTransport lpPropArray ulFlags = some decision ∧
      ImportMessageUpdateAsStream lpPropArray (.present info) = some decision) ↔
      DecidesAlike lpPropArray (.present info) := by
  have hplain : isProcessed lpPropArray.lpRemoteCK none = some false := by
    cases lpPropArray.lpRemoteCK <;> rfl
  by_cases hinfo : info.Complete
  · obtain ⟨⟨ptrPropCK, hck⟩, ⟨ptrPropPCL, hpcl⟩⟩ := hinfo.imp Option.isSome_iff_exists.mp Option.isSome_iff_exists.mp
    simp only [DecidesAlike, hinfo, true_and, Unprocessed, ImportMessageUpdateAsStream, GetChangeInfo,
      ImportMessageChange, hmessage, hplain, hck, hpcl, LocalMessage.OpenEntry, Option.isSome_some, and_true]
    rcases isProcessed lpPropArray.lpRemoteCK (some ptrPropPCL) with _ | _ | _
    · simp
    · cases lpPropArray.bAssociatedMessage
      · rcases isConflict (some ptrPropCK) lpPropArray.lpRemotePCL with _ | _ | _ <;> simp
      · simp
    · cases lpPropArray.bAssociatedMessage
      · rcases isConflict (some ptrPropCK) lpPropArray.lpRemotePCL with _ | _ | _ <;> simp
      · simp
  · rw [DecidesAlike, ImportMessageUpdateAsStream, (GetChangeInfo_of_not_complete hinfo).2]
    simp only [ImportMessageChange, hmessage, hplain, hinfo, false_and, iff_false, not_exists]
    rintro decision ⟨happlied, hdeleted⟩
    obtain rfl := Option.some_inj.mp hdeleted
    split at happlied
    · split at happlied <;> simp at happlied
    · simp at happlied

/-- The two functions decide alike exactly then. -/
theorem sameDecision_iff : SameDecision lpTransport lpPropArray ulFlags ↔
      DecidesAlike lpPropArray (localMessage lpTransport lpPropArray) := by
  unfold SameDecision ImportMessageChangeAsAStream
  rcases hmessage : localMessage lpTransport lpPropArray with _ | info | info
  · simp only [ImportMessageChange, hmessage, DecidesAlike, iff_true]
    split
    · exact ⟨_, rfl, rfl⟩
    · exact ⟨_, rfl, rfl⟩
  · rw [← update_softDeleted]
    simp only [ImportMessageChange, hmessage, Option.some_inj, exists_eq_left']
  · exact update_present lpTransport ulFlags info hmessage

/-- The change of a message that was synchronised before comes once more: its change list has the change key. -/
def again : (List UInt8 → LocalMessage) × PropArray :=
  let szChangeKey := List.replicate 16 1 ++ [1, 0, 0, 0]
  let szPCL := 20 :: szChangeKey
  (fun _ => .present ⟨some szChangeKey, some szPCL⟩, ⟨some [1], none, none, some szPCL, some szChangeKey⟩)

/-- It is applied once more, but the stream function ignores it. -/
theorem not_sameDecision_again : ¬ ∀ lpTransport lpPropArray ulFlags,
    SameDecision lpTransport lpPropArray ulFlags := by
  intro h
  obtain ⟨decision, hplain, hstream⟩ := h again.1 again.2 0
  have happlied : ImportMessageChange again.1 again.2 0 = some .apply := by decide
  have hignored : ImportMessageChangeAsAStream again.1 again.2 0 = some .ignore := by decide
  rw [happlied] at hplain
  rw [hignored, ← hplain] at hstream
  simp at hstream

end Zcp.Client.ECExchangeImportContentsChanges
