import Mathlib.Data.List.Sort
import Mathlib.Data.UInt
import Mathlib.Logic.Function.Basic
import Zcp.Lib.BoundedQuantifiers

/-!
# The selected folder of an IMAP session

`IMAP::HrRefreshFolderMails` and `IMAPIdleAdviseCallback` keep one list of messages,
`lstFolderMailEIDs`, and tell the client with untagged responses what happens to it. The client
numbers the messages as the list does, and is modelled here by what these responses make of its own
list. A response reaches the client at once.
-/

namespace Zcp.Gateway

abbrev ULONG := UInt32

abbrev BinaryArray := List UInt8

/-! ## Rows of the contents table -/

/-- A row of the contents table or of a notification, in the columns the two functions ask for. A
column is `none` when the row does not have the property. -/
structure Row where
  PR_ENTRYID : Option BinaryArray
  PR_INSTANCE_KEY : Option BinaryArray
  PR_EC_IMAP_ID : Option ULONG
  PR_MESSAGE_FLAGS : Option ULONG
  PR_FLAG_STATUS : Option ULONG
  PR_MSG_STATUS : Option ULONG
  PR_LAST_VERB_EXECUTED : Option ULONG
deriving DecidableEq, Repr

def MSGFLAG_READ : ULONG := 0x1
def MSGSTATUS_DELMARKED : ULONG := 0x8
def MSGSTATUS_DRAFT : ULONG := 0x100
def MSGSTATUS_ANSWERED : ULONG := 0x200
def NOTEIVERB_REPLYTOSENDER : ULONG := 102
def NOTEIVERB_REPLYTOALL : ULONG := 103
def NOTEIVERB_FORWARD : ULONG := 104

/-- A flag with the space after it, when it is set. -/
def flagIf (b : Bool) (flag : String) : String := if b then flag else ""

/-- `IMAP::PropsToFlags`. -/
def PropsToFlags (row : Row) (bRecent bRead : Bool) : String :=
  let strFlags :=
    flagIf (row.PR_MESSAGE_FLAGS.any (· &&& MSGFLAG_READ != 0) || bRead) "\\Seen " ++
    flagIf (row.PR_FLAG_STATUS.any (· != 0)) "\\Flagged " ++
    flagIf (row.PR_LAST_VERB_EXECUTED.any fun verb =>
      verb == NOTEIVERB_REPLYTOSENDER || verb == NOTEIVERB_REPLYTOALL) "\\Answered " ++
    flagIf (row.PR_LAST_VERB_EXECUTED.any (· == NOTEIVERB_FORWARD)) "$Forwarded " ++
    flagIf (row.PR_MSG_STATUS.any (· &&& MSGSTATUS_DRAFT != 0)) "\\Draft " ++
    flagIf (row.PR_LAST_VERB_EXECUTED.isNone &&
      row.PR_MSG_STATUS.any (· &&& MSGSTATUS_ANSWERED != 0)) "\\Answered " ++
    flagIf (row.PR_MSG_STATUS.any (· &&& MSGSTATUS_DELMARKED != 0)) "\\Deleted " ++
    flagIf bRecent "\\Recent "
  -- strip final space
  String.ofList strFlags.toList.dropLast

/-- The folder: its messages, and the highest UID a session has taken the \Recent flag of. The server
takes the UIDs from a counter (`imapseq`), and gives no UID to two messages. -/
structure Folder where
  rows : List Row
  PR_EC_IMAP_MAX_ID : Option ULONG
  uids_nodup : (rows.filterMap Row.PR_EC_IMAP_ID).Nodup

/-- The contents table, sorted by `PR_EC_IMAP_ID`. -/
def Folder.contentsTable (folder : Folder) : List Row :=
  folder.rows.insertionSort fun a b => a.PR_EC_IMAP_ID.getD 0 ≤ b.PR_EC_IMAP_ID.getD 0

/-! ## The server's list and the client's -/

/-- `SMail`. The entry ID is left out: the two functions only store it. -/
structure SMail where
  sInstanceKey : BinaryArray
  ulUid : ULONG
  bRecent : Bool
  strFlags : String
deriving DecidableEq, Repr

/-- `std::sort` by UID: any function that orders a list. -/
structure UidSort where
  sort : List SMail → List SMail
  sort_perm : ∀ mails, (sort mails).Perm mails
  sort_ordered : ∀ mails, (sort mails).Pairwise fun a b => a.ulUid ≤ b.ulUid

/-- The untagged responses. -/
inductive Response
  /-- `n FETCH (FLAGS (…))`, with the UID when it is shown. -/
  | FETCH (n : ℕ) (ulUid : Option ULONG) (strFlags : String)
  | EXPUNGE (n : ℕ)
  | EXISTS (n : ℕ)
  | RECENT (n : ℕ)
deriving DecidableEq, Repr

/-- A message in the client's list: the UID it stands for and the flags last announced for it. -/
structure ClientMail where
  ulUid : ULONG
  strFlags : String
deriving DecidableEq, Repr

/-- The client: its list, and whether an EXPUNGE or FETCH has named a number beyond it. -/
structure Client where
  mails : List ClientMail
  beyond : Bool
deriving DecidableEq, Repr

/-- What the client makes of an entry that is announced to it. -/
def SMail.announced (mail : SMail) : ClientMail := ⟨mail.ulUid, mail.strFlags⟩

/-- What a response does to the client. The messages that `n EXISTS` adds are those that have these
numbers in the server's list `mails` when it is sent. -/
def Client.receive (client : Client) (mails : List SMail) : Response → Client
  | .FETCH n _ strFlags =>
    if n - 1 < client.mails.length then
      { client with mails := client.mails.modify (n - 1) fun mail => { mail with strFlags } }
    else { client with beyond := true }
  | .EXPUNGE n =>
    if n - 1 < client.mails.length then { client with mails := client.mails.eraseIdx (n - 1) }
    else { client with beyond := true }
  | .EXISTS n =>
    { client with
      mails := client.mails ++ ((mails.take n).drop client.mails.length).map SMail.announced }
  | .RECENT _ => client

/-- The session with the folder selected, and its client. -/
structure Session where
  lstFolderMailEIDs : List SMail
  m_ulLastUid : ULONG
  m_bIdleMode : Bool
  client : Client
deriving DecidableEq, Repr

/-- `IMAP::HrResponse` with `RESP_UNTAGGED`, on a connection that is up. -/
def Session.HrResponse (s : Session) (response : Response) : Session :=
  { s with client := s.client.receive s.lstFolderMailEIDs response }

/-! ## HrRefreshFolderMails -/

/-- `mapUIDs[iterMail->ulUid] = n++` for the entries of the list. -/
def rememberUIDs (mapUIDs : ULONG → Option ℕ) (n : ℕ) : List SMail → ULONG → Option ℕ
  | [] => mapUIDs
  | mail :: mails => rememberUIDs (Function.update mapUIDs mail.ulUid (some n)) (n + 1) mails

/-- The variables of the scan over the table. -/
structure Scan where
  session : Session
  mapUIDs : ULONG → Option ℕ
  bNewMail : Bool
  ulUnseen : ℕ

/-- The body of the scan for a row with an entry ID and an instance key, when its UID is new. -/
def Scan.newMail (ulMaxUID : ULONG) (scan : Scan) (row : Row) (sInstanceKey : BinaryArray)
    (ulUid : ULONG) : Scan :=
  let bRecent := decide (ulMaxUID < ulUid)
  let sMail : SMail := ⟨sInstanceKey, ulUid, bRecent, PropsToFlags row bRecent false⟩
  let mails := scan.session.lstFolderMailEIDs ++ [sMail]
  { scan with
    session := { scan.session with
      lstFolderMailEIDs := mails, m_ulLastUid := max ulUid scan.session.m_ulLastUid }
    bNewMail := true
    ulUnseen :=
      if scan.ulUnseen = 0 ∧ row.PR_MESSAGE_FLAGS.any (· &&& MSGFLAG_READ == 0) then mails.length
      else scan.ulUnseen }

/-- The body of the scan for a row whose UID is that of the entry at `index`. -/
def Scan.knownMail (bShowUID : Bool) (scan : Scan) (row : Row) (ulUid : ULONG) (index : ℕ) : Scan :=
  -- the index is that of an entry: the scan only adds to the list
  match scan.session.lstFolderMailEIDs[index]? with
  | none => scan
  | some mail =>
    let strFlags := PropsToFlags row mail.bRecent false
    let session :=
      if mail.strFlags ≠ strFlags then
        let s := scan.session.HrResponse
          (.FETCH (index + 1) (if bShowUID then some ulUid else none) strFlags)
        { s with lstFolderMailEIDs :=
            s.lstFolderMailEIDs.modify index fun mail => { mail with strFlags } }
      else scan.session
    { scan with session, mapUIDs := Function.update scan.mapUIDs ulUid none }

/-- The body of the scan. -/
def Scan.row (ulMaxUID : ULONG) (bShowUID : Bool) (scan : Scan) (row : Row) : Scan :=
  match row.PR_ENTRYID, row.PR_INSTANCE_KEY, row.PR_EC_IMAP_ID with
  | some _, some sInstanceKey, some ulUid =>
    match scan.mapUIDs ulUid with
    | none => scan.newMail ulMaxUID row sInstanceKey ulUid
    | some index => scan.knownMail bShowUID row ulUid index
  | _, _, _ => scan

/-- The loop that expunges the messages left in `mapUIDs` and counts the recent ones: the list is
`passed`, with the position of the loop behind it, and then the rest. -/
def expungeMissing (mapUIDs : ULONG → Option ℕ) (s : Session) (passed : List SMail) (ulRecent : ℕ) :
    List SMail → Session × ℕ
  | [] => (s, ulRecent)
  | mail :: rest =>
    if (mapUIDs mail.ulUid).isSome then
      let s := s.HrResponse (.EXPUNGE (passed.length + 1))
      expungeMissing mapUIDs { s with lstFolderMailEIDs := passed ++ rest } passed ulRecent rest
    else
      expungeMissing mapUIDs s (passed ++ [mail]) (if mail.bRecent then ulRecent + 1 else ulRecent)
        rest

/-- The session with the folder it has selected. -/
structure World where
  folder : Folder
  session : Session

/-- `IMAP::HrRefreshFolderMails`, with the value of `lpulUnseen` when it succeeds. A call to the
folder or its table can fail: `fault` is then the number of rows that have been read before. The
`UIDVALIDITY`, a property of the folder that is only handed on, is left out. -/
def HrRefreshFolderMails (S : UidSort) (bInitialLoad bResetRecent bShowUID : Bool)
    (fault : Option ℕ) (w : World) : World × Option ℕ :=
  let mails := if bInitialLoad then [] else w.session.lstFolderMailEIDs
  let scan : Scan :=
    { session := { w.session with lstFolderMailEIDs := mails }
      mapUIDs := rememberUIDs (fun _ => none) 0 mails
      bNewMail := false
      ulUnseen := 0 }
  let ulMaxUID := w.folder.PR_EC_IMAP_MAX_ID.getD 0
  match fault with
  | some rows =>
    ({ w with session :=
        ((w.folder.contentsTable.take rows).foldl (Scan.row ulMaxUID bShowUID) scan).session },
      none)
  | none =>
    let scan := w.folder.contentsTable.foldl (Scan.row ulMaxUID bShowUID) scan
    let (s, ulRecent) :=
      expungeMissing scan.mapUIDs scan.session [] 0 scan.session.lstFolderMailEIDs
    let s :=
      if scan.bNewMail || bInitialLoad then
        (s.HrResponse (.EXISTS s.lstFolderMailEIDs.length)).HrResponse (.RECENT ulRecent)
      else s
    let s := { s with lstFolderMailEIDs := S.sort s.lstFolderMailEIDs }
    let folder :=
      if bResetRecent && ulRecent != 0 then
        { w.folder with PR_EC_IMAP_MAX_ID := some s.m_ulLastUid }
      else w.folder
    (⟨folder, s⟩, some scan.ulUnseen)

/-! ## IMAPIdleAdviseCallback -/

/-- A notification about the contents table: the table events the callback handles, and all other
events. The index property of a deleted row is `none` when it is not the instance key. -/
inductive Notification
  | TABLE_ROW_ADDED (propIndex : BinaryArray) (row : Row)
  | TABLE_ROW_DELETED (propIndex : Option BinaryArray)
  | TABLE_ROW_MODIFIED (row : Row)
  | TABLE_RELOAD (fault : Option ℕ)
  | TABLE_CHANGED (fault : Option ℕ)
  | other
deriving DecidableEq, Repr

/-- The variables of the callback. One `sMail` serves all the messages of a batch, of which only the
UID can stay from one to the next. -/
structure Batch where
  world : World
  ulUid : ULONG
  ulRecent : ℕ

/-- The body of the loop over the notifications. -/
def Batch.notify (S : UidSort) (bCurrentFolderReadOnly : Bool) (batch : Batch) :
    Notification → Batch
  | .TABLE_ROW_ADDED propIndex row =>
    let s := batch.world.session
    let ulUid := row.PR_EC_IMAP_ID.getD batch.ulUid
    let sMail : SMail := ⟨propIndex, ulUid, true, PropsToFlags row true false⟩
    let s := { s with
      lstFolderMailEIDs := s.lstFolderMailEIDs ++ [sMail]
      m_ulLastUid := max s.m_ulLastUid ulUid }
    ⟨{ batch.world with session := s }, ulUid, batch.ulRecent + 1⟩
  | .TABLE_ROW_DELETED (some propIndex) =>
    let s := batch.world.session
    match s.lstFolderMailEIDs.findIdx? fun mail => mail.sInstanceKey = propIndex with
    | none => batch
    | some ulMailNr =>
      let s := s.HrResponse (.EXPUNGE (ulMailNr + 1))
      let s := { s with lstFolderMailEIDs := s.lstFolderMailEIDs.eraseIdx ulMailNr }
      { batch with world := { batch.world with session := s } }
  | .TABLE_ROW_DELETED none => batch
  | .TABLE_ROW_MODIFIED row =>
    let s := batch.world.session
    match row.PR_EC_IMAP_ID with
    | none => batch
    | some ulUid =>
      match s.lstFolderMailEIDs.findIdx? fun mail => mail.ulUid = ulUid with
      | none => batch
      | some ulMailNr =>
        let bRecent := (s.lstFolderMailEIDs[ulMailNr]?).any SMail.bRecent
        let s := s.HrResponse (.FETCH (ulMailNr + 1) none (PropsToFlags row bRecent false))
        { batch with world := { batch.world with session := s } }
  -- TABLE_RELOAD is unused in Zarafa
  | .TABLE_RELOAD fault | .TABLE_CHANGED fault =>
    { batch with world :=
      (HrRefreshFolderMails S false (!bCurrentFolderReadOnly) false fault batch.world).1 }
  | .other => batch

/-- `IMAPIdleAdviseCallback`. The UID of its `sMail` is not initialised: `ulUid` is what it holds. -/
def IMAPIdleAdviseCallback (S : UidSort) (bCurrentFolderReadOnly : Bool) (ulUid : ULONG)
    (lpNotif : List Notification) (w : World) : World :=
  if w.session.m_bIdleMode then
    let batch := lpNotif.foldl (Batch.notify S bCurrentFolderReadOnly) ⟨w, ulUid, 0⟩
    let s := batch.world.session
    if batch.ulRecent ≠ 0 then
      let s := s.HrResponse (.RECENT batch.ulRecent)
      { batch.world with session := s.HrResponse (.EXISTS s.lstFolderMailEIDs.length) }
    else batch.world
  else w

end Zcp.Gateway
