import Mathlib.Data.List.Basic

/-!
# Mailboxes over POP3

The commands of `gateway/POP3.cpp` on the list of mails that is made at the login. `DELE` marks a mail and `RSET` takes
the marks away; only `QUIT` deletes.
-/

namespace Zcp.Gateway.POP3

abbrev EntryID := List UInt8

/-- A row of the contents table. A column with an error is `none`. -/
structure Row where
  PR_ENTRYID : Option EntryID
  PR_MESSAGE_SIZE : Option UInt32
deriving DecidableEq, Repr

structure MailListItem where
  sbEntryID : EntryID
  ulSize : UInt32
  bDeleted : Bool
deriving DecidableEq, Repr

/-- `POP3::HrMakeMailList`, from the rows in the order of their creation. -/
def HrMakeMailList (lpRows : List Row) : List MailListItem :=
  lpRows.filterMap fun row => do
    let sbEntryID ← row.PR_ENTRYID
    let ulSize ← row.PR_MESSAGE_SIZE
    some ⟨sbEntryID, ulSize, false⟩

/-- The commands that need a login, with their numbers as `strtoul` reads them. -/
inductive Command where
  | stat
  | list
  | listMail (ulMailNr : UInt32)
  | retr (ulMailNr : UInt32)
  | dele (ulMailNr : UInt32)
  | noop
  | rset
  | quit
  | uidl
  | uidlMail (ulMailNr : UInt32)
  | top (ulMailNr ulLines : UInt32)
deriving DecidableEq, Repr

/-! ## Responses -/

def bytes (s : String) : List UInt8 := s.toUTF8.data.toList

def POP3_RESP_OK : String := "+OK "

def POP3_RESP_ERR : String := "-ERR "

/-- `POP3::HrResponse`. -/
def HrResponse (strResult strResponse : String) : List UInt8 := bytes (strResult ++ strResponse)

/-- The check that every command with the number of a mail makes. -/
def inRange (lstMails : List MailListItem) (ulMailNr : UInt32) : Prop :=
  1 ≤ ulMailNr.toNat ∧ ulMailNr.toNat ≤ lstMails.length

instance decidableInRange (lstMails : List MailListItem) (ulMailNr : UInt32) :
    Decidable (inRange lstMails ulMailNr) :=
  inferInstanceAs (Decidable (_ ∧ _))

/-- The mail with a number, for the commands that answer `notFound` when there is none. -/
def withMail (lstMails : List MailListItem) (ulMailNr : UInt32) (notFound : String)
    (f : MailListItem → Option (List (List UInt8))) : Option (List (List UInt8)) :=
  if h : inRange lstMails ulMailNr then f (lstMails.get ⟨ulMailNr.toNat - 1, Nat.sub_one_lt_of_le h.1 h.2⟩)
  else some [HrResponse POP3_RESP_ERR notFound]

/-- `std::string::find`. -/
def find (s pattern : List UInt8) (pos : ℕ) : Option ℕ :=
  (List.range (s.length + 1)).find? fun i => pos ≤ i ∧ pattern.isPrefixOf (s.drop i)

/-- The loop of `HrCmdTop`, over the lines that are left. -/
def topLoop (strMessage : List UInt8) : ℕ → Option ℕ → Option ℕ
  | 0, ulPos => ulPos
  | _, none => none
  | ulLines + 1, some ulPos => topLoop strMessage ulLines (find strMessage [13, 10] (ulPos + 1))

/-- What `HrCmdTop` keeps of a message: the header and `ulLines` lines of the body. -/
def topText (strMessage : List UInt8) (ulLines : UInt32) : List UInt8 :=
  match topLoop strMessage (ulLines + 1).toNat (find strMessage [13, 10, 13, 10] 0) with
  | none => strMessage
  | some ulPos => strMessage.take ulPos

/-- The loop of `DotFilter`, behind the byte `prev`. -/
def dotFilterLoop (prev : UInt8) : List UInt8 → List UInt8
  | [] => []
  | c :: input => (if c = 46 ∧ prev = 10 then [46, c] else [c]) ++ dotFilterLoop c input

/-- `POP3::DotFilter` of a string as `c_str` gives it. When the string begins with a dot, the byte in front of it is
read with an index that wraps, far outside of the string. -/
def DotFilter (strMessage : List UInt8) : Option (List UInt8) :=
  match strMessage.takeWhile (· ≠ 0) with
  | [] => some []
  | c :: input => if c = 46 then none else some (c :: dotFilterLoop c input)

/-- The lines of a response with a message behind them. -/
def messageLines (response : List UInt8) (strMessage : List UInt8) : List (List UInt8) :=
  [response, strMessage, [46]]

/-- `POP3::HrCmdRetr`, with the texts of the messages that can be opened. -/
def HrCmdRetr (text : EntryID → Option (List UInt8)) (lstMails : List MailListItem) (ulMailNr : UInt32) :
    Option (List (List UInt8)) :=
  withMail lstMails ulMailNr "mail nr not found" fun mail =>
    match text mail.sbEntryID with
    | none => some [HrResponse POP3_RESP_ERR "Failing to open entry"]
    | some strMessage => do
      let strMessage ← DotFilter strMessage
      let octets := toString (UInt32.ofNat strMessage.length)
      some (messageLines (HrResponse POP3_RESP_OK (octets ++ " octets")) strMessage)

/-- `POP3::HrCmdTop`. -/
def HrCmdTop (text : EntryID → Option (List UInt8)) (lstMails : List MailListItem)
    (ulMailNr ulLines : UInt32) : Option (List (List UInt8)) :=
  withMail lstMails ulMailNr "mail nr not found" fun mail =>
    match text mail.sbEntryID with
    | none => some [HrResponse POP3_RESP_ERR "Failing to open entry"]
    | some strMessage => do
      let strMessage ← DotFilter (topText strMessage ulLines)
      some (messageLines (HrResponse POP3_RESP_OK "") strMessage)

/-! ## Sessions -/

/-- A session behind the login. `deleted` are the entry ids that were given to `DeleteMessages`. -/
structure Session where
  lstMails : List MailListItem
  deleted : List EntryID
deriving DecidableEq, Repr

namespace Session

/-- `POP3::HrCmdDele`. -/
def HrCmdDele (s : Session) (ulMailNr : UInt32) : Session :=
  if inRange s.lstMails ulMailNr then
    { s with lstMails := s.lstMails.modify (ulMailNr.toNat - 1) fun mail => { mail with bDeleted := true } }
  else s

/-- `POP3::HrCmdRset`. -/
def HrCmdRset (s : Session) : Session :=
  { s with lstMails := s.lstMails.map fun mail => { mail with bDeleted := false } }

/-- `POP3::HrCmdQuit`. -/
def HrCmdQuit (s : Session) : Session :=
  { s with deleted := s.deleted ++ (s.lstMails.filter (·.bDeleted)).map (·.sbEntryID) }

/-- `POP3::HrProcessCommand`, for the session. The commands that only answer leave it as it is. -/
def HrProcessCommand (s : Session) : Command → Session
  | .dele ulMailNr => s.HrCmdDele ulMailNr
  | .rset => s.HrCmdRset
  | .quit => s.HrCmdQuit
  | _ => s

/-- The gateway's loop, which ends with `QUIT` or when the connection does. -/
def serve (s : Session) : List Command → Session
  | [] => s
  | c :: cs => if c = .quit then s.HrProcessCommand c else (s.HrProcessCommand c).serve cs

end Session

/-- The session that a login makes. -/
def login (lpRows : List Row) : Session := ⟨HrMakeMailList lpRows, []⟩

/-! ## What a session deletes -/

/-- The commands behind the last `RSET`. -/
def sinceReset (cs : List Command) : List Command := (cs.reverse.takeWhile (· ≠ .rset)).reverse

/-- The command marks the mail at the index `i`. -/
def Command.marks (i : ℕ) : Command → Bool
  | .dele ulMailNr => ulMailNr.toNat = i + 1
  | _ => false

/-- The mail at the index `i` has a mark behind the commands. -/
def marked (cs : List Command) (i : ℕ) : Bool := (sinceReset cs).any (Command.marks i)

def withMarks (mails : List MailListItem) (marks : ℕ → Bool) : List MailListItem :=
  mails.mapIdx fun i mail => { mail with bDeleted := marks i }

/-- The mails with a mark, in the order of the list. -/
def select (mails : List MailListItem) (marks : ℕ → Bool) : List EntryID :=
  (mails.zipIdx.filter fun mail => marks mail.2).map fun mail => mail.1.sbEntryID

variable {mails : List MailListItem} {marks : ℕ → Bool} {s : Session} {c : Command} {cs : List Command}

theorem sinceReset_rset : sinceReset (cs ++ [.rset]) = [] := by
  simp [sinceReset]

theorem sinceReset_concat (hc : c ≠ .rset) : sinceReset (cs ++ [c]) = sinceReset cs ++ [c] := by
  simp [sinceReset, hc]

theorem marked_concat (hc : c ≠ .rset) (i : ℕ) : marked (cs ++ [c]) i = (marked cs i || c.marks i) := by
  rw [marked, sinceReset_concat hc, List.any_append, List.any_cons, List.any_nil, Bool.or_false]
  rfl

theorem withMarks_congr {marks' : ℕ → Bool} (h : ∀ i < mails.length, marks i = marks' i) :
    withMarks mails marks = withMarks mails marks' := by
  refine List.mapIdx_eq_mapIdx_iff.mpr fun i hi => ?_
  rw [h i hi]

theorem length_withMarks : (withMarks mails marks).length = mails.length := List.length_mapIdx

theorem lstMails_dele {ulMailNr : UInt32} (hs : s.lstMails = withMarks mails marks) :
    (s.HrCmdDele ulMailNr).lstMails = withMarks mails fun i => marks i || (Command.dele ulMailNr).marks i := by
  rw [Session.HrCmdDele]
  split_ifs with hrange
  · rw [inRange, hs, length_withMarks] at hrange
    simp only [hs]
    refine List.ext_getElem? fun i => ?_
    rw [List.getElem?_modify, withMarks, withMarks, List.getElem?_mapIdx, List.getElem?_mapIdx]
    have hindex : ulMailNr.toNat - 1 = i ↔ ulMailNr.toNat = i + 1 := by omega
    by_cases hi : ulMailNr.toNat = i + 1
    · cases mails[i]? <;> simp [hi, Command.marks]
    · cases mails[i]? <;> simp [hindex, hi, Command.marks]
  · rw [hs]
    refine withMarks_congr fun i hi => ?_
    have hne : ulMailNr.toNat ≠ i + 1 := by
      rw [inRange, hs, length_withMarks] at hrange
      omega
    simp [Command.marks, hne]

theorem lstMails_rset (hs : s.lstMails = withMarks mails marks) :
    s.HrCmdRset.lstMails = withMarks mails fun _ => false := by
  simp only [Session.HrCmdRset, hs, withMarks]
  refine List.ext_getElem? fun i => ?_
  rw [List.getElem?_map, List.getElem?_mapIdx, List.getElem?_mapIdx, Option.map_map]
  rfl

/-- A command adds its mark, and `RSET` takes all marks away. -/
theorem lstMails_step (hs : s.lstMails = withMarks mails (marked cs)) :
    (s.HrProcessCommand c).lstMails = withMarks mails (marked (cs ++ [c])) := by
  have hother (hc : c ≠ .rset) (hmarks : ∀ i, c.marks i = false) :
      withMarks mails (marked (cs ++ [c])) = withMarks mails (marked cs) := by
    refine withMarks_congr fun i _ => ?_
    rw [marked_concat hc, hmarks, Bool.or_false]
  cases c with
  | dele ulMailNr =>
    refine (lstMails_dele hs).trans (withMarks_congr fun i _ => ?_)
    exact (marked_concat Command.noConfusion i).symm
  | rset =>
    refine (lstMails_rset hs).trans (withMarks_congr fun i _ => ?_)
    rw [marked, sinceReset_rset]
    rfl
  | _ => exact hs.trans (hother Command.noConfusion fun _ => rfl).symm

theorem deleted_step (hc : c ≠ .quit) : (s.HrProcessCommand c).deleted = s.deleted := by
  cases c with
  | dele ulMailNr =>
    change (s.HrCmdDele ulMailNr).deleted = s.deleted
    unfold Session.HrCmdDele
    split_ifs
    · rfl
    · rfl
  | quit => exact absurd rfl hc
  | _ => rfl

theorem deleted_quit (hs : s.lstMails = withMarks mails marks) :
    s.HrCmdQuit.deleted = s.deleted ++ select mails marks := by
  simp only [Session.HrCmdQuit, hs, withMarks, select]
  rw [List.mapIdx_eq_zipIdx_map, List.filter_map, List.map_map]
  rfl

theorem deleted_serve {before : List Command} (hs : s.lstMails = withMarks mails (marked before)) :
    (s.serve cs).deleted =
      s.deleted ++ if .quit ∈ cs then select mails (marked (before ++ cs.takeWhile (· ≠ .quit))) else [] := by
  induction cs generalizing s before with
  | nil => simp [Session.serve]
  | cons c cs ih =>
    rw [Session.serve]
    split_ifs with hquit hmem hmem
    · rw [hquit]
      refine (deleted_quit hs).trans ?_
      simp
    · exact absurd (by rw [hquit]; exact List.mem_cons_self) hmem
    · have hrest := ih (lstMails_step (c := c) hs)
      rw [hrest, deleted_step hquit]
      have hcs : Command.quit ∈ cs := (List.mem_cons.mp hmem).resolve_left (Ne.symm hquit)
      simp [hcs, hquit]
    · have hrest := ih (lstMails_step (c := c) hs)
      rw [hrest, deleted_step hquit]
      have hcs : Command.quit ∉ cs := fun h => hmem (List.mem_cons_of_mem _ h)
      simp [hcs]

/-- **Only `QUIT` deletes, and just what is marked.** A session that ends without it deletes nothing. One that ends
with it deletes, in the order of the list and once each, the mails that `DELE` named since the last `RSET`. -/
theorem session_deletes (lpRows : List Row) (cs : List Command) : ((login lpRows).serve cs).deleted =
      if .quit ∈ cs then select (HrMakeMailList lpRows) (marked (cs.takeWhile (· ≠ .quit))) else [] := by
  have hnew : (login lpRows).lstMails = withMarks (HrMakeMailList lpRows) (marked []) := by
    refine List.ext_getElem? fun i => ?_
    rw [withMarks, List.getElem?_mapIdx]
    cases hmail : (HrMakeMailList lpRows)[i]? with
    | none => exact hmail
    | some mail =>
      obtain ⟨row, -, hrow⟩ := List.mem_filterMap.mp (List.mem_of_getElem? hmail)
      have hdeleted : mail.bDeleted = false := by
        cases hid : row.PR_ENTRYID <;> cases hsize : row.PR_MESSAGE_SIZE <;> simp [hid, hsize] at hrow
        rw [← hrow]
      have hmarked : marked [] i = mail.bDeleted := hdeleted.symm
      rw [login, hmail, Option.map_some, hmarked]
  exact deleted_serve hnew

end Zcp.Gateway.POP3
