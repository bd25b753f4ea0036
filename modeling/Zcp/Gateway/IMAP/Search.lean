import Zcp.Gateway.IMAP.SequenceSets

/-!
# SEARCH

`IMAP::HrSearch` turns the search keys of a client into a restriction for the contents table. The tree is built in one
pass: `lstRestrictions` holds the addresses of the nodes that are still open, the first of which is the open end of a
chain of `RES_AND`s. A few keys that stand alone are answered from the list of messages instead.

Reference: `gateway/IMAP.cpp`. Memory is always allocated.
-/

namespace Zcp.Gateway

open Zcp.Lib Zcp.Common
open Libserver.ECGenericObjectTable.RowState (RestrictTable PropVal RELOP_LT RELOP_GT RELOP_GE RELOP_EQ RELOP_RE BMR_EQZ
  PR_ENTRYID)

/-! ## Splitting a group -/

/-- `find_first_of`. -/
def findFirstOf (chars : Str) (strInput : Str) (pos : ℕ) : Option ℕ :=
  ((strInput.drop pos).findIdx? fun c => chars.contains c).map (pos + ·)

theorem findFirstOf_bounds {chars strInput : Str} {pos i : ℕ} (h : findFirstOf chars strInput pos = some i) :
    pos ≤ i ∧ i < strInput.length := by
  obtain ⟨k, hk, rfl⟩ := Option.map_eq_some_iff.mp h
  obtain ⟨hlt, -⟩ := List.findIdx?_eq_some_iff_getElem.mp hk
  rw [List.length_drop] at hlt
  omega

/-- The loop for the closing quote, which is not behind a backslash. -/
def closingQuote (strInput : Str) (specialPos : ℕ) : Option ℕ :=
  match _h : findFirstOf [34] strInput (specialPos + 1) with
  | none => none
  | some i => if strInput[i - 1]? = some 92 then closingQuote strInput i else some i
termination_by strInput.length - specialPos
decreasing_by
  have hbounds := findFirstOf_bounds _h
  omega

theorem closingQuote_bounds {strInput : Str} {specialPos i : ℕ} (h : closingQuote strInput specialPos = some i) :
    specialPos < i ∧ i < strInput.length := by
  fun_induction closingQuote strInput specialPos with
  | case1 specialPos hnone => cases h
  | case2 specialPos j hj hescaped ih =>
    have hbounds := findFirstOf_bounds hj
    have hi := ih h
    omega
  | case3 specialPos j hj hescaped =>
    obtain rfl := Option.some.inj h
    have hbounds := findFirstOf_bounds hj
    omega

/-- The loop of `IMAP::HrSplitInput`. -/
def splitLoop (strInput : Str) (uSpecialCount beginPos currentPos : ℕ) (vWords : List Str) : List Str :=
  match _h : findFirstOf [34, 40, 41, 91, 93, 32] strInput currentPos with
  | none => if beginPos < strInput.length then vWords ++ [strInput.drop beginPos] else vWords
  | some findPos =>
    let c := strInput.getD findPos 0
    if uSpecialCount = 0 ∧ c = 34 then
      match _hquote : closingQuote strInput findPos with
      | none => splitLoop strInput uSpecialCount beginPos (findPos + 1) vWords
      | some specialPos =>
        splitLoop strInput uSpecialCount (specialPos + 1) (specialPos + 1)
          (vWords ++ [(strInput.drop (findPos + 1)).take (specialPos - findPos - 1)])
    else if c = 40 ∨ c = 91 then splitLoop strInput (uSpecialCount + 1) beginPos (findPos + 1) vWords
    else if c = 41 ∨ c = 93 then splitLoop strInput (uSpecialCount - 1) beginPos (findPos + 1) vWords
    else if uSpecialCount = 0 then
      splitLoop strInput uSpecialCount (findPos + 1) (findPos + 1)
        (if beginPos < findPos then vWords ++ [(strInput.drop beginPos).take (findPos - beginPos)] else vWords)
    else splitLoop strInput uSpecialCount beginPos (findPos + 1) vWords
termination_by strInput.length - currentPos
decreasing_by
  all_goals
    have hbounds := findFirstOf_bounds _h
    first
      | omega
      | (have hquote := closingQuote_bounds _hquote; omega)

/-- `IMAP::HrSplitInput`. -/
def HrSplitInput (strInput : Str) : List Str := splitLoop strInput 0 0 0 []

/-- The text of a group without its parentheses and brackets. -/
def stripGroup (token : Str) : Str := token.filter fun c => ¬ (c = 40 ∨ c = 41 ∨ c = 91 ∨ c = 93)

/-- The token opens a group. -/
def IsGroup (token : Str) : Prop := token.head? = some 40

instance (token : Str) : Decidable (IsGroup token) := inferInstanceAs (Decidable (_ = _))

/-- A group in front is replaced by its words. -/
def expandGroup : List Str → List Str
  | [] => []
  | token :: rest => if IsGroup token then HrSplitInput (stripGroup token) ++ rest else token :: rest

/-! ## Keys -/

/-- `toupper` in the C locale. -/
def toUpper (c : UInt8) : UInt8 := if 97 ≤ c ∧ c ≤ 122 then c - 32 else c

/-- `IMAP::ToUpper`. -/
def ToUpper (s : Str) : Str := s.map toUpper

inductive SearchKey where
  | sequenceSet
  | ALL | NEW | RECENT
  | ANSWERED
  | BEFORE
  | BODY
  | DELETED
  | DRAFT
  | FLAGGED
  | FROM
  | KEYWORD
  | LARGER
  | NOT
  | OLD
  | ON
  | OR
  | SEEN
  | SENTBEFORE
  | SENTON
  | SENTSINCE
  | SINCE
  | SMALLER
  | SUBJECT
  | TEXT
  | TO | CC | BCC
  | UID
  | UNANSWERED
  | UNDELETED
  | UNDRAFT
  | UNFLAGGED
  | UNKEYWORD
  | UNSEEN
  | HEADER
deriving DecidableEq, Repr

/-- The keys that have a name, in the order of the comparisons. -/
def namedKeys : List (Str × SearchKey) :=
  [(ascii "ALL", .ALL), (ascii "NEW", .NEW), (ascii "RECENT", .RECENT), (ascii "ANSWERED", .ANSWERED),
    (ascii "BEFORE", .BEFORE), (ascii "BODY", .BODY), (ascii "DELETED", .DELETED), (ascii "DRAFT", .DRAFT),
    (ascii "FLAGGED", .FLAGGED), (ascii "FROM", .FROM), (ascii "KEYWORD", .KEYWORD), (ascii "LARGER", .LARGER),
    (ascii "NOT", .NOT), (ascii "OLD", .OLD), (ascii "ON", .ON), (ascii "OR", .OR), (ascii "SEEN", .SEEN),
    (ascii "SENTBEFORE", .SENTBEFORE), (ascii "SENTON", .SENTON), (ascii "SENTSINCE", .SENTSINCE),
    (ascii "SINCE", .SINCE), (ascii "SMALLER", .SMALLER), (ascii "SUBJECT", .SUBJECT), (ascii "TEXT", .TEXT),
    (ascii "TO", .TO), (ascii "CC", .CC), (ascii "BCC", .BCC), (ascii "UID", .UID),
    (ascii "UNANSWERED", .UNANSWERED), (ascii "UNDELETED", .UNDELETED), (ascii "UNDRAFT", .UNDRAFT),
    (ascii "UNFLAGGED", .UNFLAGGED), (ascii "UNKEYWORD", .UNKEYWORD), (ascii "UNSEEN", .UNSEEN),
    (ascii "HEADER", .HEADER)]

/-- The key that a token in capitals is, with `find_first_of("123456789*") == 0` for the sequence sets. -/
def searchKey (strSearchCriterium : Str) : Option SearchKey :=
  if strSearchCriterium.head?.any fun c => (ascii "123456789*").contains c then some .sequenceSet
  else namedKeys.lookup strSearchCriterium

/-! ## Restrictions of keys -/

def BMR_NEZ : BitVec 32 := 1

def FL_FULLSTRING : BitVec 32 := 0x0
def FL_SUBSTRING : BitVec 32 := 0x1
def FL_IGNORECASE : BitVec 32 := 0x10000

def PR_SUBJECT : BitVec 32 := 0x0037001F
def PR_SUBJECT_A : BitVec 32 := 0x0037001E
def PR_SENT_REPRESENTING_NAME : BitVec 32 := 0x0042001F
def PR_SENT_REPRESENTING_NAME_A : BitVec 32 := 0x0042001E
def PR_SENT_REPRESENTING_EMAIL_ADDRESS : BitVec 32 := 0x0065001F
def PR_TRANSPORT_MESSAGE_HEADERS_A : BitVec 32 := 0x007D001E
def PR_MESSAGE_FLAGS : BitVec 32 := 0x0E070003
def PR_MESSAGE_SIZE : BitVec 32 := 0x0E080003
def PR_MSG_STATUS : BitVec 32 := 0x0E170003
def PR_INSTANCE_KEY : BitVec 32 := 0x0FF60102
def PR_BODY : BitVec 32 := 0x1000001F
def PR_BODY_A : BitVec 32 := 0x1000001E
def PR_FLAG_STATUS : BitVec 32 := 0x10900003
def PR_EC_CLIENT_SUBMIT_DATE : BitVec 32 := 0x67860040
def PR_EC_MESSAGE_DELIVERY_DATE : BitVec 32 := 0x67870040
def PR_EC_IMAP_EMAIL_SIZE : BitVec 32 := 0x678D0003

abbrev SRestriction := RestrictTable PropValData

/-- What a search calls. -/
structure SearchCalls where
  StringToFileTime : Str → HiloLong
  AddDay : HiloLong → HiloLong
  /-- `strtoul` with the base 0. -/
  strtoul : Str → BitVec 32
  /-- `iconv->convert`, when there is an `iconv`. -/
  convert : Option (Str → Str)

/-- The C string of a text. -/
def cString (s : Str) : Str := s.takeWhile (· ≠ 0)

/-- The message has a flag of a property. -/
def flagSet (ulPropTag ulMask : BitVec 32) : SRestriction :=
  .RES_AND [.RES_EXIST ulPropTag, .RES_BITMASK BMR_NEZ ulMask ulPropTag]

/-- The message has no flag of a property. -/
def flagClear (ulPropTag ulMask : BitVec 32) : SRestriction :=
  .RES_OR [.RES_NOT (.RES_EXIST ulPropTag), .RES_BITMASK BMR_EQZ ulMask ulPropTag]

/-- A comparison of a date. -/
def dateCondition (relop ulPropTag : BitVec 32) (ft : HiloLong) : SRestriction :=
  .RES_PROPERTY relop ulPropTag (some ⟨ulPropTag, .PT_SYSTIME ft⟩)

/-- A comparison of a number. -/
def numberCondition (relop ulPropTag ul : BitVec 32) : SRestriction :=
  .RES_PROPERTY relop ulPropTag (some ⟨ulPropTag, .PT_LONG ul⟩)

/-- `SMALLER` and `LARGER`: the size of the mail, or that of the message where the first is not known. -/
def sizeCondition (relop ul : BitVec 32) : SRestriction :=
  .RES_OR [
    .RES_AND [.RES_EXIST PR_EC_IMAP_EMAIL_SIZE, numberCondition relop PR_EC_IMAP_EMAIL_SIZE ul],
    .RES_AND [.RES_NOT (.RES_EXIST PR_EC_IMAP_EMAIL_SIZE), numberCondition relop PR_MESSAGE_SIZE ul]]

/-- The fuzzy level of a text, which is empty or not. -/
def fuzzyLevel (text : Str) : BitVec 32 := if text = [] then FL_FULLSTRING else FL_SUBSTRING ||| FL_IGNORECASE

/-- A text in a property. -/
def contentCondition (ulFuzzyLevel ulPropTag ulPropTagText : BitVec 32) (text : Str) : SRestriction :=
  .RES_CONTENT ulFuzzyLevel ulPropTag (some ⟨ulPropTagText, .PT_STRING8 (some (cString text))⟩)

/-- The regular expression for a text in a header field. -/
def headerCondition (szField szSearch : Str) : SRestriction :=
  .RES_PROPERTY RELOP_RE PR_TRANSPORT_MESSAGE_HEADERS_A
    (some ⟨PR_TRANSPORT_MESSAGE_HEADERS_A,
      .PT_STRING8 (some (ascii "^" ++ cString szField ++ ascii ":.*" ++ cString szSearch))⟩)

/-- The messages at some positions of the list. -/
def uidsCondition (lstFolderMailEIDs : List SMail) (lstMails : List ℕ) : SRestriction :=
  .RES_OR ((lstMails.filterMap (lstFolderMailEIDs[·]?)).map fun mail => uidCondition RELOP_EQ mail.ulUid)

/-- What is true of every message. -/
def everyMessage : SRestriction := .RES_EXIST PR_ENTRYID

/-- `KEYWORD` and `OLD`. -/
def noMessage : SRestriction := .RES_BITMASK BMR_NEZ 0 PR_ENTRYID

/-! ## Reading a key -/

/-- How a search fails: it reads behind the end of the criteria, or it returns an error. -/
inductive Fault where
  | outOfRange
  | hr (hr : HRESULT)
deriving DecidableEq, Repr

/-- What a key does: it fills the node with a restriction, or opens nodes below it. -/
inductive KeyAction where
  | fill (lpRestriction : SRestriction)
  | not
  | or

/-- `lstSearchCriteria[i]`, counted from `ulStartCriteria`. -/
def criterion (lstSearchCriteria : List Str) (i : ℕ) : Except Fault Str :=
  match lstSearchCriteria[i]? with
  | none => .error .outOfRange
  | some token => .ok token

/-- The check that more than `n` criteria are left. -/
def checkLeft (lstSearchCriteria : List Str) (n : ℕ) : Except Fault Unit :=
  if lstSearchCriteria.length ≤ n then .error (.hr .MAPI_E_CALL_FAILED) else .ok ()

/-- The text of a search, converted to the charset of the server. -/
def SearchCalls.text (calls : SearchCalls) (token : Str) : Str :=
  match calls.convert with
  | none => token
  | some convert => convert token

/-- What a key does, and how many criteria it takes; the first of them is the key. -/
def readKey (calls : SearchCalls) (lstFolderMailEIDs : List SMail) (lst : List Str) (strSearchCriterium : Str)
    (key : SearchKey) : Except Fault (KeyAction × ℕ) :=
  match key with
  | .sequenceSet =>
    match HrParseSeqSet lstFolderMailEIDs strSearchCriterium with
    | .error hr => .error (.hr hr)
    | .ok lstMails => .ok (.fill (uidsCondition lstFolderMailEIDs lstMails), 1)
  | .ALL | .NEW | .RECENT => .ok (.fill everyMessage, 1)
  | .ANSWERED => .ok (.fill (flagSet PR_MSG_STATUS MSGSTATUS_ANSWERED.toBitVec), 1)
  | .BEFORE => do
    checkLeft lst 1
    let ft := calls.StringToFileTime (← criterion lst 1)
    .ok (.fill (.RES_AND [.RES_EXIST PR_EC_MESSAGE_DELIVERY_DATE,
      dateCondition RELOP_LT PR_EC_MESSAGE_DELIVERY_DATE ft]), 2)
  | .BODY => do
    checkLeft lst 1
    let token ← criterion lst 1
    .ok (.fill (.RES_AND [.RES_EXIST PR_BODY,
      contentCondition (fuzzyLevel token) PR_BODY PR_BODY_A (calls.text token)]), 2)
  | .DELETED => .ok (.fill (flagSet PR_MSG_STATUS MSGSTATUS_DELMARKED.toBitVec), 1)
  | .DRAFT => .ok (.fill (flagSet PR_MSG_STATUS MSGSTATUS_DRAFT.toBitVec), 1)
  | .FLAGGED => .ok (.fill (flagSet PR_FLAG_STATUS 65535), 1)
  | .FROM => do
    checkLeft lst 1
    let token ← criterion lst 1
    .ok (.fill (.RES_OR [
      contentCondition (fuzzyLevel token) PR_SENT_REPRESENTING_NAME PR_SENT_REPRESENTING_NAME_A (calls.text token),
      contentCondition (fuzzyLevel token) PR_SENT_REPRESENTING_EMAIL_ADDRESS PR_SENT_REPRESENTING_NAME_A
        (calls.text token)]), 2)
  -- the keyword is not read
  | .KEYWORD => .ok (.fill noMessage, 2)
  | .LARGER => do
    checkLeft lst 1
    let ul := calls.strtoul (← criterion lst 1)
    .ok (.fill (sizeCondition RELOP_GT ul), 2)
  | .NOT => .ok (.not, 1)
  | .OLD => .ok (.fill noMessage, 1)
  | .ON => do
    checkLeft lst 1
    let ft := calls.StringToFileTime (← criterion lst 1)
    .ok (.fill (.RES_AND [.RES_EXIST PR_EC_MESSAGE_DELIVERY_DATE,
      dateCondition RELOP_GE PR_EC_MESSAGE_DELIVERY_DATE ft,
      dateCondition RELOP_LT PR_EC_MESSAGE_DELIVERY_DATE (calls.AddDay ft)]), 2)
  | .OR => .ok (.or, 1)
  | .SEEN => .ok (.fill (flagSet PR_MESSAGE_FLAGS MSGFLAG_READ.toBitVec), 1)
  | .SENTBEFORE => do
    checkLeft lst 1
    let ft := calls.StringToFileTime (← criterion lst 1)
    .ok (.fill (.RES_AND [.RES_EXIST PR_EC_CLIENT_SUBMIT_DATE, dateCondition RELOP_LT PR_EC_CLIENT_SUBMIT_DATE ft]), 2)
  | .SENTON => do
    checkLeft lst 1
    let ft := calls.StringToFileTime (← criterion lst 1)
    .ok (.fill (.RES_AND [.RES_EXIST PR_EC_CLIENT_SUBMIT_DATE, dateCondition RELOP_GE PR_EC_CLIENT_SUBMIT_DATE ft,
      dateCondition RELOP_LT PR_EC_CLIENT_SUBMIT_DATE (calls.AddDay ft)]), 2)
  | .SENTSINCE => do
    checkLeft lst 1
    let ft := calls.StringToFileTime (← criterion lst 1)
    .ok (.fill (.RES_AND [.RES_EXIST PR_EC_CLIENT_SUBMIT_DATE, dateCondition RELOP_GE PR_EC_CLIENT_SUBMIT_DATE ft]), 2)
  | .SINCE => do
    checkLeft lst 1
    let ft := calls.StringToFileTime (← criterion lst 1)
    .ok (.fill (.RES_AND [.RES_EXIST PR_EC_MESSAGE_DELIVERY_DATE,
      dateCondition RELOP_GE PR_EC_MESSAGE_DELIVERY_DATE ft]), 2)
  | .SMALLER => do
    checkLeft lst 1
    let ul := calls.strtoul (← criterion lst 1)
    .ok (.fill (sizeCondition RELOP_LT ul), 2)
  -- the text is not converted
  | .SUBJECT => do
    checkLeft lst 1
    let token ← criterion lst 1
    .ok (.fill (.RES_AND [.RES_EXIST PR_SUBJECT,
      contentCondition (fuzzyLevel (cString token)) PR_SUBJECT PR_SUBJECT_A token]), 2)
  -- the text is converted in place, and then once more
  | .TEXT => do
    checkLeft lst 1
    let token := calls.text (← criterion lst 1)
    .ok (.fill (.RES_OR [
      .RES_AND [.RES_EXIST PR_BODY, contentCondition (fuzzyLevel token) PR_BODY PR_BODY_A token],
      .RES_AND [.RES_EXIST PR_TRANSPORT_MESSAGE_HEADERS_A,
        contentCondition (fuzzyLevel (calls.text token)) PR_TRANSPORT_MESSAGE_HEADERS_A PR_TRANSPORT_MESSAGE_HEADERS_A
          (calls.text token)]]), 2)
  | .TO | .CC | .BCC => do
    checkLeft lst 1
    let szSearch ← criterion lst 1
    .ok (.fill (headerCondition strSearchCriterium szSearch), 2)
  -- there is no check
  | .UID => do
    let strSeqSet ← criterion lst 1
    .ok (.fill (uidsCondition lstFolderMailEIDs (HrParseSeqUidSet lstFolderMailEIDs strSeqSet)), 2)
  | .UNANSWERED => .ok (.fill (flagClear PR_MSG_STATUS MSGSTATUS_ANSWERED.toBitVec), 1)
  | .UNDELETED => .ok (.fill (flagClear PR_MSG_STATUS MSGSTATUS_DELMARKED.toBitVec), 1)
  | .UNDRAFT => .ok (.fill (flagClear PR_MSG_STATUS MSGSTATUS_DRAFT.toBitVec), 1)
  | .UNFLAGGED => .ok (.fill (flagClear PR_FLAG_STATUS 65535), 1)
  -- the keyword is not read
  | .UNKEYWORD => .ok (.fill everyMessage, 2)
  | .UNSEEN => .ok (.fill (flagClear PR_MESSAGE_FLAGS MSGFLAG_READ.toBitVec), 1)
  | .HEADER => do
    checkLeft lst 2
    let szField ← criterion lst 1
    let szSearch ← criterion lst 2
    .ok (.fill (headerCondition szField szSearch), 3)

/-! ## The tree -/

/-- A node: a restriction without open nodes below it, or one whose children are at an address and behind it. -/
inductive Node where
  | leaf (lpRestriction : SRestriction)
  | and (lpRes : ℕ)
  | or (lpRes : ℕ)
  | not (lpRes : ℕ)

/-- The memory for nodes, which are allocated one behind the other, and `lstRestrictions`: its first element, and those
behind it, the last one first. -/
structure Tree where
  heap : List (Option Node)
  chainEnd : ℕ
  pending : List ℕ

namespace Tree

/-- `lpRootRestrict`, which is the only open node. -/
def root : Tree := ⟨[none], 0, []⟩

/-- `MAPIAllocateMore` for some nodes. -/
def allocate (tree : Tree) (n : ℕ) : ℕ × Tree :=
  (tree.heap.length, { tree with heap := tree.heap ++ List.replicate n none })

def write (tree : Tree) (lpRestriction : ℕ) (node : Node) : Tree :=
  { tree with heap := tree.heap.set lpRestriction (some node) }

/-- The node for the next key: the one opened last, or a new one in the chain. -/
def next (tree : Tree) : ℕ × Tree :=
  match tree.pending with
  | [] =>
    let (lpRestriction, tree) := tree.allocate 2
    (lpRestriction, { tree.write tree.chainEnd (.and lpRestriction) with chainEnd := lpRestriction + 1 })
  | lpRestriction :: pending => (lpRestriction, { tree with pending })

/-- What a key does with its node. -/
def apply (tree : Tree) (lpRestriction : ℕ) : KeyAction → Tree
  | .fill restriction => tree.write lpRestriction (.leaf restriction)
  | .not =>
    let (lpExtraRestriction, tree) := tree.allocate 1
    { tree.write lpRestriction (.not lpExtraRestriction) with pending := lpExtraRestriction :: tree.pending }
  | .or =>
    let (lpExtraRestriction, tree) := tree.allocate 2
    { tree.write lpRestriction (.or lpExtraRestriction) with
      pending := lpExtraRestriction :: (lpExtraRestriction + 1) :: tree.pending }

/-- The nodes that are still open match every message. -/
def close (tree : Tree) : Tree :=
  (tree.pending ++ [tree.chainEnd]).foldl (fun tree lpRestriction => tree.write lpRestriction (.leaf everyMessage)) tree

/-- The restriction at an address; the children of a node are behind it. -/
def restriction (tree : Tree) : ℕ → ℕ → Option SRestriction
  | 0, _ => none
  | fuel + 1, lpRestriction =>
    match tree.heap[lpRestriction]? with
    | some (some (.leaf restriction)) => some restriction
    | some (some (.and lpRes)) => do
      some (.RES_AND [← tree.restriction fuel lpRes, ← tree.restriction fuel (lpRes + 1)])
    | some (some (.or lpRes)) => do
      some (.RES_OR [← tree.restriction fuel lpRes, ← tree.restriction fuel (lpRes + 1)])
    | some (some (.not lpRes)) => do some (.RES_NOT (← tree.restriction fuel lpRes))
    | _ => none

end Tree

/-! ## HrSearch -/

section Search

variable (calls : SearchCalls) (lstFolderMailEIDs : List SMail)

/-- A turn of the loop: the tree, and the criteria from `ulStartCriteria` on. -/
def searchStep (tree : Tree) (lstSearchCriteria : List Str) : Except Fault (Tree × List Str) := do
  let lst := expandGroup lstSearchCriteria
  let strSearchCriterium := ToUpper (← criterion lst 0)
  let (lpRestriction, tree) := tree.next
  match searchKey strSearchCriterium with
  | none => .error (.hr .MAPI_E_CALL_FAILED)
  | some key =>
    let (action, n) ← readKey calls lstFolderMailEIDs lst strSearchCriterium key
    .ok (tree.apply lpRestriction action, lst.drop n)

/-- The loop, with a bound on the number of turns. -/
def searchLoop : ℕ → Tree → List Str → Option (Except Fault (Tree × List Str))
  | _, tree, [] => some (.ok (tree, []))
  | 0, _, _ :: _ => none
  | fuel + 1, tree, lst =>
    match searchStep calls lstFolderMailEIDs tree lst with
    | .error fault => some (.error fault)
    | .ok (tree, lst) => searchLoop fuel tree lst

/-- A bound on the turns that some criteria take: their characters, and one for each of them. -/
def weight (lst : List Str) : ℕ := (lst.map fun token => token.length + 1).sum

/-- The restriction that is built. -/
def buildRestriction (lst : List Str) : Option (Except Fault SRestriction) :=
  match searchLoop calls lstFolderMailEIDs (weight lst) .root lst with
  | none => none
  | some (.error fault) => some (.error fault)
  | some (.ok (tree, _)) =>
    match tree.close.restriction tree.heap.length 0 with
    | none => none
    | some lpRootRestrict => some (.ok (.RES_AND [.RES_EXIST PR_INSTANCE_KEY, lpRootRestrict]))

/-- A session with a selected folder. `contentsTable` is what `HrFindFolder` and `GetContentsTable` give: asked by
`HrQueryAllRows`, it answers a restriction with the UIDs of the rows. -/
structure SelectedFolder where
  lstFolderMailEIDs : List SMail
  contentsTable : Except HRESULT (SRestriction → Except HRESULT (List ULONG))

/-- The positions of the messages that a test holds of. -/
def positionsOf (test : SMail → Bool) : List ℕ :=
  (List.range lstFolderMailEIDs.length).filter fun ulMailnr => (lstFolderMailEIDs[ulMailnr]?).any test

/-- The flag is among those of the message. -/
def hasFlag (mail : SMail) (flag : String) : Bool := decide (flag.toList <:+: mail.strFlags.toList)

/-- The criteria that are answered from the list of messages. -/
def shortcut (lst : List Str) : Option (Except Fault (List ℕ)) :=
  match lst with
  | [token, strSeqSet] =>
    if ToUpper token = ascii "UID" then some (.ok (HrParseSeqUidSet lstFolderMailEIDs strSeqSet)) else none
  | [token] =>
    match searchKey (ToUpper token) with
    | some .sequenceSet =>
      match HrParseSeqSet lstFolderMailEIDs token with
      | .error hr => some (.error (.hr hr))
      | .ok lstMails => some (.ok lstMails)
    | some .ALL => some (.ok (positionsOf lstFolderMailEIDs fun _ => true))
    | some .RECENT => some (.ok (positionsOf lstFolderMailEIDs SMail.bRecent))
    | some .NEW =>
      some (.ok (positionsOf lstFolderMailEIDs fun mail => mail.bRecent && !hasFlag mail "Seen"))
    | some .OLD => some (.ok (positionsOf lstFolderMailEIDs fun mail => !mail.bRecent))
    | _ => none
  | _ => none

/-- The general search. -/
def generalSearch (folder : SelectedFolder) (lst : List Str) : Option (Except Fault (List ℕ)) :=
  match folder.contentsTable with
  | .error hr => some (.error (.hr hr))
  | .ok queryAllRows =>
    match buildRestriction calls folder.lstFolderMailEIDs lst with
    | none => none
    | some (.error fault) => some (.error fault)
    | some (.ok sAndRestriction) =>
      match queryAllRows sAndRestriction with
      | .error hr => some (.error (.hr hr))
      | .ok rows =>
        some (.ok ((rows.filterMap (rememberUIDs (fun _ => none) 0 folder.lstFolderMailEIDs)).insertionSort (· ≤ ·)))

/-- `IMAP::HrSearch`, with `lstMailnr` empty before. -/
def HrSearch (folder : SelectedFolder) (lstSearchCriteria : List Str) (ulStartCriteria : ℕ) :
    Option (Except Fault (List ℕ)) :=
  if folder.lstFolderMailEIDs = [] then some (.ok [])
  else
    let lst := lstSearchCriteria.drop ulStartCriteria
    match criterion lst 0 with
    | .error fault => some (.error fault)
    | .ok _ =>
      match shortcut folder.lstFolderMailEIDs lst with
      | some result => some result
      | none => generalSearch calls folder lst

end Search

end Zcp.Gateway
