import Zcp.Gateway.IMAP
import Zcp.Common.SOAPUtils
import Zcp.Lib.Decimal
import Zcp.Lib.SortedSets
import Zcp.Libserver.ECGenericObjectTable.MatchRowRestrict

/-!
# Sequence sets

A sequence set is turned into positions of `lstFolderMailEIDs` (`HrParseSeqSet`, `HrParseSeqUidSet`), or into a
restriction for the server (`HrSeqUidSetToRestriction`). A set of UIDs means the same both ways (`seqUidSet_agrees`).
-/

namespace Zcp.Gateway

open Zcp.Lib Zcp.Common
open Libserver.ECGenericObjectTable.RowState (RestrictTable PropVal Calls findProp matchRowRestrict matchAnd matchOr
  matchProperty matchValue RELOP_EQ RELOP_GE RELOP_LE RELOP_RE relopMatch SameTypes IsAnr sameStringTag
  valueTag PROP_TYPE MV_FLAG)

/-- A `std::string`. -/
abbrev Str := List UInt8

/-- The bytes of an ASCII text. -/
def ascii (text : String) : Str := text.toList.map Char.toUInt8

/-- `atoui`, which is `strtoul` made an `unsigned int`. -/
def atoui (szString : Str) : ULONG := .ofNat (strtoul szString).1

/-- `tokenize`. A NUL ends the search for separators, and the last token is then the text before it. -/
def tokenize (sep : UInt8) (strInput : Str) : List Str :=
  match strInput with
  | [] => []
  | c :: rest =>
    let token := (c :: rest).takeWhile fun c => c ≠ sep ∧ c ≠ 0
    match _hrest : (c :: rest).drop token.length with
    | [] => [token]
    | d :: behind => if d = sep then token :: tokenize sep behind else [token]
termination_by strInput.length
decreasing_by
  have hlen := congrArg List.length _hrest
  simp only [List.length_drop, List.length_cons] at hlen ⊢
  omega

section Sets

variable (lstFolderMailEIDs : List SMail)

/-- `IMAP::LastOrNumber`. -/
def LastOrNumber (szNr : Str) (bUID : Bool) : ULONG :=
  if szNr.head? ≠ some 42 then atoui szNr
  else if ¬ bUID then .ofNat lstFolderMailEIDs.length
  else
    match lstFolderMailEIDs.getLast? with
    | none => 0
    | some mail => mail.ulUid

/-- The number of a piece of a sequence set, and the second one of a range. -/
def readSequence (bUID : Bool) (vSequence : Str) : ULONG × Option ULONG :=
  (LastOrNumber lstFolderMailEIDs vSequence bUID,
    (vSequence.idxOf? 58).map fun ulPos => LastOrNumber lstFolderMailEIDs (vSequence.drop (ulPos + 1)) bUID)

/-- `std::lower_bound`. -/
def lowerBound (ulUid : ULONG) : ℕ := lstFolderMailEIDs.findIdx fun mail => ¬ mail.ulUid < ulUid

/-- `std::upper_bound`. -/
def upperBound (ulUid : ULONG) : ℕ := lstFolderMailEIDs.findIdx fun mail => ulUid < mail.ulUid

/-- What `IMAP::HrParseSeqUidSet` adds for a piece. -/
def parseUidSequence (vSequence : Str) : List ℕ :=
  match readSequence lstFolderMailEIDs true vSequence with
  | (ulMailnr, none) => (lstFolderMailEIDs.findIdx? fun mail => mail.ulUid = ulMailnr).toList
  | (ulBeginMailnr, some ulMailnr) =>
    let b := lowerBound lstFolderMailEIDs (min ulBeginMailnr ulMailnr)
    let e := upperBound lstFolderMailEIDs (max ulBeginMailnr ulMailnr)
    List.range' b (e - b)

/-- `IMAP::HrParseSeqUidSet`. -/
def HrParseSeqUidSet (strSeqSet : Str) : List ℕ :=
  sortUnique ((tokenize 44 strSeqSet).flatMap (parseUidSequence lstFolderMailEIDs))

inductive HRESULT where
  | MAPI_E_CALL_FAILED
  | MAPI_E_NOT_FOUND
deriving DecidableEq, Repr

/-- What `IMAP::HrParseSeqSet` adds for a piece. -/
def parseSequence (vSequence : Str) : Except HRESULT (List ℕ) :=
  match readSequence lstFolderMailEIDs false vSequence with
  | (ulMailnr, none) =>
    if lstFolderMailEIDs.length ≤ (ulMailnr - 1).toNat then .error .MAPI_E_CALL_FAILED else .ok [(ulMailnr - 1).toNat]
  | (ulBeginMailnr, some ulMailnr) =>
    let b := min (ulBeginMailnr - 1) (ulMailnr - 1)
    let e := max (ulBeginMailnr - 1) (ulMailnr - 1)
    if lstFolderMailEIDs.length ≤ b.toNat ∨ lstFolderMailEIDs.length ≤ e.toNat then .error .MAPI_E_CALL_FAILED
    else .ok (List.range' b.toNat (e.toNat - b.toNat + 1))

/-- `IMAP::HrParseSeqSet`. -/
def HrParseSeqSet (strSeqSet : Str) : Except HRESULT (List ℕ) := do
  if lstFolderMailEIDs = [] then .error .MAPI_E_NOT_FOUND
  else
    let lstMails ← (tokenize 44 strSeqSet).mapM (parseSequence lstFolderMailEIDs)
    .ok (sortUnique lstMails.flatten)

/-! ## Restrictions -/

def PR_EC_IMAP_ID : BitVec 32 := 0x67820003

/-- A condition on the UID. -/
def uidCondition (relop : BitVec 32) (ulUid : ULONG) : RestrictTable PropValData :=
  .RES_PROPERTY relop PR_EC_IMAP_ID (some ⟨PR_EC_IMAP_ID, .PT_LONG ulUid.toBitVec⟩)

/-- The restriction of a piece. -/
def sequenceRestriction (vSequence : Str) : RestrictTable PropValData :=
  match readSequence lstFolderMailEIDs true vSequence with
  | (ulUid, none) => uidCondition RELOP_EQ ulUid
  | (ulUid, some ulUidEnd) =>
    .RES_AND [uidCondition RELOP_GE (min ulUid ulUidEnd), uidCondition RELOP_LE (max ulUid ulUidEnd)]

/-- `IMAP::HrSeqUidSetToRestriction`; an empty set is no restriction. -/
def HrSeqUidSetToRestriction (strSeqSet : Str) : Option (RestrictTable PropValData) :=
  if strSeqSet = [] then none
  else some (.RES_OR ((tokenize 44 strSeqSet).map (sequenceRestriction lstFolderMailEIDs)))

end Sets

/-! ## The server -/

/-- The calls of the server, with its comparison of values. -/
def serverCalls (d : SOAPUtils.Comparers) (c : Calls PropValData) : Calls PropValData :=
  { c with
    compareProp := fun lpProp1 lpProp2 =>
      SOAPUtils.result d ⟨(lpProp1.ulPropTag >>> 16).setWidth 16, lpProp1.Value⟩
        ⟨(lpProp2.ulPropTag >>> 16).setWidth 16, lpProp2.Value⟩ }

/-- A row of the server with the UID of a message. -/
def ShowsUid (row : List (PropVal PropValData)) (ulUid : ULONG) : Prop :=
  findProp row PR_EC_IMAP_ID = some ⟨PR_EC_IMAP_ID, .PT_LONG ulUid.toBitVec⟩

section Server

variable {d : SOAPUtils.Comparers} {c : Calls PropValData} {lpSubResults : Option (List (List ℕ))}
  {row : List (PropVal PropValData)} {ulUid : ULONG}

theorem matchAnd_nil : matchAnd (serverCalls d c) lpSubResults [] row = (.ok true, row) := by
  unfold matchAnd
  rfl

/-- `RES_AND` goes on behind a condition that holds. -/
theorem matchAnd_cons {child : RestrictTable PropValData} {children : List (RestrictTable PropValData)} {fMatch : Bool}
    (h : matchRowRestrict (serverCalls d c) lpSubResults child row = (.ok fMatch, row)) :
    matchAnd (serverCalls d c) lpSubResults (child :: children) row =
      if fMatch then matchAnd (serverCalls d c) lpSubResults children row else (.ok false, row) := by
  conv_lhs => unfold matchAnd
  rw [h]
  cases fMatch <;> rfl

theorem matchOr_nil : matchOr (serverCalls d c) lpSubResults [] row = (.ok false, row) := by
  unfold matchOr
  rfl

/-- `RES_OR` goes on behind a condition that does not hold. -/
theorem matchOr_cons {child : RestrictTable PropValData} {children : List (RestrictTable PropValData)} {fMatch : Bool}
    (h : matchRowRestrict (serverCalls d c) lpSubResults child row = (.ok fMatch, row)) :
    matchOr (serverCalls d c) lpSubResults (child :: children) row =
      if fMatch then (.ok true, row) else matchOr (serverCalls d c) lpSubResults children row := by
  conv_lhs => unfold matchOr
  rw [h]
  cases fMatch <;> rfl

/-- The server compares UIDs as numbers without a sign. -/
theorem matchRowRestrict_uidCondition (hrow : ShowsUid row ulUid) {relop : BitVec 32} (hrelop : relop ≠ RELOP_RE)
    (n : ULONG) : matchRowRestrict (serverCalls d c) lpSubResults (uidCondition relop n) row =
      (.ok (relopMatch relop (compareBranches ulUid.toNat n.toNat)), row) := by
  have htypes : SameTypes PR_EC_IMAP_ID (⟨PR_EC_IMAP_ID, .PT_LONG n.toBitVec⟩ : PropVal PropValData) :=
    show PROP_TYPE (sameStringTag PR_EC_IMAP_ID) &&& ~~~MV_FLAG = PROP_TYPE (valueTag PR_EC_IMAP_ID) by decide
  have hanr : ¬ IsAnr (sameStringTag PR_EC_IMAP_ID) := by decide
  unfold uidCondition matchRowRestrict
  show matchProperty _ relop PR_EC_IMAP_ID _ row = _
  rw [matchProperty, if_neg (not_not_intro htypes), if_neg hrelop, if_neg hanr, hrow]
  refine congrArg (fun fMatch => (Except.ok fMatch, row)) ?_
  unfold matchValue
  show (if sameStringTag PR_EC_IMAP_ID &&& MV_FLAG ≠ 0 then _ else _) = _
  rw [if_neg (by decide)]
  rfl

theorem relopMatch_eq (n : ULONG) : relopMatch RELOP_EQ (compareBranches ulUid.toNat n.toNat) = true ↔ ulUid = n := by
  show decide (compareBranches ulUid.toNat n.toNat = 0) = true ↔ _
  rw [decide_eq_true_iff, ← UInt32.toNat_inj, compareBranches]
  split_ifs with heq hlt
  · exact iff_of_true rfl (by omega)
  · exact iff_of_false (by decide) (by omega)
  · exact iff_of_false (by decide) (by omega)

theorem relopMatch_ge (n : ULONG) : relopMatch RELOP_GE (compareBranches ulUid.toNat n.toNat) = true ↔ n ≤ ulUid := by
  show decide (0 ≤ compareBranches ulUid.toNat n.toNat) = true ↔ _
  rw [decide_eq_true_iff, UInt32.le_iff_toNat_le, compareBranches]
  split_ifs <;> omega

theorem relopMatch_le (n : ULONG) : relopMatch RELOP_LE (compareBranches ulUid.toNat n.toNat) = true ↔ ulUid ≤ n := by
  show decide (compareBranches ulUid.toNat n.toNat ≤ 0) = true ↔ _
  rw [decide_eq_true_iff, UInt32.le_iff_toNat_le, compareBranches]
  split_ifs <;> omega

/-- The UIDs that a piece of a set stands for. -/
def Names (lstFolderMailEIDs : List SMail) (vSequence : Str) (ulUid : ULONG) : Prop :=
  match readSequence lstFolderMailEIDs true vSequence with
  | (n, none) => ulUid = n
  | (n, some m) => min n m ≤ ulUid ∧ ulUid ≤ max n m

variable {lstFolderMailEIDs : List SMail}

/-- The server finds the messages with the UIDs that a piece stands for, and always answers. -/
theorem matchRowRestrict_sequence (hrow : ShowsUid row ulUid) (vSequence : Str) :
    ∃ fMatch, matchRowRestrict (serverCalls d c) lpSubResults (sequenceRestriction lstFolderMailEIDs vSequence) row =
      (.ok fMatch, row) ∧ (fMatch = true ↔ Names lstFolderMailEIDs vSequence ulUid) := by
  unfold sequenceRestriction Names
  match readSequence lstFolderMailEIDs true vSequence with
  | (n, none) => exact ⟨_, matchRowRestrict_uidCondition hrow (by decide) n, relopMatch_eq n⟩
  | (n, some m) =>
    refine ⟨relopMatch RELOP_GE (compareBranches ulUid.toNat (min n m).toNat) &&
      relopMatch RELOP_LE (compareBranches ulUid.toNat (max n m).toNat), ?_, ?_⟩
    · have hge : RELOP_GE ≠ RELOP_RE := by decide
      have hle : RELOP_LE ≠ RELOP_RE := by decide
      unfold matchRowRestrict
      rw [matchAnd_cons (matchRowRestrict_uidCondition hrow hge _), matchAnd_cons (matchRowRestrict_uidCondition hrow hle _),
        matchAnd_nil]
      cases relopMatch RELOP_GE (compareBranches ulUid.toNat (min n m).toNat) <;>
        cases relopMatch RELOP_LE (compareBranches ulUid.toNat (max n m).toNat) <;> rfl
    · rw [Bool.and_eq_true, relopMatch_ge, relopMatch_le]

/-- The server finds the messages with the UIDs that one of some pieces stands for, and always answers. -/
theorem matchOr_sequences (hrow : ShowsUid row ulUid) (vSequences : List Str) :
    ∃ fMatch, matchOr (serverCalls d c) lpSubResults (vSequences.map (sequenceRestriction lstFolderMailEIDs)) row =
      (.ok fMatch, row) ∧ (fMatch = true ↔ ∃ vSequence ∈ vSequences, Names lstFolderMailEIDs vSequence ulUid) := by
  induction vSequences with
  | nil => exact ⟨false, matchOr_nil, by simp⟩
  | cons vSequence rest ih =>
    obtain ⟨fFirst, hfirst, hnames⟩ := matchRowRestrict_sequence (d := d) (c := c) hrow vSequence
    obtain ⟨fRest, hrest, hrestNames⟩ := ih
    refine ⟨fFirst || fRest, ?_, ?_⟩
    · rw [List.map_cons, matchOr_cons hfirst, hrest]
      cases fFirst <;> rfl
    · rw [Bool.or_eq_true, hnames, hrestNames, List.exists_mem_cons_iff]

end Server

/-! ## Positions -/

section Positions

variable {lstFolderMailEIDs : List SMail}

/-- The list of messages is ascending by UID. -/
def SortedByUid (lstFolderMailEIDs : List SMail) : Prop :=
  lstFolderMailEIDs.Pairwise fun a b => a.ulUid < b.ulUid

theorem lowerBound_le_iff (hsorted : SortedByUid lstFolderMailEIDs) (n : ULONG) {i : ℕ} {mail : SMail}
    (hi : lstFolderMailEIDs[i]? = some mail) : lowerBound lstFolderMailEIDs n ≤ i ↔ n ≤ mail.ulUid := by
  rw [lowerBound, findIdx_le_iff _ hi, decide_eq_true_iff, UInt32.not_lt]
  refine hsorted.imp fun {a b} hab => ?_
  rw [decide_eq_true_iff, decide_eq_true_iff, UInt32.not_lt, UInt32.not_lt]
  exact fun hle => UInt32.le_trans hle (UInt32.le_of_lt hab)

theorem lt_upperBound_iff (hsorted : SortedByUid lstFolderMailEIDs) (n : ULONG) {i : ℕ} {mail : SMail}
    (hi : lstFolderMailEIDs[i]? = some mail) : i < upperBound lstFolderMailEIDs n ↔ mail.ulUid ≤ n := by
  rw [← not_le, upperBound, findIdx_le_iff _ hi, decide_eq_true_iff, UInt32.not_lt]
  refine hsorted.imp fun {a b} hab => ?_
  rw [decide_eq_true_iff, decide_eq_true_iff]
  exact fun hlt => UInt32.lt_trans hlt hab

/-- The positions of a piece are those of the messages with the UIDs that it stands for. -/
theorem mem_parseUidSequence (hsorted : SortedByUid lstFolderMailEIDs) (vSequence : Str) (i : ℕ) :
    i ∈ parseUidSequence lstFolderMailEIDs vSequence ↔
      ∃ mail, lstFolderMailEIDs[i]? = some mail ∧ Names lstFolderMailEIDs vSequence mail.ulUid := by
  unfold parseUidSequence Names
  match readSequence lstFolderMailEIDs true vSequence with
  | (n, none) =>
    have hmono : lstFolderMailEIDs.Pairwise fun a b => a.ulUid ≠ b.ulUid := hsorted.imp fun hab => UInt32.ne_of_lt hab
    simp only [Option.mem_toList, List.findIdx?_eq_some_iff_getElem, decide_eq_true_iff]
    constructor
    · rintro ⟨hlt, huid, -⟩
      exact ⟨_, List.getElem?_eq_getElem hlt, huid⟩
    · rintro ⟨mail, hi, huid⟩
      obtain ⟨hlt, rfl⟩ := List.getElem?_eq_some_iff.mp hi
      refine ⟨hlt, huid, fun j hj => ?_⟩
      have hne := List.pairwise_iff_getElem.mp hmono j i (by omega) hlt hj
      rwa [huid] at hne
  | (n, some m) =>
    simp only [List.mem_range'_1]
    constructor
    · rintro ⟨hle, hlt⟩
      have hupper : upperBound lstFolderMailEIDs (max n m) ≤ lstFolderMailEIDs.length := List.findIdx_le_length
      have hi : lstFolderMailEIDs[i]? = some lstFolderMailEIDs[i] := List.getElem?_eq_getElem (by omega)
      exact ⟨_, hi, (lowerBound_le_iff hsorted _ hi).mp hle, (lt_upperBound_iff hsorted _ hi).mp (by omega)⟩
    · rintro ⟨mail, hi, hmin, hmax⟩
      have hle := (lowerBound_le_iff hsorted _ hi).mpr hmin
      have hlt := (lt_upperBound_iff hsorted _ hi).mpr hmax
      exact ⟨hle, by omega⟩

theorem mem_HrParseSeqUidSet (hsorted : SortedByUid lstFolderMailEIDs) (strSeqSet : Str) (i : ℕ) :
    i ∈ HrParseSeqUidSet lstFolderMailEIDs strSeqSet ↔ ∃ mail, lstFolderMailEIDs[i]? = some mail ∧
      ∃ vSequence ∈ tokenize 44 strSeqSet, Names lstFolderMailEIDs vSequence mail.ulUid := by
  rw [HrParseSeqUidSet, mem_sortUnique, List.mem_flatMap]
  constructor
  · rintro ⟨vSequence, hmem, hi⟩
    obtain ⟨mail, hmail, hnames⟩ := (mem_parseUidSequence hsorted vSequence i).mp hi
    exact ⟨mail, hmail, vSequence, hmem, hnames⟩
  · rintro ⟨mail, hmail, vSequence, hmem, hnames⟩
    exact ⟨vSequence, hmem, (mem_parseUidSequence hsorted vSequence i).mpr ⟨mail, hmail, hnames⟩⟩

/-- What the server finds of the messages. -/
def Selects (d : SOAPUtils.Comparers) (c : Calls PropValData) (lpSubResults : Option (List (List ℕ)))
    (restriction : RestrictTable PropValData) (row : List (PropVal PropValData)) : Prop :=
  (matchRowRestrict (serverCalls d c) lpSubResults restriction row).1 = .ok true

/-- A set of UIDs stands for the same messages both ways: the positions, which are ascending, are those of the messages
that the server finds. -/
theorem seqUidSet_agrees (hsorted : SortedByUid lstFolderMailEIDs) {strSeqSet : Str} (hne : strSeqSet ≠ [])
    (d : SOAPUtils.Comparers) (c : Calls PropValData) (lpSubResults : Option (List (List ℕ))) :
    (HrParseSeqUidSet lstFolderMailEIDs strSeqSet).Pairwise (· < ·) ∧
      (∀ i ∈ HrParseSeqUidSet lstFolderMailEIDs strSeqSet, i < lstFolderMailEIDs.length) ∧
      ∃ restriction, HrSeqUidSetToRestriction lstFolderMailEIDs strSeqSet = some restriction ∧
        ∀ i mail row, lstFolderMailEIDs[i]? = some mail → ShowsUid row mail.ulUid →
          (i ∈ HrParseSeqUidSet lstFolderMailEIDs strSeqSet ↔ Selects d c lpSubResults restriction row) := by
  refine ⟨pairwise_sortUnique _, fun i hi => ?_, _, if_neg hne, fun i mail row hmail hrow => ?_⟩
  · obtain ⟨mail, hmail, -⟩ := (mem_HrParseSeqUidSet hsorted strSeqSet i).mp hi
    exact (List.getElem?_eq_some_iff.mp hmail).1
  · obtain ⟨fMatch, hmatch, hnames⟩ := matchOr_sequences (d := d) (c := c) hrow (tokenize 44 strSeqSet)
    rw [mem_HrParseSeqUidSet hsorted, Selects, matchRowRestrict, hmatch]
    constructor
    · rintro ⟨mail', hmail', hexists⟩
      obtain rfl := Option.some.inj (hmail'.symm.trans hmail)
      exact congrArg Except.ok (hnames.mpr hexists)
    · intro hok
      exact ⟨mail, hmail, hnames.mp (Except.ok.inj hok)⟩

end Positions

/-- Three messages. -/
def threeMails : List SMail := [⟨[1], 3, false, ""⟩, ⟨[2], 7, false, ""⟩, ⟨[3], 9, true, ""⟩]

/-- The comparisons of a server that is asked for numbers only. -/
def numbersOnly : SOAPUtils.Comparers where
  u8_icompare _ _ := 0
  u8_istartswith _ _ := 0
  eqFloat _ _ := false
  ltFloat _ _ := false
  eqDouble _ _ := false
  ltDouble _ _ := false

/-- The other calls of such a server. -/
def numberCalls : Calls PropValData where
  compareProp _ _ := none
  compareMVPropWithProp _ _ _ := none
  contentMatches _ _ _ _ _ := false
  regularExpression _ _ := false
  propSize _ := 0
  ul
    | .PT_LONG ul => ul
    | _ => 0
  GetObjectFromEntryId _ := none

/-- In the set `5:*,3` of the three messages, the one with the UID 7 is found both ways or neither. -/
theorem seqUidSet_agrees_three :
    ∃ restriction, HrSeqUidSetToRestriction threeMails (ascii "5:*,3") = some restriction ∧ ∀ row, ShowsUid row 7 →
        (1 ∈ HrParseSeqUidSet threeMails (ascii "5:*,3") ↔ Selects numbersOnly numberCalls none restriction row) := by
  have hsorted : SortedByUid threeMails := by
    unfold SortedByUid
    decide
  obtain ⟨-, -, restriction, hrestriction, hagrees⟩ :=
    seqUidSet_agrees hsorted (show ascii "5:*,3" ≠ [] by decide) numbersOnly numberCalls none
  exact ⟨restriction, hrestriction, fun row hrow => hagrees 1 ⟨[2], 7, false, ""⟩ row rfl hrow⟩

end Zcp.Gateway
