import Zcp.Gateway.IMAP.Refresh
import Zcp.Gateway.IMAP.Search.Bounds
import Zcp.Lib.Sextets

/-!
# Shortcuts

Some search keys are answered from the list of messages when they stand alone, and by the server otherwise. The server
knows no recent messages: what it finds for `RECENT`, `NEW` and `OLD` are all the messages, for `OLD` because it cannot
evaluate the restriction. The two agree just where that is right (`shortcuts_iff`).

Reference: `gateway/IMAP.cpp`; `AddRowKey` is in `provider/libserver/ECGenericObjectTable.cpp`.
-/

namespace Zcp.Gateway

open Zcp.Lib Zcp.Common
open Libserver.ECGenericObjectTable (Failure)
open Libserver.ECGenericObjectTable.RowState (RestrictTable PropVal Calls findProp matchRowRestrict matchAnd matchOr
  matchBitmask RELOP_EQ RELOP_RE relopMatch PR_ENTRYID)

/-! ## Capital letters -/

theorem isDigit_toUpper : ∀ c, isDigit (toUpper c) = isDigit c := by decide +kernel

theorem isSpace_toUpper : ∀ c, isSpace (toUpper c) = isSpace c := by decide +kernel

theorem toUpper_of_isDigit : ∀ c, isDigit c = true → toUpper c = c := by decide +kernel

/-- The characters that a sequence set is read by are no letters. -/
theorem toUpper_eq_iff : ∀ c, ∀ x ∈ [0, 40, 42, 43, 44, 45, 58], toUpper c = x ↔ c = x := by decide +kernel

example : ToUpper [97, 42] = [65, 42] := by decide +kernel

theorem takeWhile_ToUpper {p : UInt8 → Bool} (hp : ∀ c, p (toUpper c) = p c) (s : Str) :
    (ToUpper s).takeWhile p = ToUpper (s.takeWhile p) := by
  have hcomp : p ∘ toUpper = p := funext hp
  rw [ToUpper, List.takeWhile_map, hcomp, ToUpper]

theorem dropWhile_ToUpper {p : UInt8 → Bool} (hp : ∀ c, p (toUpper c) = p c) (s : Str) :
    (ToUpper s).dropWhile p = ToUpper (s.dropWhile p) := by
  have hcomp : p ∘ toUpper = p := funext hp
  rw [ToUpper, List.dropWhile_map, hcomp, ToUpper]

theorem scanSign_ToUpper (s : Str) : scanSign (ToUpper s) = ((scanSign s).1, ToUpper (scanSign s).2) := by
  match s with
  | [] => rfl
  | c :: rest =>
    show scanSign (toUpper c :: ToUpper rest) = _
    simp only [scanSign, toUpper_eq_iff c 45 (by decide), toUpper_eq_iff c 43 (by decide)]
    split_ifs <;> rfl

/-- Digits are the same in capitals. -/
theorem takeWhile_isDigit_ToUpper (s : Str) : (ToUpper s).takeWhile isDigit = s.takeWhile isDigit := by
  rw [takeWhile_ToUpper isDigit_toUpper, ToUpper]
  exact List.map_congr_left (fun c hc => toUpper_of_isDigit c (List.mem_takeWhile_imp hc)) |>.trans (List.map_id _)

theorem atoui_ToUpper (s : Str) : atoui (ToUpper s) = atoui s := by
  have hscan : (scanInt (ToUpper s)).1 = (scanInt s).1 := by
    rw [scanInt, scanInt, dropWhile_ToUpper isSpace_toUpper, scanSign_ToUpper]
    simp only [takeWhile_isDigit_ToUpper]
    split_ifs <;> rfl
  rw [atoui, atoui, strtoul, strtoul]
  simp only [hscan]

/-- `tokenize` on a text that is not empty. -/
theorem tokenize_cons (sep c : UInt8) (rest : Str) :
    tokenize sep (c :: rest) = (c :: rest).takeWhile (fun c => c ≠ sep ∧ c ≠ 0) ::
      match (c :: rest).drop ((c :: rest).takeWhile fun c => c ≠ sep ∧ c ≠ 0).length with
      | [] => []
      | d :: behind => if d = sep then tokenize sep behind else [] := by
  rw [tokenize]
  split
  · next hrest => rw [hrest]
  · next d behind hrest =>
    rw [hrest]
    split_ifs with hsep
    · exact congrArg _ (if_pos hsep).symm
    · exact congrArg _ (if_neg hsep).symm

/-- A text in upper case is cut at the same commas. -/
theorem tokenize_ToUpper (s : Str) : tokenize 44 (ToUpper s) = (tokenize 44 s).map ToUpper := by
  have hends : ∀ c, decide (toUpper c ≠ 44 ∧ toUpper c ≠ 0) = decide (c ≠ 44 ∧ c ≠ 0) := fun c =>
    decide_eq_decide.mpr (and_congr (not_congr (toUpper_eq_iff c 44 (by decide)))
      (not_congr (toUpper_eq_iff c 0 (by decide))))
  induction hn : s.length using Nat.strong_induction_on generalizing s with
  | _ n ih =>
    cases s with
    | nil => rw [ToUpper, List.map_nil, tokenize, List.map_nil]
    | cons c rest =>
      have hcons : ToUpper (c :: rest) = toUpper c :: ToUpper rest := rfl
      have htoken : (ToUpper (c :: rest)).takeWhile (fun c => decide (c ≠ 44 ∧ c ≠ 0)) = _ :=
        takeWhile_ToUpper hends (c :: rest)
      have hlen : ∀ s : Str, (ToUpper s).length = s.length := fun s => List.length_map toUpper
      rw [hcons, tokenize_cons, ← hcons, htoken, hlen, tokenize_cons, List.map_cons]
      refine congrArg _ ?_
      rw [ToUpper, ← List.map_drop]
      cases hdrop : (c :: rest).drop ((c :: rest).takeWhile fun c => c ≠ 44 ∧ c ≠ 0).length with
      | nil => rfl
      | cons d behind =>
        have hshorter := congrArg List.length hdrop
        simp only [List.length_drop, List.length_cons] at hshorter hn
        rw [List.map_cons]
        simp only [toUpper_eq_iff d 44 (by decide)]
        split_ifs with hsep
        · exact ih behind.length (by omega) behind rfl
        · rfl

variable {lstMails : List ℕ}

section Sets

variable (lstFolderMailEIDs : List SMail)

/-- One part of a sequence set is read in the same way in upper case. -/
theorem readSequence_ToUpper (bUID : Bool) (vSequence : Str) :
    readSequence lstFolderMailEIDs bUID (ToUpper vSequence) = readSequence lstFolderMailEIDs bUID vSequence := by
  have hnumber : ∀ szNr, LastOrNumber lstFolderMailEIDs (ToUpper szNr) bUID = LastOrNumber lstFolderMailEIDs szNr bUID := by
    intro szNr
    have hstar : (ToUpper szNr).head? = some 42 ↔ szNr.head? = some 42 := by
      match szNr with
      | [] => rfl
      | c :: rest => exact Option.some_inj.trans ((toUpper_eq_iff c 42 (by decide)).trans Option.some_inj.symm)
    simp only [LastOrNumber, ne_eq, hstar, atoui_ToUpper]
  have hcolon : (ToUpper vSequence).idxOf? 58 = vSequence.idxOf? 58 := by
    show (vSequence.map toUpper).findIdx? (· == 58) = vSequence.findIdx? (· == 58)
    rw [List.findIdx?_map]
    refine congrArg (vSequence.findIdx? ·) (funext fun c => ?_)
    exact Bool.eq_iff_iff.mpr (beq_iff_eq.trans ((toUpper_eq_iff c 58 (by decide)).trans beq_iff_eq.symm))
  have hdrop : ∀ n, (ToUpper vSequence).drop n = ToUpper (vSequence.drop n) := fun n => List.map_drop.symm
  simp only [readSequence, hnumber, hcolon, hdrop]

/-- A sequence set is the same in capitals, in which the general search reads it. -/
theorem HrParseSeqSet_ToUpper (strSeqSet : Str) :
    HrParseSeqSet lstFolderMailEIDs (ToUpper strSeqSet) = HrParseSeqSet lstFolderMailEIDs strSeqSet := by
  have hpiece : parseSequence lstFolderMailEIDs ∘ ToUpper = parseSequence lstFolderMailEIDs := by
    funext vSequence
    rw [Function.comp_apply, parseSequence, readSequence_ToUpper, parseSequence]
  rw [HrParseSeqSet, HrParseSeqSet, tokenize_ToUpper, List.mapM_map, hpiece]

variable {lstFolderMailEIDs}

theorem toNat_min_le_max (a b : ULONG) : (min a b).toNat ≤ (max a b).toNat := by
  show (if a ≤ b then a else b).toNat ≤ (if a ≤ b then b else a).toNat
  split_ifs with hle
  · exact UInt32.le_iff_toNat_le.mp hle
  · exact Nat.le_of_not_le (UInt32.le_iff_toNat_le.not.mp hle)

/-- The positions of one range are positions of the list. -/
theorem parseSequence_lt {vSequence : Str}
    (h : parseSequence lstFolderMailEIDs vSequence = .ok lstMails) : ∀ i ∈ lstMails, i < lstFolderMailEIDs.length := by
  unfold parseSequence at h
  split at h
  · split_ifs at h with hlt
    obtain rfl := Except.ok.inj h
    simpa using hlt
  · next n m hread =>
    dsimp only at h
    split_ifs at h with hlt
    obtain rfl := Except.ok.inj h
    intro i hi
    obtain ⟨hle, hlt'⟩ := List.mem_range'_1.mp hi
    have hminmax := toNat_min_le_max (n - 1) (m - 1)
    omega

/-- What holds of every single result holds of the results of a list. -/
theorem forall_of_mapM_ok {ε α β : Type} {f : α → Except ε β} {P : β → Prop} (hf : ∀ a b, f a = .ok b → P b) {l : List α}
    {r : List β} (h : l.mapM f = .ok r) : ∀ b ∈ r, P b := by
  induction l generalizing r with
  | nil =>
    obtain rfl := Except.ok.inj h
    exact List.forall_mem_nil P
  | cons a l ih =>
    rw [List.mapM_cons] at h
    match ha : f a, hl : l.mapM f with
    | .error e, _ =>
      rw [ha] at h
      cases h
    | .ok b, .error e =>
      rw [ha, hl] at h
      cases h
    | .ok b, .ok r' =>
      rw [ha, hl] at h
      obtain rfl := Except.ok.inj h
      exact List.forall_mem_cons.mpr ⟨hf a b ha, ih hl⟩

/-- The positions of a sequence set are ascending, and there is a message at each of them. -/
theorem HrParseSeqSet_spec {strSeqSet : Str} (h : HrParseSeqSet lstFolderMailEIDs strSeqSet = .ok lstMails) :
    lstMails.Pairwise (· < ·) ∧ ∀ i ∈ lstMails, i < lstFolderMailEIDs.length := by
  unfold HrParseSeqSet at h
  split_ifs at h with hempty
  match hpieces : (tokenize 44 strSeqSet).mapM (parseSequence lstFolderMailEIDs) with
  | .error hr =>
    rw [hpieces] at h
    cases h
  | .ok pieces =>
    rw [hpieces] at h
    obtain rfl := Except.ok.inj h
    refine ⟨pairwise_sortUnique _, fun i hi => ?_⟩
    obtain ⟨piece, hpiece, hi⟩ := List.mem_flatten.mp (mem_sortUnique.mp hi)
    exact forall_of_mapM_ok (fun _ _ => parseSequence_lt) hpieces piece hpiece i hi

/-- The positions of a set of UIDs are positions of the list. -/
theorem HrParseSeqUidSet_lt (strSeqSet : Str) :
    ∀ i ∈ HrParseSeqUidSet lstFolderMailEIDs strSeqSet, i < lstFolderMailEIDs.length := by
  intro i hi
  obtain ⟨vSequence, -, hi⟩ := List.mem_flatMap.mp (mem_sortUnique.mp hi)
  unfold parseUidSequence at hi
  split at hi
  · exact (List.findIdx?_eq_some_iff_getElem.mp (Option.mem_toList.mp hi)).1
  · next n m hread =>
    have hupper : upperBound lstFolderMailEIDs (max n m) ≤ lstFolderMailEIDs.length := List.findIdx_le_length
    obtain ⟨hle, hlt⟩ := List.mem_range'_1.mp hi
    omega

end Sets

/-! ## The server -/

/-- A row with the properties that a restriction asks for. -/
abbrev TableRow := List (PropVal PropValData)

section Server

variable (c : Calls PropValData) (lpSubResults : Option (List (List ℕ)))

/-- `ECGenericObjectTable::AddRowKey` on the rows of a table, with `fMatch` from the row before. The error of a
restriction that cannot be evaluated is not looked at, and `fMatch` stays. -/
def restrictRows (lpsRestrict : SRestriction) : Bool → List TableRow → List TableRow
  | _, [] => []
  | fMatch, row :: rows =>
    if (findProp row PR_INSTANCE_KEY).isNone then restrictRows lpsRestrict fMatch rows
    else
      match (matchRowRestrict c lpSubResults lpsRestrict row).1 with
      | .ok true => row :: restrictRows lpsRestrict true rows
      | .ok false => restrictRows lpsRestrict false rows
      | .error _ => if fMatch then row :: restrictRows lpsRestrict fMatch rows else restrictRows lpsRestrict fMatch rows

end Server

/-- The UID of a row. -/
def rowUid (row : TableRow) : Option ULONG :=
  match findProp row PR_EC_IMAP_ID with
  | some ⟨_, .PT_LONG ul⟩ => some (.ofBitVec ul)
  | _ => none

/-- A row of the contents table is that of a message. -/
structure ShowsMail (row : TableRow) (mail : SMail) : Prop where
  uid : ShowsUid row mail.ulUid
  entryId : (findProp row PR_ENTRYID).isSome
  instanceKey : (findProp row PR_INSTANCE_KEY).isSome

/-- A folder in which the session and the server see the same messages, each of which has a UID of its own. The server
has them in any order. -/
structure SharedFolder where
  lstFolderMailEIDs : List SMail
  uids_nodup : (uids lstFolderMailEIDs).Nodup
  rows : List TableRow
  shows : ∃ mails, mails.Perm lstFolderMailEIDs ∧ List.Forall₂ ShowsMail rows mails

/-- The folder is selected. -/
def SharedFolder.select (folder : SharedFolder) (c : Calls PropValData) (lpSubResults : Option (List (List ℕ))) :
    SelectedFolder :=
  ⟨folder.lstFolderMailEIDs, .ok fun lpsRestrict =>
    .ok ((restrictRows c lpSubResults lpsRestrict true folder.rows).filterMap rowUid)⟩

variable {rows : List TableRow}

section Rows

variable {d : SOAPUtils.Comparers} {c : Calls PropValData} {lpSubResults : Option (List (List ℕ))}
  {restriction : SRestriction}

/-- A restriction that can be evaluated keeps the rows that it holds of. -/
theorem restrictRows_eq_filter {p : TableRow → Bool} (hrows : ∀ row ∈ rows, (findProp row PR_INSTANCE_KEY).isSome ∧
      (matchRowRestrict c lpSubResults restriction row).1 = .ok (p row)) (fMatch : Bool) :
    restrictRows c lpSubResults restriction fMatch rows = rows.filter p := by
  induction rows generalizing fMatch with
  | nil => rfl
  | cons row rows ih =>
    obtain ⟨⟨hkey, hmatch⟩, hrest⟩ := List.forall_mem_cons.mp hrows
    rw [restrictRows, if_neg (by rw [Option.isNone_eq_false_iff.mpr hkey]; decide), hmatch]
    match hp : p row with
    | true => rw [List.filter_cons_of_pos hp, ← ih hrest true]
    | false => rw [List.filter_cons_of_neg (by rw [hp]; decide), ← ih hrest false]

/-- A restriction that cannot be evaluated keeps all rows. -/
theorem restrictRows_of_error (hrows : ∀ row ∈ rows, (findProp row PR_INSTANCE_KEY).isSome ∧
      ∃ er, (matchRowRestrict c lpSubResults restriction row).1 = .error er) :
    restrictRows c lpSubResults restriction true rows = rows := by
  induction rows with
  | nil => rfl
  | cons row rows ih =>
    obtain ⟨⟨hkey, er, hmatch⟩, hrest⟩ := List.forall_mem_cons.mp hrows
    rw [restrictRows, if_neg (by rw [Option.isNone_eq_false_iff.mpr hkey]; decide), hmatch]
    exact congrArg _ (ih hrest)

variable {row : TableRow} {mail : SMail}

theorem rowUid_of_showsMail (hrow : ShowsMail row mail) : rowUid row = some mail.ulUid := by
  rw [rowUid, hrow.uid]

theorem matchRowRestrict_everyMessage (hrow : ShowsMail row mail) :
    matchRowRestrict c lpSubResults everyMessage row = (.ok true, row) := by
  rw [everyMessage, matchRowRestrict, hrow.entryId]

/-- The restriction of a search for a key and `ALL`. -/
def keyAndAll (restriction : SRestriction) : SRestriction :=
  .RES_AND [.RES_EXIST PR_INSTANCE_KEY, .RES_AND [restriction, .RES_AND [everyMessage, everyMessage]]]

/-- The search for a key and `ALL` finds a message where the restriction of the key does. -/
theorem matchRowRestrict_keyAndAll (hrow : ShowsMail row mail) {result : Except Failure Bool}
    (hkey : matchRowRestrict (serverCalls d c) lpSubResults restriction row = (result, row)) :
    matchRowRestrict (serverCalls d c) lpSubResults (keyAndAll restriction) row = (result, row) := by
  have hinstance : matchRowRestrict (serverCalls d c) lpSubResults (.RES_EXIST PR_INSTANCE_KEY) row = (.ok true, row) := by
    rw [matchRowRestrict, hrow.instanceKey]
  have hevery : matchRowRestrict (serverCalls d c) lpSubResults everyMessage row = (.ok true, row) :=
    matchRowRestrict_everyMessage hrow
  have hrest : matchRowRestrict (serverCalls d c) lpSubResults (.RES_AND [everyMessage, everyMessage]) row =
      (.ok true, row) := by
    rw [matchRowRestrict, matchAnd_cons hevery, if_pos rfl, matchAnd_cons hevery, if_pos rfl, matchAnd_nil]
  have hboth : matchRowRestrict (serverCalls d c) lpSubResults
      (.RES_AND [restriction, .RES_AND [everyMessage, everyMessage]]) row = (result, row) := by
    rw [matchRowRestrict]
    rcases result with er | (- | -)
    · unfold matchAnd
      rw [hkey]
    · rw [matchAnd_cons hkey, if_neg Bool.false_ne_true]
    · rw [matchAnd_cons hkey, if_pos rfl, matchAnd_cons hrest, if_pos rfl, matchAnd_nil]
  rw [keyAndAll, matchRowRestrict, matchAnd_cons hinstance, if_pos rfl]
  rcases result with er | (- | -)
  · unfold matchAnd
    rw [hboth]
  · rw [matchAnd_cons hboth, if_neg Bool.false_ne_true]
  · rw [matchAnd_cons hboth, if_pos rfl, matchAnd_nil]

/-- `OLD` is asked as a bit of an entry ID. -/
theorem matchRowRestrict_noMessage :
    matchRowRestrict c lpSubResults noMessage row = (.error .ZARAFA_E_INVALID_TYPE, row) := by
  rw [noMessage, matchRowRestrict]
  unfold matchBitmask
  rw [if_pos (by decide)]

/-- The messages with some UIDs are found by them. -/
theorem matchOr_uids (hrow : ShowsMail row mail) (ulUids : List ULONG) :
    matchOr (serverCalls d c) lpSubResults (ulUids.map (uidCondition RELOP_EQ)) row =
      (.ok (decide (mail.ulUid ∈ ulUids)), row) := by
  induction ulUids with
  | nil => exact matchOr_nil
  | cons ulUid rest ih =>
    have heq : RELOP_EQ ≠ RELOP_RE := by decide
    rw [List.map_cons, matchOr_cons (matchRowRestrict_uidCondition hrow.uid heq ulUid), ih]
    by_cases hfirst : mail.ulUid = ulUid
    · rw [if_pos ((relopMatch_eq ulUid).mpr hfirst), hfirst, decide_eq_true List.mem_cons_self]
    · rw [if_neg (mt (relopMatch_eq ulUid).mp hfirst)]
      refine congrArg (fun fMatch => (Except.ok fMatch, row)) (decide_eq_decide.mpr ?_)
      rw [List.mem_cons, or_iff_right hfirst]

end Rows

/-! ## The two searches -/

variable {mails : List SMail}

/-- A message is found again by its UID. -/
theorem rememberUIDs_eq_some_iff (hnodup : (uids mails).Nodup) {ulUid : ULONG} {i : ℕ} :
    rememberUIDs (fun _ => none) 0 mails ulUid = some i ↔ (mails[i]?).map SMail.ulUid = some ulUid := by
  constructor
  · intro h
    rcases rememberUIDs_eq_some h with hnone | ⟨j, rfl, hj⟩
    · cases hnone
    · rwa [Nat.zero_add]
  · intro h
    have hmem : ulUid ∈ uids mails := by
      rw [← List.getElem?_map] at h
      exact List.mem_of_getElem? h
    match hfound : rememberUIDs (fun _ => none) 0 mails ulUid with
    | none => exact absurd hmem (rememberUIDs_eq_none_iff.mp hfound).2
    | some k =>
      rcases rememberUIDs_eq_some hfound with hnone | ⟨j, rfl, hj⟩
      · cases hnone
      · rw [← List.getElem?_map] at h hj
        obtain ⟨hi, hi'⟩ := List.getElem?_eq_some_iff.mp h
        obtain ⟨hj, hj'⟩ := List.getElem?_eq_some_iff.mp hj
        rw [Nat.zero_add]
        exact congrArg some (hnodup.getElem_inj_iff.mp (hj'.trans hi'.symm))

/-- The positions that a test holds of are ascending. -/
theorem pairwise_positionsOf (mails : List SMail) (test : SMail → Bool) : (positionsOf mails test).Pairwise (· < ·) :=
  List.pairwise_lt_range.filter _

variable {test : SMail → Bool}

/-- The positions of a test are those of the messages that pass it. -/
theorem mem_positionsOf {i : ℕ} : i ∈ positionsOf mails test ↔ ∃ mail, mails[i]? = some mail ∧ test mail = true := by
  rw [positionsOf, List.mem_filter, List.mem_range]
  constructor
  · rintro ⟨hi, htest⟩
    rw [List.getElem?_eq_getElem hi] at htest
    exact ⟨mails[i], List.getElem?_eq_getElem hi, htest⟩
  · rintro ⟨mail, hmail, htest⟩
    rw [hmail]
    exact ⟨(List.getElem?_eq_some_iff.mp hmail).1, htest⟩

/-- Two tests hold of the same positions where they agree on the messages. -/
theorem positionsOf_eq_iff {test' : SMail → Bool} :
    positionsOf mails test = positionsOf mails test' ↔ ∀ mail ∈ mails, test mail = test' mail := by
  constructor
  · intro heq mail hmail
    obtain ⟨i, hi⟩ := List.mem_iff_getElem?.mp hmail
    have hiff : ∀ test : SMail → Bool, i ∈ positionsOf mails test ↔ test mail = true := by
      intro test
      rw [mem_positionsOf]
      constructor
      · rintro ⟨mail', hmail', htest⟩
        obtain rfl := Option.some.inj (hmail'.symm.trans hi)
        exact htest
      · exact fun htest => ⟨mail, hi, htest⟩
    rw [Bool.eq_iff_iff, ← hiff test, ← hiff test', heq]
  · intro hagree
    refine eq_of_mem_iff (pairwise_positionsOf _ _) (pairwise_positionsOf _ _) fun i => ?_
    rw [mem_positionsOf, mem_positionsOf]
    refine exists_congr fun mail => and_congr_right fun hmail => ?_
    rw [hagree mail (List.mem_of_getElem? hmail)]

/-- The UIDs of the messages that a test holds of, in any order, give their positions. -/
theorem positions_of_uids {found : List SMail} (hnodup : (uids mails).Nodup)
    (hfound : found.Perm (mails.filter test)) :
    ((uids found).filterMap (rememberUIDs (fun _ => none) 0 mails)).insertionSort (· ≤ ·) = positionsOf mails test := by
  have huids : (uids found).Nodup :=
    (hfound.map SMail.ulUid).nodup_iff.mpr (hnodup.sublist (List.filter_sublist.map SMail.ulUid))
  have hpositions : ((uids found).filterMap (rememberUIDs (fun _ => none) 0 mails)).Nodup := by
    refine huids.filterMap fun ulUid ulUid' i hi hi' => ?_
    rw [Option.mem_def, rememberUIDs_eq_some_iff hnodup] at hi hi'
    exact Option.some.inj (hi.symm.trans hi')
  have hsorted := List.pairwise_insertionSort (· ≤ ·) ((uids found).filterMap (rememberUIDs (fun _ => none) 0 mails))
  have hascending := hsorted.imp₂ (fun _ _ hle hne => lt_of_le_of_ne hle hne)
    ((List.perm_insertionSort (· ≤ ·) _).nodup_iff.mpr hpositions)
  refine eq_of_mem_iff hascending (pairwise_positionsOf _ _) fun i => ?_
  rw [List.mem_insertionSort, List.mem_filterMap, mem_positionsOf]
  constructor
  · rintro ⟨ulUid, hmem, hi⟩
    obtain ⟨mail, hmail, rfl⟩ := List.mem_map.mp hmem
    obtain ⟨hmails, htest⟩ := List.mem_filter.mp (hfound.mem_iff.mp hmail)
    obtain ⟨mail', hmail', huid⟩ := Option.map_eq_some_iff.mp ((rememberUIDs_eq_some_iff hnodup).mp hi)
    obtain rfl := List.inj_on_of_nodup_map hnodup (List.mem_of_getElem? hmail') hmails huid
    exact ⟨mail', hmail', htest⟩
  · rintro ⟨mail, hmail, htest⟩
    have hmem : mail ∈ found := hfound.mem_iff.mpr (List.mem_filter.mpr ⟨List.mem_of_getElem? hmail, htest⟩)
    refine ⟨mail.ulUid, List.mem_map_of_mem hmem, (rememberUIDs_eq_some_iff hnodup).mpr ?_⟩
    rw [hmail, Option.map_some]

variable {token : Str}

/-- What is built for a key and `ALL`. -/
theorem buildRestriction_keyAndAll {calls : SearchCalls} {arguments : List Str}
    {all : Str} (hgroup : ¬ IsGroup token) {key : SearchKey} (hkey : searchKey (ToUpper token) = some key)
    {restriction : SRestriction} (hread : readKey calls mails (token :: arguments ++ [all]) (ToUpper token) key =
      .ok (.fill restriction, arguments.length + 1)) (hall : ToUpper all = ascii "ALL") :
    buildRestriction calls mails (token :: arguments ++ [all]) = some (.ok (keyAndAll restriction)) := by
  have hlst : expandGroup (token :: arguments ++ [all]) = token :: (arguments ++ [all]) := if_neg hgroup
  have hallGroup : ¬ IsGroup all := by
    cases all with
    | nil => cases hall
    | cons c rest =>
      intro hc
      obtain rfl : c = 40 := Option.some.inj hc
      exact absurd (List.cons.inj hall).1 (by decide)
  have hallLst : expandGroup [all] = [all] := if_neg hallGroup
  have hallKey : searchKey (ToUpper all) = some .ALL := by
    rw [hall]
    rfl
  have hfirst : searchStep calls mails .root (token :: (arguments ++ [all])) = _ := searchStep_key hlst hkey
  have hbehind : (token :: (arguments ++ [all])).drop (arguments.length + 1) = [all] := by
    rw [List.drop_succ_cons, List.drop_left]
  replace hread : readKey calls mails (token :: (arguments ++ [all])) (ToUpper token) key =
    .ok (.fill restriction, arguments.length + 1) := hread
  rw [hread] at hfirst
  simp only [Except.map, hbehind] at hfirst
  have hsecond : searchStep calls mails (Tree.root.next.2.apply Tree.root.next.1 (.fill restriction)) [all] = _ :=
    searchStep_key hallLst hallKey
  obtain ⟨n, hn⟩ : ∃ n, weight (token :: (arguments ++ [all])) = n + 1 + 1 := by
    rw [weight_cons, weight_append, weight_singleton]
    exact ⟨token.length + weight arguments + all.length, by omega⟩
  rw [List.cons_append, buildRestriction, hn, searchLoop_ok hfirst, searchLoop_ok hsecond]
  unfold searchLoop
  rfl

/-- The messages at some positions are those with the UIDs of the messages at these positions. -/
theorem positionsOf_uids (hnodup : (uids mails).Nodup)
    (hascending : lstMails.Pairwise (· < ·)) (hlt : ∀ i ∈ lstMails, i < mails.length) :
    positionsOf mails (fun mail => decide (mail.ulUid ∈ uids (lstMails.filterMap (mails[·]?)))) = lstMails := by
  refine eq_of_mem_iff (pairwise_positionsOf _ _) hascending fun i => ?_
  rw [mem_positionsOf]
  constructor
  · rintro ⟨mail, hmail, hmem⟩
    obtain ⟨mail', hmail', huid⟩ := List.mem_map.mp (of_decide_eq_true hmem)
    obtain ⟨j, hj, hj'⟩ := List.mem_filterMap.mp hmail'
    obtain rfl := List.inj_on_of_nodup_map hnodup (List.mem_of_getElem? hj') (List.mem_of_getElem? hmail) huid
    obtain ⟨hi, hi'⟩ := List.getElem?_eq_some_iff.mp hmail
    obtain ⟨hlt', hj'⟩ := List.getElem?_eq_some_iff.mp hj'
    obtain rfl := (List.Nodup.of_map SMail.ulUid hnodup).getElem_inj_iff.mp (hj'.trans hi'.symm)
    exact hj
  · intro hi
    have hmail := List.getElem?_eq_getElem (hlt i hi)
    exact ⟨_, hmail, decide_eq_true (List.mem_map_of_mem (List.mem_filterMap.mpr ⟨i, hi, hmail⟩))⟩

namespace SharedFolder

variable {folder : SharedFolder} {calls : SearchCalls} {d : SOAPUtils.Comparers} {c : Calls PropValData}
  {lpSubResults : Option (List (List ℕ))} {restriction : SRestriction}

theorem uids_of_shows (hshows : List.Forall₂ ShowsMail rows mails) : rows.filterMap rowUid = uids mails := by
  induction hshows with
  | nil => rfl
  | cons hrow _ ih => rw [List.filterMap_cons_some (rowUid_of_showsMail hrow), ih, uids, uids, List.map_cons]

theorem exists_mail_of_mem (hshows : List.Forall₂ ShowsMail rows mails) :
    ∀ row ∈ rows, ∃ mail, ShowsMail row mail := by
  induction hshows with
  | nil => exact List.forall_mem_nil _
  | cons hrow _ ih => exact List.forall_mem_cons.mpr ⟨⟨_, hrow⟩, ih⟩

variable (folder restriction) in
/-- The rows that the server finds, where it can evaluate the restriction. -/
theorem restrictRows_uids (hmatch : ∀ row mail, ShowsMail row mail →
      (matchRowRestrict c lpSubResults restriction row).1 = .ok (test mail)) :
    ∃ found : List SMail, found.Perm (folder.lstFolderMailEIDs.filter test) ∧
      (restrictRows c lpSubResults restriction true folder.rows).filterMap rowUid = uids found := by
  obtain ⟨mails, hperm, hshows⟩ := folder.shows
  let p : TableRow → Bool := fun row => decide ((matchRowRestrict c lpSubResults restriction row).1 = .ok true)
  have hp : ∀ row mail, ShowsMail row mail → p row = test mail := by
    intro row mail hrow
    show decide ((matchRowRestrict c lpSubResults restriction row).1 = .ok true) = test mail
    rw [hmatch row mail hrow]
    cases test mail <;> decide
  have hrows : restrictRows c lpSubResults restriction true folder.rows = folder.rows.filter p := by
    refine restrictRows_eq_filter (fun row hrow => ?_) true
    obtain ⟨mail, hmail⟩ := exists_mail_of_mem hshows row hrow
    exact ⟨hmail.instanceKey, by rw [hmatch row mail hmail, hp row mail hmail]⟩
  refine ⟨mails.filter test, hperm.filter test, ?_⟩
  rw [hrows]
  exact uids_of_shows (List.rel_filter (fun row mail hrow => Bool.eq_iff_iff.mp (hp row mail hrow)) hshows)

/-- What the server finds for a key and `ALL`, where it can evaluate the restriction of the key. -/
theorem generalSearch_keyAndAll {lst : List Str}
    (hbuild : buildRestriction calls folder.lstFolderMailEIDs lst = some (.ok (keyAndAll restriction)))
    (hmatch : ∀ row mail, ShowsMail row mail →
      matchRowRestrict (serverCalls d c) lpSubResults restriction row = (.ok (test mail), row)) :
    generalSearch calls (folder.select (serverCalls d c) lpSubResults) lst =
      some (.ok (positionsOf folder.lstFolderMailEIDs test)) := by
  obtain ⟨found, hperm, hfound⟩ := restrictRows_uids folder (keyAndAll restriction)
    fun row mail hrow => congrArg Prod.fst (matchRowRestrict_keyAndAll hrow (hmatch row mail hrow))
  rw [generalSearch]
  simp only [select, hbuild, hfound, positions_of_uids folder.uids_nodup hperm]

/-- What the server finds for a key and `ALL`, where it cannot evaluate the restriction of the key. -/
theorem generalSearch_of_error {lst : List Str}
    (hbuild : buildRestriction calls folder.lstFolderMailEIDs lst = some (.ok (keyAndAll restriction)))
    (hmatch : ∀ row, ∃ er, matchRowRestrict (serverCalls d c) lpSubResults restriction row = (.error er, row)) :
    generalSearch calls (folder.select (serverCalls d c) lpSubResults) lst =
      some (.ok (positionsOf folder.lstFolderMailEIDs fun _ => true)) := by
  obtain ⟨mails, hperm, hshows⟩ := folder.shows
  have hrows : restrictRows (serverCalls d c) lpSubResults (keyAndAll restriction) true folder.rows = folder.rows := by
    refine restrictRows_of_error fun row hrow => ?_
    obtain ⟨mail, hmail⟩ := exists_mail_of_mem hshows row hrow
    obtain ⟨er, her⟩ := hmatch row
    exact ⟨hmail.instanceKey, er, congrArg Prod.fst (matchRowRestrict_keyAndAll hmail her)⟩
  have hall : mails.Perm (folder.lstFolderMailEIDs.filter fun _ => true) := by
    rwa [List.filter_true]
  rw [generalSearch]
  simp only [select, hbuild, hrows, uids_of_shows hshows, positions_of_uids folder.uids_nodup hall]

end SharedFolder

section Keys

variable {d : SOAPUtils.Comparers} {c : Calls PropValData} {lpSubResults : Option (List (List ℕ))}

/-- The condition for a set of UIDs holds for the rows of the messages in the set. -/
theorem matchRowRestrict_uidsCondition {row : TableRow} {mail : SMail} (hrow : ShowsMail row mail)
    (mails : List SMail) (lstMails : List ℕ) :
    matchRowRestrict (serverCalls d c) lpSubResults (uidsCondition mails lstMails) row =
      (.ok (decide (mail.ulUid ∈ uids (lstMails.filterMap (mails[·]?)))), row) := by
  have hmap : ((lstMails.filterMap (mails[·]?)).map fun mail => uidCondition RELOP_EQ mail.ulUid) =
      (uids (lstMails.filterMap (mails[·]?))).map (uidCondition RELOP_EQ) := by
    rw [uids, List.map_map]
    rfl
  rw [uidsCondition, hmap, matchRowRestrict, matchOr_uids hrow]

end Keys

/-- A key that is answered from the list of messages when it stands alone. -/
inductive IsSingleKey : List Str → SearchKey → Prop where
  | token (token : Str) (key : SearchKey) (hkey : searchKey (ToUpper token) = some key)
      (hsingle : key ∈ [SearchKey.sequenceSet, .ALL, .RECENT, .NEW, .OLD]) : IsSingleKey [token] key
  | uid (token strSeqSet : Str) (hkey : ToUpper token = ascii "UID") : IsSingleKey [token, strSeqSet] .UID

/-- What must be true of the messages for the server to find those that a key means. -/
def ServerFinds (lstFolderMailEIDs : List SMail) : SearchKey → Prop
  | .RECENT => ∀ mail ∈ lstFolderMailEIDs, mail.bRecent = true
  | .NEW => ∀ mail ∈ lstFolderMailEIDs, mail.bRecent = true ∧ hasFlag mail "Seen" = false
  | .OLD => ∀ mail ∈ lstFolderMailEIDs, mail.bRecent = false
  | _ => True

section Agreement

variable {folder : SharedFolder} {calls : SearchCalls} {d : SOAPUtils.Comparers} {c : Calls PropValData}
  {lpSubResults : Option (List (List ℕ))} {key : SearchKey} {lst : List Str} {all : Str}

theorem serverFinds_nil (key : SearchKey) : ServerFinds [] key := by
  cases key <;> simp [ServerFinds]

theorem HrSearch_of_shortcut {folder : SelectedFolder} (hfolder : folder.lstFolderMailEIDs ≠ []) (hlst : lst ≠ [])
    {result : Except Fault (List ℕ)} (hshortcut : shortcut folder.lstFolderMailEIDs lst = some result)
    (before : List Str) : HrSearch calls folder (before ++ lst) before.length = some result := by
  match lst with
  | [] => exact absurd rfl hlst
  | token :: rest =>
    rw [HrSearch, if_neg hfolder, List.drop_left]
    simp only [criterion, List.getElem?_cons_zero, hshortcut]

theorem HrSearch_of_generalSearch {folder : SelectedFolder} (hfolder : folder.lstFolderMailEIDs ≠ []) (hlst : lst ≠ [])
    (hshortcut : shortcut folder.lstFolderMailEIDs lst = none) (before : List Str) :
    HrSearch calls folder (before ++ lst) before.length = generalSearch calls folder lst := by
  match lst with
  | [] => exact absurd rfl hlst
  | token :: rest =>
    rw [HrSearch, if_neg hfolder, List.drop_left]
    simp only [criterion, List.getElem?_cons_zero, hshortcut]

/-- A key and `ALL` are not answered from the list of messages. -/
theorem shortcut_keyAndAll (hkey : IsSingleKey lst key) : shortcut mails (lst ++ [all]) = none := by
  cases hkey with
  | token token key hkey hsingle =>
    have huid : ToUpper token ≠ ascii "UID" := by
      intro huid
      have hkey' : searchKey (ascii "UID") = some .UID := rfl
      rw [huid, hkey'] at hkey
      obtain rfl := Option.some.inj hkey
      exact absurd hsingle (by decide)
    exact if_neg huid
  | uid token strSeqSet hkey => rfl

/-- The messages of a set of positions are found by their UIDs. -/
theorem generalSearch_set {arguments : List Str}
    (hkey : searchKey (ToUpper token) = some key) (hall : ToUpper all = ascii "ALL")
    (hread : readKey calls folder.lstFolderMailEIDs (token :: arguments ++ [all]) (ToUpper token) key =
      .ok (.fill (uidsCondition folder.lstFolderMailEIDs lstMails), arguments.length + 1))
    (hascending : lstMails.Pairwise (· < ·)) (hlt : ∀ i ∈ lstMails, i < folder.lstFolderMailEIDs.length) :
    generalSearch calls (folder.select (serverCalls d c) lpSubResults) (token :: arguments ++ [all]) =
      some (.ok lstMails) := by
  have hbuild := buildRestriction_keyAndAll (not_isGroup_of_searchKey hkey) hkey hread hall
  rw [SharedFolder.generalSearch_keyAndAll hbuild fun row mail hrow => matchRowRestrict_uidsCondition hrow _ _,
    positionsOf_uids folder.uids_nodup hascending hlt]

/-- What a sequence set alone and with `ALL` find. -/
theorem search_sequenceSet (hkey : searchKey (ToUpper token) = some .sequenceSet)
    (hall : ToUpper all = ascii "ALL") : ∃ result, shortcut folder.lstFolderMailEIDs [token] = some result ∧
      generalSearch calls (folder.select (serverCalls d c) lpSubResults) [token, all] = some result := by
  rw [shortcut, hkey]
  match hset : HrParseSeqSet folder.lstFolderMailEIDs token with
  | .error hr =>
    have hlst : expandGroup [token, all] = [token, all] := if_neg (not_isGroup_of_searchKey hkey)
    have hstep : searchStep calls folder.lstFolderMailEIDs .root [token, all] = _ := searchStep_key hlst hkey
    rw [readKey_wrongSet ((HrParseSeqSet_ToUpper _ token).trans hset)] at hstep
    have hweight : weight [token, all] = token.length + weight [all] + 1 := by
      rw [weight_cons]
      omega
    refine ⟨.error (.hr hr), rfl, ?_⟩
    rw [generalSearch]
    simp only [SharedFolder.select, buildRestriction, hweight, searchLoop_error hstep]
  | .ok lstMails =>
    obtain ⟨hascending, hlt⟩ := HrParseSeqSet_spec hset
    have hread : readKey calls folder.lstFolderMailEIDs (token :: [] ++ [all]) (ToUpper token) .sequenceSet = _ :=
      readKey_sequenceSet ((HrParseSeqSet_ToUpper _ token).trans hset)
    exact ⟨.ok lstMails, rfl, generalSearch_set hkey hall hread hascending hlt⟩

/-- For `ALL`, `NEW` and `RECENT` the server finds all messages. -/
theorem generalSearch_everyMessage (hkey : searchKey (ToUpper token) = some key)
    (hall : ToUpper all = ascii "ALL") (hevery : key ∈ [SearchKey.ALL, .NEW, .RECENT]) :
    generalSearch calls (folder.select (serverCalls d c) lpSubResults) [token, all] =
      some (.ok (positionsOf folder.lstFolderMailEIDs fun _ => true)) := by
  have hread : readKey calls folder.lstFolderMailEIDs (token :: [] ++ [all]) (ToUpper token) key =
      .ok (.fill everyMessage, 1) := by
    simp only [List.mem_cons, List.not_mem_nil, or_false] at hevery
    rcases hevery with rfl | rfl | rfl <;> rfl
  have hbuild := buildRestriction_keyAndAll (not_isGroup_of_searchKey hkey) hkey hread hall
  exact SharedFolder.generalSearch_keyAndAll hbuild fun row mail hrow => matchRowRestrict_everyMessage hrow

/-- For `OLD` the server finds all messages, because it cannot evaluate the restriction. -/
theorem generalSearch_OLD (hkey : searchKey (ToUpper token) = some .OLD) (hall : ToUpper all = ascii "ALL") :
    generalSearch calls (folder.select (serverCalls d c) lpSubResults) [token, all] =
      some (.ok (positionsOf folder.lstFolderMailEIDs fun _ => true)) := by
  have hread : readKey calls folder.lstFolderMailEIDs (token :: [] ++ [all]) (ToUpper token) .OLD =
    .ok (.fill noMessage, 1) := rfl
  have hbuild := buildRestriction_keyAndAll (not_isGroup_of_searchKey hkey) hkey hread hall
  exact SharedFolder.generalSearch_of_error hbuild fun row => ⟨_, matchRowRestrict_noMessage⟩

/-- The positions of all messages are those that a test holds of if it holds of all. -/
theorem positionsOf_true_iff :
    (Except.ok (positionsOf mails fun _ => true) : Except Fault (List ℕ)) = .ok (positionsOf mails test) ↔
      ∀ mail ∈ mails, test mail = true := by
  rw [Except.ok.injEq, positionsOf_eq_iff]
  exact forall₂_congr fun mail _ => eq_comm

/-- What a key alone and the same key with `ALL` find. -/
theorem searches (hkey : IsSingleKey lst key) (hall : ToUpper all = ascii "ALL") :
    ∃ alone general, shortcut folder.lstFolderMailEIDs lst = some alone ∧
      generalSearch calls (folder.select (serverCalls d c) lpSubResults) (lst ++ [all]) = some general ∧
      (general = alone ↔ ServerFinds folder.lstFolderMailEIDs key) := by
  cases hkey with
  | uid token strSeqSet hkey =>
    have hsearch : searchKey (ToUpper token) = some .UID := by
      rw [hkey]
      rfl
    have hgeneral : generalSearch calls (folder.select (serverCalls d c) lpSubResults) (token :: [strSeqSet] ++ [all]) =
        some (.ok (HrParseSeqUidSet folder.lstFolderMailEIDs strSeqSet)) :=
      generalSearch_set hsearch hall rfl (pairwise_sortUnique _) (HrParseSeqUidSet_lt strSeqSet)
    exact ⟨_, _, if_pos hkey, hgeneral, iff_of_true rfl trivial⟩
  | token token key hkey hsingle =>
    simp only [List.mem_cons, List.not_mem_nil, or_false] at hsingle
    rcases hsingle with rfl | rfl | rfl | rfl | rfl
    · have hset : ∃ result, shortcut folder.lstFolderMailEIDs [token] = some result ∧
          generalSearch calls (folder.select (serverCalls d c) lpSubResults) [token, all] = some result :=
        search_sequenceSet hkey hall
      obtain ⟨result, halone, hgeneral⟩ := hset
      exact ⟨result, result, halone, hgeneral, iff_of_true rfl trivial⟩
    · refine ⟨_, _, by rw [shortcut, hkey], generalSearch_everyMessage hkey hall (by decide), iff_of_true rfl trivial⟩
    · refine ⟨_, _, by rw [shortcut, hkey], generalSearch_everyMessage hkey hall (by decide), ?_⟩
      exact positionsOf_true_iff
    · refine ⟨_, _, by rw [shortcut, hkey], generalSearch_everyMessage hkey hall (by decide), ?_⟩
      rw [positionsOf_true_iff]
      refine forall₂_congr fun mail _ => ?_
      rw [Bool.and_eq_true, Bool.not_eq_true']
    · refine ⟨_, _, by rw [shortcut, hkey], generalSearch_OLD hkey hall, ?_⟩
      rw [positionsOf_true_iff]
      refine forall₂_congr fun mail _ => ?_
      rw [Bool.not_eq_true']

/-- A key that stands alone finds the same messages as with `ALL` behind it if and only if the server can find what it
means: in every folder for `ALL`, a sequence set and `UID`, where all messages are recent for `RECENT`, where they are
recent and not seen for `NEW`, and where none is recent for `OLD`. -/
theorem shortcuts_iff (hkey : IsSingleKey lst key) (hall : ToUpper all = ascii "ALL") (before : List Str) :
    HrSearch calls (folder.select (serverCalls d c) lpSubResults) (before ++ lst ++ [all]) before.length =
        HrSearch calls (folder.select (serverCalls d c) lpSubResults) (before ++ lst) before.length ↔
      ServerFinds folder.lstFolderMailEIDs key := by
  by_cases hfolder : folder.lstFolderMailEIDs = []
  · have hempty : ∀ lst n, HrSearch calls (folder.select (serverCalls d c) lpSubResults) lst n = some (.ok []) :=
      fun lst n => if_pos hfolder
    rw [hempty, hempty, hfolder]
    exact iff_of_true rfl (serverFinds_nil key)
  · have hlst : lst ≠ [] := by
      cases hkey <;> exact List.cons_ne_nil _ _
    have hsearches : ∃ alone general, shortcut folder.lstFolderMailEIDs lst = some alone ∧
        generalSearch calls (folder.select (serverCalls d c) lpSubResults) (lst ++ [all]) = some general ∧
        (general = alone ↔ ServerFinds folder.lstFolderMailEIDs key) := searches hkey hall
    obtain ⟨alone, general, halone, hgeneral, hiff⟩ := hsearches
    rw [List.append_assoc, HrSearch_of_generalSearch hfolder (List.append_ne_nil_of_left_ne_nil hlst _)
      (shortcut_keyAndAll hkey), hgeneral, HrSearch_of_shortcut hfolder hlst halone, Option.some_inj]
    exact hiff

end Agreement

/-- The row of a message, with a key of one byte. -/
def mailRow (mail : SMail) : TableRow :=
  [⟨PR_INSTANCE_KEY, .PT_BINARY ⟨[mail.ulUid.toUInt8], Nat.one_lt_two_pow (by decide)⟩⟩,
    ⟨PR_ENTRYID, .PT_BINARY ⟨[mail.ulUid.toUInt8], Nat.one_lt_two_pow (by decide)⟩⟩,
    ⟨PR_EC_IMAP_ID, .PT_LONG mail.ulUid.toBitVec⟩]

theorem showsMail_mailRow (mail : SMail) : ShowsMail (mailRow mail) mail := ⟨rfl, rfl, rfl⟩

/-- The three messages, the last of which is recent. -/
def threeMailsShared : SharedFolder where
  lstFolderMailEIDs := threeMails
  uids_nodup := by decide
  rows := threeMails.map mailRow
  shows := ⟨threeMails, .rfl, List.forall₂_map_left_iff.mpr (List.forall₂_same.mpr fun mail _ => showsMail_mailRow mail)⟩

/-- The folder is selected in a session with a server that is asked for numbers only. -/
def threeMailsSelected : SelectedFolder := threeMailsShared.select (serverCalls numbersOnly numberCalls) none

/-- Among the three messages, `ALL` means the same to the server, and `OLD` does not. -/
theorem shortcuts_threeMails : HrSearch plainCalls threeMailsSelected [ascii "ALL", ascii "ALL"] 0 =
        HrSearch plainCalls threeMailsSelected [ascii "ALL"] 0 ∧
      HrSearch plainCalls threeMailsSelected [ascii "old", ascii "all"] 0 ≠
        HrSearch plainCalls threeMailsSelected [ascii "old"] 0 := by
  have hall : IsSingleKey [ascii "ALL"] .ALL := .token _ _ rfl (by decide)
  have hold : IsSingleKey [ascii "old"] .OLD := .token _ _ rfl (by decide)
  constructor
  · exact (shortcuts_iff hall rfl []).mpr trivial
  · refine fun h => absurd ((shortcuts_iff hold rfl []).mp h) ?_
    show ¬ ∀ mail ∈ threeMails, mail.bRecent = false
    decide

/-- For `RECENT` alone the search finds the recent message, and with `ALL` behind it all three. -/
theorem not_shortcuts_recent :
    HrSearch plainCalls threeMailsSelected [ascii "RECENT", ascii "ALL"] 0 = some (.ok [0, 1, 2]) ∧
      HrSearch plainCalls threeMailsSelected [ascii "RECENT"] 0 = some (.ok [2]) := ⟨rfl, rfl⟩

end Zcp.Gateway
