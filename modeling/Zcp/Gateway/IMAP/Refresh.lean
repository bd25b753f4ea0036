import Mathlib.Data.List.Nodup
import Mathlib.Tactic.Common
import Zcp.Gateway.IMAP

/-!
# Refreshing the list

What `HrRefreshFolderMails` makes of the list and of the client's, when the messages at the end of
the list need not have been announced: this is so when it is called from the callback. `Follows` is
what the callback keeps between two notifications, `InStep` what both functions leave behind.
-/

namespace Zcp.Gateway

/-! ## The client's list and the server's -/

/-- The UIDs of the list. -/
def uids (mails : List SMail) : List ULONG := mails.map SMail.ulUid

variable {s s' : Session}

namespace Session

/-- The client's list with the messages that are yet to be announced. -/
def told (s : Session) : List ClientMail :=
  s.client.mails ++ (s.lstFolderMailEIDs.drop s.client.mails.length).map SMail.announced

/-- No response has named a number beyond the client's list, and this list has the messages at the
start of the server's. -/
structure Follows (s : Session) : Prop where
  legal : s.client.beyond = false
  short : s.client.mails.length ≤ s.lstFolderMailEIDs.length
  told_uids : s.told.map ClientMail.ulUid = uids s.lstFolderMailEIDs

/-- The client's list and the server's have the same messages in the same order. -/
structure InStep (s : Session) : Prop where
  legal : s.client.beyond = false
  uids_eq : s.client.mails.map ClientMail.ulUid = uids s.lstFolderMailEIDs

theorem InStep.length_eq (h : s.InStep) : s.client.mails.length = s.lstFolderMailEIDs.length := by
  simpa [uids] using congrArg List.length h.uids_eq

theorem told_of_length_eq (h : s.client.mails.length = s.lstFolderMailEIDs.length) : s.told = s.client.mails := by
  simp [told, h]

theorem InStep.follows (h : s.InStep) : s.Follows where
  legal := h.legal
  short := h.length_eq.le
  told_uids := by rw [told_of_length_eq h.length_eq, h.uids_eq]

theorem Follows.inStep (h : s.Follows) (hlength : s.client.mails.length = s.lstFolderMailEIDs.length) : s.InStep where
  legal := h.legal
  uids_eq := by rw [← told_of_length_eq hlength, h.told_uids]

theorem Follows.length_told (h : s.Follows) : s.told.length = s.lstFolderMailEIDs.length := by
  simpa [uids] using congrArg List.length h.told_uids

/-- The client's messages are the first ones of the server's list. -/
theorem Follows.client_uids (h : s.Follows) : s.client.mails.map ClientMail.ulUid =
      uids (s.lstFolderMailEIDs.take s.client.mails.length) := by
  have htake := congrArg (List.take s.client.mails.length) h.told_uids
  rwa [told, List.map_append, List.take_left' (by simp), uids, ← List.map_take] at htake

/-- Conversely, a client with the first messages of the list follows it. -/
theorem Follows.of_client_uids (hlegal : s.client.beyond = false)
    (hshort : s.client.mails.length ≤ s.lstFolderMailEIDs.length) (huids : s.client.mails.map ClientMail.ulUid =
      uids (s.lstFolderMailEIDs.take s.client.mails.length)) : s.Follows where
  legal := hlegal
  short := hshort
  told_uids := by
    have hdrop : ((s.lstFolderMailEIDs.drop s.client.mails.length).map SMail.announced).map
        ClientMail.ulUid = uids (s.lstFolderMailEIDs.drop s.client.mails.length) := by
      rw [List.map_map]
      rfl
    rw [told, List.map_append, huids, hdrop, uids, uids, ← List.map_append, List.take_append_drop]
    rfl

/-- A message that is put at the end of the list is yet to be announced. -/
theorem told_append {mail : SMail} (h : s.Follows) (hclient : s'.client = s.client)
    (hmails : s'.lstFolderMailEIDs = s.lstFolderMailEIDs ++ [mail]) : s'.told = s.told ++ [mail.announced] := by
  rw [told, told, hclient, hmails, List.drop_append_of_le_length h.short, List.map_append,
    List.append_assoc]
  rfl

/-- A message at the end of the list changes nothing for the client, which has not been told of it. -/
theorem Follows.append {mail : SMail} (h : s.Follows) (hclient : s'.client = s.client)
    (hmails : s'.lstFolderMailEIDs = s.lstFolderMailEIDs ++ [mail]) : s'.Follows where
  legal := by rw [hclient, h.legal]
  short := by
    rw [hclient, hmails, List.length_append]
    exact h.short.trans (Nat.le_add_right _ _)
  told_uids := by
    rw [told_append h hclient hmails, hmails, List.map_append, h.told_uids, uids, uids,
      List.map_append]
    rfl

end Session

/-- The client, after the flags of a message it has. -/
theorem Session.client_FETCH {i : ℕ} (hi : i < s.client.mails.length) (ulUid : Option ULONG) (strFlags : String) :
    (s.HrResponse (.FETCH (i + 1) ulUid strFlags)).client =
      { s.client with mails := s.client.mails.modify i fun mail => { mail with strFlags } } :=
  if_pos hi

/-- The client, after the removal of a message it has. -/
theorem Session.client_EXPUNGE {i : ℕ} (hi : i < s.client.mails.length) : (s.HrResponse (.EXPUNGE (i + 1))).client =
      { s.client with mails := s.client.mails.eraseIdx i } :=
  if_pos hi

/-- A change that leaves a field alone leaves the list of this field alone. -/
theorem map_modify_of_comp {α β : Type*} {f : α → β} {g : α → α} (hfg : ∀ a, f (g a) = f a) (i : ℕ)
    (l : List α) : (l.modify i g).map f = l.map f := by
  induction l generalizing i with
  | nil => rw [List.modify_nil]
  | cons a l ih =>
    cases i with
    | zero => rw [List.modify_zero_cons, List.map_cons, List.map_cons, hfg]
    | succ i => rw [List.modify_succ_cons, List.map_cons, List.map_cons, ih]

theorem uids_modify_flags (i : ℕ) (strFlags : String) (mails : List SMail) :
    uids (mails.modify i fun mail => { mail with strFlags }) = uids mails :=
  map_modify_of_comp (g := fun mail : SMail => { mail with strFlags }) (fun _ => rfl) i mails

theorem map_ulUid_modify_flags (i : ℕ) (strFlags : String) (mails : List ClientMail) :
    (mails.modify i fun mail => { mail with strFlags }).map ClientMail.ulUid = mails.map ClientMail.ulUid :=
  map_modify_of_comp (g := fun mail : ClientMail => { mail with strFlags }) (fun _ => rfl) i mails

namespace Session

/-- Flags that are announced for a message of the client are set in the list of all messages. -/
theorem told_modify {i : ℕ} {strFlags : String} (hi : i < s.client.mails.length)
    (hclient : s'.client.mails = s.client.mails.modify i fun mail => { mail with strFlags })
    (hmails : s'.lstFolderMailEIDs.drop s.client.mails.length = s.lstFolderMailEIDs.drop s.client.mails.length) :
    s'.told = s.told.modify i fun mail => { mail with strFlags } := by
  rw [told, told, hclient, List.length_modify, hmails]
  refine List.ext_getElem? fun j => ?_
  rw [List.getElem?_modify, List.getElem?_append, List.getElem?_append, List.length_modify,
    List.getElem?_modify]
  split_ifs with hj hij <;> grind

end Session

/-! ## The scan over the table -/

/-- The UID of a row that the scan reads: it skips a row without entry ID or instance key. -/
def Row.uid? (row : Row) : Option ULONG :=
  match row.PR_ENTRYID, row.PR_INSTANCE_KEY with
  | some _, some _ => row.PR_EC_IMAP_ID
  | _, _ => none

/-- The UIDs that a scan over the rows reads. -/
def readUids (rows : List Row) : List ULONG := rows.filterMap Row.uid?

theorem readUids_cons_of_some {row : Row} {ulUid : ULONG} (h : row.uid? = some ulUid)
    (rows : List Row) : readUids (row :: rows) = ulUid :: readUids rows :=
  List.filterMap_cons_some h

theorem readUids_cons_of_none {row : Row} (h : row.uid? = none) (rows : List Row) :
    readUids (row :: rows) = readUids rows :=
  List.filterMap_cons_none h

/-- The UIDs of the rows whose messages are not in the list. -/
def addedUids (rows : List Row) (mails : List SMail) : List ULONG :=
  (readUids rows).filter fun ulUid => ulUid ∉ uids mails

/-- The flags of a row, as the entry of the list that it belongs to has them announced. -/
def Row.flagsFor (row : Row) (mail : SMail) : String := PropsToFlags row mail.bRecent false

variable {mails : List SMail}

namespace Scan

variable {scan : Scan} {row : Row} {rows done : List Row} {ulUid : ULONG}

/-- What is known in the scan when `rows` are still to be read. -/
structure Sound (scan : Scan) (rows : List Row) : Prop where
  follows : scan.session.Follows
  /-- The map points to entries with the UID. -/
  index : ∀ ulUid i, scan.mapUIDs ulUid = some i →
    (scan.session.lstFolderMailEIDs[i]?).map SMail.ulUid = some ulUid
  /-- Nothing has been taken out of the map for the rows to come. -/
  unknown : ∀ ulUid ∈ readUids rows, scan.mapUIDs ulUid = none →
    ulUid ∉ uids scan.session.lstFolderMailEIDs
  /-- No row will announce flags of a message that is yet to be announced itself. -/
  quiet : ∀ i mail, scan.session.client.mails.length ≤ i →
    scan.session.lstFolderMailEIDs[i]? = some mail → scan.mapUIDs mail.ulUid = some i →
    ∀ row ∈ rows, row.uid? = some mail.ulUid → mail.strFlags = row.flagsFor mail

/-- A row that is passed over leaves the scan as it is. -/
theorem row_of_uid?_eq_none {ulMaxUID : ULONG} {bShowUID : Bool} (h : row.uid? = none) : scan.row ulMaxUID bShowUID row = scan := by
  unfold Row.uid? at h
  unfold Scan.row
  split at h
  next heid hikey => rw [heid, hikey, h]
  next hmissing =>
    split
    next heid hikey _ => exact absurd hikey (hmissing _ _ heid)
    next => rfl

/-- A row with a UID that is not in the map puts a message at the end of the list. -/
theorem row_of_mapUIDs_eq_none (ulMaxUID : ULONG) (bShowUID : Bool) (h : row.uid? = some ulUid)
    (hmap : scan.mapUIDs ulUid = none) : ∃ sInstanceKey, scan.row ulMaxUID bShowUID row =
      scan.newMail ulMaxUID row sInstanceKey ulUid := by
  unfold Row.uid? at h
  split at h
  next sInstanceKey heid hikey =>
    refine ⟨sInstanceKey, ?_⟩
    unfold Scan.row
    rw [heid, hikey, h]
    simp only [hmap]
  next => cases h

/-- A row whose UID is known already only brings new flags. -/
theorem row_of_mapUIDs_eq_some {i : ℕ} (ulMaxUID : ULONG) (bShowUID : Bool) (h : row.uid? = some ulUid)
    (hmap : scan.mapUIDs ulUid = some i) : scan.row ulMaxUID bShowUID row = scan.knownMail bShowUID row ulUid i := by
  unfold Row.uid? at h
  split at h
  next sInstanceKey heid hikey =>
    unfold Scan.row
    rw [heid, hikey, h]
    simp only [hmap]
  next => cases h

/-- The rows to come do not have the UID of this row. -/
theorem uid_notMem (h : row.uid? = some ulUid) (hnodup : (readUids (row :: rows)).Nodup) : ulUid ∉ readUids rows := by
  rw [readUids_cons_of_some h] at hnodup
  exact (List.nodup_cons.mp hnodup).1

theorem mem_readUids {row : Row} (hrow : row ∈ rows) (h : row.uid? = some ulUid) : ulUid ∈ readUids rows :=
  List.mem_filterMap.mpr ⟨row, hrow, h⟩

/-! ### A new message -/

/-- What a row with a new UID does. -/
structure Added (scan scan' : Scan) (row : Row) (ulUid : ULONG) (mail : SMail) : Prop where
  client : scan'.session.client = scan.session.client
  mails : scan'.session.lstFolderMailEIDs = scan.session.lstFolderMailEIDs ++ [mail]
  mapUIDs : scan'.mapUIDs = scan.mapUIDs
  bNewMail : scan'.bNewMail = true
  uid : mail.ulUid = ulUid
  flags : mail.strFlags = row.flagsFor mail

theorem added_newMail {ulMaxUID : ULONG} (sInstanceKey : BinaryArray) :
    ∃ mail, Added scan (scan.newMail ulMaxUID row sInstanceKey ulUid) row ulUid mail :=
  ⟨⟨sInstanceKey, ulUid, decide (ulMaxUID < ulUid),
    PropsToFlags row (decide (ulMaxUID < ulUid)) false⟩, rfl, rfl, rfl, rfl, rfl, rfl⟩

/-- A new message keeps the scan sound: it goes to the end of the list, and the client is told of it later. -/
theorem Added.sound {scan' : Scan} {mail : SMail} (h : Added scan scan' row ulUid mail)
    (huid : row.uid? = some ulUid) (hmap : scan.mapUIDs ulUid = none)
    (hnodup : (readUids (row :: rows)).Nodup) (hs : scan.Sound (row :: rows)) : scan'.Sound rows where
  follows := hs.follows.append h.client h.mails
  index := by
    intro v i hi
    rw [h.mapUIDs] at hi
    have hold := hs.index v i hi
    rw [h.mails]
    rcases hget : scan.session.lstFolderMailEIDs[i]? with _ | e
    · rw [hget] at hold
      cases hold
    · rw [List.getElem?_append_left (List.getElem?_eq_some_iff.mp hget).1, hold]
  unknown := by
    intro v hv hnone
    rw [h.mapUIDs] at hnone
    have hold : v ∉ uids scan.session.lstFolderMailEIDs := by
      refine hs.unknown v ?_ hnone
      rw [readUids_cons_of_some huid]
      exact List.mem_cons_of_mem _ hv
    have hne : v ≠ ulUid := by
      rintro rfl
      exact uid_notMem huid hnodup hv
    rw [h.mails, uids, List.map_append, List.mem_append, not_or]
    refine ⟨hold, ?_⟩
    simpa [h.uid] using hne
  quiet := by
    intro i e hi hget hpoint r hr hru
    rw [h.client] at hi
    rw [h.mapUIDs] at hpoint
    rw [h.mails, List.getElem?_append] at hget
    split at hget
    next => exact hs.quiet i e hi hget hpoint r (List.mem_cons_of_mem _ hr) hru
    next =>
      -- the new message is not in the map
      have he : e ∈ [mail] := List.mem_of_getElem? hget
      rw [List.mem_singleton.mp he, h.uid, hmap] at hpoint
      cases hpoint

/-! ### A message of the list -/

/-- What a row with the UID of the entry at `i` does. -/
structure Known (scan scan' : Scan) (row : Row) (ulUid : ULONG) (i : ℕ) (mail : SMail) : Prop where
  get : scan.session.lstFolderMailEIDs[i]? = some mail
  uid : mail.ulUid = ulUid
  mails : scan'.session.lstFolderMailEIDs =
    scan.session.lstFolderMailEIDs.modify i fun e => { e with strFlags := row.flagsFor mail }
  told : ∀ j : ℕ, scan'.session.told[j]? = (scan.session.told[j]?).map fun t =>
    if j = i ∧ mail.strFlags ≠ row.flagsFor mail then { t with strFlags := row.flagsFor mail } else t
  client_length : scan'.session.client.mails.length = scan.session.client.mails.length
  client_uids : scan'.session.client.mails.map ClientMail.ulUid =
    scan.session.client.mails.map ClientMail.ulUid
  legal : scan'.session.client.beyond = scan.session.client.beyond
  mapUIDs : scan'.mapUIDs = Function.update scan.mapUIDs ulUid none
  bNewMail : scan'.bNewMail = scan.bNewMail

/-- Setting the flags that an entry has changes nothing. -/
theorem modify_flags_eq_self {i : ℕ} {mail : SMail} (h : mails[i]? = some mail) :
    mails.modify i (fun e => { e with strFlags := mail.strFlags }) = mails := by
  refine List.ext_getElem? fun j => ?_
  rw [List.getElem?_modify]
  split_ifs with hij
  · rw [← hij, h]
    rfl
  · exact id_map _

/-- What reading a row with a known UID has done: perhaps other flags of one message, and a FETCH for it. -/
theorem known_knownMail {bShowUID : Bool} {i : ℕ} (hs : scan.Sound (row :: rows)) (huid : row.uid? = some ulUid)
    (hmap : scan.mapUIDs ulUid = some i) :
    ∃ mail, Known scan (scan.knownMail bShowUID row ulUid i) row ulUid i mail := by
  have hindex := hs.index ulUid i hmap
  rcases hget : scan.session.lstFolderMailEIDs[i]? with _ | mail
  · rw [hget] at hindex
    cases hindex
  have hmailUid : mail.ulUid = ulUid := by
    rw [hget] at hindex
    exact Option.some.inj hindex
  refine ⟨mail, ?_⟩
  unfold knownMail
  simp only [hget]
  change Known scan ⟨if mail.strFlags ≠ row.flagsFor mail then _ else _, _, _, _⟩ row ulUid i mail
  by_cases hflags : mail.strFlags = row.flagsFor mail
  · rw [if_neg (not_not.mpr hflags)]
    refine ⟨hget, hmailUid, ?_, ?_, rfl, rfl, rfl, rfl, rfl⟩
    · rw [← hflags, modify_flags_eq_self hget]
    · intro j
      simp [hflags]
  · -- the message has been announced, or the row would not come
    have hi : i < scan.session.client.mails.length := by
      by_contra hlate
      refine hflags (hs.quiet i mail (not_lt.mp hlate) hget ?_ row List.mem_cons_self ?_)
      · rw [hmailUid, hmap]
      · rw [hmailUid, huid]
    rw [if_pos hflags]
    -- the client hears what the list now says
    let response := Response.FETCH (i + 1) (if bShowUID then some ulUid else none) (row.flagsFor mail)
    let s : Session := { scan.session.HrResponse response with
      lstFolderMailEIDs := scan.session.lstFolderMailEIDs.modify i fun e =>
        { e with strFlags := row.flagsFor mail } }
    have hclient : s.client = { scan.session.client with
        mails := scan.session.client.mails.modify i fun t =>
          { t with strFlags := row.flagsFor mail } } :=
      Session.client_FETCH hi (if bShowUID then some ulUid else none) (row.flagsFor mail)
    have hmails : s.client.mails = scan.session.client.mails.modify i fun t =>
        { t with strFlags := row.flagsFor mail } := by
      rw [hclient]
    have htold : s.told = scan.session.told.modify i fun t =>
        { t with strFlags := row.flagsFor mail } :=
      Session.told_modify hi hmails (List.drop_modify_of_lt _ _ _ _ hi)
    refine ⟨hget, hmailUid, rfl, ?_, ?_, ?_, ?_, rfl, rfl⟩
    · intro j
      change s.told[j]? = _
      rw [htold, List.getElem?_modify]
      by_cases hij : i = j
      · subst hij
        simp only [if_true, true_and, if_pos hflags, ne_eq]
        rfl
      · have hji : ¬(j = i ∧ mail.strFlags ≠ row.flagsFor mail) := fun h => hij h.1.symm
        simp only [if_neg hji, if_neg hij]
        rfl
    · change s.client.mails.length = _
      rw [hmails, List.length_modify]
    · change s.client.mails.map ClientMail.ulUid = _
      rw [hmails, map_ulUid_modify_flags]
    · change s.client.beyond = _
      rw [hclient]

namespace Known

variable {scan' : Scan} {i : ℕ} {mail : SMail} (h : Known scan scan' row ulUid i mail)
include h

theorem uids_eq : uids scan'.session.lstFolderMailEIDs = uids scan.session.lstFolderMailEIDs := by
  rw [h.mails, uids_modify_flags]

/-- An entry after the row is an entry from before, with other flags at most. -/
theorem exists_entry {j : ℕ} {e : SMail} (he : scan'.session.lstFolderMailEIDs[j]? = some e) :
    ∃ e₀, scan.session.lstFolderMailEIDs[j]? = some e₀ ∧ e₀.ulUid = e.ulUid ∧
      e₀.bRecent = e.bRecent ∧ (j ≠ i → e₀ = e) := by
  rw [h.mails, List.getElem?_modify] at he
  split_ifs at he with hij
  · rw [← hij, h.get] at he
    refine ⟨mail, by rw [← hij, h.get], ?_⟩
    obtain rfl := Option.some.inj he
    exact ⟨rfl, rfl, fun hne => absurd hij.symm hne⟩
  · exact ⟨e, (id_map _).symm.trans he, rfl, rfl, fun _ => rfl⟩

/-- A known message keeps the scan sound: the client gets its flags only if it has been told of the message. -/
theorem sound (huid : row.uid? = some ulUid) (hmap : scan.mapUIDs ulUid = some i)
    (hnodup : (readUids (row :: rows)).Nodup) (hs : scan.Sound (row :: rows)) : scan'.Sound rows where
  follows := by
    refine Session.Follows.of_client_uids ?_ ?_ ?_
    · rw [h.legal, hs.follows.legal]
    · rw [h.client_length, h.mails, List.length_modify]
      exact hs.follows.short
    · rw [h.client_uids, h.client_length, hs.follows.client_uids, uids, uids, List.map_take,
        List.map_take]
      exact congrArg _ h.uids_eq.symm
  index := by
    intro v j hj
    have hne : v ≠ ulUid := by
      rintro rfl
      rw [h.mapUIDs, Function.update_self] at hj
      cases hj
    rw [h.mapUIDs, Function.update_of_ne hne] at hj
    rw [← List.getElem?_map]
    change (uids scan'.session.lstFolderMailEIDs)[j]? = some v
    rw [h.uids_eq, uids, List.getElem?_map, hs.index v j hj]
  unknown := by
    intro v hv hnone
    have hne : v ≠ ulUid := by
      rintro rfl
      exact uid_notMem huid hnodup hv
    rw [h.mapUIDs, Function.update_of_ne hne] at hnone
    rw [h.uids_eq]
    refine hs.unknown v ?_ hnone
    rw [readUids_cons_of_some huid]
    exact List.mem_cons_of_mem _ hv
  quiet := by
    intro j e hj hget hpoint r hr hru
    obtain ⟨e₀, he₀, heUid, heRecent, heq⟩ := h.exists_entry hget
    have hne : e.ulUid ≠ ulUid := by
      intro heq
      rw [h.mapUIDs, heq, Function.update_self] at hpoint
      cases hpoint
    rw [h.mapUIDs, Function.update_of_ne hne] at hpoint
    -- an entry that is pointed to for another UID is another entry
    have hji : j ≠ i := by
      rintro rfl
      rw [h.get] at he₀
      obtain rfl := Option.some.inj he₀
      exact hne (heUid.symm.trans h.uid)
    rw [heq hji] at he₀
    rw [h.client_length] at hj
    exact hs.quiet j e hj he₀ hpoint r (List.mem_cons_of_mem _ hr) hru

end Known

/-! ### The flags that are announced -/

/-- The flags that the client has for the entry `mail` at `i` after a row with its UID: those it had,
`told`, unless the row is compared with the entry and the entry has others. -/
def toldFlags (scan : Scan) (i : ℕ) (mail : SMail) (told : ClientMail) (row : Row) : String :=
  if scan.mapUIDs mail.ulUid = some i ∧ mail.strFlags ≠ row.flagsFor mail then row.flagsFor mail
  else told.strFlags

/-- With the rows `done` read and `rows` to come, the client has or will have the flags of each row,
for all entries with its UID. -/
structure Current (scan : Scan) (done rows : List Row) : Prop where
  coming : ∀ (i : ℕ) (told : ClientMail) (mail : SMail), scan.session.told[i]? = some told →
    scan.session.lstFolderMailEIDs[i]? = some mail →
    ∀ e ∈ scan.session.lstFolderMailEIDs, e.ulUid = mail.ulUid →
    ∀ row ∈ rows, row.uid? = some mail.ulUid → scan.toldFlags i mail told row = row.flagsFor e
  passed : ∀ (i : ℕ) (told : ClientMail) (mail : SMail), scan.session.told[i]? = some told →
    scan.session.lstFolderMailEIDs[i]? = some mail →
    ∀ e ∈ scan.session.lstFolderMailEIDs, e.ulUid = mail.ulUid →
    ∀ row ∈ done, row.uid? = some mail.ulUid → told.strFlags = row.flagsFor e

/-- A row that is passed over leaves the flags right. -/
theorem Current.skip (huid : row.uid? = none) (hc : scan.Current done (row :: rows)) :
    scan.Current (row :: done) rows where
  coming i told mail htold hmail e he heq r hr hru :=
    hc.coming i told mail htold hmail e he heq r (List.mem_cons_of_mem _ hr) hru
  passed i told mail htold hmail e he heq r hr hru := by
    rcases List.mem_cons.mp hr with rfl | hr
    · rw [huid] at hru
      cases hru
    · exact hc.passed i told mail htold hmail e he heq r hr hru

/-- The flags of a new message are right, since they come from its row. -/
theorem Added.current {scan' : Scan} {mail : SMail} (h : Added scan scan' row ulUid mail)
    (huid : row.uid? = some ulUid) (hmap : scan.mapUIDs ulUid = none)
    (hnodup : (readUids (row :: rows)).Nodup) (hs : scan.Sound (row :: rows))
    (hfresh : ∀ r ∈ done, r.uid? ≠ some ulUid)
    (hc : scan.Current done (row :: rows)) : scan'.Current (row :: done) rows := by
  have hnew : ulUid ∉ uids scan.session.lstFolderMailEIDs := by
    refine hs.unknown ulUid ?_ hmap
    rw [readUids_cons_of_some huid]
    exact List.mem_cons_self
  have htold := Session.told_append hs.follows h.client h.mails
  -- an entry is one from before, or the new one, which alone has its UID
  have hentry (i : ℕ) (t : ClientMail) (m : SMail) (ht : scan'.session.told[i]? = some t)
      (hm : scan'.session.lstFolderMailEIDs[i]? = some m) (e : SMail)
      (he : e ∈ scan'.session.lstFolderMailEIDs) (heq : e.ulUid = m.ulUid) :
      (scan.session.told[i]? = some t ∧ scan.session.lstFolderMailEIDs[i]? = some m ∧
        e ∈ scan.session.lstFolderMailEIDs) ∨
      (t = mail.announced ∧ m = mail ∧ e = mail) := by
    rw [h.mails, List.mem_append, List.mem_singleton] at he
    rw [h.mails, List.getElem?_append] at hm
    rw [htold, List.getElem?_append, hs.follows.length_told] at ht
    split at hm
    next hi =>
      rw [if_pos hi] at ht
      refine .inl ⟨ht, hm, he.resolve_right ?_⟩
      rintro rfl
      refine hnew ?_
      rw [← h.uid, heq]
      exact List.mem_map_of_mem (List.mem_of_getElem? hm)
    next hi =>
      rw [if_neg hi] at ht
      have ht' := List.mem_singleton.mp (List.mem_of_getElem? ht)
      have hm' := List.mem_singleton.mp (List.mem_of_getElem? hm)
      refine .inr ⟨ht', hm', he.resolve_left fun hold => hnew ?_⟩
      rw [← h.uid, ← hm', ← heq]
      exact List.mem_map_of_mem hold
  refine ⟨fun i t m ht hm e he heq r hr hru => ?_, fun i t m ht hm e he heq r hr hru => ?_⟩
  · rcases hentry i t m ht hm e he heq with ⟨ht, hm, he⟩ | ⟨rfl, rfl, rfl⟩
    · have hold := hc.coming i t m ht hm e he heq r (List.mem_cons_of_mem _ hr) hru
      unfold toldFlags at hold ⊢
      rwa [h.mapUIDs]
    · rw [h.uid] at hru
      exact absurd (mem_readUids hr hru) (uid_notMem huid hnodup)
  · rcases hentry i t m ht hm e he heq with ⟨ht, hm, he⟩ | ⟨rfl, rfl, rfl⟩
    · rcases List.mem_cons.mp hr with rfl | hr
      · have hmem : m.ulUid ∈ uids scan.session.lstFolderMailEIDs :=
          List.mem_map_of_mem (List.mem_of_getElem? hm)
        rw [huid] at hru
        rw [← Option.some.inj hru] at hmem
        exact absurd hmem hnew
      · exact hc.passed i t m ht hm e he heq r hr hru
    · rcases List.mem_cons.mp hr with rfl | hr
      · exact h.flags
      · rw [h.uid] at hru
        exact absurd hru (hfresh r hr)

/-- A known message has the flags of its row afterwards, and the flags of all others are as they were. -/
theorem Known.current {scan' : Scan} {i : ℕ} {mail : SMail}
    (h : Known scan scan' row ulUid i mail) (huid : row.uid? = some ulUid)
    (hmap : scan.mapUIDs ulUid = some i) (hnodup : (readUids (row :: rows)).Nodup)
    (hfresh : ∀ r ∈ done, r.uid? ≠ some ulUid)
    (hc : scan.Current done (row :: rows)) : scan'.Current (row :: done) rows := by
  -- an entry after the row, with the flags the client has for it, is one from before
  have hentry (j : ℕ) (t : ClientMail) (m : SMail) (ht : scan'.session.told[j]? = some t)
      (hm : scan'.session.lstFolderMailEIDs[j]? = some m) :
      ∃ t₀ m₀, scan.session.told[j]? = some t₀ ∧ scan.session.lstFolderMailEIDs[j]? = some m₀ ∧
        m₀.ulUid = m.ulUid ∧ (j ≠ i → t₀ = t ∧ m₀ = m) ∧
        (j = i → m₀ = mail ∧ t.strFlags = scan.toldFlags i mail t₀ row) := by
    obtain ⟨m₀, hm₀, huidEq, -, hne⟩ := h.exists_entry hm
    rw [h.told] at ht
    obtain ⟨t₀, ht₀, rfl⟩ := Option.map_eq_some_iff.mp ht
    refine ⟨t₀, m₀, ht₀, hm₀, huidEq, fun hji => ⟨?_, hne hji⟩, fun hji => ⟨?_, ?_⟩⟩
    · rw [if_neg fun hj => hji hj.1]
    · rw [hji, h.get] at hm₀
      exact (Option.some.inj hm₀).symm
    · unfold toldFlags
      rw [h.uid]
      by_cases hflags : mail.strFlags ≠ row.flagsFor mail
      · rw [if_pos ⟨hji, hflags⟩, if_pos ⟨hmap, hflags⟩]
      · rw [if_neg fun hj => hflags hj.2, if_neg fun hj => hflags hj.2]
  have hmem (m e : SMail) (he : e ∈ scan'.session.lstFolderMailEIDs) (heq : e.ulUid = m.ulUid) :
      ∃ e₀ ∈ scan.session.lstFolderMailEIDs, e₀.ulUid = m.ulUid ∧
        ∀ r : Row, r.flagsFor e₀ = r.flagsFor e := by
    obtain ⟨j, hj⟩ := List.mem_iff_getElem?.mp he
    obtain ⟨e₀, he₀, huidEq, hrecent, -⟩ := h.exists_entry hj
    refine ⟨e₀, List.mem_of_getElem? he₀, huidEq.trans heq, fun r => ?_⟩
    rw [Row.flagsFor, Row.flagsFor, hrecent]
  refine ⟨fun j t m ht hm e he heq r hr hru => ?_, fun j t m ht hm e he heq r hr hru => ?_⟩
  · obtain ⟨t₀, m₀, ht₀, hm₀, huidEq, hne, hself⟩ := hentry j t m ht hm
    obtain ⟨e₀, he₀, heUid, hflags⟩ := hmem m e he heq
    have hji : j ≠ i := by
      intro hji
      rw [← huidEq, (hself hji).1, h.uid] at hru
      exact uid_notMem huid hnodup (mem_readUids hr hru)
    obtain ⟨rfl, rfl⟩ := hne hji
    have hold := hc.coming j t₀ m₀ ht₀ hm₀ e₀ he₀ heUid r (List.mem_cons_of_mem _ hr) hru
    have hother : m₀.ulUid ≠ ulUid := by
      intro heq
      rw [heq] at hru
      exact uid_notMem huid hnodup (mem_readUids hr hru)
    unfold toldFlags at hold ⊢
    rwa [h.mapUIDs, Function.update_of_ne hother, ← hflags]
  · obtain ⟨t₀, m₀, ht₀, hm₀, huidEq, hne, hself⟩ := hentry j t m ht hm
    obtain ⟨e₀, he₀, heUid, hflags⟩ := hmem m e he heq
    rw [← hflags]
    rcases List.mem_cons.mp hr with rfl | hr
    · have hold := hc.coming j t₀ m₀ ht₀ hm₀ e₀ he₀ (heUid.trans huidEq.symm) r
        List.mem_cons_self (by rw [huidEq, hru])
      by_cases hji : j = i
      · obtain ⟨rfl, ht⟩ := hself hji
        rw [ht, ← hold, hji]
      · obtain ⟨rfl, rfl⟩ := hne hji
        -- the map points to another entry with the UID
        unfold toldFlags at hold
        rw [huid] at hru
        rw [← Option.some.inj hru, hmap, if_neg] at hold
        · exact hold
        · exact fun hj => hji (Option.some.inj hj.1).symm
    · by_cases hji : j = i
      · rw [← huidEq, (hself hji).1, h.uid] at hru
        exact absurd hru (hfresh r hr)
      · obtain ⟨rfl, rfl⟩ := hne hji
        exact hc.passed j t₀ m₀ ht₀ hm₀ e₀ he₀ heUid r hr hru

/-! ### All rows -/

/-- What the scan over `rows` does to the two lists, the flags apart. -/
structure Scanned (scan scan' : Scan) (rows : List Row) : Prop where
  sound : scan'.Sound []
  client_uids : scan'.session.client.mails.map ClientMail.ulUid =
    scan.session.client.mails.map ClientMail.ulUid
  uids_eq : uids scan'.session.lstFolderMailEIDs =
    uids scan.session.lstFolderMailEIDs ++ addedUids rows scan.session.lstFolderMailEIDs
  mapUIDs : ∀ ulUid, scan'.mapUIDs ulUid =
    if ulUid ∈ readUids rows then none else scan.mapUIDs ulUid
  bNewMail : scan'.bNewMail = true ↔
    scan.bNewMail = true ∨ addedUids rows scan.session.lstFolderMailEIDs ≠ []

/-- An entry with the UID is in the list when the map has the UID. -/
theorem Sound.mem_uids {i : ℕ} (hs : scan.Sound rows) (hmap : scan.mapUIDs ulUid = some i) :
    ulUid ∈ uids scan.session.lstFolderMailEIDs := by
  obtain ⟨mail, hget, huid⟩ := Option.map_eq_some_iff.mp (hs.index ulUid i hmap)
  rw [← huid]
  exact List.mem_map_of_mem (List.mem_of_getElem? hget)

theorem Sound.skip (huid : row.uid? = none) (hs : scan.Sound (row :: rows)) : scan.Sound rows where
  follows := hs.follows
  index := hs.index
  unknown := by
    rw [← readUids_cons_of_none huid]
    exact hs.unknown
  quiet i mail hi hget hpoint r hr hru :=
    hs.quiet i mail hi hget hpoint r (List.mem_cons_of_mem _ hr) hru

/-- A new message and then the rest of the rows: what both have done together. -/
theorem Added.scanned {scan₁ scan₂ : Scan} {mail : SMail} (h : Added scan scan₁ row ulUid mail)
    (huid : row.uid? = some ulUid) (hmap : scan.mapUIDs ulUid = none)
    (hnodup : (readUids (row :: rows)).Nodup) (hs : scan.Sound (row :: rows))
    (hrest : Scanned scan₁ scan₂ rows) : Scanned scan scan₂ (row :: rows) := by
  have hreads := readUids_cons_of_some huid rows
  have hnew : ulUid ∉ uids scan.session.lstFolderMailEIDs := by
    refine hs.unknown ulUid ?_ hmap
    rw [hreads]
    exact List.mem_cons_self
  have huids : uids scan₁.session.lstFolderMailEIDs =
      uids scan.session.lstFolderMailEIDs ++ [ulUid] := by
    rw [h.mails, uids, List.map_append, ← h.uid]
    rfl
  have hadded : addedUids (row :: rows) scan.session.lstFolderMailEIDs =
      ulUid :: addedUids rows scan₁.session.lstFolderMailEIDs := by
    rw [addedUids, hreads, List.filter_cons_of_pos (by simpa using hnew), addedUids, huids]
    refine congrArg _ (List.filter_congr fun v hv => ?_)
    have hne : v ≠ ulUid := by
      rintro rfl
      exact uid_notMem huid hnodup hv
    simp [hne]
  refine ⟨hrest.sound, ?_, ?_, fun v => ?_, ?_⟩
  · rw [hrest.client_uids, h.client]
  · rw [hrest.uids_eq, huids, hadded, List.append_assoc]
    rfl
  · rw [hrest.mapUIDs, h.mapUIDs, hreads]
    by_cases hv : v = ulUid
    · subst hv
      rw [hmap, ite_self, ite_self]
    · simp only [List.mem_cons, hv, false_or]
  · rw [hrest.bNewMail, h.bNewMail, hadded]
    simp

/-- A known message and then the rest of the rows: what both have done together. -/
theorem Known.scanned {scan₁ scan₂ : Scan} {i : ℕ} {mail : SMail} (h : Known scan scan₁ row ulUid i mail)
    (huid : row.uid? = some ulUid) (hmap : scan.mapUIDs ulUid = some i)
    (hs : scan.Sound (row :: rows)) (hrest : Scanned scan₁ scan₂ rows) : Scanned scan scan₂ (row :: rows) := by
  have hreads := readUids_cons_of_some huid rows
  have hadded : addedUids (row :: rows) scan.session.lstFolderMailEIDs =
      addedUids rows scan₁.session.lstFolderMailEIDs := by
    rw [addedUids, hreads, List.filter_cons_of_neg (by simpa using hs.mem_uids hmap), addedUids,
      h.uids_eq]
  refine ⟨hrest.sound, ?_, ?_, fun v => ?_, ?_⟩
  · rw [hrest.client_uids, h.client_uids]
  · rw [hrest.uids_eq, h.uids_eq, hadded]
  · rw [hrest.mapUIDs, h.mapUIDs, hreads]
    by_cases hv : v = ulUid
    · subst hv
      rw [Function.update_self, ite_self, if_pos List.mem_cons_self]
    · rw [Function.update_of_ne hv]
      simp only [List.mem_cons, hv, false_or]
  · rw [hrest.bNewMail, h.bNewMail, hadded]

/-- What the loop over all rows has done. The induction is on the rows, with the scan so far. -/
theorem foldl_row_spec (ulMaxUID : ULONG) (bShowUID : Bool) (hnodup : (readUids rows).Nodup)
    (hs : scan.Sound rows) : Scanned scan (rows.foldl (Scan.row ulMaxUID bShowUID) scan) rows := by
  induction rows generalizing scan with
  | nil =>
    refine ⟨hs, rfl, ?_, fun _ => rfl, ?_⟩
    · exact (List.append_nil _).symm
    · simp [addedUids, readUids]
  | cons row rows ih =>
    rw [List.foldl_cons]
    rcases huid : row.uid? with _ | ulUid
    · rw [row_of_uid?_eq_none huid]
      have hreads := readUids_cons_of_none huid rows
      have hrest := ih (hreads ▸ hnodup) (hs.skip huid)
      have hadded : addedUids (row :: rows) scan.session.lstFolderMailEIDs =
          addedUids rows scan.session.lstFolderMailEIDs := by
        rw [addedUids, addedUids, hreads]
      exact ⟨hrest.sound, hrest.client_uids, by rw [hadded, hrest.uids_eq],
        by rw [hreads]; exact hrest.mapUIDs, by rw [hadded]; exact hrest.bNewMail⟩
    · have hnodupRest : (readUids rows).Nodup := by
        rw [readUids_cons_of_some huid] at hnodup
        exact (List.nodup_cons.mp hnodup).2
      rcases hmap : scan.mapUIDs ulUid with _ | i
      · obtain ⟨sInstanceKey, hrow⟩ := row_of_mapUIDs_eq_none ulMaxUID bShowUID huid hmap
        obtain ⟨mail, hadded⟩ := added_newMail sInstanceKey
        rw [hrow]
        exact hadded.scanned huid hmap hnodup hs
          (ih hnodupRest (hadded.sound huid hmap hnodup hs))
      · obtain ⟨mail, hknown⟩ := known_knownMail hs huid hmap
        rw [row_of_mapUIDs_eq_some ulMaxUID bShowUID huid hmap]
        exact hknown.scanned huid hmap hs (ih hnodupRest (hknown.sound huid hmap hnodup hs))

/-- After the scan the client has, or will have when the message is announced, the flags of the rows. -/
theorem Current.foldl_row (ulMaxUID : ULONG) (bShowUID : Bool) (hnodup : (readUids rows).Nodup)
    (hs : scan.Sound rows) (hfresh : ∀ r ∈ done, ∀ ulUid ∈ readUids rows, r.uid? ≠ some ulUid)
    (hc : scan.Current done rows) :
    (rows.foldl (Scan.row ulMaxUID bShowUID) scan).Current (rows.reverse ++ done) [] := by
  induction rows generalizing scan done with
  | nil => exact hc
  | cons row rows ih =>
    rw [List.foldl_cons, List.reverse_cons, List.append_assoc, List.singleton_append]
    rcases huid : row.uid? with _ | ulUid
    · rw [row_of_uid?_eq_none huid]
      have hreads := readUids_cons_of_none huid rows
      rw [hreads] at hnodup hfresh
      refine ih hnodup (hs.skip huid) (fun r hr v hv => ?_) (hc.skip huid)
      rcases List.mem_cons.mp hr with rfl | hr
      · rw [huid]
        exact nofun
      · exact hfresh r hr v hv
    · have hreads := readUids_cons_of_some huid rows
      have hnodupRest : (readUids rows).Nodup := by
        rw [hreads] at hnodup
        exact (List.nodup_cons.mp hnodup).2
      have hfreshRow : ∀ r ∈ done, r.uid? ≠ some ulUid := fun r hr =>
        hfresh r hr ulUid (by rw [hreads]; exact List.mem_cons_self)
      have hfreshRest : ∀ r ∈ row :: done, ∀ v ∈ readUids rows, r.uid? ≠ some v := by
        intro r hr v hv
        rcases List.mem_cons.mp hr with rfl | hr
        · rw [huid]
          rintro ⟨rfl⟩
          exact uid_notMem huid hnodup hv
        · exact hfresh r hr v (by rw [hreads]; exact List.mem_cons_of_mem _ hv)
      rcases hmap : scan.mapUIDs ulUid with _ | i
      · obtain ⟨sInstanceKey, hrow⟩ := row_of_mapUIDs_eq_none ulMaxUID bShowUID huid hmap
        obtain ⟨mail, hadded⟩ := added_newMail sInstanceKey
        rw [hrow]
        exact ih hnodupRest (hadded.sound huid hmap hnodup hs) hfreshRest
          (hadded.current huid hmap hnodup hs hfreshRow hc)
      · obtain ⟨mail, hknown⟩ := known_knownMail hs huid hmap
        rw [row_of_mapUIDs_eq_some ulMaxUID bShowUID huid hmap]
        exact ih hnodupRest (hknown.sound huid hmap hnodup hs) hfreshRest
          (hknown.current huid hmap hnodup hfreshRow hc)

end Scan

/-! ## The map of the UIDs -/

/-- A UID is not remembered exactly if it is in none of the messages, and was not remembered before. -/
theorem rememberUIDs_eq_none_iff {mapUIDs : ULONG → Option ℕ} {n : ℕ} {ulUid : ULONG} :
    rememberUIDs mapUIDs n mails ulUid = none ↔ mapUIDs ulUid = none ∧ ulUid ∉ uids mails := by
  induction mails generalizing mapUIDs n with
  | nil => simp [rememberUIDs, uids]
  | cons mail mails ih =>
    rw [rememberUIDs, ih]
    by_cases hmail : ulUid = mail.ulUid
    · simp [hmail, uids]
    · rw [Function.update_of_ne hmail]
      simp [uids, hmail]

/-- A remembered UID leads to the position of a message with this UID. -/
theorem rememberUIDs_eq_some {mapUIDs : ULONG → Option ℕ} {n i : ℕ}
    {ulUid : ULONG} (h : rememberUIDs mapUIDs n mails ulUid = some i) :
    mapUIDs ulUid = some i ∨ ∃ j, i = n + j ∧ (mails[j]?).map SMail.ulUid = some ulUid := by
  induction mails generalizing mapUIDs n with
  | nil => exact .inl h
  | cons mail mails ih =>
    rcases ih h with hmap | ⟨j, rfl, hj⟩
    · by_cases hmail : ulUid = mail.ulUid
      · subst hmail
        rw [Function.update_self] at hmap
        exact .inr ⟨0, (Option.some.inj hmap).symm, rfl⟩
      · rw [Function.update_of_ne hmail] at hmap
        exact .inl hmap
    · exact .inr ⟨j + 1, by omega, hj⟩

/-! ## The messages that are gone -/

section Expunge

variable {mapUIDs : ULONG → Option ℕ}

/-- The loop takes the messages that the map still has out of both lists, among those that have been
announced: the client has `passedTold` for `passed` and `told` for `mails`. -/
theorem expungeMissing_announced (s : Session) (passed mails rest : List SMail) (ulRecent : ℕ)
    (passedTold told : List ClientMail) (hmails : s.lstFolderMailEIDs = passed ++ (mails ++ rest))
    (hclient : s.client.mails = passedTold ++ told) (hpassed : passedTold.length = passed.length)
    (htold : told.map ClientMail.ulUid = uids mails) : ∃ (s' : Session) (ulRecent' : ℕ),
      expungeMissing mapUIDs s passed ulRecent (mails ++ rest) =
        expungeMissing mapUIDs s' (passed ++ mails.filter fun mail => mapUIDs mail.ulUid = none) ulRecent' rest ∧
      s'.lstFolderMailEIDs = passed ++ ((mails.filter fun mail => mapUIDs mail.ulUid = none) ++ rest) ∧
      s'.client.mails = passedTold ++ told.filter (fun mail => mapUIDs mail.ulUid = none) ∧
      s'.client.beyond = s.client.beyond := by
  induction mails generalizing s passed ulRecent passedTold told with
  | nil =>
    obtain rfl := List.map_eq_nil_iff.mp htold
    exact ⟨s, ulRecent, by simp, by simpa using hmails, by simpa using hclient, rfl⟩
  | cons mail mails ih =>
    obtain _ | ⟨t, told⟩ := told
    · cases htold
    obtain ⟨hhead, htail⟩ := List.cons_eq_cons.mp htold
    change t.ulUid = mail.ulUid at hhead
    by_cases hgone : mapUIDs mail.ulUid = none
    · -- the loop goes on behind the message
      obtain ⟨s', ulRecent', heq, hmails', hclient', hbeyond⟩ := ih s (passed ++ [mail])
        (if mail.bRecent then ulRecent + 1 else ulRecent) (passedTold ++ [t]) told
        (by simpa using hmails)
        (by simpa using hclient) (by simpa using hpassed) htail
      refine ⟨s', ulRecent', ?_, ?_, ?_, hbeyond⟩
      · rw [List.cons_append, expungeMissing, if_neg (by simp [hgone]), heq,
          List.filter_cons_of_pos (by simpa using hgone), List.append_assoc]
        rfl
      · rw [hmails', List.filter_cons_of_pos (by simpa using hgone), List.append_assoc]
        rfl
      · rw [hclient', List.filter_cons_of_pos (by simpa [hhead] using hgone), List.append_assoc]
        rfl
    · -- the message is taken out of both lists
      have hn : passed.length < s.client.mails.length := by
        rw [hclient, List.length_append, hpassed]
        simp
      have hsent := Session.client_EXPUNGE hn
      have herase : s.client.mails.eraseIdx passed.length = passedTold ++ told := by
        rw [hclient, ← hpassed, List.eraseIdx_append_of_length_le le_rfl, Nat.sub_self]
        rfl
      obtain ⟨s', ulRecent', heq, hmails', hclient', hbeyond⟩ := ih
        { s.HrResponse (.EXPUNGE (passed.length + 1)) with
          lstFolderMailEIDs := passed ++ (mails ++ rest) }
        passed ulRecent passedTold told rfl (by rw [hsent, herase]) hpassed htail
      refine ⟨s', ulRecent', ?_, ?_, ?_, ?_⟩
      · rw [List.cons_append, expungeMissing, if_pos (Option.isSome_iff_ne_none.mpr hgone), heq,
          List.filter_cons_of_neg (by simpa using hgone)]
      · rw [hmails', List.filter_cons_of_neg (by simpa using hgone)]
      · rw [hclient', List.filter_cons_of_neg (by simpa [hhead] using hgone)]
      · rw [hbeyond, hsent]

/-- The loop passes over messages that the map does not have. -/
theorem expungeMissing_of_eq_none {passed : List SMail} {ulRecent : ℕ}
    (h : ∀ mail ∈ mails, mapUIDs mail.ulUid = none) : (expungeMissing mapUIDs s passed ulRecent mails).1 = s := by
  induction mails generalizing passed ulRecent with
  | nil => rfl
  | cons mail mails ih =>
    rw [expungeMissing, if_neg (by simp [h mail List.mem_cons_self])]
    exact ih fun mail hmail => h mail (List.mem_cons_of_mem _ hmail)

/-- What the second loop has done: the messages whose UID was not read are gone, for the client as well. -/
theorem expungeMissing_spec (hs : s.Follows) (hpending : ∀ mail ∈ s.lstFolderMailEIDs.drop s.client.mails.length,
      mapUIDs mail.ulUid = none) :
    let s' := (expungeMissing mapUIDs s [] 0 s.lstFolderMailEIDs).1
    s'.lstFolderMailEIDs = s.lstFolderMailEIDs.filter (fun mail => mapUIDs mail.ulUid = none) ∧
      s'.client.mails = s.client.mails.filter (fun mail => mapUIDs mail.ulUid = none) ∧
      s'.client.beyond = s.client.beyond := by
  set n := s.client.mails.length with hn
  have hsplit := List.take_append_drop n s.lstFolderMailEIDs
  obtain ⟨s', ulRecent, heq, hmails, hclient, hbeyond⟩ := expungeMissing_announced s []
    (s.lstFolderMailEIDs.take n) (s.lstFolderMailEIDs.drop n) 0 [] s.client.mails
    (by rw [hsplit]; rfl) rfl rfl hs.client_uids
  rw [hsplit] at heq
  have hdrop : (s.lstFolderMailEIDs.drop n).filter (fun mail => mapUIDs mail.ulUid = none) =
      s.lstFolderMailEIDs.drop n :=
    List.filter_eq_self.mpr fun mail hmail => by simpa using hpending mail hmail
  intro s''
  have hs'' : s'' = s' := by
    change (expungeMissing mapUIDs s [] 0 s.lstFolderMailEIDs).1 = s'
    rw [heq, expungeMissing_of_eq_none hpending]
  rw [hs'', hmails, hclient, hbeyond]
  refine ⟨?_, rfl, rfl⟩
  conv_rhs => rw [← hsplit, List.filter_append, hdrop]
  rfl

end Expunge

/-! ## HrRefreshFolderMails -/

/-- The scan before the first row. -/
def Scan.start (s : Session) : Scan where
  session := s
  mapUIDs := rememberUIDs (fun _ => none) 0 s.lstFolderMailEIDs
  bNewMail := false
  ulUnseen := 0

/-- The rows that a call reads. -/
def World.rowsRead (w : World) : Option ℕ → List Row
  | some rows => w.folder.contentsTable.take rows
  | none => w.folder.contentsTable

/-- The UIDs of the entries whose messages are still in the folder. -/
def keptUids (rows : List Row) (mails : List SMail) : List ULONG :=
  (uids mails).filter (· ∈ readUids rows)

/-- The UIDs that the client has after the call, in its order: those of the messages it had that are
left, and of all others when the call finds a new message. -/
def Session.toldUids (s : Session) (rows : List Row) : List ULONG :=
  if addedUids rows s.lstFolderMailEIDs = [] then
    keptUids rows (s.lstFolderMailEIDs.take s.client.mails.length)
  else keptUids rows s.lstFolderMailEIDs ++ addedUids rows s.lstFolderMailEIDs

/-- The UIDs of the messages that are still to be announced after the call. -/
def Session.untoldUids (s : Session) (rows : List Row) : List ULONG :=
  if addedUids rows s.lstFolderMailEIDs = [] then
    keptUids rows (s.lstFolderMailEIDs.drop s.client.mails.length)
  else []

/-- When the call keeps the client in step. -/
structure World.Refreshable (w : World) (fault : Option ℕ) : Prop where
  /-- A message that the client does not know of has no other flags by now. -/
  quiet : ∀ i mail, w.session.client.mails.length ≤ i →
    w.session.lstFolderMailEIDs[i]? = some mail →
    (Scan.start w.session).mapUIDs mail.ulUid = some i →
    ∀ row ∈ w.rowsRead fault, row.uid? = some mail.ulUid → mail.strFlags = row.flagsFor mail
  /-- A message that the client does not know of is still there. -/
  present : fault = none →
    ∀ mail ∈ w.session.lstFolderMailEIDs.drop w.session.client.mails.length,
      mail.ulUid ∈ readUids (w.rowsRead none)
  /-- The messages that the client has then are in the order of their UIDs, before all others. -/
  ordered : fault = none → (w.session.toldUids (w.rowsRead none)).Pairwise (· ≤ ·) ∧
    ∀ a ∈ w.session.toldUids (w.rowsRead none), ∀ b ∈ w.session.untoldUids (w.rowsRead none), a ≤ b
  /-- The client has the flags of the row, or the entry that the row is compared with has others. -/
  flags : fault = none → ∀ (i : ℕ) (told : ClientMail) (mail : SMail),
    w.session.told[i]? = some told → w.session.lstFolderMailEIDs[i]? = some mail →
    ∀ e ∈ w.session.lstFolderMailEIDs, e.ulUid = mail.ulUid →
    ∀ row ∈ w.rowsRead none, row.uid? = some mail.ulUid →
      (Scan.start w.session).toldFlags i mail told row = row.flagsFor e
  /-- When the table cannot be read to its end, there are no new messages in what has been read. -/
  unchanged : fault ≠ none → addedUids (w.rowsRead fault) w.session.lstFolderMailEIDs = []

/-- The flags last announced for each message are its flags. -/
def World.FlagsCurrent (w : World) : Prop :=
  ∀ mail ∈ w.session.client.mails, ∀ e ∈ w.session.lstFolderMailEIDs, e.ulUid = mail.ulUid →
    ∀ row ∈ w.folder.rows, row.PR_EC_IMAP_ID = some mail.ulUid → mail.strFlags = row.flagsFor e

/-! ### The rows of the folder -/

theorem Row.imapId_of_uid? {row : Row} {ulUid : ULONG} (h : row.uid? = some ulUid) :
    row.PR_EC_IMAP_ID = some ulUid := by
  unfold Row.uid? at h
  split at h
  next => exact h
  next => cases h

/-- The UIDs that are read come in the order of the rows. -/
theorem readUids_sublist (rows : List Row) : (readUids rows).Sublist (rows.filterMap Row.PR_EC_IMAP_ID) := by
  induction rows with
  | nil => exact List.Sublist.slnil
  | cons row rows ih =>
    rcases huid : row.uid? with _ | ulUid
    · rw [readUids_cons_of_none huid]
      rcases himap : row.PR_EC_IMAP_ID with _ | v
      · rwa [List.filterMap_cons_none himap]
      · rw [List.filterMap_cons_some himap]
        exact ih.cons _
    · rw [readUids_cons_of_some huid, List.filterMap_cons_some (Row.imapId_of_uid? huid)]
      exact ih.cons_cons _

theorem Folder.contentsTable_perm (folder : Folder) : folder.contentsTable.Perm folder.rows :=
  List.perm_insertionSort _ _

theorem World.nodup_rowsRead (w : World) (fault : Option ℕ) : (readUids (w.rowsRead fault)).Nodup := by
  have htable : (w.folder.contentsTable.filterMap Row.PR_EC_IMAP_ID).Nodup :=
    (w.folder.contentsTable_perm.filterMap _).nodup_iff.mpr w.folder.uids_nodup
  have hrows : (w.rowsRead fault).Sublist w.folder.contentsTable := by
    cases fault with
    | none => exact List.Sublist.refl _
    | some rows => exact List.take_sublist _ _
  exact ((readUids_sublist _).trans (hrows.filterMap _)).nodup htable

/-- No two rows have one UID. -/
theorem eq_of_filterMap_nodup {α β : Type*} {f : α → Option β} {l : List α}
    (hnodup : (l.filterMap f).Nodup) {a b : α} {u : β} (ha : a ∈ l) (hb : b ∈ l)
    (hfa : f a = some u) (hfb : f b = some u) : a = b := by
  induction l with
  | nil => cases ha
  | cons c l ih =>
    have hmem {x : α} (hx : x ∈ l) (hfx : f x = some u) : u ∈ l.filterMap f :=
      List.mem_filterMap.mpr ⟨x, hx, hfx⟩
    rcases List.mem_cons.mp ha with rfl | ha' <;> rcases List.mem_cons.mp hb with rfl | hb'
    · rfl
    · rw [List.filterMap_cons_some hfa] at hnodup
      exact absurd (hmem hb' hfb) (List.nodup_cons.mp hnodup).1
    · rw [List.filterMap_cons_some hfb] at hnodup
      exact absurd (hmem ha' hfa) (List.nodup_cons.mp hnodup).1
    · refine ih ?_ ha' hb'
      cases hc : f c with
      | none => rwa [List.filterMap_cons_none hc] at hnodup
      | some v =>
        rw [List.filterMap_cons_some hc] at hnodup
        exact (List.nodup_cons.mp hnodup).2

/-! ### The call -/

section Refresh

variable {w : World} {fault : Option ℕ} (S : UidSort) (bResetRecent bShowUID : Bool)

/-- Before the first row the scan is sound: every message of the list is waiting for its row. -/
theorem Scan.start_sound (h : w.Refreshable fault) (hs : w.session.Follows) :
    (Scan.start w.session).Sound (w.rowsRead fault) where
  follows := hs
  index := by
    intro v i hi
    rcases rememberUIDs_eq_some hi with hnone | ⟨j, rfl, hj⟩
    · cases hnone
    · rwa [Nat.zero_add]
  unknown := fun _ _ hnone => (rememberUIDs_eq_none_iff.mp hnone).2
  quiet := h.quiet

theorem Scan.start_current (h : w.Refreshable none) : (Scan.start w.session).Current [] (w.rowsRead none) where
  coming := h.flags rfl
  passed := fun _ _ _ _ _ _ _ _ _ hr => absurd hr List.not_mem_nil

/-- Filtering the list by UID filters the UIDs. -/
theorem uids_filter (p : ULONG → Bool) (mails : List SMail) :
    uids (mails.filter fun mail => p mail.ulUid) = (uids mails).filter p :=
  (List.filter_map ..).symm

theorem map_ulUid_filter (p : ULONG → Bool) (mails : List ClientMail) :
    (mails.filter fun mail => p mail.ulUid).map ClientMail.ulUid = (mails.map ClientMail.ulUid).filter p :=
  (List.filter_map ..).symm

/-- Sorting moves nothing in front of messages that are in order, before all others. -/
theorem UidSort.uids_sort_take {told untold : List ULONG}
    (huids : uids mails = told ++ untold) (htold : told.Pairwise (· ≤ ·))
    (hbefore : ∀ a ∈ told, ∀ b ∈ untold, a ≤ b) : uids ((S.sort mails).take told.length) = told := by
  have hsorted : (uids (S.sort mails)).Pairwise (· ≤ ·) :=
    List.pairwise_map.mpr (S.sort_ordered mails)
  have hperm : (uids (S.sort mails)).Perm (told ++ untold) := by
    rw [← huids]
    exact (S.sort_perm mails).map _
  -- the sorted list is these messages and then the others, sorted
  let rest := untold.mergeSort fun a b => decide (a ≤ b)
  have hrestPerm : rest.Perm untold := List.mergeSort_perm _ _
  have hrest : rest.Pairwise (· ≤ ·) := by
    have hle : rest.Pairwise fun a b => decide (a ≤ b) = true := by
      refine List.pairwise_mergeSort (fun a b c hab hbc => ?_) (fun a b => ?_) untold
      · simp only [decide_eq_true_eq] at hab hbc ⊢
        exact UInt32.le_trans hab hbc
      · simpa using UInt32.le_total a b
    exact hle.imp fun h => of_decide_eq_true h
  have hall : (told ++ rest).Pairwise (· ≤ ·) :=
    List.pairwise_append.mpr ⟨htold, hrest, fun a ha b hb =>
      hbefore a ha b (hrestPerm.mem_iff.mp hb)⟩
  have heq : uids (S.sort mails) = told ++ rest :=
    (hperm.trans (hrestPerm.symm.append_left told)).eq_of_pairwise
      (fun a b _ _ hab hba => UInt32.le_antisymm hab hba) hsorted hall
  rw [uids, List.map_take]
  change (uids (S.sort mails)).take told.length = told
  rw [heq, List.take_left]

/-- The list and the client's after the loop that expunges. -/
structure Purged (s₀ s₁ s₂ : Session) (rows : List Row) : Prop where
  follows : s₂.Follows
  client_uids : s₂.client.mails.map ClientMail.ulUid =
    keptUids rows (s₀.lstFolderMailEIDs.take s₀.client.mails.length)
  uids_eq : uids s₂.lstFolderMailEIDs =
    keptUids rows s₀.lstFolderMailEIDs ++ addedUids rows s₀.lstFolderMailEIDs
  mails_subset : s₂.lstFolderMailEIDs ⊆ s₁.lstFolderMailEIDs
  told_subset : s₂.told ⊆ s₁.told
  told_read : ∀ mail ∈ s₂.told, mail.ulUid ∈ readUids rows

theorem keptUids_append_drop (rows : List Row) (mails : List SMail) (n : ℕ) :
    keptUids rows (mails.take n) ++ keptUids rows (mails.drop n) = keptUids rows mails := by
  rw [keptUids, keptUids, keptUids, ← List.filter_append, uids, uids, ← List.map_append,
    List.take_append_drop]
  rfl

section Filtered

variable {s₁ s₂ : Session} {p : ULONG → Bool} (hfollows : s₁.Follows)
  (hmails : s₂.lstFolderMailEIDs = s₁.lstFolderMailEIDs.filter fun mail => p mail.ulUid)
  (hclient : s₂.client.mails = s₁.client.mails.filter fun mail => p mail.ulUid)

include hfollows hmails hclient

/-- Where the list and the client lose the messages with the same UIDs, what is yet to be announced is what is left
of it. -/
theorem drop_of_filtered : s₂.lstFolderMailEIDs.drop s₂.client.mails.length =
    (s₁.lstFolderMailEIDs.drop s₁.client.mails.length).filter fun mail => p mail.ulUid := by
  set n := s₁.client.mails.length with hn
  have htake : s₂.client.mails.length =
      ((s₁.lstFolderMailEIDs.take n).filter fun mail => p mail.ulUid).length := by
    have hlength := congrArg List.length (uids_filter p (s₁.lstFolderMailEIDs.take n))
    rw [hn, ← hfollows.client_uids, ← map_ulUid_filter, List.length_map, uids, List.length_map] at hlength
    rw [hclient, hlength]
  have hsplit : s₂.lstFolderMailEIDs =
      ((s₁.lstFolderMailEIDs.take n).filter fun mail => p mail.ulUid) ++
        (s₁.lstFolderMailEIDs.drop n).filter fun mail => p mail.ulUid := by
    rw [← List.filter_append, List.take_append_drop, hmails]
  rw [htake, hsplit, List.drop_left]

/-- The client is told of no message that it would not have been told of before. -/
theorem told_subset_of_filtered : s₂.told ⊆ s₁.told := by
  intro mail hmail
  rw [Session.told, List.mem_append] at hmail ⊢
  rcases hmail with hmail | hmail
  · rw [hclient] at hmail
    exact .inl (List.filter_sublist.subset hmail)
  · rw [drop_of_filtered hfollows hmails hclient] at hmail
    exact .inr (List.map_subset _ List.filter_sublist.subset hmail)

end Filtered

namespace Scan.Scanned

variable {s₀ : Session} {scan : Scan} {rows : List Row} (h : Scanned (start s₀) scan rows)

include h

theorem length_mails : scan.session.client.mails.length = s₀.client.mails.length := by
  have hlength := congrArg List.length h.client_uids
  rwa [List.length_map, List.length_map] at hlength

/-- The map has lost the UIDs that have been read. -/
theorem mapUIDs_of_read {v : ULONG} (hv : v ∈ readUids rows) : scan.mapUIDs v = none := by
  rw [h.mapUIDs, if_pos hv]

/-- Of the UIDs that were in the list before, it has lost no others. -/
theorem mapUIDs_eq_none_iff {v : ULONG} (hv : v ∈ uids s₀.lstFolderMailEIDs) :
    scan.mapUIDs v = none ↔ v ∈ readUids rows := by
  refine ⟨fun hnone => ?_, h.mapUIDs_of_read⟩
  by_contra hmem
  rw [h.mapUIDs, if_neg hmem] at hnone
  exact (rememberUIDs_eq_none_iff.mp hnone).2 hv

/-- No message that is yet to be announced is expunged: those that were waiting have been read, and so have the new
ones. -/
theorem pending (hs₀ : s₀.Follows) (hpresent : ∀ mail ∈ s₀.lstFolderMailEIDs.drop s₀.client.mails.length,
      mail.ulUid ∈ readUids rows) : ∀ mail ∈ scan.session.lstFolderMailEIDs.drop scan.session.client.mails.length,
      scan.mapUIDs mail.ulUid = none := by
  intro mail hmail
  have huids : uids scan.session.lstFolderMailEIDs =
      uids s₀.lstFolderMailEIDs ++ addedUids rows s₀.lstFolderMailEIDs := h.uids_eq
  have hmem : mail.ulUid ∈ (uids scan.session.lstFolderMailEIDs).drop s₀.client.mails.length := by
    rw [uids, ← List.map_drop, ← h.length_mails]
    exact List.mem_map_of_mem hmail
  have hshort : s₀.client.mails.length ≤ (uids s₀.lstFolderMailEIDs).length := by
    rw [uids, List.length_map]
    exact hs₀.short
  rw [huids, List.drop_append_of_le_length hshort, List.mem_append] at hmem
  rcases hmem with hmem | hmem
  · rw [uids, ← List.map_drop] at hmem
    obtain ⟨e, he, heq⟩ := List.mem_map.mp hmem
    exact h.mapUIDs_of_read (heq ▸ hpresent e he)
  · exact h.mapUIDs_of_read (List.mem_filter.mp hmem).1

/-- The messages that stay, of those that were in the list before. -/
theorem filter_uids (hsub : mails ⊆ s₀.lstFolderMailEIDs) :
    (uids mails).filter (fun v => decide (scan.mapUIDs v = none)) = keptUids rows mails := by
  refine List.filter_congr fun v hv => decide_eq_decide.mpr (h.mapUIDs_eq_none_iff ?_)
  obtain ⟨e, he, rfl⟩ := List.mem_map.mp hv
  exact List.mem_map_of_mem (hsub he)

/-- All messages that stay: those of the list before and then the new ones. -/
theorem filter_uids_session : (uids scan.session.lstFolderMailEIDs).filter (fun v => decide (scan.mapUIDs v = none)) =
    keptUids rows s₀.lstFolderMailEIDs ++ addedUids rows s₀.lstFolderMailEIDs := by
  have huids : uids scan.session.lstFolderMailEIDs =
      uids s₀.lstFolderMailEIDs ++ addedUids rows s₀.lstFolderMailEIDs := h.uids_eq
  rw [huids, List.filter_append, h.filter_uids (List.Subset.refl _)]
  refine congrArg _ (List.filter_eq_self.mpr fun v hv => ?_)
  exact decide_eq_true (h.mapUIDs_of_read (List.mem_filter.mp hv).1)

end Scan.Scanned

/-- A client follows that has those messages which stay of the ones that were announced to it. -/
theorem Session.Follows.of_keptUids {s₀ s₂ : Session} {rows : List Row} {added : List ULONG}
    (hlegal : s₂.client.beyond = false) (hclient : s₂.client.mails.map ClientMail.ulUid =
      keptUids rows (s₀.lstFolderMailEIDs.take s₀.client.mails.length))
    (huids : uids s₂.lstFolderMailEIDs = keptUids rows s₀.lstFolderMailEIDs ++ added) : s₂.Follows := by
  have hlength : s₂.client.mails.length =
      (keptUids rows (s₀.lstFolderMailEIDs.take s₀.client.mails.length)).length := by
    rw [← hclient, List.length_map]
  rw [← keptUids_append_drop rows _ s₀.client.mails.length] at huids
  refine .of_client_uids hlegal ?_ ?_
  · have hall := congrArg List.length huids
    rw [uids, List.length_map, List.length_append, List.length_append] at hall
    omega
  · rw [hclient, uids, List.map_take]
    change _ = (uids s₂.lstFolderMailEIDs).take _
    rw [huids, List.append_assoc, hlength, List.take_left]

/-- After both loops: the list has the messages that were read, and the client has been told in terms of the
positions it knows. -/
theorem purged_expungeMissing {s₀ : Session} {scan : Scan} {rows : List Row} (hs₀ : s₀.Follows)
    (hpresent : ∀ mail ∈ s₀.lstFolderMailEIDs.drop s₀.client.mails.length, mail.ulUid ∈ readUids rows)
    (h : Scan.Scanned (Scan.start s₀) scan rows) : Purged s₀ scan.session
      (expungeMissing scan.mapUIDs scan.session [] 0 scan.session.lstFolderMailEIDs).1 rows := by
  obtain ⟨hmails, hclient, hbeyond⟩ := expungeMissing_spec h.sound.follows (h.pending hs₀ hpresent)
  set s₂ := (expungeMissing scan.mapUIDs scan.session [] 0 scan.session.lstFolderMailEIDs).1
  let p : ULONG → Bool := fun v => decide (scan.mapUIDs v = none)
  have hclientUids : s₂.client.mails.map ClientMail.ulUid =
      keptUids rows (s₀.lstFolderMailEIDs.take s₀.client.mails.length) := by
    rw [hclient, ← h.filter_uids (List.take_subset _ _), ← hs₀.client_uids]
    refine (map_ulUid_filter p _).trans ?_
    rw [h.client_uids]
    rfl
  have huids : uids s₂.lstFolderMailEIDs =
      keptUids rows s₀.lstFolderMailEIDs ++ addedUids rows s₀.lstFolderMailEIDs := by
    rw [hmails]
    exact (uids_filter p _).trans h.filter_uids_session
  have hfollows : s₂.Follows :=
    .of_keptUids (hbeyond.trans h.sound.follows.legal) hclientUids huids
  refine ⟨hfollows, hclientUids, huids, ?_, ?_, ?_⟩
  · rw [hmails]
    exact List.filter_sublist.subset
  · exact told_subset_of_filtered (p := p) h.sound.follows hmails hclient
  · intro mail hmail
    have hmem : mail.ulUid ∈ uids s₂.lstFolderMailEIDs := by
      rw [← hfollows.told_uids]
      exact List.mem_map_of_mem hmail
    rw [huids, List.mem_append] at hmem
    rcases hmem with hmem | hmem
    · exact of_decide_eq_true (List.mem_filter.mp hmem).2
    · exact (List.mem_filter.mp hmem).1

/-- The session after `EXISTS`, which announces the whole list. -/
def Session.announceAll (s : Session) : Session :=
  { s with client := { s.client with mails := s.told } }

theorem Session.HrResponse_EXISTS (s : Session) :
    s.HrResponse (.EXISTS s.lstFolderMailEIDs.length) = s.announceAll := by
  unfold Session.HrResponse Client.receive
  simp only [List.take_length]
  rfl

theorem Session.Follows.announceAll (h : s.Follows) : s.announceAll.InStep where
  legal := h.legal
  uids_eq := h.told_uids

theorem session_refresh_some (rows : ℕ) : (HrRefreshFolderMails S false bResetRecent bShowUID (some rows) w).1 =
      { w with session := ((w.rowsRead (some rows)).foldl
        (Scan.row (w.folder.PR_EC_IMAP_MAX_ID.getD 0) bShowUID) (Scan.start w.session)).session } :=
  rfl

/-- A refresh that reads all rows, by its two loops and the `EXISTS` behind them. -/
theorem session_refresh_none : (HrRefreshFolderMails S false bResetRecent bShowUID none w).1.session =
      let scan := (w.rowsRead none).foldl
        (Scan.row (w.folder.PR_EC_IMAP_MAX_ID.getD 0) bShowUID) (Scan.start w.session)
      let s := (expungeMissing scan.mapUIDs scan.session [] 0 scan.session.lstFolderMailEIDs).1
      let s := if scan.bNewMail then s.announceAll else s
      { s with lstFolderMailEIDs := S.sort s.lstFolderMailEIDs } := by
  simp only
  rw [← Session.HrResponse_EXISTS]
  unfold HrRefreshFolderMails
  simp only [Bool.or_false]
  rfl

theorem rows_refresh : (HrRefreshFolderMails S false bResetRecent bShowUID fault w).1.folder.rows =
    w.folder.rows := by
  cases fault with
  | some rows => rfl
  | none =>
    unfold HrRefreshFolderMails
    simp only
    split_ifs <;> rfl

/-- A refresh that reads all rows leaves a client that follows in step, with the messages and the flags of the
folder. -/
theorem refresh_spec (h : w.Refreshable none) (hs : w.session.Follows) :
    let w' := (HrRefreshFolderMails S false bResetRecent bShowUID none w).1
    w'.session.Follows ∧ w'.FlagsCurrent ∧
      w'.session.client.mails.length = (w.session.toldUids (w.rowsRead none)).length ∧
      w'.session.lstFolderMailEIDs.length =
        (w.session.toldUids (w.rowsRead none) ++ w.session.untoldUids (w.rowsRead none)).length := by
  intro w'
  set rows := w.rowsRead none with hrows
  have hnodup : (readUids rows).Nodup := w.nodup_rowsRead none
  have hscanned := Scan.foldl_row_spec (w.folder.PR_EC_IMAP_MAX_ID.getD 0) bShowUID hnodup
    (Scan.start_sound h hs)
  have hcurrent := (Scan.start_current h).foldl_row (w.folder.PR_EC_IMAP_MAX_ID.getD 0) bShowUID
    hnodup (Scan.start_sound h hs) fun r hr => absurd hr List.not_mem_nil
  have hsession : w'.session = _ := session_refresh_none S bResetRecent bShowUID
  simp only at hsession
  set scan := rows.foldl (Scan.row (w.folder.PR_EC_IMAP_MAX_ID.getD 0) bShowUID)
    (Scan.start w.session)
  have hpurged := purged_expungeMissing hs (h.present rfl) hscanned
  set s₂ := (expungeMissing scan.mapUIDs scan.session [] 0 scan.session.lstFolderMailEIDs).1
  set s₃ := if scan.bNewMail then s₂.announceAll else s₂ with hs₃
  obtain ⟨hmails₃, hlegal₃, hsubset₃, hclient₃, huids₃⟩ :
      s₃.lstFolderMailEIDs = s₂.lstFolderMailEIDs ∧ s₃.client.beyond = false ∧
      s₃.client.mails ⊆ s₂.told ∧
      s₃.client.mails.map ClientMail.ulUid = w.session.toldUids rows ∧
      uids s₂.lstFolderMailEIDs = w.session.toldUids rows ++ w.session.untoldUids rows := by
    unfold Session.toldUids Session.untoldUids
    by_cases hadded : addedUids rows w.session.lstFolderMailEIDs = []
    · have hnoNew : scan.bNewMail = false := by
        rw [Bool.eq_false_iff, ne_eq, hscanned.bNewMail]
        rintro (hnew | hne)
        · cases hnew
        · exact hne hadded
      rw [if_pos hadded, if_pos hadded, hs₃, hnoNew]
      refine ⟨rfl, hpurged.follows.legal, List.subset_append_left _ _, hpurged.client_uids, ?_⟩
      rw [hpurged.uids_eq, hadded, List.append_nil, keptUids_append_drop]
    · have hnew : scan.bNewMail = true := hscanned.bNewMail.mpr (.inr hadded)
      rw [if_neg hadded, if_neg hadded, hs₃, hnew, if_pos rfl, List.append_nil]
      refine ⟨rfl, hpurged.follows.legal, List.Subset.refl _, ?_, hpurged.uids_eq⟩
      exact hpurged.follows.told_uids.trans hpurged.uids_eq
  obtain ⟨hordered, hbefore⟩ := h.ordered rfl
  have hlength : s₃.client.mails.length = (w.session.toldUids rows).length := by
    rw [← hclient₃, List.length_map]
  have hlengthAll : s₂.lstFolderMailEIDs.length =
      (w.session.toldUids rows ++ w.session.untoldUids rows).length := by
    rw [← huids₃, uids, List.length_map]
  have hsorted := (S.sort_perm s₂.lstFolderMailEIDs).length_eq
  refine ⟨?_, ?_, ?_, ?_⟩
  · rw [hsession]
    refine Session.Follows.of_client_uids hlegal₃ ?_ ?_
    · change s₃.client.mails.length ≤ (S.sort s₃.lstFolderMailEIDs).length
      rw [hmails₃, hsorted, hlengthAll, hlength, List.length_append]
      exact Nat.le_add_right _ _
    · change s₃.client.mails.map ClientMail.ulUid =
        uids ((S.sort s₃.lstFolderMailEIDs).take s₃.client.mails.length)
      rw [hmails₃, hlength, S.uids_sort_take huids₃ hordered hbefore, hclient₃]
  · intro mail hmail e he huid row hrow himap
    rw [hsession] at hmail he
    have htold₂ : mail ∈ s₂.told := hsubset₃ hmail
    have he₁ : e ∈ scan.session.lstFolderMailEIDs := by
      refine hpurged.mails_subset ((S.sort_perm _).mem_iff.mp ?_)
      rw [← hmails₃]
      exact he
    -- the row that the scan has read for the message
    obtain ⟨row', hrow', huid'⟩ := List.mem_filterMap.mp (hpurged.told_read mail htold₂)
    have hrowEq : row' = row := by
      rw [rows_refresh] at hrow
      exact eq_of_filterMap_nodup w.folder.uids_nodup
        (w.folder.contentsTable_perm.mem_iff.mp hrow') hrow (Row.imapId_of_uid? huid') himap
    subst hrowEq
    -- the entry at the position of the message
    obtain ⟨i, hi⟩ := List.mem_iff_getElem?.mp (hpurged.told_subset htold₂)
    have hentry : (uids scan.session.lstFolderMailEIDs)[i]? = some mail.ulUid := by
      rw [← hscanned.sound.follows.told_uids, List.getElem?_map, hi]
      rfl
    rw [uids, List.getElem?_map] at hentry
    obtain ⟨e₀, he₀, heUid⟩ := Option.map_eq_some_iff.mp hentry
    refine hcurrent.passed i mail e₀ hi he₀ e he₁ (huid.trans heUid.symm) row' ?_ ?_
    · rw [List.append_nil]
      exact List.mem_reverse.mpr hrow'
    · rw [huid', heUid]
  · rw [hsession]
    exact hlength
  · rw [hsession]
    change (S.sort s₃.lstFolderMailEIDs).length = _
    rw [hmails₃, hsorted, hlengthAll]

/-- A call from a list that is in step leaves it in step, with the current flags. -/
theorem inStep_refresh (h : w.Refreshable none) (hs : w.session.InStep) :
    (HrRefreshFolderMails S false bResetRecent bShowUID none w).1.session.InStep := by
  obtain ⟨hfollows, -, hclient, hmails⟩ := refresh_spec S bResetRecent bShowUID h hs.follows
  refine hfollows.inStep ?_
  have huntold : w.session.untoldUids (w.rowsRead none) = [] := by
    unfold Session.untoldUids
    rw [hs.length_eq, List.drop_length]
    exact ite_self _
  rw [hclient, hmails, huntold, List.append_nil]

/-- A refresh that fails leaves a client that follows one that follows. -/
theorem follows_refresh_some {rows : ℕ} (h : w.Refreshable (some rows)) (hs : w.session.Follows) :
    let w' := (HrRefreshFolderMails S false bResetRecent bShowUID (some rows) w).1
    w'.session.Follows ∧
      w'.session.client.mails.length = w.session.client.mails.length ∧
      w'.session.lstFolderMailEIDs.length = w.session.lstFolderMailEIDs.length := by
  intro w'
  have hw' : w' = _ := session_refresh_some S bResetRecent bShowUID rows
  rw [hw']
  have hscanned := Scan.foldl_row_spec (w.folder.PR_EC_IMAP_MAX_ID.getD 0) bShowUID
    (w.nodup_rowsRead (some rows)) (Scan.start_sound h hs)
  refine ⟨hscanned.sound.follows, ?_, ?_⟩
  · have hlength := congrArg List.length hscanned.client_uids
    rwa [List.length_map, List.length_map] at hlength
  · have huids := congrArg List.length hscanned.uids_eq
    have hnone := h.unchanged nofun
    change _ = (uids w.session.lstFolderMailEIDs ++
      addedUids (w.rowsRead (some rows)) w.session.lstFolderMailEIDs).length at huids
    rw [hnone, List.append_nil, uids, uids, List.length_map, List.length_map] at huids
    exact huids

end Refresh

end Zcp.Gateway
