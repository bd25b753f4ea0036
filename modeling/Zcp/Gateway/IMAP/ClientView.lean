import Zcp.Gateway.IMAP.Refresh

/-!
# The client's view of the selected folder

Whole runs: changes of the folder, refreshes and batches of notifications in any order. The client
stays in step (`keepsView_of_meets`) while the list is sorted by UID whenever it is refreshed and no
notification is about a message that has only been added, without an `EXISTS`, in the same batch.
-/

namespace Zcp.Gateway

/-! ## Notifications -/

/-- What the callback keeps between two notifications: messages that are yet to be announced have been
counted. -/
structure Batch.Sound (batch : Batch) : Prop where
  follows : batch.world.session.Follows
  counted : batch.ulRecent = 0 →
    batch.world.session.client.mails.length = batch.world.session.lstFolderMailEIDs.length

/-- When a notification keeps the client in step: a message that it removes or changes has been
announced, and a refresh can be made. -/
def Batch.Timely (batch : Batch) : Notification → Prop
  | .TABLE_ROW_DELETED (some propIndex) =>
    ∀ i, (batch.world.session.lstFolderMailEIDs.findIdx? fun mail =>
      mail.sInstanceKey = propIndex) = some i → i < batch.world.session.client.mails.length
  | .TABLE_ROW_MODIFIED row =>
    ∀ ulUid, row.PR_EC_IMAP_ID = some ulUid →
      ∀ i, (batch.world.session.lstFolderMailEIDs.findIdx? fun mail => mail.ulUid = ulUid) = some i →
        i < batch.world.session.client.mails.length
  | .TABLE_RELOAD fault | .TABLE_CHANGED fault => batch.world.Refreshable fault
  | .TABLE_ROW_ADDED _ _ | .TABLE_ROW_DELETED none | .other => True

/-- What holds right after a notification: a refresh that succeeds has announced all flags. -/
def Batch.Refreshed (batch : Batch) : Notification → Prop
  | .TABLE_RELOAD none | .TABLE_CHANGED none => batch.world.FlagsCurrent
  | _ => True

section Notifications

variable (S : UidSort) (bCurrentFolderReadOnly : Bool) {batch : Batch}

theorem Batch.Sound.refresh {fault : Option ℕ} {bResetRecent : Bool} (hb : batch.Sound)
    (h : batch.world.Refreshable fault) :
    ({ batch with world := (HrRefreshFolderMails S false bResetRecent false fault batch.world).1 } :
      Batch).Sound := by
  cases fault with
  | some rows =>
    obtain ⟨hfollows, hclient, hmails⟩ := follows_refresh_some S bResetRecent false h hb.follows
    refine ⟨hfollows, fun hcount => ?_⟩
    exact hclient.trans ((hb.counted hcount).trans hmails.symm)
  | none =>
    refine ⟨(refresh_spec S bResetRecent false h hb.follows).1, fun hcount => ?_⟩
    exact (inStep_refresh S bResetRecent false h (hb.follows.inStep (hb.counted hcount))).length_eq

/-- Taking a message out of both lists. -/
theorem Session.Follows.erase {s : Session} {i : ℕ} (hs : s.Follows) (hi : i < s.client.mails.length) :
    let s' : Session := { s.HrResponse (.EXPUNGE (i + 1)) with
      lstFolderMailEIDs := s.lstFolderMailEIDs.eraseIdx i }
    s'.Follows ∧ s'.client.mails.length + 1 = s.client.mails.length ∧
      s'.lstFolderMailEIDs.length + 1 = s.lstFolderMailEIDs.length := by
  intro s'
  have hsent := Session.client_EXPUNGE hi
  have hshort := hs.short
  have hclient : s'.client.mails = s.client.mails.eraseIdx i := congrArg Client.mails hsent
  have hlength : s'.client.mails.length + 1 = s.client.mails.length := by
    rw [hclient, List.length_eraseIdx_of_lt hi]
    omega
  have hlengthAll : s'.lstFolderMailEIDs.length + 1 = s.lstFolderMailEIDs.length := by
    change (s.lstFolderMailEIDs.eraseIdx i).length + 1 = _
    rw [List.length_eraseIdx_of_lt (hi.trans_le hshort)]
    omega
  refine ⟨?_, hlength, hlengthAll⟩
  refine Session.Follows.of_client_uids ?_ ?_ ?_
  · change (s.HrResponse (.EXPUNGE (i + 1))).client.beyond = false
    rw [hsent, hs.legal]
  · omega
  · change _ = uids ((s.lstFolderMailEIDs.eraseIdx i).take s'.client.mails.length)
    have hfirst : (s.lstFolderMailEIDs.take s.client.mails.length).length = s.client.mails.length :=
      List.length_take_of_le hshort
    have hfirstErased : ((s.lstFolderMailEIDs.take s.client.mails.length).eraseIdx i).length =
        s'.client.mails.length := by
      rw [List.length_eraseIdx_of_lt (hfirst.symm ▸ hi), hfirst]
      omega
    have hall : s.lstFolderMailEIDs.eraseIdx i =
        (s.lstFolderMailEIDs.take s.client.mails.length).eraseIdx i ++
          s.lstFolderMailEIDs.drop s.client.mails.length := by
      rw [← List.eraseIdx_append_of_lt_length (hfirst.symm ▸ hi), List.take_append_drop]
    rw [hall, List.take_left' hfirstErased, hclient, ← List.eraseIdx_map, hs.client_uids, uids, uids,
      List.eraseIdx_map]

/-- Announcing flags of a message of the client. -/
theorem Session.Follows.fetch {s : Session} {i : ℕ} (hs : s.Follows)
    (hi : i < s.client.mails.length) (ulUid : Option ULONG) (strFlags : String) :
    let s' := s.HrResponse (.FETCH (i + 1) ulUid strFlags)
    s'.Follows ∧ s'.client.mails.length = s.client.mails.length := by
  intro s'
  have hsent := Session.client_FETCH hi ulUid strFlags
  have hlength : s'.client.mails.length = s.client.mails.length := by
    rw [congrArg Client.mails hsent, List.length_modify]
  refine ⟨Session.Follows.of_client_uids ?_ ?_ ?_, hlength⟩
  · rw [congrArg Client.beyond hsent]
    exact hs.legal
  · rw [hlength]
    exact hs.short
  · rw [hlength, congrArg Client.mails hsent, map_ulUid_modify_flags]
    exact hs.client_uids

theorem Batch.Sound.notify (hb : batch.Sound) {notification : Notification} (h : batch.Timely notification) :
    (batch.notify S bCurrentFolderReadOnly notification).Sound := by
  cases notification with
  | TABLE_ROW_ADDED propIndex row =>
    exact ⟨hb.follows.append rfl rfl, fun hcount => absurd hcount (Nat.succ_ne_zero _)⟩
  | TABLE_ROW_DELETED propIndex =>
    obtain _ | propIndex := propIndex
    · exact hb
    unfold Batch.notify
    simp only
    split
    next => exact hb
    next i hi =>
      obtain ⟨hfollows, hclient, hmails⟩ := hb.follows.erase (h i hi)
      refine ⟨hfollows, fun hcount => ?_⟩
      have hcounted := hb.counted hcount
      exact Nat.succ_injective (hclient.trans (hcounted.trans hmails.symm))
  | TABLE_ROW_MODIFIED row =>
    unfold Batch.notify
    simp only
    split
    next => exact hb
    next ulUid huid =>
      split
      next => exact hb
      next i hi =>
        obtain ⟨hfollows, hclient⟩ := hb.follows.fetch (h ulUid huid i hi) none
          (PropsToFlags row ((batch.world.session.lstFolderMailEIDs[i]?).any SMail.bRecent) false)
        exact ⟨hfollows, fun hcount => hclient.trans (hb.counted hcount)⟩
  | TABLE_RELOAD fault => exact hb.refresh S h
  | TABLE_CHANGED fault => exact hb.refresh S h
  | other => exact hb

theorem Batch.Sound.refreshed (hb : batch.Sound) {notification : Notification} (h : batch.Timely notification) :
    (batch.notify S bCurrentFolderReadOnly notification).Refreshed notification := by
  cases notification with
  | TABLE_RELOAD fault | TABLE_CHANGED fault =>
    cases fault with
    | none => exact (refresh_spec S (!bCurrentFolderReadOnly) false h hb.follows).2.1
    | some rows => trivial
  | _ => trivial

/-- Every notification of a batch is timely when it is handled. -/
def Batch.AllTimely (batch : Batch) : List Notification → Prop
  | [] => True
  | notification :: lpNotif =>
    batch.Timely notification ∧
      Batch.AllTimely (batch.notify S bCurrentFolderReadOnly notification) lpNotif

/-- Every refresh of a batch announces all flags. -/
def Batch.AllRefreshed (batch : Batch) : List Notification → Prop
  | [] => True
  | notification :: lpNotif =>
    (batch.notify S bCurrentFolderReadOnly notification).Refreshed notification ∧
      Batch.AllRefreshed (batch.notify S bCurrentFolderReadOnly notification) lpNotif

theorem Batch.Sound.foldl_notify {lpNotif : List Notification} (hb : batch.Sound)
    (h : batch.AllTimely S bCurrentFolderReadOnly lpNotif) :
    (lpNotif.foldl (Batch.notify S bCurrentFolderReadOnly) batch).Sound ∧
      batch.AllRefreshed S bCurrentFolderReadOnly lpNotif := by
  induction lpNotif generalizing batch with
  | nil => exact ⟨hb, trivial⟩
  | cons notification lpNotif ih =>
    obtain ⟨hsound, hrefreshed⟩ := ih (hb.notify S bCurrentFolderReadOnly h.1) h.2
    exact ⟨hsound, hb.refreshed S bCurrentFolderReadOnly h.1, hrefreshed⟩

theorem inStep_callback {w : World} {ulUid : ULONG} {lpNotif : List Notification}
    (hw : w.session.InStep) (h : w.session.m_bIdleMode = true →
      Batch.AllTimely S bCurrentFolderReadOnly ⟨w, ulUid, 0⟩ lpNotif) :
    (IMAPIdleAdviseCallback S bCurrentFolderReadOnly ulUid lpNotif w).session.InStep := by
  unfold IMAPIdleAdviseCallback
  split_ifs with hidle
  · have hstart : (⟨w, ulUid, 0⟩ : Batch).Sound := ⟨hw.follows, fun _ => hw.length_eq⟩
    obtain ⟨hsound, -⟩ := hstart.foldl_notify S bCurrentFolderReadOnly (h hidle)
    simp only
    split_ifs with hrecent
    · -- EXISTS announces what has been added
      change ((Session.HrResponse _ _).HrResponse (.EXISTS (Session.lstFolderMailEIDs _).length)).InStep
      rw [Session.HrResponse_EXISTS]
      exact Session.Follows.announceAll ⟨hsound.follows.legal, hsound.follows.short,
        hsound.follows.told_uids⟩
    · exact hsound.follows.inStep (hsound.counted (not_not.mp hrecent))
  · exact hw

end Notifications

/-! ## SELECT -/

/-- The contents table is in the order of the UIDs. -/
theorem Folder.pairwise_readUids (folder : Folder) : (readUids folder.contentsTable).Pairwise (· ≤ ·) := by
  have : Std.Total fun a b : Row => a.PR_EC_IMAP_ID.getD 0 ≤ b.PR_EC_IMAP_ID.getD 0 :=
    ⟨fun _ _ => UInt32.le_total _ _⟩
  have : IsTrans Row fun a b => a.PR_EC_IMAP_ID.getD 0 ≤ b.PR_EC_IMAP_ID.getD 0 :=
    ⟨fun _ _ _ => UInt32.le_trans⟩
  have htable : folder.contentsTable.Pairwise fun a b =>
      a.PR_EC_IMAP_ID.getD 0 ≤ b.PR_EC_IMAP_ID.getD 0 :=
    List.pairwise_insertionSort _ _
  refine List.Pairwise.filterMap _ (fun a b hab u hu v hv => ?_) htable
  rwa [Row.imapId_of_uid? hu, Row.imapId_of_uid? hv] at hab

section Select

variable (S : UidSort) (bResetRecent bShowUID : Bool) {w : World}

theorem session_select : (HrRefreshFolderMails S true bResetRecent bShowUID none w).1.session =
      let scan := (w.rowsRead none).foldl
        (Scan.row (w.folder.PR_EC_IMAP_MAX_ID.getD 0) bShowUID)
        (Scan.start { w.session with lstFolderMailEIDs := [] })
      let s := (expungeMissing scan.mapUIDs scan.session [] 0 scan.session.lstFolderMailEIDs).1
      let s := s.announceAll
      { s with lstFolderMailEIDs := S.sort s.lstFolderMailEIDs } := by
  simp only
  rw [← Session.HrResponse_EXISTS]
  unfold HrRefreshFolderMails
  simp only [Bool.or_true]
  rfl

/-- A client that selects the folder is in step with the list that is read for it. -/
theorem inStep_select (hclient : w.session.client = ⟨[], false⟩) :
    (HrRefreshFolderMails S true bResetRecent bShowUID none w).1.session.InStep := by
  let s₀ : Session := { w.session with lstFolderMailEIDs := [] }
  have hs₀ : s₀.Follows := by
    refine Session.Follows.of_client_uids ?_ ?_ ?_ <;> simp [s₀, hclient, uids]
  have hsound : (Scan.start s₀).Sound (w.rowsRead none) := by
    refine ⟨hs₀, fun v i hi => ?_, fun v _ _ => ?_, fun i mail _ hget => ?_⟩
    · cases hi
    · exact List.not_mem_nil
    · cases hget
  have hscanned := Scan.foldl_row_spec (w.folder.PR_EC_IMAP_MAX_ID.getD 0) bShowUID
    (w.nodup_rowsRead none) hsound
  have hpurged := purged_expungeMissing hs₀ (fun mail hmail => by simp [s₀] at hmail) hscanned
  rw [session_select]
  simp only
  set scan := (w.rowsRead none).foldl (Scan.row (w.folder.PR_EC_IMAP_MAX_ID.getD 0) bShowUID)
    (Scan.start s₀)
  set s₂ := (expungeMissing scan.mapUIDs scan.session [] 0 scan.session.lstFolderMailEIDs).1
  have huids : uids s₂.lstFolderMailEIDs = readUids (w.rowsRead none) ++ [] := by
    rw [hpurged.uids_eq, List.append_nil]
    simp [keptUids, addedUids, uids, s₀]
  have hsort := S.uids_sort_take huids w.folder.pairwise_readUids (by simp)
  have hlength : (S.sort s₂.lstFolderMailEIDs).length = (readUids (w.rowsRead none)).length := by
    rw [(S.sort_perm _).length_eq, ← List.length_map, ← uids, huids, List.append_nil]
  refine ⟨hpurged.follows.legal, ?_⟩
  change s₂.told.map ClientMail.ulUid = uids (S.sort s₂.lstFolderMailEIDs)
  rw [hpurged.follows.told_uids, huids, List.append_nil]
  rw [← hlength, List.take_length] at hsort
  exact hsort.symm

end Select

/-! ## Runs -/

/-- A message comes into the folder, with a UID that no other message has. -/
def Folder.add (folder : Folder) (row : Row) : Folder :=
  if h : ((row :: folder.rows).filterMap Row.PR_EC_IMAP_ID).Nodup then
    { folder with rows := row :: folder.rows, uids_nodup := h }
  else folder

/-- The messages with an instance key leave the folder. -/
def Folder.delete (folder : Folder) (key : BinaryArray) : Folder where
  rows := folder.rows.filter (·.PR_INSTANCE_KEY ≠ some key)
  PR_EC_IMAP_MAX_ID := folder.PR_EC_IMAP_MAX_ID
  uids_nodup := (List.filter_sublist.filterMap _).nodup folder.uids_nodup

/-- A row with the columns that make the flags taken from another. -/
def Row.withFlags (row flags : Row) : Row :=
  { row with
    PR_MESSAGE_FLAGS := flags.PR_MESSAGE_FLAGS
    PR_FLAG_STATUS := flags.PR_FLAG_STATUS
    PR_MSG_STATUS := flags.PR_MSG_STATUS
    PR_LAST_VERB_EXECUTED := flags.PR_LAST_VERB_EXECUTED }

/-- The flags of the messages with an instance key change. -/
def Folder.change (folder : Folder) (key : BinaryArray) (flags : Row) : Folder where
  rows := folder.rows.map fun row =>
    if row.PR_INSTANCE_KEY = some key then row.withFlags flags else row
  PR_EC_IMAP_MAX_ID := folder.PR_EC_IMAP_MAX_ID
  uids_nodup := by
    have hsame : Row.PR_EC_IMAP_ID ∘ (fun row : Row =>
        if row.PR_INSTANCE_KEY = some key then row.withFlags flags else row) =
        Row.PR_EC_IMAP_ID := by
      funext row
      simp only [Function.comp]
      split_ifs <;> rfl
    rw [List.filterMap_map, hsame]
    exact folder.uids_nodup

/-- What happens to the folder and its session. -/
inductive Event
  | added (row : Row)
  | deleted (key : BinaryArray)
  | changed (key : BinaryArray) (flags : Row)
  /-- The client begins or ends IDLE. -/
  | idle (bIdleMode : Bool)
  | refresh (bResetRecent bShowUID : Bool) (fault : Option ℕ)
  | notified (bCurrentFolderReadOnly : Bool) (ulUid : ULONG) (lpNotif : List Notification)

namespace World

variable (S : UidSort)

def step (w : World) : Event → World
  | .added row => { w with folder := w.folder.add row }
  | .deleted key => { w with folder := w.folder.delete key }
  | .changed key flags => { w with folder := w.folder.change key flags }
  | .idle bIdleMode => { w with session := { w.session with m_bIdleMode := bIdleMode } }
  | .refresh bResetRecent bShowUID fault =>
    (HrRefreshFolderMails S false bResetRecent bShowUID fault w).1
  | .notified bCurrentFolderReadOnly ulUid lpNotif =>
    IMAPIdleAdviseCallback S bCurrentFolderReadOnly ulUid lpNotif w

/-- When a call keeps the client in step. -/
def Meets (w : World) : Event → Prop
  | .refresh _ _ fault => w.Refreshable fault
  | .notified bCurrentFolderReadOnly ulUid lpNotif =>
    w.session.m_bIdleMode = true →
      Batch.AllTimely S bCurrentFolderReadOnly ⟨w, ulUid, 0⟩ lpNotif
  | _ => True

/-- What a call leaves behind: the client's list and the server's are the same, no response has named a
number beyond the client's, and every refresh that succeeds has announced the current flags. -/
def KeepsView (w : World) (event : Event) : Prop :=
  (w.step S event).session.InStep ∧
  match event with
  | .refresh _ _ none => (w.step S event).FlagsCurrent
  | .notified bCurrentFolderReadOnly ulUid lpNotif =>
    w.session.m_bIdleMode = true →
      Batch.AllRefreshed S bCurrentFolderReadOnly ⟨w, ulUid, 0⟩ lpNotif
  | _ => True

/-- A property of the events of a run, each in the world it finds. -/
def Throughout (P : World → Event → Prop) (w : World) : List Event → Prop
  | [] => True
  | event :: events => P w event ∧ Throughout P (w.step S event) events

variable {S} {w : World}

theorem InStep.keepsView {event : Event} (hw : w.session.InStep) (h : w.Meets S event) : w.KeepsView S event := by
  cases event with
  | added row | deleted key | changed key flags => exact ⟨hw, trivial⟩
  | idle bIdleMode => exact ⟨⟨hw.legal, hw.uids_eq⟩, trivial⟩
  | refresh bResetRecent bShowUID fault =>
    cases fault with
    | none =>
      exact ⟨inStep_refresh S bResetRecent bShowUID h hw,
        (refresh_spec S bResetRecent bShowUID h hw.follows).2.1⟩
    | some rows =>
      obtain ⟨hfollows, hclient, hmails⟩ :=
        follows_refresh_some S bResetRecent bShowUID h hw.follows
      exact ⟨hfollows.inStep (hclient.trans (hw.length_eq.trans hmails.symm)), trivial⟩
  | notified bCurrentFolderReadOnly ulUid lpNotif =>
    refine ⟨inStep_callback S bCurrentFolderReadOnly hw h, fun hidle => ?_⟩
    have hstart : (⟨w, ulUid, 0⟩ : Batch).Sound := ⟨hw.follows, fun _ => hw.length_eq⟩
    exact (hstart.foldl_notify S bCurrentFolderReadOnly (h hidle)).2

/-- In a run whose calls all meet their conditions, from a list that is in step, the client's view of
the folder stays right. -/
theorem keepsView_of_meets {events : List Event} (hw : w.session.InStep)
    (h : w.Throughout S (Meets S) events) : w.Throughout S (KeepsView S) events := by
  induction events generalizing w with
  | nil => trivial
  | cons event events ih =>
    have hevent := InStep.keepsView hw h.1
    exact ⟨hevent, ih hevent.1 h.2⟩

end World

/-! ## A mail that comes and goes -/

/-- A sort by insertion. -/
def uidSort : UidSort where
  sort mails := mails.insertionSort fun a b => a.ulUid ≤ b.ulUid
  sort_perm mails := List.perm_insertionSort _ mails
  sort_ordered mails := by
    have : Std.Total fun a b : SMail => a.ulUid ≤ b.ulUid := ⟨fun _ _ => UInt32.le_total _ _⟩
    have : IsTrans SMail fun a b => a.ulUid ≤ b.ulUid := ⟨fun _ _ _ => UInt32.le_trans⟩
    exact List.pairwise_insertionSort _ _

/-- A message without flags. -/
def plainRow (key : BinaryArray) (ulUid : ULONG) : Row :=
  ⟨some key, some key, some ulUid, none, none, none, none⟩

/-- A folder with one message, selected, with the client in IDLE. -/
def oneMessage : World where
  folder := ⟨[plainRow [1] 1], none, by decide⟩
  session := ⟨[⟨[1], 1, false, ""⟩], 1, true, ⟨[⟨1, ""⟩], false⟩⟩

/-- The condition holds for a refresh that finds a second mail. -/
theorem refreshable_added : (oneMessage.step uidSort (.added (plainRow [2] 2))).Refreshable none := by
  have hrows : (oneMessage.step uidSort (.added (plainRow [2] 2))).rowsRead none =
      [plainRow [1] 1, plainRow [2] 2] := by decide +kernel
  refine ⟨fun i mail hi hget => ?_, fun _ mail hmail => ?_, fun _ => ?_, fun _ i told mail htold hget
    e he huid row hrow hrowUid => ?_, fun h => absurd rfl h⟩
  · obtain _ | i := i
    · exact absurd hi (by decide)
    · cases hget
  · cases hmail
  · rw [hrows]
    have htold : (oneMessage.step uidSort (.added (plainRow [2] 2))).session.toldUids
        [plainRow [1] 1, plainRow [2] 2] = [1, 2] := by decide +kernel
    have huntold : (oneMessage.step uidSort (.added (plainRow [2] 2))).session.untoldUids
        [plainRow [1] 1, plainRow [2] 2] = [] := by decide +kernel
    rw [htold, huntold]
    refine ⟨List.pairwise_pair.mpr (by decide), fun a _ b hb => ?_⟩
    cases hb
  · -- the one entry of the list belongs to the first row
    obtain _ | i := i
    · obtain rfl : ⟨1, ""⟩ = told := Option.some.inj htold
      obtain rfl : ⟨[1], 1, false, ""⟩ = mail := Option.some.inj hget
      obtain rfl := List.mem_singleton.mp he
      rw [hrows] at hrow
      obtain rfl | hrow := List.mem_cons.mp hrow
      · decide +kernel
      · obtain rfl := List.mem_singleton.mp hrow
        exact absurd hrowUid (by decide +kernel)
    · cases hget

theorem keepsView_of_meets_added : oneMessage.Throughout uidSort (World.KeepsView uidSort)
    [.added (plainRow [2] 2), .refresh true false none] :=
  World.keepsView_of_meets ⟨rfl, rfl⟩ ⟨trivial, refreshable_added, trivial⟩

/-- When the second mail comes and goes in one batch, the client, which knows of one mail, is told
`2 EXPUNGE`. -/
theorem not_keepsView_batch : ¬∀ (S : UidSort) (w : World) (events : List Event),
    w.session.InStep → w.Throughout S (World.KeepsView S) events := by
  intro h
  have hview := h uidSort oneMessage
    [.notified false 0 [.TABLE_ROW_ADDED [2] (plainRow [2] 2), .TABLE_ROW_DELETED (some [2])]]
    ⟨rfl, rfl⟩
  exact absurd hview.1.1.legal (by decide +kernel)

end Zcp.Gateway
