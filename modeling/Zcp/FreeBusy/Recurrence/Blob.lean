import Mathlib.Data.List.Destutter
import Mathlib.Data.List.Sort
import Zcp.FreeBusy.Recurrence.Dates
import Zcp.M4lcommon.RecurrenceState.RoundTrip

/-!
# The blob of a recurrence

Exceptions add dates to the lists of a recurrence. `HrGetRecurrenceState` sorts the lists, sets the counts and writes
the blob.
-/

namespace Zcp.FreeBusy.Recurrence

open Zcp.Lib Zcp.Common Zcp.M4lcommon RecurrenceState

/-! ## Exceptions -/

/-- A relative time. -/
def toRTime (t : ℤ) : UInt := BitVec.ofInt 32 (unixTimeToRTime t)

/-- An exception without a change. -/
def newException (rStart rEnd rOrig : UInt) : Exception :=
  ⟨rStart, rEnd, rOrig, 0, [], 0, 0, 0, [], 0, 0, 0, 0⟩

/-- `addModifiedException`, with the id of the exception. -/
def addModifiedException (r : Recurrence) (tStart tEnd tOriginalStart : ℤ) : Recurrence × ℕ :=
  let s := r.m_sRecState
  ({ r with m_sRecState :=
    { s with
      lstModifiedInstanceDates := s.lstModifiedInstanceDates ++ [toRTime (startOfDay tStart)]
      lstDeletedInstanceDates := s.lstDeletedInstanceDates ++ [toRTime (startOfDay tOriginalStart)]
      lstExceptions := s.lstExceptions ++ [newException (toRTime tStart) (toRTime tEnd) (toRTime tOriginalStart)]
      lstExtendedExceptions := s.lstExtendedExceptions ++
        [⟨0, [], [], toRTime tStart, toRTime tEnd, toRTime tOriginalStart, [], [], []⟩] } },
    s.lstModifiedInstanceDates.length)

/-! ## Writing -/

/-- `ulFirstDateTime`; `none` is a division by zero. -/
def firstDateTime (r : Recurrence) : Option UInt :=
  let s := r.m_sRecState
  if s.ulRecurFrequency = RF_DAILY then
    if s.ulPatternType = 1 then some (6 * 24 * 60)
    else if s.ulPeriod = 0 then none
    else some (s.ulStartDate % s.ulPeriod)
  else if s.ulRecurFrequency = RF_WEEKLY then
    let tStart := r.weeklySkip r.getStartDate
    if s.ulPeriod * 7 * 24 * 60 = 0 then none
    else some (toRTime tStart % (s.ulPeriod * 7 * 24 * 60) -
      BitVec.ofInt 32 (((gmtimeSafe tStart).tm_wday - 1) * 24 * 60))
  else
    let tm := gmtimeSafe r.getStartDate
    if s.ulPeriod = 0 then none
    else
      let rStart : UInt := (12 % s.ulPeriod * (BitVec.ofInt 32 (tm.tm_year + 1900 - 1601) % s.ulPeriod) % s.ulPeriod +
        BitVec.ofInt 32 tm.tm_mon) % s.ulPeriod
      some ((List.range rStart.toInt.toNat).foldl (fun (sum : UInt) (i : ℕ) =>
        sum + BitVec.ofInt 32 ((monthInSeconds (1601 + i / 12) (i % 12 + 1)).tdiv 60)) 0)

/-- `sort` and `unique`, which moves the different values to the front and leaves the others behind them as they are. -/
def sortUnique (l : List UInt) : List UInt :=
  let sorted := l.insertionSort (· ≤ ·)
  let different := sorted.destutter (· ≠ ·)
  different ++ sorted.drop different.length

/-- The values of the frequency, the pattern type and the end type that are checked. -/
def Valid (s : RecurrenceState) : Prop :=
  (s.ulRecurFrequency = 0x200A ∨ s.ulRecurFrequency = 0x200B ∨ s.ulRecurFrequency = 0x200C ∨
    s.ulRecurFrequency = 0x200D) ∧
  (s.ulPatternType = 0 ∨ s.ulPatternType = 1 ∨ s.ulPatternType = 2 ∨ s.ulPatternType = 3 ∨ s.ulPatternType = 4 ∨
    s.ulPatternType = 0xA ∨ s.ulPatternType = 0xB ∨ s.ulPatternType = 0xC) ∧
  (s.ulEndType = 0x2021 ∨ s.ulEndType = 0x2022 ∨ s.ulEndType = 0x2023)

instance : DecidablePred Valid := fun _ => inferInstanceAs (Decidable (_ ∧ _ ∧ _))

/-- The end date, the sorted lists and the counts that are written. -/
def withCounts (r : Recurrence) (ulFirstDateTime : UInt) : Recurrence :=
  let s := r.m_sRecState
  let modified := sortUnique s.lstModifiedInstanceDates
  let deleted := sortUnique s.lstDeletedInstanceDates
  { r with m_sRecState :=
    { s with
      ulFirstDateTime := ulFirstDateTime
      ulEndDate := if s.ulEndType = ET_NEVER then 0x5AE980DF else s.ulEndDate
      lstModifiedInstanceDates := modified
      ulModifiedInstanceCount := BitVec.ofNat 32 modified.length
      lstDeletedInstanceDates := deleted
      ulDeletedInstanceCount := BitVec.ofNat 32 deleted.length
      ulExceptionCount := BitVec.ofNat 32 modified.length } }

/-- `HrGetRecurrenceState`, with the recurrence that it leaves. -/
def hrGetRecurrenceState (conv : Converter) (r : Recurrence) : Option (RecurrenceState.HRESULT × Recurrence × List UInt8) :=
  if ¬ Valid r.m_sRecState then some (.MAPI_E_CORRUPT_DATA, r, [])
  else do
    let ulFirstDateTime ← r.firstDateTime
    let r' := r.withCounts ulFirstDateTime
    let (hr, blob) ← r'.m_sRecState.getBlob conv
    some (hr, r', blob)

/-! ## Sequences of calls -/

/-- A call that adds an exception. -/
inductive ExceptionCall where
  | addDeletedException (tDelete : ℤ)
  | addModifiedException (tStart tEnd tOriginalStart : ℤ)

/-- The recurrence behind a call. -/
def call (r : Recurrence) : ExceptionCall → Recurrence
  | .addDeletedException tDelete => r.addDeletedException tDelete
  | .addModifiedException tStart tEnd tOriginalStart => (r.addModifiedException tStart tEnd tOriginalStart).1

/-- The recurrence behind some calls. -/
def run (r : Recurrence) (calls : List ExceptionCall) : Recurrence := calls.foldl call r

/-- The date that a call deletes. -/
def ExceptionCall.deletedDate : ExceptionCall → UInt
  | addDeletedException tDelete => toRTime (startOfDay tDelete)
  | addModifiedException _ _ tOriginalStart => toRTime (startOfDay tOriginalStart)

/-- The date that a call modifies. -/
def ExceptionCall.modifiedDate : ExceptionCall → Option UInt
  | addDeletedException _ => none
  | addModifiedException tStart _ _ => some (toRTime (startOfDay tStart))

/-- Nothing has been added. -/
structure NoExceptions (r : Recurrence) : Prop where
  deleted : r.m_sRecState.lstDeletedInstanceDates = []
  modified : r.m_sRecState.lstModifiedInstanceDates = []
  exceptions : r.m_sRecState.lstExceptions = []
  extended : r.m_sRecState.lstExtendedExceptions = []

/-- What some calls have added. -/
structure Added (r : Recurrence) (calls : List ExceptionCall) (r' : Recurrence) : Prop where
  deleted : r'.m_sRecState.lstDeletedInstanceDates = calls.map ExceptionCall.deletedDate
  modified : r'.m_sRecState.lstModifiedInstanceDates = calls.filterMap ExceptionCall.modifiedDate
  exceptions_length : r'.m_sRecState.lstExceptions.length = (calls.filterMap ExceptionCall.modifiedDate).length
  extended_length : r'.m_sRecState.lstExtendedExceptions.length = (calls.filterMap ExceptionCall.modifiedDate).length
  exceptions : ∀ e ∈ r'.m_sRecState.lstExceptions, e.ulOverrideFlags = 0
  extended : ∀ e ∈ r'.m_sRecState.lstExtendedExceptions, e.strReserved = [] ∧ e.strReservedBlock1 = []
  frame : { r'.m_sRecState with
      lstDeletedInstanceDates := r.m_sRecState.lstDeletedInstanceDates
      lstModifiedInstanceDates := r.m_sRecState.lstModifiedInstanceDates
      lstExceptions := r.m_sRecState.lstExceptions
      lstExtendedExceptions := r.m_sRecState.lstExtendedExceptions } = r.m_sRecState

section

variable {r r' : Recurrence} {calls : List ExceptionCall}

theorem NoExceptions.added (h : NoExceptions r) : Added r [] r where
  deleted := h.deleted
  modified := h.modified
  exceptions_length := congrArg List.length h.exceptions
  extended_length := congrArg List.length h.extended
  exceptions := by simp [h.exceptions]
  extended := by simp [h.extended]
  frame := rfl

/-- A call adds one date to delete, and a modification an exception as well. -/
theorem Added.call (h : Added r calls r') (c : ExceptionCall) : Added r (calls ++ [c]) (r'.call c) := by
  obtain ⟨hdel, hmod, hlen, hextlen, hexc, hext, hframe⟩ := h
  cases c with
  | addDeletedException tDelete =>
    have hsame : (calls ++ [ExceptionCall.addDeletedException tDelete]).filterMap ExceptionCall.modifiedDate =
        calls.filterMap ExceptionCall.modifiedDate := by
      rw [List.filterMap_append]
      exact List.append_nil _
    have hdelete : (r'.call (.addDeletedException tDelete)).m_sRecState.lstDeletedInstanceDates =
        (calls ++ [ExceptionCall.addDeletedException tDelete]).map ExceptionCall.deletedDate := by
      rw [List.map_append, ← hdel]
      rfl
    exact ⟨hdelete, hmod.trans hsame.symm, hlen.trans (congrArg _ hsame.symm), hextlen.trans (congrArg _ hsame.symm),
      hexc, hext, hframe⟩
  | addModifiedException tStart tEnd tOriginalStart =>
    have hone : (calls ++ [ExceptionCall.addModifiedException tStart tEnd tOriginalStart]).filterMap ExceptionCall.modifiedDate =
        calls.filterMap ExceptionCall.modifiedDate ++ [toRTime (startOfDay tStart)] := List.filterMap_append
    constructor
    · rw [List.map_append, ← hdel]
      rfl
    · rw [hone, ← hmod]
      rfl
    · rw [hone, List.length_append, ← hlen]
      exact List.length_append
    · rw [hone, List.length_append, ← hextlen]
      exact List.length_append
    · intro e he
      rcases List.mem_append.mp he with he | he
      · exact hexc e he
      · rw [List.mem_singleton.mp he]
        rfl
    · intro e he
      rcases List.mem_append.mp he with he | he
      · exact hext e he
      · rw [List.mem_singleton.mp he]
        exact ⟨rfl, rfl⟩
    · exact hframe

theorem NoExceptions.run (h : NoExceptions r) (calls : List ExceptionCall) : Added r calls (r.run calls) := by
  induction calls using List.reverseRecOn with
  | nil => exact h.added
  | append_singleton calls c ih =>
    rw [Recurrence.run, List.foldl_append]
    exact ih.call c

end

/-! ## Sorted lists -/

section

variable {l : List UInt}

theorem length_sortUnique (l : List UInt) : (sortUnique l).length = l.length := by
  have hle := (List.destutter_sublist (· ≠ ·) (l.insertionSort (· ≤ ·))).length_le
  unfold sortUnique
  rw [List.length_append, List.length_drop, List.length_insertionSort] at *
  omega

theorem sorted_insertionSort (l : List UInt) : (l.insertionSort (· ≤ ·)).Pairwise (· ≤ ·) :=
  List.pairwise_insertionSort _ l

theorem sortUnique_eq (l : List UInt) : sortUnique l = (l.insertionSort (· ≤ ·)).dedup ++
      (l.insertionSort (· ≤ ·)).drop (l.insertionSort (· ≤ ·)).dedup.length := by
  rw [← (sorted_insertionSort l).destutter_eq_dedup]
  rfl

/-- The dates are the ones that were there. -/
theorem mem_sortUnique {d : UInt} : d ∈ sortUnique l ↔ d ∈ l := by
  rw [sortUnique_eq, List.mem_append, List.mem_dedup]
  exact (or_iff_left_of_imp List.mem_of_mem_drop).trans (List.mem_insertionSort _)

/-- Without duplicates the list is only sorted. -/
theorem sortUnique_of_nodup (h : l.Nodup) : sortUnique l = l.insertionSort (· ≤ ·) := by
  have hnodup : (l.insertionSort (· ≤ ·)).Nodup := (List.perm_insertionSort _ l).nodup_iff.mpr h
  rw [sortUnique_eq, hnodup.dedup, List.drop_length, List.append_nil]

/-- The result is strictly increasing if and only if there are no duplicates. -/
theorem sortUnique_increasing_iff : (sortUnique l).Pairwise (· < ·) ↔ l.Nodup := by
  constructor
  · intro hincreasing
    have hnodup : (sortUnique l).Nodup := by
      apply hincreasing.imp
      rintro a b hlt rfl
      exact BitVec.lt_irrefl a hlt
    have hsubset : sortUnique l ⊆ l := fun d hd => mem_sortUnique.mp hd
    have hperm := (hnodup.subperm hsubset).perm_of_length_le (length_sortUnique l).ge
    exact hperm.nodup_iff.mp hnodup
  · intro hnodup
    have hne : (l.insertionSort (· ≤ ·)).Nodup := (List.perm_insertionSort _ l).nodup_iff.mpr hnodup
    rw [sortUnique_of_nodup hnodup]
    apply ((sorted_insertionSort l).and hne).imp
    rintro a b ⟨hle, hab⟩
    have htoNat : a.toNat ≠ b.toNat := fun heq => hab (BitVec.eq_of_toNat_eq heq)
    have hleNat : a.toNat ≤ b.toNat := hle
    show a.toNat < b.toNat
    omega

end

/-! ## What is written -/

section

variable {conv : Converter} {s : RecurrenceState}

theorem has_of_unchanged {e : Exception} (he : e.ulOverrideFlags = 0) (flag : UInt) : e.has flag = false := by
  have hzero : (0 : UInt) &&& flag = 0 := BitVec.zero_and
  rw [Exception.has, he, hzero]
  rfl

/-- Extended exceptions of exceptions without a change have no strings to convert. -/
theorem writeExtendeds_of_unchanged (conv : Converter) (ulWriterVersion2 : UInt) {js : List Exception}
    (hjs : ∀ e ∈ js, e.ulOverrideFlags = 0) (is : List ExtendedException) :
    ∃ bytes, writeExtendeds conv ulWriterVersion2 js is = some bytes ∧
      bytes.length = ((js.zip is).map fun ji => extendedSize ulWriterVersion2 ji.1 ji.2).sum := by
  induction js generalizing is with
  | nil => exact ⟨[], rfl, rfl⟩
  | cons j js ih =>
    cases is with
    | nil => exact ⟨[], rfl, rfl⟩
    | cons i is =>
      obtain ⟨hj, hrest⟩ := List.forall_mem_cons.mp hjs
      obtain ⟨others, hothers, hlength⟩ := ih hrest is
      have hsubject := has_of_unchanged hj ARO_SUBJECT
      have hlocation := has_of_unchanged hj ARO_LOCATION
      have hfirst : writeExtended conv ulWriterVersion2 j i =
          some (writeIf (0x00003009 ≤ ulWriterVersion2)
              (WRITELONG (size i.strReserved + 4) ++ WRITELONG i.ulChangeHighlightValue ++ i.strReserved) ++
            RecurrenceState.writeBlock i.strReservedBlock1) := by
        simp [writeExtended, writeWideIf, writeIf, hsubject, hlocation]
      have hsize : (writeIf (0x00003009 ≤ ulWriterVersion2)
            (WRITELONG (size i.strReserved + 4) ++ WRITELONG i.ulChangeHighlightValue ++ i.strReserved) ++
          RecurrenceState.writeBlock i.strReservedBlock1).length = extendedSize ulWriterVersion2 j i := by
        rw [List.length_append, length_writeIf, length_writeBlock, List.length_append, List.length_append,
          length_WRITELONG, length_WRITELONG]
        simp [extendedSize, HasText, HasHighlight, hsubject, hlocation, sizeIf]
      refine ⟨_, by rw [writeExtendeds, hfirst, hothers]; rfl, ?_⟩
      rw [List.length_append, hsize, hlength, List.zip_cons_cons, List.map_cons, List.sum_cons]

theorem strData_of_unchanged (conv : Converter) (hs : ∀ e ∈ s.lstExceptions, e.ulOverrideFlags = 0) :
    ∃ data, s.strData conv = some data ∧ data.length = blobSize s := by
  obtain ⟨extended, hextended, hlength⟩ :=
    writeExtendeds_of_unchanged conv s.ulWriterVersion2 hs s.lstExtendedExceptions
  refine ⟨_, by rw [strData, hextended]; rfl, ?_⟩
  simp only [List.length_append, length_writeHeader, List.length_flatMap, length_writeException, length_writeBlock,
    hlength, blobSize]

/-- Sorting the dates does not change the size. -/
theorem blobSize_withCounts (r : Recurrence) (ulFirstDateTime : UInt) :
    blobSize (r.withCounts ulFirstDateTime).m_sRecState = blobSize r.m_sRecState := by
  unfold blobSize withCounts
  dsimp only
  rw [length_sortUnique, length_sortUnique]

/-- The period of a recurrence that can be divided by it. -/
def PeriodFits (s : RecurrenceState) : Prop :=
  if s.ulRecurFrequency = RF_DAILY then s.ulPatternType = 1 ∨ s.ulPeriod ≠ 0
  else if s.ulRecurFrequency = RF_WEEKLY then s.ulPeriod * 7 * 24 * 60 ≠ 0
  else s.ulPeriod ≠ 0

theorem firstDateTime_eq_none_iff (r : Recurrence) : r.firstDateTime = none ↔ ¬ PeriodFits r.m_sRecState := by
  unfold firstDateTime PeriodFits
  dsimp only
  split_ifs <;> simp_all

/-- The dates of a state are sorted and without duplicates, they are the given ones, and the counts are those of the
entries that are written. The number of exceptions is written in 16 bits. -/
structure Canonical (s : RecurrenceState) (deleted modified : List UInt) : Prop where
  deleted_increasing : s.lstDeletedInstanceDates.Pairwise (· < ·)
  mem_deleted : ∀ d, d ∈ s.lstDeletedInstanceDates ↔ d ∈ deleted
  modified_increasing : s.lstModifiedInstanceDates.Pairwise (· < ·)
  mem_modified : ∀ d, d ∈ s.lstModifiedInstanceDates ↔ d ∈ modified
  deletedCount : s.ulDeletedInstanceCount.toNat = s.lstDeletedInstanceDates.length
  modifiedCount : s.ulModifiedInstanceCount.toNat = s.lstModifiedInstanceDates.length
  exceptionCount : s.ulExceptionCount.toNat % 2 ^ 16 = s.lstExceptions.length

/-- The blob is that of a canonical state. -/
def WritesCanonical (conv : Converter) (r : Recurrence) (deleted modified : List UInt) : Prop :=
  ∃ r' blob, r.hrGetRecurrenceState conv = some (.hrSuccess, r', blob) ∧ r'.m_sRecState.strData conv = some blob ∧
    Canonical r'.m_sRecState deleted modified

/-- No date is deleted or modified twice, the exceptions are less than 2 ^ 16, and the period and the size of the blob
fit. -/
structure BlobFits (r : Recurrence) (calls : List ExceptionCall) : Prop where
  deleted : (calls.map ExceptionCall.deletedDate).Nodup
  modified : (calls.filterMap ExceptionCall.modifiedDate).Nodup
  modified_length : (calls.filterMap ExceptionCall.modifiedDate).length < 2 ^ 16
  period : PeriodFits r.m_sRecState
  size : blobSize (r.run calls).m_sRecState < 2 ^ 32

end

section

variable {r r' : Recurrence} {calls : List ExceptionCall}

theorem Added.valid (h : Added r calls r') (hvalid : Valid r.m_sRecState) : Valid r'.m_sRecState := by
  rw [← h.frame] at hvalid
  exact hvalid

theorem Added.periodFits_iff (h : Added r calls r') : PeriodFits r'.m_sRecState ↔ PeriodFits r.m_sRecState := by
  rw [← h.frame]
  exact Iff.rfl

/-- Every date takes four bytes. -/
theorem four_mul_length_le_blobSize (s : RecurrenceState) :
    4 * (s.lstDeletedInstanceDates.length + s.lstModifiedInstanceDates.length) ≤ blobSize s := by
  unfold blobSize
  omega

/-- The call fails without a first date, and with a size of more than 32 bits. -/
theorem Added.hrGetRecurrenceState (h : Added r calls r') (hvalid : Valid r.m_sRecState) (conv : Converter) :
    ∀ r'' blob, r'.hrGetRecurrenceState conv = some (.hrSuccess, r'', blob) ↔
      blobSize r'.m_sRecState < 2 ^ 32 ∧ ∃ first, r'.firstDateTime = some first ∧ r'' = r'.withCounts first ∧
        (r'.withCounts first).m_sRecState.strData conv = some blob := by
  intro r'' blob
  have hlengths : r'.m_sRecState.lstExceptions.length = r'.m_sRecState.lstExtendedExceptions.length :=
    h.exceptions_length.trans h.extended_length.symm
  rw [Recurrence.hrGetRecurrenceState, if_neg (not_not.mpr (h.valid hvalid))]
  cases hfirst : r'.firstDateTime with
  | none =>
    constructor
    · intro hsome
      cases hsome
    · rintro ⟨-, first, hsome, -⟩
      cases hsome
  | some first =>
    obtain ⟨data, hdata, hlength⟩ := strData_of_unchanged (s := (r'.withCounts first).m_sRecState) conv h.exceptions
    have hsame : (r'.withCounts first).m_sRecState.lstExceptions.length =
        (r'.withCounts first).m_sRecState.lstExtendedExceptions.length := hlengths
    have hget := getBlob_of_strData hsame hdata hlength
    rw [blobSize_withCounts] at hget
    rw [Option.bind_eq_bind, Option.bind_some]
    dsimp only
    rw [hget]
    constructor
    · intro hsome
      by_cases hsize : blobSize r'.m_sRecState < 2 ^ 32
      · rw [if_pos hsize] at hsome
        cases hsome
        exact ⟨hsize, first, rfl, rfl, hdata⟩
      · rw [if_neg hsize] at hsome
        cases hsome
    · rintro ⟨hsize, first', hfirst', rfl, hdata'⟩
      cases hfirst'
      rw [if_pos hsize]
      rw [hdata] at hdata'
      cases hdata'
      rfl

/-- The blob is written just when there is no division by a period of 0 and the size fits. -/
theorem Added.exists_written_iff (h : Added r calls r') (hvalid : Valid r.m_sRecState) (conv : Converter) :
    (∃ r'' blob, r'.hrGetRecurrenceState conv = some (.hrSuccess, r'', blob)) ↔
      PeriodFits r.m_sRecState ∧ blobSize r'.m_sRecState < 2 ^ 32 := by
  have hget := h.hrGetRecurrenceState hvalid conv
  have hfits : PeriodFits r.m_sRecState ↔ r'.firstDateTime ≠ none := by
    rw [ne_eq, firstDateTime_eq_none_iff, not_not, h.periodFits_iff]
  rw [hfits]
  constructor
  · rintro ⟨r'', blob, hblob⟩
    obtain ⟨hsize, first, hfirst, -⟩ := (hget r'' blob).mp hblob
    exact ⟨fun hnone => Option.some_ne_none first (hfirst.symm.trans hnone), hsize⟩
  · rintro ⟨hsome, hsize⟩
    obtain ⟨first, hfirst⟩ := Option.ne_none_iff_exists'.mp hsome
    obtain ⟨data, hdata, -⟩ := strData_of_unchanged (s := (r'.withCounts first).m_sRecState) conv h.exceptions
    exact ⟨_, data, (hget _ data).mpr ⟨hsize, first, hfirst, rfl, hdata⟩⟩

/-- The counts are those of the lists if they fit in what is written. -/
theorem Added.canonical_iff (h : Added r calls r') (hsize : blobSize r'.m_sRecState < 2 ^ 32) (first : UInt) :
    Canonical (r'.withCounts first).m_sRecState (calls.map ExceptionCall.deletedDate)
        (calls.filterMap ExceptionCall.modifiedDate) ↔
      (calls.map ExceptionCall.deletedDate).Nodup ∧ (calls.filterMap ExceptionCall.modifiedDate).Nodup ∧
        (calls.filterMap ExceptionCall.modifiedDate).length < 2 ^ 16 := by
  have hbound := four_mul_length_le_blobSize r'.m_sRecState
  have hexceptions : (r'.withCounts first).m_sRecState.ulExceptionCount.toNat =
      (calls.filterMap ExceptionCall.modifiedDate).length := by
    show (BitVec.ofNat 32 (sortUnique r'.m_sRecState.lstModifiedInstanceDates).length).toNat = _
    rw [length_sortUnique, h.modified, BitVec.toNat_ofNat]
    rw [h.modified] at hbound
    exact Nat.mod_eq_of_lt (by omega)
  have hlength : (r'.withCounts first).m_sRecState.lstExceptions.length =
      (calls.filterMap ExceptionCall.modifiedDate).length := h.exceptions_length
  constructor
  · rintro ⟨hdeleted, -, hmodified, -, -, -, hcount⟩
    rw [hexceptions, hlength] at hcount
    have hdel := sortUnique_increasing_iff.mp hdeleted
    have hmod := sortUnique_increasing_iff.mp hmodified
    rw [h.deleted] at hdel
    rw [h.modified] at hmod
    exact ⟨hdel, hmod, by omega⟩
  · rintro ⟨hdeleted, hmodified, hcount⟩
    rw [← h.deleted] at hdeleted
    rw [← h.modified] at hmodified
    constructor
    · exact sortUnique_increasing_iff.mpr hdeleted
    · intro d
      rw [← h.deleted]
      exact mem_sortUnique
    · exact sortUnique_increasing_iff.mpr hmodified
    · intro d
      rw [← h.modified]
      exact mem_sortUnique
    · show (BitVec.ofNat 32 (sortUnique r'.m_sRecState.lstDeletedInstanceDates).length).toNat =
        (sortUnique r'.m_sRecState.lstDeletedInstanceDates).length
      rw [length_sortUnique, BitVec.toNat_ofNat]
      exact Nat.mod_eq_of_lt (by omega)
    · show (BitVec.ofNat 32 (sortUnique r'.m_sRecState.lstModifiedInstanceDates).length).toNat =
        (sortUnique r'.m_sRecState.lstModifiedInstanceDates).length
      rw [length_sortUnique, BitVec.toNat_ofNat]
      exact Nat.mod_eq_of_lt (by omega)
    · rw [hexceptions, hlength]
      exact Nat.mod_eq_of_lt hcount

end

/-- The blob is canonical if and only if no date was touched twice and the blob fits. -/
theorem hrGetRecurrenceState_canonical_iff (conv : Converter) (r : Recurrence) (hfresh : NoExceptions r)
    (hvalid : Valid r.m_sRecState) (calls : List ExceptionCall) :
    WritesCanonical conv (r.run calls) (calls.map ExceptionCall.deletedDate)
        (calls.filterMap ExceptionCall.modifiedDate) ↔ BlobFits r calls := by
  have hadded := hfresh.run calls
  have hget := hadded.hrGetRecurrenceState hvalid conv
  constructor
  · rintro ⟨r'', blob, hblob, -, hcanonical⟩
    obtain ⟨hperiod, hsize⟩ := (hadded.exists_written_iff hvalid conv).mp ⟨r'', blob, hblob⟩
    obtain ⟨-, first, -, rfl, -⟩ := (hget r'' blob).mp hblob
    obtain ⟨hdeleted, hmodified, hcount⟩ := (hadded.canonical_iff hsize first).mp hcanonical
    exact ⟨hdeleted, hmodified, hcount, hperiod, hsize⟩
  · rintro ⟨hdeleted, hmodified, hcount, hperiod, hsize⟩
    obtain ⟨r'', blob, hblob⟩ := (hadded.exists_written_iff hvalid conv).mpr ⟨hperiod, hsize⟩
    obtain ⟨-, first, -, rfl, hdata⟩ := (hget r'' blob).mp hblob
    exact ⟨_, blob, hblob, hdata, (hadded.canonical_iff hsize first).mpr ⟨hdeleted, hmodified, hcount⟩⟩

/-- Every day from the 1st of March 2015 on. -/
def everyDay : Recurrence :=
  (((new 0).setStartDateTime 1425168000).setFrequency .DAILY).setEndType .NEVER

theorem noExceptions_everyDay : NoExceptions everyDay := ⟨rfl, rfl, rfl, rfl⟩

/-- The 5th of March is deleted, the 4th is moved by an hour and the 2nd is deleted. -/
def threeExceptions : List ExceptionCall :=
  [.addDeletedException 1425513600, .addModifiedException 1425430800 1425434400 1425427200,
    .addDeletedException 1425254400]

/-- The dates of different days are written in order, each once. -/
theorem hrGetRecurrenceState_canonical_everyDay :
    WritesCanonical ucs2 (everyDay.run threeExceptions) (threeExceptions.map ExceptionCall.deletedDate)
      (threeExceptions.filterMap ExceptionCall.modifiedDate) :=
  (hrGetRecurrenceState_canonical_iff ucs2 everyDay noExceptions_everyDay (by decide) threeExceptions).mpr
    ⟨by decide +kernel, by decide +kernel, by decide +kernel, .inr (by decide), by decide +kernel⟩

/-- A day that is deleted twice is written twice. -/
theorem not_writesCanonical_everyDay :
    ¬ WritesCanonical ucs2 (everyDay.run [.addDeletedException 1425254400, .addDeletedException 1425254400])
      ([ExceptionCall.addDeletedException 1425254400, .addDeletedException 1425254400].map ExceptionCall.deletedDate)
      ([ExceptionCall.addDeletedException 1425254400, .addDeletedException 1425254400].filterMap
        ExceptionCall.modifiedDate) := by
  rintro ⟨r', blob, hblob, -, hcanonical⟩
  have hadded := noExceptions_everyDay.run [.addDeletedException 1425254400, .addDeletedException 1425254400]
  obtain ⟨-, first, -, rfl, -⟩ := (hadded.hrGetRecurrenceState (by decide) ucs2 r' blob).mp hblob
  have hnodup := sortUnique_increasing_iff.mp hcanonical.deleted_increasing
  rw [hadded.deleted] at hnodup
  exact List.not_nodup_pair _ hnodup

end Zcp.FreeBusy.Recurrence
