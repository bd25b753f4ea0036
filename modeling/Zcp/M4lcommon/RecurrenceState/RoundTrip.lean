import Zcp.M4lcommon.RecurrenceState

/-!
# Reading a recurrence blob back

`ParseBlob` should restore what `GetBlob` wrote. `parseBlob_getBlob_iff` says when it does.
-/

namespace Zcp.M4lcommon.RecurrenceState

open Zcp.Lib

/-! ## What is promised -/

/-- The characters are in the basic multilingual plane. -/
def IsBmp (str : WString) : Prop :=
  ∀ c ∈ str, c.toNat < 0xD800 ∨ 0xE000 ≤ c.toNat ∧ c.toNat < 0x10000

/-- On the basic multilingual plane a character is one unit of UTF-16, and the conversion back gives
the string again. -/
def InverseOnBmp (conv : Converter) : Prop :=
  ∀ str, IsBmp str → ∃ strWide, conv.toUtf16 str = some strWide ∧ strWide.length = str.length ∧
    conv.fromUcs2 (strWide.flatMap fun c => littleEndian 2 c.toNat) = some str

/-- The numbers that are written in 16 bits, the counts and the strings are as they should be. -/
structure WellFormed (rs : RecurrenceState) : Prop where
  deletedCount : rs.ulDeletedInstanceCount.toNat = rs.lstDeletedInstanceDates.length
  modifiedCount : rs.ulModifiedInstanceCount.toNat = rs.lstModifiedInstanceDates.length
  exceptionCount : rs.ulExceptionCount.toNat = rs.lstExceptions.length
  sameLength : rs.lstExceptions.length = rs.lstExtendedExceptions.length
  shortHeader : ∀ x ∈ [rs.ulReaderVersion, rs.ulWriterVersion, rs.ulRecurFrequency,
    rs.ulPatternType, rs.ulCalendarType, rs.ulExceptionCount], x.toNat < 2 ^ 16
  shortFlags : ∀ e ∈ rs.lstExceptions, e.ulOverrideFlags.toNat < 2 ^ 16
  shortStrings : ∀ e ∈ rs.lstExceptions,
    e.strSubject.length < 2 ^ 16 ∧ e.strLocation.length < 2 ^ 16
  shortWide : ∀ e ∈ rs.lstExtendedExceptions,
    e.strWideCharSubject.length < 2 ^ 16 ∧ e.strWideCharLocation.length < 2 ^ 16
  bmp : ∀ e ∈ rs.lstExtendedExceptions, IsBmp e.strWideCharSubject ∧ IsBmp e.strWideCharLocation

/-- The fields of an exception that its flags say are present are restored. -/
structure RestoredException (e e' : Exception) : Prop where
  always : e'.ulStartDateTime = e.ulStartDateTime ∧ e'.ulEndDateTime = e.ulEndDateTime ∧
    e'.ulOriginalStartDate = e.ulOriginalStartDate ∧ e'.ulOverrideFlags = e.ulOverrideFlags
  subject : e.has ARO_SUBJECT → e'.strSubject = e.strSubject
  meetingType : e.has ARO_MEETINGTYPE → e'.ulApptStateFlags = e.ulApptStateFlags
  reminderDelta : e.has ARO_REMINDERDELTA → e'.ulReminderDelta = e.ulReminderDelta
  reminderSet : e.has ARO_REMINDERSET → e'.ulReminderSet = e.ulReminderSet
  location : e.has ARO_LOCATION → e'.strLocation = e.strLocation
  busyStatus : e.has ARO_BUSYSTATUS → e'.ulBusyStatus = e.ulBusyStatus
  attachment : e.has ARO_ATTACHMENT → e'.ulAttachment = e.ulAttachment
  subType : e.has ARO_SUBTYPE → e'.ulSubType = e.ulSubType
  apptColor : e.has ARO_APPTCOLOR → e'.ulAppointmentColor = e.ulAppointmentColor

/-- An exception has a subject or a location of its own. -/
abbrev HasText (j : Exception) : Prop := j.has ARO_SUBJECT ∨ j.has ARO_LOCATION

/-- The writer writes the highlight value of extended exceptions. -/
abbrev HasHighlight (ulWriterVersion2 : UInt) : Prop := 0x00003009 ≤ ulWriterVersion2

/-- The fields of an extended exception that the writer version and the flags of its exception `j` say
are present are restored. -/
structure RestoredExtended (ulWriterVersion2 : UInt) (j : Exception) (i i' : ExtendedException) :
    Prop where
  reservedBlock1 : i'.strReservedBlock1 = i.strReservedBlock1
  highlight : HasHighlight ulWriterVersion2 →
    i'.ulChangeHighlightValue = i.ulChangeHighlightValue ∧ i'.strReserved = i.strReserved
  dates : HasText j → i'.ulStartDateTime = i.ulStartDateTime ∧
    i'.ulEndDateTime = i.ulEndDateTime ∧ i'.ulOriginalStartDate = i.ulOriginalStartDate
  subject : j.has ARO_SUBJECT → i'.strWideCharSubject = i.strWideCharSubject
  location : j.has ARO_LOCATION → i'.strWideCharLocation = i.strWideCharLocation
  reservedBlock2 : HasText j → i'.strReservedBlock2 = i.strReservedBlock2

abbrev HasWeekDays (ulPatternType : UInt) : Prop :=
  ulPatternType = 0x0001 ∨ ulPatternType = 0x0003 ∨ ulPatternType = 0x000b

abbrev HasDayOfMonth (ulPatternType : UInt) : Prop :=
  ulPatternType = 0x0002 ∨ ulPatternType = 0x0004 ∨ ulPatternType = 0x000a ∨ ulPatternType = 0x000c

abbrev HasWeekNumber (ulPatternType : UInt) : Prop := ulPatternType = 0x0003 ∨ ulPatternType = 0x000b

/-- The numbers of a recurrence that are always present. -/
def alwaysPresent (rs : RecurrenceState) : List UInt :=
  [rs.ulReaderVersion, rs.ulWriterVersion, rs.ulRecurFrequency, rs.ulPatternType,
    rs.ulCalendarType, rs.ulFirstDateTime, rs.ulPeriod, rs.ulSlidingFlag, rs.ulEndType,
    rs.ulOccurrenceCount, rs.ulFirstDOW, rs.ulDeletedInstanceCount, rs.ulModifiedInstanceCount,
    rs.ulStartDate, rs.ulEndDate, rs.ulReaderVersion2, rs.ulWriterVersion2, rs.ulStartTimeOffset,
    rs.ulEndTimeOffset, rs.ulExceptionCount]

/-- The fields of a recurrence that the pattern type, the flags and the writer version say are present
are restored. -/
structure Restored (rs rs' : RecurrenceState) : Prop where
  header : alwaysPresent rs' = alwaysPresent rs
  weekDays : HasWeekDays rs.ulPatternType → rs'.ulWeekDays = rs.ulWeekDays
  dayOfMonth : HasDayOfMonth rs.ulPatternType → rs'.ulDayOfMonth = rs.ulDayOfMonth
  weekNumber : HasWeekNumber rs.ulPatternType → rs'.ulWeekNumber = rs.ulWeekNumber
  deletedDates : rs'.lstDeletedInstanceDates = rs.lstDeletedInstanceDates
  modifiedDates : rs'.lstModifiedInstanceDates = rs.lstModifiedInstanceDates
  exceptions : List.Forall₂ RestoredException rs.lstExceptions rs'.lstExceptions
  reservedBlock1 : rs'.strReservedBlock1 = rs.strReservedBlock1
  extended : List.Forall₂ (fun ji i' => RestoredExtended rs.ulWriterVersion2 ji.1 ji.2 i')
    (rs.lstExceptions.zip rs.lstExtendedExceptions) rs'.lstExtendedExceptions
  reservedBlock2 : rs'.strReservedBlock2 = rs.strReservedBlock2

/-- `ParseBlob`, on any object and with any flags, restores what `GetBlob` wrote. -/
def RoundTrips (conv : Converter) (junk ulFlags : UInt) (old rs : RecurrenceState) : Prop :=
  ∃ blob, rs.getBlob conv = some (.hrSuccess, blob) ∧
    ∃ rs', parseBlob conv junk old blob ulFlags = some (.hrSuccess, rs') ∧ Restored rs rs'

/-! ## What fits -/

/-- The bytes of a field that is there under a condition. -/
def sizeIf (c : Prop) [Decidable c] (n : ℕ) : ℕ := if c then n else 0

/-- The bytes an exception takes. -/
def exceptionSize (e : Exception) : ℕ :=
  14 + sizeIf (e.has ARO_SUBJECT) (4 + e.strSubject.length) + sizeIf (e.has ARO_MEETINGTYPE) 4 +
    sizeIf (e.has ARO_REMINDERDELTA) 4 + sizeIf (e.has ARO_REMINDERSET) 4 +
    sizeIf (e.has ARO_LOCATION) (4 + e.strLocation.length) + sizeIf (e.has ARO_BUSYSTATUS) 4 +
    sizeIf (e.has ARO_ATTACHMENT) 4 + sizeIf (e.has ARO_SUBTYPE) 4 + sizeIf (e.has ARO_APPTCOLOR) 4

/-- The bytes an extended exception takes. -/
def extendedSize (ulWriterVersion2 : UInt) (j : Exception) (i : ExtendedException) : ℕ :=
  sizeIf (HasHighlight ulWriterVersion2) (8 + i.strReserved.length) +
    (4 + i.strReservedBlock1.length) + sizeIf (HasText j) 12 +
    sizeIf (j.has ARO_SUBJECT) (2 + 2 * i.strWideCharSubject.length) +
    sizeIf (j.has ARO_LOCATION) (2 + 2 * i.strWideCharLocation.length) +
    sizeIf (HasText j) (4 + i.strReservedBlock2.length)

/-- The bytes the fields of the pattern type take. -/
def patternSize (ulPatternType : UInt) : ℕ :=
  sizeIf (HasWeekNumber ulPatternType) 4 +
    sizeIf (HasWeekDays ulPatternType ∨ HasDayOfMonth ulPatternType) 4

/-- The bytes a recurrence takes. -/
def blobSize (rs : RecurrenceState) : ℕ :=
  68 + patternSize rs.ulPatternType + 4 * rs.lstDeletedInstanceDates.length +
    4 * rs.lstModifiedInstanceDates.length + (rs.lstExceptions.map exceptionSize).sum +
    (4 + rs.strReservedBlock1.length) +
    ((rs.lstExceptions.zip rs.lstExtendedExceptions).map fun ji =>
      extendedSize rs.ulWriterVersion2 ji.1 ji.2).sum +
    (4 + rs.strReservedBlock2.length)

/-- The reserved strings that are written for an extended exception have a size that is not negative as
an `int`. -/
def ExtendedFits (ulWriterVersion2 : UInt) (j : Exception) (i : ExtendedException) : Prop :=
  (HasHighlight ulWriterVersion2 → i.strReserved.length < 2 ^ 31) ∧
    i.strReservedBlock1.length < 2 ^ 31 ∧ (HasText j → i.strReservedBlock2.length < 2 ^ 31)

/-- The blob has a size of 32 bits, and no reserved string has a size that is negative as an `int`. -/
def BlobFits (rs : RecurrenceState) : Prop :=
  blobSize rs < 2 ^ 32 ∧ rs.strReservedBlock1.length < 2 ^ 31 ∧
    (∀ ji ∈ rs.lstExceptions.zip rs.lstExtendedExceptions,
      ExtendedFits rs.ulWriterVersion2 ji.1 ji.2) ∧
    rs.strReservedBlock2.length < 2 ^ 31

/-! ## Reading one value -/

section Values

variable {s : ParseState}

/-- A number that was written in some bytes is read from these bytes, without the part that did not fit into them. -/
theorem reads_readNumber (n v : ℕ) :
    Reads (readNumber n) (littleEndian n v) True s (BitVec.ofNat 32 (v % 256 ^ n)) s := by
  refine .of_eq fun rest => ?_
  have hleft : ¬ (littleEndian n v ++ rest).length < n := by
    rw [List.length_append, length_littleEndian]
    omega
  have htake : (littleEndian n v ++ rest).take n = littleEndian n v :=
    List.take_left' (length_littleEndian n v)
  have hdrop : (littleEndian n v ++ rest).drop n = rest :=
    List.drop_left' (length_littleEndian n v)
  rw [readNumber, bind_ok rfl, bind_ok rfl, if_neg hleft, bind_ok rfl, htake, hdrop,
    ofLittleEndian_littleEndian]
  rfl

theorem reads_READLONG (x : UInt) : Reads READLONG (WRITELONG x) True s x s := by
  have h : Reads (readNumber 4) _ True s _ s := reads_readNumber 4 x.toNat
  rwa [Nat.mod_eq_of_lt (show x.toNat < 256 ^ 4 from x.isLt), BitVec.ofNat_toNat, BitVec.setWidth_eq] at h

theorem reads_READSHORT {x : UInt} (hx : x.toNat < 2 ^ 16) : Reads READSHORT (WRITESHORT x) True s x s := by
  have h : Reads (readNumber 2) _ True s _ s := reads_readNumber 2 x.toNat
  rwa [Nat.mod_eq_of_lt (show x.toNat < 256 ^ 2 from hx), BitVec.ofNat_toNat, BitVec.setWidth_eq] at h

theorem toNat_size {α : Type} {x : List α} (hx : x.length < 2 ^ 32) : (size x).toNat = x.length := by
  rw [size, BitVec.toNat_ofNat, Nat.mod_eq_of_lt hx]

/-- A string is read unless its size is negative as an `int`. -/
theorem reads_readBytes (f : List UInt8 → RecurrenceState → RecurrenceState) {str : List UInt8}
    {len : UInt} (hlen : len.toNat = str.length) :
    Reads (readBytes f len) str (str.length < 2 ^ 31) s str { s with rs := f str s.rs } := by
  intro rest
  have htake : (str ++ rest).take len.toNat = str := List.take_left' hlen.symm
  have hdrop : (str ++ rest).drop len.toNat = rest := List.drop_left' hlen.symm
  have hread : readBytes f len (str ++ rest) s = (if (str ++ rest).length < len.toNat ∨
      2 ^ 31 ≤ len.toNat then ByteReader.stop .short else pure str : Parse (List UInt8)) rest
        { s with rs := f str s.rs } := by
    rw [readBytes, bind_ok rfl, bind_ok rfl, bind_ok rfl, htake, hdrop]
  have hleft : ¬ (str ++ rest).length < len.toNat := by
    rw [List.length_append]
    omega
  rw [hread]
  constructor
  · intro hgood
    rw [if_neg (by omega)]
    rfl
  · intro hbad
    rw [if_pos (by omega)]
    exact ⟨_, _, _, rfl⟩

theorem reads_READSTRING {str : List UInt8} {len : UInt} (hlen : len.toNat = str.length) :
    Reads (READSTRING len) str (str.length < 2 ^ 31) s str s :=
  reads_readBytes (fun _ rs => rs) hlen

/-- A value that is there under a condition. -/
theorem reads_readIf {α : Type} {c : Prop} [Decidable c] {old a : α} {p : Parse α}
    {bytes : List UInt8} {good : Prop} (h : c → Reads p bytes good s a s) :
    Reads (readIf c old p) (writeIf c bytes) (c → good) s (if c then a else old) s := by
  rw [readIf, writeIf]
  split_ifs with hc
  · exact (h hc).congr ⟨fun hg _ => hg, fun hg => hg hc⟩
  · exact (Reads.pure old).congr ⟨fun _ h => absurd h hc, fun _ => trivial⟩

/-- The recurrence is changed. -/
def setRs (f : RecurrenceState → RecurrenceState) (s : ParseState) : ParseState :=
  { s with rs := f s.rs }

theorem reads_longField (f : UInt → RecurrenceState → RecurrenceState) (x : UInt) :
    Reads (longField f) (WRITELONG x) True s () (setRs (f x) s) :=
  (reads_READLONG x).done (Reads.modify _)

theorem reads_shortField (f : UInt → RecurrenceState → RecurrenceState) {x : UInt} (hx : x.toNat < 2 ^ 16) :
    Reads (shortField f) (WRITESHORT x) True s () (setRs (f x) s) :=
  (reads_READSHORT hx).done (Reads.modify _)

/-- A string with two sizes of two bytes. -/
theorem reads_readString {str : List UInt8} (hstr : str.length < 2 ^ 16) :
    Reads readString (writeString str) True s str s := by
  have hlen : (size str).toNat = str.length := toNat_size (by omega)
  have hgood : str.length < 2 ^ 31 ↔ True := ⟨fun _ => trivial, fun _ => by omega⟩
  rw [writeString, List.append_assoc]
  refine (reads_readNumber 2 _).seq ?_
  exact (reads_READSHORT (by rwa [hlen])).seq ((reads_READSTRING hlen).congr hgood)

/-- A string with a size of four bytes. -/
theorem reads_readBlock {str : List UInt8} (hstr : str.length < 2 ^ 32) :
    Reads readBlock (writeBlock str) (str.length < 2 ^ 31) s str s :=
  (reads_READLONG _).seq (reads_READSTRING (toNat_size hstr))

end Values

/-! ## Reading the exceptions -/

section Exceptions

variable {s : ParseState} (junk : UInt)

/-- What is read back of an exception. -/
def keptException (e : Exception) : Exception where
  ulStartDateTime := e.ulStartDateTime
  ulEndDateTime := e.ulEndDateTime
  ulOriginalStartDate := e.ulOriginalStartDate
  ulOverrideFlags := e.ulOverrideFlags
  strSubject := if e.has ARO_SUBJECT then e.strSubject else []
  ulApptStateFlags := if e.has ARO_MEETINGTYPE then e.ulApptStateFlags else junk
  ulReminderDelta := if e.has ARO_REMINDERDELTA then e.ulReminderDelta else junk
  ulReminderSet := if e.has ARO_REMINDERSET then e.ulReminderSet else junk
  strLocation := if e.has ARO_LOCATION then e.strLocation else []
  ulBusyStatus := if e.has ARO_BUSYSTATUS then e.ulBusyStatus else junk
  ulAttachment := if e.has ARO_ATTACHMENT then e.ulAttachment else junk
  ulSubType := if e.has ARO_SUBTYPE then e.ulSubType else junk
  ulAppointmentColor := if e.has ARO_APPTCOLOR then e.ulAppointmentColor else junk

/-- What is kept of an exception restores it: the fields that its flags leave out may hold anything. -/
theorem restored_keptException (e : Exception) : RestoredException e (keptException junk e) where
  always := ⟨rfl, rfl, rfl, rfl⟩
  subject h := if_pos h
  meetingType h := if_pos h
  reminderDelta h := if_pos h
  reminderSet h := if_pos h
  location h := if_pos h
  busyStatus h := if_pos h
  attachment h := if_pos h
  subType h := if_pos h
  apptColor h := if_pos h

/-- A value under a condition that is always good. -/
theorem reads_readIf_true {α : Type} {c : Prop} [Decidable c] {old a : α} {p : Parse α}
    {bytes : List UInt8} (h : c → Reads p bytes True s a s) :
    Reads (readIf c old p) (writeIf c bytes) True s (if c then a else old) s :=
  (reads_readIf h).congr ⟨fun _ => trivial, fun _ _ => trivial⟩

/-- An exception is read as it was written when its flags and the lengths of its two texts fit into 16 bits. -/
theorem reads_readException {e : Exception} (hflags : e.ulOverrideFlags.toNat < 2 ^ 16)
    (hsubject : e.strSubject.length < 2 ^ 16) (hlocation : e.strLocation.length < 2 ^ 16) :
    Reads (readException junk) (writeException e) True s ()
      { s with rs := { s.rs with
        lstExceptions := s.rs.lstExceptions ++ [keptException junk e] } } := by
  rw [writeException]
  simp only [List.append_assoc]
  refine (reads_READLONG _).seq <| (reads_READLONG _).seq <| (reads_READLONG _).seq <|
    (reads_READSHORT hflags).seq ?_
  refine (reads_readIf_true fun _ => reads_readString hsubject).seq ?_
  refine (reads_readIf_true fun _ => reads_READLONG _).seq ?_
  refine (reads_readIf_true fun _ => reads_READLONG _).seq ?_
  refine (reads_readIf_true fun _ => reads_READLONG _).seq ?_
  refine (reads_readIf_true fun _ => reads_readString hlocation).seq ?_
  refine (reads_readIf_true fun _ => reads_READLONG _).seq ?_
  refine (reads_readIf_true fun _ => reads_READLONG _).seq ?_
  refine (reads_readIf_true fun _ => reads_READLONG _).seq ?_
  exact (reads_readIf_true fun _ => reads_READLONG _).done (Reads.modify _)

end Exceptions

/-! ## Reading the extended exceptions -/

section Extended

variable {s : ParseState} {conv : Converter} (junk : UInt)

theorem length_WRITELONG (x : UInt) : (WRITELONG x).length = 4 := length_littleEndian _ _

theorem length_WRITESHORT (x : UInt) : (WRITESHORT x).length = 2 := length_littleEndian _ _

theorem length_writeIf (c : Prop) [Decidable c] (bytes : List UInt8) :
    (writeIf c bytes).length = sizeIf c bytes.length := by
  rw [writeIf, sizeIf]
  split_ifs
  · rfl
  · rfl

theorem length_writeBlock (str : List UInt8) : (writeBlock str).length = 4 + str.length := by
  rw [writeBlock, List.length_append, length_WRITELONG]

theorem length_flatMap {α : Type} (n : ℕ) {f : α → List UInt8} (hf : ∀ a, (f a).length = n)
    (l : List α) : (l.flatMap f).length = n * l.length := by
  induction l with
  | nil => rfl
  | cons a l ih =>
    rw [List.flatMap_cons, List.length_append, hf, ih, List.length_cons, Nat.mul_succ,
      Nat.add_comm]

/-- A wide string is written and read back. -/
theorem writeWide_reads (hconv : InverseOnBmp conv) {str : WString} (hbmp : IsBmp str)
    (hstr : str.length < 2 ^ 16) : ∃ bytes, writeWide conv str = some bytes ∧ bytes.length = 2 + 2 * str.length ∧
      ∀ s, Reads (readWide conv) bytes True s str s := by
  obtain ⟨strWide, hwide, hlength, hback⟩ := hconv str hbmp
  have hbytes : (strWide.flatMap fun c => littleEndian 2 c.toNat).length = 2 * strWide.length :=
    length_flatMap 2 (fun c => length_littleEndian 2 c.toNat) strWide
  have hsize : (size strWide).toNat = strWide.length := toNat_size (by omega)
  have htwice : (size strWide * 2).toNat =
      (strWide.flatMap fun c => littleEndian 2 c.toNat).length := by
    rw [hbytes, BitVec.toNat_mul, hsize]
    show strWide.length * 2 % 2 ^ 32 = _
    omega
  have hpure (s : ParseState) : Reads (pure ((conv.fromUcs2 (strWide.flatMap fun c =>
      littleEndian 2 c.toNat)).getD []) : Parse WString) [] True s str s := by
    rw [hback]
    exact Reads.pure str
  refine ⟨_, by rw [writeWide, hwide]; rfl, ?_, fun s => ?_⟩
  · rw [List.length_append, length_WRITESHORT, hbytes, hlength]
  · refine (reads_READSHORT (by omega)).seq ?_
    exact ((reads_READSTRING htwice).done (hpure s)).congr ⟨fun _ => trivial, fun _ => by omega⟩

/-- What is read back of an extended exception. -/
def keptExtended (ulWriterVersion2 : UInt) (j : Exception) (i : ExtendedException) :
    ExtendedException where
  ulChangeHighlightValue :=
    if HasHighlight ulWriterVersion2 then i.ulChangeHighlightValue else junk
  strReserved := if HasHighlight ulWriterVersion2 then i.strReserved else []
  strReservedBlock1 := i.strReservedBlock1
  ulStartDateTime := if HasText j then i.ulStartDateTime else junk
  ulEndDateTime := if HasText j then i.ulEndDateTime else junk
  ulOriginalStartDate := if HasText j then i.ulOriginalStartDate else junk
  strWideCharSubject := if j.has ARO_SUBJECT then i.strWideCharSubject else []
  strWideCharLocation := if j.has ARO_LOCATION then i.strWideCharLocation else []
  strReservedBlock2 := if HasText j then i.strReservedBlock2 else []

theorem restored_keptExtended (ulWriterVersion2 : UInt) (j : Exception) (i : ExtendedException) :
    RestoredExtended ulWriterVersion2 j i (keptExtended junk ulWriterVersion2 j i) where
  reservedBlock1 := rfl
  highlight h := ⟨if_pos h, if_pos h⟩
  dates h := ⟨if_pos h, if_pos h, if_pos h⟩
  subject h := if_pos h
  location h := if_pos h
  reservedBlock2 h := if_pos h

/-- A wide string that is there under a condition. -/
theorem writeWideIf_reads (hconv : InverseOnBmp conv) {str : WString} (hbmp : IsBmp str)
    (hstr : str.length < 2 ^ 16) (c : Prop) [Decidable c] : ∃ bytes, writeWideIf conv c str = some bytes ∧
      bytes.length = sizeIf c (2 + 2 * str.length) ∧
      ∀ s, Reads (readIf c [] (readWide conv)) bytes True s (if c then str else []) s := by
  by_cases hc : c
  · obtain ⟨bytes, hbytes, hlength, hread⟩ := writeWide_reads hconv hbmp hstr
    refine ⟨bytes, by rw [writeWideIf, if_pos hc, hbytes], by rw [sizeIf, if_pos hc, hlength],
      fun s => ?_⟩
    rw [readIf, if_pos hc, if_pos hc]
    exact hread s
  · refine ⟨[], if_neg hc, by rw [sizeIf, if_neg hc]; rfl, fun s => ?_⟩
    rw [readIf, if_neg hc, if_neg hc]
    exact Reads.pure []

/-- A pair that is there under a condition. -/
theorem ite_pair {α β : Type} (c : Prop) [Decidable c] (a a' : α) (b b' : β) :
    (if c then (a, b) else (a', b')) = (if c then a else a', if c then b else b') := by
  split_ifs
  · rfl
  · rfl

/-- The highlight value with the reserved string behind it. -/
theorem reads_highlight {ulChangeHighlightValue : UInt} {strReserved : List UInt8}
    (hstr : strReserved.length < 2 ^ 32) :
    Reads (do
      let ulChangeHighlightSize ← READLONG
      let ulChangeHighlightValue ← READLONG
      let strReserved ← READSTRING (ulChangeHighlightSize - 4)
      pure (ulChangeHighlightValue, strReserved))
      (WRITELONG (size strReserved + 4) ++ (WRITELONG ulChangeHighlightValue ++ strReserved))
      (strReserved.length < 2 ^ 31) s (ulChangeHighlightValue, strReserved) s := by
  have hlen : (size strReserved + 4 - 4).toNat = strReserved.length := by
    rw [BitVec.add_sub_cancel, toNat_size hstr]
  refine (reads_READLONG _).seq ((reads_READLONG _).seq ?_)
  exact (reads_READSTRING hlen).done (Reads.pure _)

/-- The three dates. -/
theorem reads_dates (x y z : UInt) :
    Reads (do
      let ulStartDateTime ← READLONG
      let ulEndDateTime ← READLONG
      let ulOriginalStartDate ← READLONG
      pure (ulStartDateTime, ulEndDateTime, ulOriginalStartDate))
      (WRITELONG x ++ (WRITELONG y ++ WRITELONG z)) True s (x, y, z) s :=
  (reads_READLONG x).seq ((reads_READLONG y).seq ((reads_READLONG z).done (Reads.pure _)))

/-- An extended exception is written, and it is read back unless a reserved string is too long. -/
theorem writeExtended_reads (hconv : InverseOnBmp conv) (ulWriterVersion2 : UInt) (j : Exception)
    {i : ExtendedException} (hshort : i.strWideCharSubject.length < 2 ^ 16 ∧ i.strWideCharLocation.length < 2 ^ 16)
    (hbmp : IsBmp i.strWideCharSubject ∧ IsBmp i.strWideCharLocation) :
    ∃ bytes, writeExtended conv ulWriterVersion2 j i = some bytes ∧ bytes.length = extendedSize ulWriterVersion2 j i ∧
      (bytes.length < 2 ^ 32 → ∀ s : ParseState, s.rs.ulWriterVersion2 = ulWriterVersion2 →
        Reads (readExtended conv junk j) bytes (ExtendedFits ulWriterVersion2 j i) s ()
          { s with rs := { s.rs with
            lstExtendedExceptions := s.rs.lstExtendedExceptions ++
              [keptExtended junk ulWriterVersion2 j i] } }) := by
  obtain ⟨subject, hsubject, hsubjectLength, hsubjectReads⟩ :=
    writeWideIf_reads hconv hbmp.1 hshort.1 (j.has ARO_SUBJECT)
  obtain ⟨location, hlocation, hlocationLength, hlocationReads⟩ :=
    writeWideIf_reads hconv hbmp.2 hshort.2 (j.has ARO_LOCATION)
  refine ⟨_, by rw [writeExtended, hsubject, hlocation]; rfl, ?_, fun hlength s hver => ?_⟩
  · simp only [List.length_append, length_writeIf, length_writeBlock, length_WRITELONG,
      hsubjectLength, hlocationLength, extendedSize]
  · subst hver
    have hsizes := hlength
    simp only [List.length_append, length_writeIf, length_writeBlock, length_WRITELONG] at hsizes
    have hreserved : HasHighlight s.rs.ulWriterVersion2 → i.strReserved.length < 2 ^ 32 := by
      intro h
      rw [sizeIf, if_pos h] at hsizes
      omega
    have hblock2 : HasText j → i.strReservedBlock2.length < 2 ^ 32 := by
      intro h
      rw [sizeIf, sizeIf, sizeIf, if_pos h, if_pos h] at hsizes
      omega
    simp only [List.append_assoc]
    refine Reads.get_seq ?_
    rw [ExtendedFits]
    refine (reads_readIf fun h => reads_highlight (hreserved h)).bind ?_
    rw [ite_pair]
    refine (reads_readBlock (by omega)).bind ?_
    refine (reads_readIf_true fun _ => reads_dates _ _ _).seq ?_
    rw [ite_pair, ite_pair]
    refine (hsubjectReads _).seq ((hlocationReads _).seq ?_)
    exact (reads_readIf fun h => reads_readBlock (hblock2 h)).done (Reads.modify _)

/-- All extended exceptions are written, and they are read back unless a reserved string of one is too
long. -/
theorem writeExtendeds_reads (hconv : InverseOnBmp conv) (ulWriterVersion2 : UInt)
    {js : List Exception} {is : List ExtendedException} (hlength : js.length = is.length) (hshort : ∀ i ∈ is,
      i.strWideCharSubject.length < 2 ^ 16 ∧ i.strWideCharLocation.length < 2 ^ 16)
    (hbmp : ∀ i ∈ is, IsBmp i.strWideCharSubject ∧ IsBmp i.strWideCharLocation) :
    ∃ bytes, writeExtendeds conv ulWriterVersion2 js is = some bytes ∧
      bytes.length = ((js.zip is).map fun ji => extendedSize ulWriterVersion2 ji.1 ji.2).sum ∧
      (bytes.length < 2 ^ 32 → ∀ s : ParseState, s.rs.ulWriterVersion2 = ulWriterVersion2 →
        Reads (ByteReader.each (readExtended conv junk) (js.map (keptException junk))) bytes
          (∀ ji ∈ js.zip is, ExtendedFits ulWriterVersion2 ji.1 ji.2) s ()
          { s with rs := { s.rs with
            lstExtendedExceptions := s.rs.lstExtendedExceptions ++
              (js.zip is).map fun ji => keptExtended junk ulWriterVersion2 ji.1 ji.2 } }) := by
  induction js generalizing is with
  | nil =>
    refine ⟨[], rfl, rfl, fun _ s _ => ?_⟩
    simp only [List.zip_nil_left, List.map_nil, List.append_nil]
    exact (Reads.pure ()).congr ⟨fun _ _ h => absurd h List.not_mem_nil, fun _ => trivial⟩
  | cons j js ih =>
    cases is with
    | nil => cases hlength
    | cons i is =>
      obtain ⟨hi, his⟩ := List.forall_mem_cons.mp hshort
      obtain ⟨hbi, hbis⟩ := List.forall_mem_cons.mp hbmp
      obtain ⟨first, hfirst, hfirstLength, hfirstReads⟩ :=
        writeExtended_reads junk hconv ulWriterVersion2 j hi hbi
      obtain ⟨others, hothers, hothersLength, hothersReads⟩ :=
        ih (Nat.succ.inj hlength) his hbis
      refine ⟨first ++ others, by rw [writeExtendeds, hfirst, hothers]; rfl, ?_, ?_⟩
      · rw [List.length_append, hfirstLength, hothersLength, List.zip_cons_cons, List.map_cons,
          List.sum_cons]
      · intro hsize s hver
        rw [List.length_append] at hsize
        have hj := hfirstReads (by omega) s hver
        have hjs := hothersReads (by omega) { s with rs := { s.rs with
          lstExtendedExceptions := s.rs.lstExtendedExceptions ++
            [keptExtended junk ulWriterVersion2 j i] } } hver
        rw [List.zip_cons_cons, List.forall_mem_cons, List.map_cons]
        simp only [List.append_assoc, List.singleton_append] at hjs
        exact hj.bind hjs

end Extended

/-! ## Reading the header -/

section Header

variable {s : ParseState} {rs : RecurrenceState}

/-- The fields of the pattern type are read. -/
def patternRead (rs old : RecurrenceState) : RecurrenceState :=
  { old with
    ulWeekDays := if HasWeekDays rs.ulPatternType then rs.ulWeekDays else old.ulWeekDays
    ulDayOfMonth := if HasDayOfMonth rs.ulPatternType then rs.ulDayOfMonth else old.ulDayOfMonth
    ulWeekNumber := if HasWeekNumber rs.ulPatternType then rs.ulWeekNumber else old.ulWeekNumber }

variable (rs) in
/-- The pattern is read as it was written, the fields of the other pattern types staying as they were. -/
theorem reads_readPattern : Reads (readPattern rs.ulPatternType) rs.writePattern True s ()
    (setRs (patternRead rs) s) := by
  rw [readPattern, writePattern, setRs, patternRead]
  by_cases h0 : rs.ulPatternType = 0x0000
  · rw [if_pos h0, if_pos h0, if_neg (by rw [h0]; decide), if_neg (by rw [h0]; decide),
      if_neg (by rw [h0]; decide)]
    exact Reads.pure ()
  rw [if_neg h0, if_neg h0]
  by_cases h1 : rs.ulPatternType = 0x0001
  · rw [if_pos h1, if_pos h1, if_pos (.inl h1), if_neg (by rw [h1]; decide),
      if_neg (by rw [h1]; decide)]
    exact reads_longField _ _
  rw [if_neg h1, if_neg h1]
  by_cases h2 : HasDayOfMonth rs.ulPatternType
  · have hno : ¬ HasWeekNumber rs.ulPatternType := by
      rcases h2 with h2 | h2 | h2 | h2
      all_goals
        rw [h2]
        decide
    rw [if_pos h2, if_pos h2, if_neg (not_or.mpr ⟨h1, hno⟩), if_pos h2, if_neg hno]
    exact reads_longField _ _
  rw [if_neg h2, if_neg h2]
  by_cases h3 : HasWeekNumber rs.ulPatternType
  · rw [if_pos h3, if_pos h3, if_pos (.inr h3), if_neg h2, if_pos h3]
    exact (reads_longField _ _).seq (reads_longField _ _)
  · rw [if_neg h3, if_neg h3, if_neg (not_or.mpr ⟨h1, h3⟩), if_neg h2, if_neg h3]
    exact Reads.pure ()

/-- A list of numbers. -/
theorem reads_longFields (f : UInt → RecurrenceState → RecurrenceState) (l : List UInt) :
    Reads (ByteReader.times (longField f) l.length) (l.flatMap WRITELONG) True s ()
      (setRs (fun rs => l.foldl (fun rs x => f x rs) rs) s) := by
  have h := Reads.times (l := l) (fun x _ s => reads_longField (s := s) f x) s
  have hfold : l.foldl (fun s x => setRs (f x) s) s =
      setRs (fun rs => l.foldl (fun rs x => f x rs) rs) s := by
    induction l generalizing s with
    | nil => rfl
    | cons x l ih =>
      exact ih (Reads.times (fun x _ s => reads_longField f x) _)
  rwa [hfold] at h

/-- The deleted dates are read one after the other to the end of the list. -/
theorem reads_deletedDates (dates : List UInt) : Reads (ByteReader.times (longField fun x rs =>
        { rs with lstDeletedInstanceDates := rs.lstDeletedInstanceDates ++ [x] }) dates.length)
      (dates.flatMap WRITELONG) True s () (setRs (fun rs =>
        { rs with lstDeletedInstanceDates := rs.lstDeletedInstanceDates ++ dates }) s) := by
  have h (old : RecurrenceState) : dates.foldl (fun rs x =>
      { rs with lstDeletedInstanceDates := rs.lstDeletedInstanceDates ++ [x] }) old =
        { old with lstDeletedInstanceDates := old.lstDeletedInstanceDates ++ dates } := by
    induction dates generalizing old with
    | nil => rw [List.append_nil]; rfl
    | cons x dates ih => rw [List.foldl_cons, ih, List.append_assoc]; rfl
  simp only [← h]
  exact reads_longFields _ dates

/-- The modified dates are read one after the other to the end of the list. -/
theorem reads_modifiedDates (dates : List UInt) : Reads (ByteReader.times (longField fun x rs =>
        { rs with lstModifiedInstanceDates := rs.lstModifiedInstanceDates ++ [x] }) dates.length)
      (dates.flatMap WRITELONG) True s () (setRs (fun rs =>
        { rs with lstModifiedInstanceDates := rs.lstModifiedInstanceDates ++ dates }) s) := by
  have h (old : RecurrenceState) : dates.foldl (fun rs x =>
      { rs with lstModifiedInstanceDates := rs.lstModifiedInstanceDates ++ [x] }) old =
        { old with lstModifiedInstanceDates := old.lstModifiedInstanceDates ++ dates } := by
    induction dates generalizing old with
    | nil => rw [List.append_nil]; rfl
    | cons x dates ih => rw [List.foldl_cons, ih, List.append_assoc]; rfl
  simp only [← h]
  exact reads_longFields _ dates

/-- Everything in front of the exceptions is read. -/
def headerRead (rs old : RecurrenceState) : RecurrenceState :=
  { rs with
    ulWeekDays := (patternRead rs old).ulWeekDays
    ulDayOfMonth := (patternRead rs old).ulDayOfMonth
    ulWeekNumber := (patternRead rs old).ulWeekNumber
    lstDeletedInstanceDates := old.lstDeletedInstanceDates ++ rs.lstDeletedInstanceDates
    lstModifiedInstanceDates := old.lstModifiedInstanceDates ++ rs.lstModifiedInstanceDates
    lstExceptions := old.lstExceptions
    strReservedBlock1 := old.strReservedBlock1
    lstExtendedExceptions := old.lstExtendedExceptions
    strReservedBlock2 := old.strReservedBlock2 }

/-- The header is read as it was written, up to the flag that says whether the part behind it follows. -/
theorem reads_readHeader (hrs : WellFormed rs) (ulFlags : UInt) :
    ∃ bReadValid, Reads (readHeader ulFlags) rs.writeHeader True s ()
      { s with rs := headerRead rs s.rs, bReadValid := bReadValid } := by
  have hshort := hrs.shortHeader
  simp only [List.forall_mem_cons] at hshort
  obtain ⟨hreader, hwriter, hfrequency, hpattern, hcalendar, hexception, -⟩ := hshort
  have hflags (s : ParseState) : (if ulFlags &&& RECURRENCE_STATE_TASKS != 0 then
      { s with bReadValid := true } else s) = { s with
        bReadValid := if ulFlags &&& RECURRENCE_STATE_TASKS != 0 then true else s.bReadValid } := by
    split_ifs
    · rfl
    · rfl
  refine ⟨if ulFlags &&& RECURRENCE_STATE_TASKS != 0 then true else s.bReadValid, ?_⟩
  unfold writeHeader
  simp only [List.append_assoc]
  refine (reads_shortField _ hreader).seq <| (reads_shortField _ hwriter).seq <|
    (reads_shortField _ hfrequency).seq <| (reads_shortField _ hpattern).seq <|
    (reads_shortField _ hcalendar).seq <| (reads_longField _ _).seq <|
    (reads_longField _ _).seq <| (reads_longField _ _).seq <| Reads.get_seq ?_
  dsimp only [setRs]
  refine (reads_readPattern rs).seq ?_
  refine (reads_longField _ _).seq <| (reads_longField _ _).seq <| (reads_longField _ _).seq <|
    (reads_longField _ _).seq <| Reads.get_seq ?_
  dsimp only [setRs]
  rw [hrs.deletedCount]
  refine (reads_deletedDates _).seq <| (reads_longField _ _).seq <| Reads.get_seq ?_
  dsimp only [setRs]
  rw [hrs.modifiedCount]
  refine (reads_modifiedDates _).seq <| (reads_longField _ _).seq <| (reads_longField _ _).seq <|
    Reads.modify_seq ?_
  rw [hflags]
  dsimp only [setRs]
  refine (reads_longField _ _).seq <| (reads_longField _ _).seq <| (reads_longField _ _).seq <|
    (reads_longField _ _).seq <| (reads_shortField _ hexception).to ?_
  dsimp only [setRs, headerRead, patternRead]

end Header

/-! ## Reading the whole blob -/

section Blob

variable {s : ParseState} {rs : RecurrenceState} {conv : Converter} (junk : UInt)

theorem length_writePattern : rs.writePattern.length = patternSize rs.ulPatternType := by
  rw [writePattern, patternSize, sizeIf, sizeIf]
  by_cases h0 : rs.ulPatternType = 0x0000
  · rw [if_pos h0, if_neg (by rw [h0]; decide), if_neg (by rw [h0]; decide)]
    rfl
  rw [if_neg h0]
  by_cases h1 : rs.ulPatternType = 0x0001
  · rw [if_pos h1, if_neg (by rw [h1]; decide), if_pos (.inl (.inl h1)), length_WRITELONG]
  rw [if_neg h1]
  by_cases h2 : HasDayOfMonth rs.ulPatternType
  · have hno : ¬ HasWeekNumber rs.ulPatternType := by
      rcases h2 with h2 | h2 | h2 | h2
      all_goals
        rw [h2]
        decide
    rw [if_pos h2, if_neg hno, if_pos (.inr h2), length_WRITELONG]
  rw [if_neg h2]
  by_cases h3 : HasWeekNumber rs.ulPatternType
  · rw [if_pos h3, if_pos h3, if_pos (.inl (.inr h3)), List.length_append, length_WRITELONG,
      length_WRITELONG]
  · rw [if_neg h3, if_neg h3, if_neg (not_or.mpr ⟨not_or.mpr ⟨h1, h3⟩, h2⟩)]
    rfl

theorem length_writeHeader : rs.writeHeader.length = 68 + patternSize rs.ulPatternType +
    4 * rs.lstDeletedInstanceDates.length + 4 * rs.lstModifiedInstanceDates.length := by
  unfold writeHeader
  simp only [List.length_append, length_WRITESHORT, length_WRITELONG, length_writePattern,
    length_flatMap 4 length_WRITELONG]
  omega

theorem length_writeException (e : Exception) : (writeException e).length = exceptionSize e := by
  simp only [writeException, writeString, List.length_append, length_writeIf, length_WRITESHORT,
    length_WRITELONG, exceptionSize]

/-- The exceptions are read one after the other. The induction is on the list, with what has been read before. -/
theorem reads_exceptions {l : List Exception} (hflags : ∀ e ∈ l, e.ulOverrideFlags.toNat < 2 ^ 16)
    (hstrings : ∀ e ∈ l, e.strSubject.length < 2 ^ 16 ∧ e.strLocation.length < 2 ^ 16) :
    Reads (ByteReader.times (readException junk) l.length) (l.flatMap writeException) True s () (setRs (fun rs =>
        { rs with lstExceptions := rs.lstExceptions ++ l.map (keptException junk) }) s) := by
  refine (Reads.times (fun e he s => reads_readException (s := s) junk (hflags e he)
    (hstrings e he).1 (hstrings e he).2) s).to ?_
  clear hflags hstrings
  induction l generalizing s with
  | nil => rw [List.map_nil, setRs, List.append_nil]; rfl
  | cons e l ih =>
    rw [List.foldl_cons, ih, List.map_cons]
    dsimp only [setRs]
    rw [List.append_assoc]
    rfl

/-- What `ParseBlob` makes of a cleared object. -/
def blobRead (rs old : RecurrenceState) : RecurrenceState :=
  { headerRead rs old with
    lstExceptions := rs.lstExceptions.map (keptException junk)
    strReservedBlock1 := rs.strReservedBlock1
    lstExtendedExceptions := (rs.lstExceptions.zip rs.lstExtendedExceptions).map fun ji =>
      keptExtended junk rs.ulWriterVersion2 ji.1 ji.2
    strReservedBlock2 := rs.strReservedBlock2 }

/-- What is read into a structure without dates restores the one that was written. -/
theorem restored_blobRead {old : RecurrenceState} (hdeleted : old.lstDeletedInstanceDates = [])
    (hmodified : old.lstModifiedInstanceDates = []) : Restored rs (blobRead junk rs old) where
  header := rfl
  weekDays h := if_pos h
  dayOfMonth h := if_pos h
  weekNumber h := if_pos h
  deletedDates := by
    show old.lstDeletedInstanceDates ++ _ = _
    rw [hdeleted, List.nil_append]
  modifiedDates := by
    show old.lstModifiedInstanceDates ++ _ = _
    rw [hmodified, List.nil_append]
  exceptions := List.forall₂_map_right_iff.mpr
    (List.forall₂_same.mpr fun e _ => restored_keptException junk e)
  reservedBlock1 := rfl
  extended := List.forall₂_map_right_iff.mpr
    (List.forall₂_same.mpr fun ji _ => restored_keptExtended junk _ ji.1 ji.2)
  reservedBlock2 := rfl

/-- The object is written, and it is read back unless a reserved string is too long. -/
theorem strData_reads (hconv : InverseOnBmp conv) (hrs : WellFormed rs) :
    ∃ data, rs.strData conv = some data ∧ data.length = blobSize rs ∧
      (data.length < 2 ^ 32 → ∀ (s : ParseState) (ulFlags : UInt), s.rs.lstExceptions = [] →
        s.rs.lstExtendedExceptions = [] → ∃ s', s'.rs = blobRead junk rs s.rs ∧
          Reads (readBlob conv junk ulFlags) data (rs.strReservedBlock1.length < 2 ^ 31 ∧
              (∀ ji ∈ rs.lstExceptions.zip rs.lstExtendedExceptions, ExtendedFits rs.ulWriterVersion2 ji.1 ji.2) ∧
              rs.strReservedBlock2.length < 2 ^ 31) s () s') := by
  obtain ⟨extended, hextended, hextendedLength, hextendedReads⟩ :=
    writeExtendeds_reads junk hconv rs.ulWriterVersion2 hrs.sameLength hrs.shortWide hrs.bmp
  have hlength : (rs.writeHeader ++ rs.lstExceptions.flatMap writeException ++
      writeBlock rs.strReservedBlock1 ++ extended ++ writeBlock rs.strReservedBlock2).length =
        blobSize rs := by
    simp only [List.length_append, length_writeHeader, List.length_flatMap, length_writeException,
      length_writeBlock, hextendedLength, blobSize]
  refine ⟨_, by rw [strData, hextended]; rfl, hlength, fun hsize s ulFlags hnone hnone' => ?_⟩
  simp only [List.length_append, length_writeBlock] at hsize
  obtain ⟨bReadValid, hheader⟩ := reads_readHeader (s := s) hrs ulFlags
  refine ⟨⟨s.ulLen, blobRead junk rs s.rs, true, true⟩, rfl, ?_⟩
  unfold writeBlock
  simp only [List.append_assoc]
  refine hheader.seq (Reads.get_seq ?_)
  rw [show (headerRead rs s.rs).ulExceptionCount.toNat = _ from hrs.exceptionCount]
  refine (reads_exceptions junk hrs.shortFlags hrs.shortStrings).seq (Reads.modify_seq ?_)
  refine (reads_READLONG _).seq ?_
  refine (reads_readBytes _ (toNat_size (by omega))).bind (Reads.get_seq ?_)
  dsimp only [setRs]
  rw [show (headerRead rs s.rs).lstExceptions = [] from hnone, List.nil_append]
  refine (hextendedReads (by omega) _ rfl).bind (Reads.modify_seq ?_)
  refine (reads_READLONG _).seq ?_
  refine ((reads_readBytes _ (toNat_size (by omega))).done (Reads.pure ())).to ?_
  dsimp only [blobRead]
  rw [show (headerRead rs s.rs).lstExtendedExceptions = [] from hnone', List.nil_append]

/-- `GetBlob` succeeds when the size of the blob has 32 bits. -/
theorem getBlob_of_strData {data : List UInt8} (hsame : rs.lstExceptions.length = rs.lstExtendedExceptions.length)
    (hdata : rs.strData conv = some data) (hlength : data.length = blobSize rs) :
    rs.getBlob conv = if blobSize rs < 2 ^ 32 then some (.hrSuccess, data) else none := by
  rw [getBlob, if_neg (not_not.mpr hsame), hdata]
  show (if data.length % 2 ^ 32 < data.length then none else some (HRESULT.hrSuccess, data)) = _
  rw [hlength]
  split_ifs
  · omega
  · rfl
  · rfl
  · omega

/-- An error is not turned into a success. -/
theorem finish_error {hr : HRESULT} (hhr : hr ≠ .hrSuccess) (s : ParseState)
    (rs' : RecurrenceState) : finish conv hr s ≠ some (.hrSuccess, rs') := by
  rw [finish]
  split_ifs
  · intro h
    cases h
  · intro h
    obtain ⟨_, -, h⟩ := Option.bind_eq_some_iff.mp h
    cases h
  · intro h
    exact hhr (Prod.mk.inj (Option.some.inj h)).1

/-- `ParseBlob` succeeds on bytes that are read to their end, and not when the reading stops. -/
theorem parseBlob_of_reads {data : List UInt8} {ulFlags : UInt} {old : RecurrenceState}
    {good : Prop} {s' : ParseState} (h : Reads (readBlob conv junk ulFlags) data good ⟨data.length, { old with
      lstDeletedInstanceDates := []
      lstModifiedInstanceDates := []
      lstExceptions := []
      lstExtendedExceptions := [] }, false, false⟩ () s') :
    (good → parseBlob conv junk old data ulFlags = some (.hrSuccess, s'.rs)) ∧
      (¬ good → ∀ rs', parseBlob conv junk old data ulFlags ≠ some (.hrSuccess, rs')) := by
  have h := h []
  rw [List.append_nil] at h
  constructor
  · intro hgood
    rw [parseBlob, h.1 hgood]
    exact if_neg fun hn => hn.1 rfl
  · intro hbad rs'
    obtain ⟨e, bs, s'', he⟩ := h.2 hbad
    rw [parseBlob, he]
    cases e with
    | short => exact finish_error (by decide) s'' rs'
    | outside => exact Option.some_ne_none _ ∘ Eq.symm

end Blob

/-- On states with the right counts and short strings, the round trip works if and only if the blob
fits. -/
theorem parseBlob_getBlob_iff (conv : Converter) (hconv : InverseOnBmp conv) (junk ulFlags : UInt)
    (old rs : RecurrenceState) (hrs : WellFormed rs) : RoundTrips conv junk ulFlags old rs ↔ BlobFits rs := by
  obtain ⟨data, hdata, hlength, hreads⟩ := strData_reads junk hconv hrs
  have hget := getBlob_of_strData hrs.sameLength hdata hlength
  rw [RoundTrips, BlobFits, hget]
  by_cases hsize : blobSize rs < 2 ^ 32
  · obtain ⟨s', hs', hread⟩ := hreads (by omega) ⟨data.length, { old with
      lstDeletedInstanceDates := []
      lstModifiedInstanceDates := []
      lstExceptions := []
      lstExtendedExceptions := [] }, false, false⟩ ulFlags rfl rfl
    obtain ⟨hok, herr⟩ := parseBlob_of_reads junk hread
    rw [if_pos hsize, and_iff_right hsize]
    constructor
    · rintro ⟨blob, hblob, rs', hparse, -⟩
      obtain ⟨-, rfl⟩ := Prod.mk.inj (Option.some.inj hblob)
      by_contra hbad
      exact herr hbad rs' hparse
    · intro hgood
      refine ⟨data, rfl, s'.rs, hok hgood, ?_⟩
      rw [hs']
      exact restored_blobRead junk rfl rfl
  · rw [if_neg hsize]
    constructor
    · rintro ⟨blob, hblob, -⟩
      cases hblob
    · exact fun h => absurd h.1 hsize

/-! ## Two states -/

/-- The characters of pairs of bytes. -/
def fromPairs : List UInt8 → Option WString
  | [] => some []
  | [_] => none
  | a :: b :: bytes =>
    (fromPairs bytes).map (BitVec.ofNat 32 (ofLittleEndian [a, b]) :: ·)

/-- A conversion of characters of 16 bits. -/
def ucs2 : Converter where
  toUtf16 str := if str.all fun c => c.toNat < 0x10000 then some (str.map (·.setWidth 16)) else none
  fromUcs2 := fromPairs
  fromWindows1252 bytes := some (bytes.map fun b => BitVec.ofNat 32 b.toNat)

theorem fromPairs_append (v : ℕ) (bytes : List UInt8) : fromPairs (littleEndian 2 v ++ bytes) =
      (fromPairs bytes).map (BitVec.ofNat 32 (ofLittleEndian (littleEndian 2 v)) :: ·) :=
  rfl

/-- The conversion to two bytes and back gives every text of the basic multilingual plane again. -/
theorem inverseOnBmp_ucs2 : InverseOnBmp ucs2 := by
  intro str hbmp
  have hsmall : ∀ c ∈ str, c.toNat < 0x10000 := by
    intro c hc
    have h := hbmp c hc
    omega
  have hutf16 : ucs2.toUtf16 str = some (str.map (BitVec.setWidth 16)) :=
    if_pos (by simpa using hsmall)
  refine ⟨_, hutf16, List.length_map _, ?_⟩
  show fromPairs _ = _
  clear hbmp hutf16
  induction str with
  | nil => rfl
  | cons c str ih =>
    obtain ⟨hc, hstr⟩ := List.forall_mem_cons.mp hsmall
    have hchar : BitVec.ofNat 32 (ofLittleEndian (littleEndian 2 (c.setWidth 16).toNat)) = c := by
      rw [ofLittleEndian_littleEndian, BitVec.toNat_setWidth]
      apply BitVec.eq_of_toNat_eq
      rw [BitVec.toNat_ofNat]
      omega
    rw [List.map_cons, List.flatMap_cons, fromPairs_append, ih hstr, Option.map_some, hchar]

/-- A daily recurrence with deleted dates. -/
def deletedDates (dates : List UInt) : RecurrenceState where
  ulReaderVersion := 0x3004
  ulWriterVersion := 0x3004
  ulRecurFrequency := 0x200A
  ulPatternType := 0
  ulCalendarType := 0
  ulFirstDateTime := 0
  ulPeriod := 1440
  ulSlidingFlag := 0
  ulWeekDays := 0
  ulDayOfMonth := 0
  ulWeekNumber := 0
  ulEndType := 0x2023
  ulOccurrenceCount := 0
  ulFirstDOW := 1
  ulDeletedInstanceCount := size dates
  lstDeletedInstanceDates := dates
  ulModifiedInstanceCount := 0
  lstModifiedInstanceDates := []
  ulStartDate := 0
  ulEndDate := 0
  ulReaderVersion2 := 0x3006
  ulWriterVersion2 := 0x3009
  ulStartTimeOffset := 0
  ulEndTimeOffset := 0
  ulExceptionCount := 0
  lstExceptions := []
  strReservedBlock1 := []
  lstExtendedExceptions := []
  strReservedBlock2 := []

/-- A series with deleted dates and no exceptions is well-formed if the number of dates fits into 32 bits. -/
theorem wellFormed_deletedDates {dates : List UInt} (hdates : dates.length < 2 ^ 32) :
    WellFormed (deletedDates dates) where
  deletedCount := toNat_size hdates
  modifiedCount := rfl
  exceptionCount := rfl
  sameLength := rfl
  shortHeader := by
    simp [deletedDates]
  shortFlags := by simp [deletedDates]
  shortStrings := by simp [deletedDates]
  shortWide := by simp [deletedDates]
  bmp := by simp [deletedDates]

theorem blobSize_deletedDates (dates : List UInt) : blobSize (deletedDates dates) = 76 + 4 * dates.length := by
  show 68 + patternSize 0 + 4 * dates.length + 4 * 0 + 0 + (4 + 0) + 0 + (4 + 0) = _
  have hpattern : patternSize 0 = 0 := by decide
  omega

/-- A meeting that starts an hour later and has a subject of its own and a busy status. -/
def renamedMeeting : Exception where
  ulStartDateTime := 2940
  ulEndDateTime := 3000
  ulOriginalStartDate := 2880
  ulOverrideFlags := ARO_SUBJECT ||| ARO_BUSYSTATUS
  strSubject := [99, 97, 102, 63]
  ulApptStateFlags := 0
  ulReminderDelta := 0
  ulReminderSet := 0
  strLocation := []
  ulBusyStatus := 2
  ulAttachment := 0
  ulSubType := 0
  ulAppointmentColor := 0

/-- What is stored of it behind the exceptions: the subject with its accented letter, and a highlight value. -/
def renamedExtended : ExtendedException where
  ulChangeHighlightValue := 4
  strReserved := []
  strReservedBlock1 := []
  ulStartDateTime := 2940
  ulEndDateTime := 3000
  ulOriginalStartDate := 2880
  strWideCharSubject := [99, 97, 102, 0xE9]
  strWideCharLocation := []
  strReservedBlock2 := [1, 2]

/-- A daily recurrence with one instance deleted and one changed. -/
def renamedInstance : RecurrenceState :=
  { deletedDates [1440, 2880] with
    ulModifiedInstanceCount := 1
    lstModifiedInstanceDates := [2880]
    ulExceptionCount := 1
    lstExceptions := [renamedMeeting]
    lstExtendedExceptions := [renamedExtended] }

theorem wellFormed_renamedInstance : WellFormed renamedInstance where
  deletedCount := rfl
  modifiedCount := rfl
  exceptionCount := rfl
  sameLength := rfl
  shortHeader := by simp [renamedInstance, deletedDates]
  shortFlags := by simp [renamedInstance, renamedMeeting, ARO_SUBJECT, ARO_BUSYSTATUS]
  shortStrings := by simp [renamedInstance, renamedMeeting]
  shortWide := by simp [renamedInstance, renamedExtended]
  bmp := by simp [renamedInstance, renamedExtended, IsBmp]

theorem blobFits_renamedInstance : BlobFits renamedInstance := by
  have hextended : ExtendedFits 0x3009 renamedMeeting renamedExtended :=
    ⟨fun _ => by decide, by decide, fun _ => by decide⟩
  exact ⟨by decide, by decide, List.forall_mem_singleton.mpr hextended, by decide⟩

/-- The blob of this recurrence is read back, with its exception and its wide subject. -/
theorem parseBlob_getBlob_iff_renamed : RoundTrips ucs2 0 0 (deletedDates []) renamedInstance :=
  (parseBlob_getBlob_iff ucs2 inverseOnBmp_ucs2 0 0 _ _ wellFormed_renamedInstance).mpr blobFits_renamedInstance

/-- A blob with `2 ^ 30` deleted dates does not fit in the buffer. -/
theorem getBlob_deletedDates {dates : List UInt} (hdates : dates.length = 2 ^ 30) :
    (deletedDates dates).getBlob ucs2 = none := by
  have hrs : WellFormed (deletedDates dates) := wellFormed_deletedDates (by omega)
  obtain ⟨data, hdata, hsize, -⟩ := strData_reads 0 inverseOnBmp_ucs2 hrs
  rw [getBlob_of_strData hrs.sameLength hdata hsize, blobSize_deletedDates]
  apply if_neg
  omega

theorem parseBlob_getBlob_deletedDates : InverseOnBmp ucs2 ∧ WellFormed (deletedDates (List.replicate (2 ^ 30) 0)) ∧
      ¬ RoundTrips ucs2 0 0 (deletedDates []) (deletedDates (List.replicate (2 ^ 30) 0)) := by
  have hlength : (List.replicate (2 ^ 30) (0 : UInt)).length = 2 ^ 30 := List.length_replicate
  refine ⟨inverseOnBmp_ucs2, wellFormed_deletedDates (by omega), ?_⟩
  rintro ⟨blob, hblob, -⟩
  rw [getBlob_deletedDates hlength] at hblob
  cases hblob

end Zcp.M4lcommon.RecurrenceState
