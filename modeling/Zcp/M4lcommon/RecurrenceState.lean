import Zcp.Lib.ByteReader
import Zcp.Lib.Endian

/-!
# Recurrence blobs

`RecurrenceState` of `m4lcommon/RecurrenceState.cpp`: `getBlob` writes the fields of a recurrence one
after another, and `parseBlob` reads them back. Which fields are there depends on the pattern type, on
the override flags of each exception and on the writer version.
-/

namespace Zcp.M4lcommon

open Zcp.Lib

/-- `unsigned int`. -/
abbrev UInt := BitVec 32

/-- `std::wstring`. -/
abbrev WString := List (BitVec 32)

/-- `iconv`, as it is used here; `none` is a sequence that cannot be converted. -/
structure Converter where
  /-- `convert_to<utf16string>`. -/
  toUtf16 : WString → Option (List (BitVec 16))
  /-- `TryConvert` from `UCS-2LE`. -/
  fromUcs2 : List UInt8 → Option WString
  /-- `TryConvert` from `windows-1252`. -/
  fromWindows1252 : List UInt8 → Option WString

/-! ## The data -/

def ARO_SUBJECT : UInt := 0x0001
def ARO_MEETINGTYPE : UInt := 0x0002
def ARO_REMINDERDELTA : UInt := 0x0004
def ARO_REMINDERSET : UInt := 0x0008
def ARO_LOCATION : UInt := 0x0010
def ARO_BUSYSTATUS : UInt := 0x0020
def ARO_ATTACHMENT : UInt := 0x0040
def ARO_SUBTYPE : UInt := 0x0080
def ARO_APPTCOLOR : UInt := 0x0100

def RECURRENCE_STATE_TASKS : UInt := 0x02

/-- `RecurrenceState::Exception`. -/
structure Exception where
  ulStartDateTime : UInt
  ulEndDateTime : UInt
  ulOriginalStartDate : UInt
  ulOverrideFlags : UInt
  strSubject : List UInt8
  ulApptStateFlags : UInt
  ulReminderDelta : UInt
  ulReminderSet : UInt
  strLocation : List UInt8
  ulBusyStatus : UInt
  ulAttachment : UInt
  ulSubType : UInt
  ulAppointmentColor : UInt
deriving DecidableEq

/-- An override flag of an exception is set. -/
def Exception.has (e : Exception) (flag : UInt) : Bool := e.ulOverrideFlags &&& flag != 0

/-- `RecurrenceState::ExtendedException`. -/
structure ExtendedException where
  ulChangeHighlightValue : UInt
  strReserved : List UInt8
  strReservedBlock1 : List UInt8
  ulStartDateTime : UInt
  ulEndDateTime : UInt
  ulOriginalStartDate : UInt
  strWideCharSubject : WString
  strWideCharLocation : WString
  strReservedBlock2 : List UInt8
deriving DecidableEq

/-- `RecurrenceState`. -/
structure RecurrenceState where
  ulReaderVersion : UInt
  ulWriterVersion : UInt
  ulRecurFrequency : UInt
  ulPatternType : UInt
  ulCalendarType : UInt
  ulFirstDateTime : UInt
  ulPeriod : UInt
  ulSlidingFlag : UInt
  ulWeekDays : UInt
  ulDayOfMonth : UInt
  ulWeekNumber : UInt
  ulEndType : UInt
  ulOccurrenceCount : UInt
  ulFirstDOW : UInt
  ulDeletedInstanceCount : UInt
  lstDeletedInstanceDates : List UInt
  ulModifiedInstanceCount : UInt
  lstModifiedInstanceDates : List UInt
  ulStartDate : UInt
  ulEndDate : UInt
  ulReaderVersion2 : UInt
  ulWriterVersion2 : UInt
  ulStartTimeOffset : UInt
  ulEndTimeOffset : UInt
  ulExceptionCount : UInt
  lstExceptions : List Exception
  strReservedBlock1 : List UInt8
  lstExtendedExceptions : List ExtendedException
  strReservedBlock2 : List UInt8
deriving DecidableEq

namespace RecurrenceState

inductive HRESULT where
  | hrSuccess
  | MAPI_E_NOT_FOUND
  | MAPI_E_CORRUPT_DATA
  | MAPI_W_ERRORS_RETURNED
deriving DecidableEq, Repr

/-! ## Writing -/

/-- `BinWriter::WriteShort`. -/
def WRITESHORT (x : UInt) : List UInt8 := littleEndian 2 x.toNat

/-- `BinWriter::WriteLong`. -/
def WRITELONG (x : UInt) : List UInt8 := littleEndian 4 x.toNat

/-- `(ULONG)x.size()`. -/
def size {α : Type} (x : List α) : UInt := BitVec.ofNat 32 x.length

/-- The fields of a pattern type. -/
def writePattern (rs : RecurrenceState) : List UInt8 :=
  if rs.ulPatternType = 0x0000 then []
  else if rs.ulPatternType = 0x0001 then WRITELONG rs.ulWeekDays
  else if rs.ulPatternType = 0x0002 ∨ rs.ulPatternType = 0x0004 ∨ rs.ulPatternType = 0x000a ∨
      rs.ulPatternType = 0x000c then WRITELONG rs.ulDayOfMonth
  else if rs.ulPatternType = 0x0003 ∨ rs.ulPatternType = 0x000b then
    WRITELONG rs.ulWeekDays ++ WRITELONG rs.ulWeekNumber
  else []

/-- The part of `GetBlob` in front of the exceptions. -/
def writeHeader (rs : RecurrenceState) : List UInt8 :=
  WRITESHORT rs.ulReaderVersion ++ WRITESHORT rs.ulWriterVersion ++
  WRITESHORT rs.ulRecurFrequency ++ WRITESHORT rs.ulPatternType ++
  WRITESHORT rs.ulCalendarType ++
  WRITELONG rs.ulFirstDateTime ++
  WRITELONG rs.ulPeriod ++
  WRITELONG rs.ulSlidingFlag ++
  rs.writePattern ++
  WRITELONG rs.ulEndType ++
  WRITELONG rs.ulOccurrenceCount ++
  WRITELONG rs.ulFirstDOW ++
  WRITELONG rs.ulDeletedInstanceCount ++
  rs.lstDeletedInstanceDates.flatMap WRITELONG ++
  WRITELONG rs.ulModifiedInstanceCount ++
  rs.lstModifiedInstanceDates.flatMap WRITELONG ++
  WRITELONG rs.ulStartDate ++
  WRITELONG rs.ulEndDate ++
  WRITELONG rs.ulReaderVersion2 ++
  WRITELONG rs.ulWriterVersion2 ++
  WRITELONG rs.ulStartTimeOffset ++
  WRITELONG rs.ulEndTimeOffset ++
  WRITESHORT rs.ulExceptionCount

/-- A field that is written only when a flag of the exception is set. -/
def writeIf (c : Prop) [Decidable c] (bytes : List UInt8) : List UInt8 := if c then bytes else []

/-- A string of an exception, with its size and the size with the terminating zero. -/
def writeString (str : List UInt8) : List UInt8 :=
  WRITESHORT (size str + 1) ++ WRITESHORT (size str) ++ str

/-- One of the exceptions. -/
def writeException (i : Exception) : List UInt8 :=
  WRITELONG i.ulStartDateTime ++
  WRITELONG i.ulEndDateTime ++
  WRITELONG i.ulOriginalStartDate ++
  WRITESHORT i.ulOverrideFlags ++
  writeIf (i.has ARO_SUBJECT) (writeString i.strSubject) ++
  writeIf (i.has ARO_MEETINGTYPE) (WRITELONG i.ulApptStateFlags) ++
  writeIf (i.has ARO_REMINDERDELTA) (WRITELONG i.ulReminderDelta) ++
  writeIf (i.has ARO_REMINDERSET) (WRITELONG i.ulReminderSet) ++
  writeIf (i.has ARO_LOCATION) (writeString i.strLocation) ++
  writeIf (i.has ARO_BUSYSTATUS) (WRITELONG i.ulBusyStatus) ++
  writeIf (i.has ARO_ATTACHMENT) (WRITELONG i.ulAttachment) ++
  writeIf (i.has ARO_SUBTYPE) (WRITELONG i.ulSubType) ++
  writeIf (i.has ARO_APPTCOLOR) (WRITELONG i.ulAppointmentColor)

/-- A string with a size of four bytes. -/
def writeBlock (str : List UInt8) : List UInt8 := WRITELONG (size str) ++ str

/-- A wide string in UTF-16. -/
def writeWide (conv : Converter) (str : WString) : Option (List UInt8) := do
  let strWide ← conv.toUtf16 str
  some (WRITESHORT (size strWide) ++ strWide.flatMap fun c => littleEndian 2 c.toNat)

/-- A wide string that is written only under a condition. -/
def writeWideIf (conv : Converter) (c : Prop) [Decidable c] (str : WString) :
    Option (List UInt8) :=
  if c then writeWide conv str else some []

/-- One of the extended exceptions, with the exception it belongs to. -/
def writeExtended (conv : Converter) (ulWriterVersion2 : UInt) (j : Exception)
    (i : ExtendedException) : Option (List UInt8) := do
  let subject ← writeWideIf conv (j.has ARO_SUBJECT) i.strWideCharSubject
  let location ← writeWideIf conv (j.has ARO_LOCATION) i.strWideCharLocation
  some (writeIf (0x00003009 ≤ ulWriterVersion2)
      (WRITELONG (size i.strReserved + 4) ++ WRITELONG i.ulChangeHighlightValue ++ i.strReserved) ++
    writeBlock i.strReservedBlock1 ++
    writeIf (j.has ARO_SUBJECT ∨ j.has ARO_LOCATION)
      (WRITELONG i.ulStartDateTime ++ WRITELONG i.ulEndDateTime ++
        WRITELONG i.ulOriginalStartDate) ++
    subject ++
    location ++
    writeIf (j.has ARO_SUBJECT ∨ j.has ARO_LOCATION) (writeBlock i.strReservedBlock2))

/-- All extended exceptions. -/
def writeExtendeds (conv : Converter) (ulWriterVersion2 : UInt) :
    List Exception → List ExtendedException → Option (List UInt8)
  | j :: js, i :: is => do
    let first ← writeExtended conv ulWriterVersion2 j i
    let others ← writeExtendeds conv ulWriterVersion2 js is
    some (first ++ others)
  | _, _ => some []

/-- What `GetBlob` writes, when there are as many extended exceptions as exceptions. -/
def strData (conv : Converter) (rs : RecurrenceState) : Option (List UInt8) := do
  let extended ← writeExtendeds conv rs.ulWriterVersion2 rs.lstExceptions rs.lstExtendedExceptions
  some (rs.writeHeader ++
    rs.lstExceptions.flatMap writeException ++
    writeBlock rs.strReservedBlock1 ++
    extended ++
    writeBlock rs.strReservedBlock2)

/-- `GetBlob`; `none` when a conversion throws, or when the bytes do not fit in the buffer, whose size is
the number of bytes in 32 bits. -/
def getBlob (conv : Converter) (rs : RecurrenceState) : Option (HRESULT × List UInt8) :=
  if rs.lstExceptions.length ≠ rs.lstExtendedExceptions.length then some (.MAPI_E_CORRUPT_DATA, [])
  else do
    let strData ← rs.strData conv
    if strData.length % 2 ^ 32 < strData.length then none
    else some (.hrSuccess, strData)

/-! ## Reading -/

/-- Why reading stops: there are not enough bytes, or a byte behind the data was read. -/
inductive ReadStop where
  | short
  | outside
deriving DecidableEq, Repr

/-- The variables of `ParseBlob`. -/
structure ParseState where
  ulLen : ℕ
  rs : RecurrenceState
  bReadValid : Bool
  bExtended : Bool

abbrev Parse := ByteReader ReadStop ParseState

/-- The next `n` bytes as a number. The check `m_ulCursor + n > m_ulLen` is made in 32 bits. -/
def readNumber (n : ℕ) : Parse UInt := do
  let left ← ByteReader.left
  let st ← ByteReader.get
  if left < n then
    if st.ulLen - left + n < 2 ^ 32 then ByteReader.stop .short else ByteReader.stop .outside
  else do
    let bytes ← ByteReader.take n
    pure (BitVec.ofNat 32 (ofLittleEndian bytes))

/-- `READSHORT` into a variable. -/
def READSHORT : Parse UInt := readNumber 2

/-- `READLONG` into a variable. -/
def READLONG : Parse UInt := readNumber 4

/-- Change the recurrence. -/
def set (f : RecurrenceState → RecurrenceState) : Parse Unit :=
  ByteReader.modify fun st => { st with rs := f st.rs }

/-- `READSTRING` into what `f` sets, which gets the bytes that are there also when they are not enough.
`ReadString` returns the size as an `int`, and a negative one is an error. -/
def readBytes (f : List UInt8 → RecurrenceState → RecurrenceState) (len : UInt) :
    Parse (List UInt8) := do
  let left ← ByteReader.left
  let bytes ← ByteReader.take len.toNat
  set (f bytes)
  if left < len.toNat ∨ 2 ^ 31 ≤ len.toNat then ByteReader.stop .short else pure bytes

/-- `READSTRING` into a variable. -/
def READSTRING (len : UInt) : Parse (List UInt8) := readBytes (fun _ rs => rs) len

/-- `READSHORT` into a field. -/
def shortField (f : UInt → RecurrenceState → RecurrenceState) : Parse Unit := do
  let x ← READSHORT
  set (f x)

/-- `READLONG` into a field. -/
def longField (f : UInt → RecurrenceState → RecurrenceState) : Parse Unit := do
  let x ← READLONG
  set (f x)

/-- The fields of a pattern type. -/
def readPattern (ulPatternType : UInt) : Parse Unit :=
  if ulPatternType = 0x0000 then pure ()
  else if ulPatternType = 0x0001 then longField fun x rs => { rs with ulWeekDays := x }
  else if ulPatternType = 0x0002 ∨ ulPatternType = 0x0004 ∨ ulPatternType = 0x000a ∨
      ulPatternType = 0x000c then longField fun x rs => { rs with ulDayOfMonth := x }
  else if ulPatternType = 0x0003 ∨ ulPatternType = 0x000b then do
    longField fun x rs => { rs with ulWeekDays := x }
    longField fun x rs => { rs with ulWeekNumber := x }
  else pure ()

/-- The part of `ParseBlob` in front of the exceptions. -/
def readHeader (ulFlags : UInt) : Parse Unit := do
  shortField fun x rs => { rs with ulReaderVersion := x }
  shortField fun x rs => { rs with ulWriterVersion := x }
  shortField fun x rs => { rs with ulRecurFrequency := x }
  shortField fun x rs => { rs with ulPatternType := x }
  shortField fun x rs => { rs with ulCalendarType := x }
  longField fun x rs => { rs with ulFirstDateTime := x }
  longField fun x rs => { rs with ulPeriod := x }
  longField fun x rs => { rs with ulSlidingFlag := x }
  readPattern (← ByteReader.get).rs.ulPatternType
  longField fun x rs => { rs with ulEndType := x }
  longField fun x rs => { rs with ulOccurrenceCount := x }
  longField fun x rs => { rs with ulFirstDOW := x }
  longField fun x rs => { rs with ulDeletedInstanceCount := x }
  ByteReader.times (longField fun x rs =>
      { rs with lstDeletedInstanceDates := rs.lstDeletedInstanceDates ++ [x] })
    (← ByteReader.get).rs.ulDeletedInstanceCount.toNat
  longField fun x rs => { rs with ulModifiedInstanceCount := x }
  ByteReader.times (longField fun x rs =>
      { rs with lstModifiedInstanceDates := rs.lstModifiedInstanceDates ++ [x] })
    (← ByteReader.get).rs.ulModifiedInstanceCount.toNat
  longField fun x rs => { rs with ulStartDate := x }
  longField fun x rs => { rs with ulEndDate := x }
  ByteReader.modify fun st =>
    if ulFlags &&& RECURRENCE_STATE_TASKS != 0 then { st with bReadValid := true } else st
  longField fun x rs => { rs with ulReaderVersion2 := x }
  longField fun x rs => { rs with ulWriterVersion2 := x }
  longField fun x rs => { rs with ulStartTimeOffset := x }
  longField fun x rs => { rs with ulEndTimeOffset := x }
  shortField fun x rs => { rs with ulExceptionCount := x }

/-- An `Exception` whose numbers were not set. -/
def Exception.unset (junk : UInt) : Exception :=
  ⟨junk, junk, junk, junk, [], junk, junk, junk, [], junk, junk, junk, junk⟩

/-- An `ExtendedException` whose numbers were not set. -/
def ExtendedException.unset (junk : UInt) : ExtendedException :=
  ⟨junk, [], [], junk, junk, junk, [], [], []⟩

/-- A value that is read only under a condition. -/
def readIf {α : Type} (c : Prop) [Decidable c] (old : α) (p : Parse α) : Parse α :=
  if c then p else pure old

/-- A string of an exception; the first size is not used. -/
def readString : Parse (List UInt8) := do
  let _ ← READSHORT
  let ulLength2 ← READSHORT
  READSTRING ulLength2

/-- One of the exceptions. -/
def readException (junk : UInt) : Parse Unit := do
  let sException := Exception.unset junk
  let ulStartDateTime ← READLONG
  let ulEndDateTime ← READLONG
  let ulOriginalStartDate ← READLONG
  let ulOverrideFlags ← READSHORT
  let has (flag : UInt) : Prop := (ulOverrideFlags &&& flag != 0) = true
  let strSubject ← readIf (has ARO_SUBJECT) sException.strSubject readString
  let ulApptStateFlags ← readIf (has ARO_MEETINGTYPE) sException.ulApptStateFlags READLONG
  let ulReminderDelta ← readIf (has ARO_REMINDERDELTA) sException.ulReminderDelta READLONG
  let ulReminderSet ← readIf (has ARO_REMINDERSET) sException.ulReminderSet READLONG
  let strLocation ← readIf (has ARO_LOCATION) sException.strLocation readString
  let ulBusyStatus ← readIf (has ARO_BUSYSTATUS) sException.ulBusyStatus READLONG
  let ulAttachment ← readIf (has ARO_ATTACHMENT) sException.ulAttachment READLONG
  let ulSubType ← readIf (has ARO_SUBTYPE) sException.ulSubType READLONG
  let ulAppointmentColor ← readIf (has ARO_APPTCOLOR) sException.ulAppointmentColor READLONG
  set fun rs => { rs with lstExceptions := rs.lstExceptions ++
    [⟨ulStartDateTime, ulEndDateTime, ulOriginalStartDate, ulOverrideFlags, strSubject,
      ulApptStateFlags, ulReminderDelta, ulReminderSet, strLocation, ulBusyStatus, ulAttachment,
      ulSubType, ulAppointmentColor⟩] }

/-- A string with a size of four bytes. -/
def readBlock : Parse (List UInt8) := do
  let len ← READLONG
  READSTRING len

/-- A wide string; a string that cannot be converted is left empty. -/
def readWide (conv : Converter) : Parse WString := do
  let ulWideCharLength ← READSHORT
  let strBytes ← READSTRING (ulWideCharLength * 2)
  pure ((conv.fromUcs2 strBytes).getD [])

/-- One of the extended exceptions. -/
def readExtended (conv : Converter) (junk : UInt) (iterExceptions : Exception) : Parse Unit := do
  let sExtendedException := ExtendedException.unset junk
  let hasText : Prop := iterExceptions.has ARO_SUBJECT ∨ iterExceptions.has ARO_LOCATION
  let ulWriterVersion2 := (← ByteReader.get).rs.ulWriterVersion2
  let (ulChangeHighlightValue, strReserved) ← readIf (0x00003009 ≤ ulWriterVersion2)
    (sExtendedException.ulChangeHighlightValue, sExtendedException.strReserved) do
      let ulChangeHighlightSize ← READLONG
      let ulChangeHighlightValue ← READLONG
      let strReserved ← READSTRING (ulChangeHighlightSize - 4)
      pure (ulChangeHighlightValue, strReserved)
  let strReservedBlock1 ← readBlock
  let (ulStartDateTime, ulEndDateTime, ulOriginalStartDate) ← readIf hasText
    (sExtendedException.ulStartDateTime, sExtendedException.ulEndDateTime,
      sExtendedException.ulOriginalStartDate) do
      let ulStartDateTime ← READLONG
      let ulEndDateTime ← READLONG
      let ulOriginalStartDate ← READLONG
      pure (ulStartDateTime, ulEndDateTime, ulOriginalStartDate)
  let strWideCharSubject ← readIf (iterExceptions.has ARO_SUBJECT)
    sExtendedException.strWideCharSubject (readWide conv)
  let strWideCharLocation ← readIf (iterExceptions.has ARO_LOCATION)
    sExtendedException.strWideCharLocation (readWide conv)
  let strReservedBlock2 ← readIf hasText sExtendedException.strReservedBlock2 readBlock
  set fun rs => { rs with lstExtendedExceptions := rs.lstExtendedExceptions ++
    [⟨ulChangeHighlightValue, strReserved, strReservedBlock1, ulStartDateTime, ulEndDateTime,
      ulOriginalStartDate, strWideCharSubject, strWideCharLocation, strReservedBlock2⟩] }

/-- The body of `ParseBlob` in front of `exit`. -/
def readBlob (conv : Converter) (junk ulFlags : UInt) : Parse Unit := do
  readHeader ulFlags
  ByteReader.times (readException junk) (← ByteReader.get).rs.ulExceptionCount.toNat
  ByteReader.modify fun st => { st with bReadValid := true }
  let ulReservedBlock1Size ← READLONG
  let _ ← readBytes (fun x rs => { rs with strReservedBlock1 := x }) ulReservedBlock1Size
  ByteReader.each (readExtended conv junk) (← ByteReader.get).rs.lstExceptions
  ByteReader.modify fun st => { st with bExtended := true }
  let ulReservedBlock2Size ← READLONG
  let _ ← readBytes (fun x rs => { rs with strReservedBlock2 := x }) ulReservedBlock2Size
  pure ()

/-- An extended exception with the data of a normal one. -/
def syncExtended (conv : Converter) (e : Exception) : ExtendedException where
  ulChangeHighlightValue := 0
  strReserved := []
  strReservedBlock1 := []
  ulStartDateTime := e.ulStartDateTime
  ulEndDateTime := e.ulEndDateTime
  ulOriginalStartDate := e.ulOriginalStartDate
  strWideCharSubject :=
    if e.has ARO_SUBJECT then (conv.fromWindows1252 e.strSubject).getD [] else []
  strWideCharLocation :=
    if e.has ARO_LOCATION then (conv.fromWindows1252 e.strLocation).getD [] else []
  strReservedBlock2 := []

/-- The end of `ParseBlob`. `none` when it looks for an exception that was not read. -/
def finish (conv : Converter) (hr : HRESULT) (st : ParseState) :
    Option (HRESULT × RecurrenceState) :=
  if hr ≠ .hrSuccess ∧ st.bReadValid then
    if st.bExtended then some (.MAPI_W_ERRORS_RETURNED, st.rs)
    else do
      let lstExtendedExceptions ← (List.range st.rs.ulExceptionCount.toNat).mapM fun i =>
        st.rs.lstExceptions[i]?.map (syncExtended conv)
      some (.MAPI_W_ERRORS_RETURNED, { st.rs with lstExtendedExceptions := lstExtendedExceptions })
  else some (hr, st.rs)

/-- `ParseBlob`; `none` when it reads outside of the data. -/
def parseBlob (conv : Converter) (junk : UInt) (rs : RecurrenceState) (lpData : List UInt8)
    (ulFlags : UInt) : Option (HRESULT × RecurrenceState) :=
  let cleared : RecurrenceState :=
    { rs with
      lstDeletedInstanceDates := []
      lstModifiedInstanceDates := []
      lstExceptions := []
      lstExtendedExceptions := [] }
  match readBlob conv junk ulFlags lpData ⟨lpData.length, cleared, false, false⟩ with
  | (.error .outside, _, _) => none
  | (.error .short, _, st) => finish conv .MAPI_E_NOT_FOUND st
  | (.ok (), [], st) => finish conv .hrSuccess st
  | (.ok (), _ :: _, st) => finish conv .MAPI_E_NOT_FOUND st

end RecurrenceState

end Zcp.M4lcommon
