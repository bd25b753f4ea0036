import Zcp.FreeBusy.Recurrence

/-!
# The dates of a recurrence

The setters of `libfreebusy/recurrence.cpp`, some of which change the pattern type or the period as well, and the
functions that calculate the first and the last date of a recurrence from its pattern.
-/

namespace Zcp.FreeBusy.Recurrence

open Zcp.Lib Zcp.Common Zcp.M4lcommon

/-- `UCHAR`. -/
abbrev UCHAR := BitVec 8

def ET_NEVER : UInt := 0x2023

def WD_MASK : UInt := 0x7F

def PT_MONTH : UInt := 0x2

def PT_MONTH_NTH : UInt := 0x3

/-- The constructors, which leave the end date as it is. -/
def new (ulEndDate : UInt) : Recurrence where
  m_sRecState :=
    { ulReaderVersion := 0x3004
      ulWriterVersion := 0x3004
      ulRecurFrequency := 0
      ulPatternType := 0
      ulCalendarType := 0
      ulFirstDateTime := 0
      ulPeriod := 0
      ulSlidingFlag := 0
      ulWeekDays := 0
      ulDayOfMonth := 0
      ulWeekNumber := 0
      ulEndType := 0
      ulOccurrenceCount := 0
      ulFirstDOW := 1
      ulDeletedInstanceCount := 0
      lstDeletedInstanceDates := []
      ulModifiedInstanceCount := 0
      lstModifiedInstanceDates := []
      ulStartDate := 0
      ulEndDate := ulEndDate
      ulReaderVersion2 := 0x3006
      ulWriterVersion2 := 0x3008
      ulStartTimeOffset := 0
      ulEndTimeOffset := 0
      ulExceptionCount := 0
      lstExceptions := []
      strReservedBlock1 := []
      lstExtendedExceptions := []
      strReservedBlock2 := [] }
  m_ulMonth := 0

/-! ## Setters and getters -/

variable (r : Recurrence)

def setFrequency : FreqType → Recurrence
  | .DAILY =>
    { r with m_sRecState :=
      { r.m_sRecState with ulRecurFrequency := RF_DAILY, ulPatternType := 0, ulPeriod := 60 * 24 } }
  | .WEEKLY =>
    { r with m_sRecState :=
      { r.m_sRecState with ulRecurFrequency := RF_WEEKLY, ulPatternType := 1, ulPeriod := 1 } }
  | .MONTHLY =>
    { r with m_sRecState :=
      { r.m_sRecState with ulRecurFrequency := RF_MONTHLY, ulPatternType := 2, ulPeriod := 1 } }
  | .YEARLY =>
    { r with m_sRecState :=
      { r.m_sRecState with ulRecurFrequency := RF_YEARLY, ulPatternType := 2, ulPeriod := 12 } }

def getStartDateTime : ℤ :=
  rTimeToUnixTime r.m_sRecState.ulStartDate + (r.m_sRecState.ulStartTimeOffset * 60).toNat

def setStartDateTime (t : ℤ) : Recurrence :=
  let startDate := startOfDay t
  { r with m_sRecState :=
    { r.m_sRecState with
      ulStartDate := BitVec.ofInt 32 (unixTimeToRTime startDate)
      ulStartTimeOffset := BitVec.ofInt 32 ((t - startDate).tdiv 60) } }

def setCount (ulCount : UInt) : Recurrence :=
  { r with m_sRecState := { r.m_sRecState with ulOccurrenceCount := ulCount } }

def setEndType (t : TermType) : Recurrence :=
  { r with m_sRecState :=
    { r.m_sRecState with ulEndType := match t with | .DATE => ET_DATE | .NUMBER => ET_NUMBER | .NEVER => ET_NEVER } }

/-- `setInterval`, after `setFrequency`. -/
def setInterval (i : UInt) : Recurrence :=
  if i = 0 then r else { r with m_sRecState := { r.m_sRecState with ulPeriod := r.m_sRecState.ulPeriod * i } }

def getFirstDOW : UInt := r.m_sRecState.ulFirstDOW

def setFirstDOW (ulFirstDOW : UInt) : Recurrence :=
  { r with m_sRecState := { r.m_sRecState with ulFirstDOW := ulFirstDOW } }

/-- `setWeekDays`, which makes a daily recurrence one of weekdays. -/
def setWeekDays (d : UCHAR) : Recurrence :=
  let s := if r.m_sRecState.ulPatternType = 0 then
      { r.m_sRecState with ulPatternType := 1, ulPeriod := r.m_sRecState.ulPeriod / (24 * 60) }
    else r.m_sRecState
  { r with m_sRecState := { s with ulWeekDays := d.setWidth 32 &&& WD_MASK } }

def setDayOfMonth (d : UCHAR) : Recurrence :=
  { r with m_sRecState := { r.m_sRecState with ulDayOfMonth := d.setWidth 32 } }

/-- `setWeekNumber`, which makes the pattern one of the n-th weekday. -/
def setWeekNumber (s : UCHAR) : Recurrence :=
  { r with m_sRecState := { r.m_sRecState with ulPatternType := 3, ulWeekNumber := s.setWidth 32 } }

def addDeletedException (tDelete : ℤ) : Recurrence :=
  { r with m_sRecState :=
    { r.m_sRecState with
      lstDeletedInstanceDates := r.m_sRecState.lstDeletedInstanceDates ++
        [BitVec.ofInt 32 (unixTimeToRTime (startOfDay tDelete))] } }

/-! ## Months -/

/-- `MonthInSeconds`. -/
def monthInSeconds (year month : ℤ) : ℤ :=
  (daysInMonth (BitVec.ofInt 32 year) (BitVec.ofInt 32 month) * 24 * 60 * 60).toNat

/-- The loops that go on by some months. -/
def addMonths : ℕ → (curyear curmonth : ℤ) → ℤ → ℤ
  | 0, _, _, tStart => tStart
  | count + 1, curyear, curmonth, tStart =>
    let tStart := tStart + monthInSeconds curyear curmonth
    if curmonth = 12 then addMonths count (curyear + 1) 1 tStart
    else addMonths count curyear (curmonth + 1) tStart

/-- A weekday is one of those of the recurrence. A negative number shifts a bit out of the week. -/
def hasWeekDay (wday : ℤ) : Bool := 0 ≤ wday ∧ r.m_sRecState.ulWeekDays &&& 1 <<< wday.toNat ≠ 0

/-- The first of seven days, counted forward from a weekday, that is one of the recurrence. -/
def dayForward (tm_wday : ℤ) : Option ℕ := (List.range 7).find? fun i => r.hasWeekDay ((tm_wday + i).tmod 7)

/-- The first of seven days, counted backward from a weekday. Behind Sunday there is none. -/
def dayBackward (tm_wday : ℤ) : Option ℕ := (List.range 7).find? fun i => r.hasWeekDay ((tm_wday - i).tmod 7)

/-! ## `calcStartDate` -/

/-- The first occurrence of a weekly recurrence. -/
def weeklySkip (tStart : ℤ) : ℤ :=
  let tm := gmtimeSafe tStart
  let dayskip : ℤ := ((r.dayForward tm.tm_wday).map Int.ofNat).getD (-1)
  let weekskip : UInt :=
    if tm.tm_wday < r.m_sRecState.ulFirstDOW.toInt ∧ dayskip > 0 ∨ tm.tm_wday + dayskip > 6 then 1 else 0
  tStart + dayskip * 24 * 60 * 60 + (weekskip * (r.m_sRecState.ulPeriod - 1) * 7 * 24 * 60 * 60).toNat

/-- The start of a weekly recurrence. -/
def weeklyStart : ℤ := r.weeklySkip r.getStartDateTime

/-- The months to the first occurrence on a day of the month. -/
def monthSkip (tm : Tm) : UInt :=
  let s := r.m_sRecState
  if s.ulRecurFrequency = RF_MONTHLY ∧ s.ulDayOfMonth.toInt < tm.tm_mday then s.ulPeriod
  else if s.ulRecurFrequency = RF_YEARLY then
    if (r.getMonth : ℤ) - 1 < tm.tm_mon ∨
        (r.getMonth : ℤ) - 1 = tm.tm_mon ∧ s.ulDayOfMonth.toInt < tm.tm_mday then
      s.ulPeriod - BitVec.ofInt 32 (tm.tm_mon - (r.getMonth - 1))
    else if (r.getMonth : ℤ) - 1 > tm.tm_mon then BitVec.ofInt 32 (r.getMonth - 1 - tm.tm_mon)
    else 0
  else 0

/-- The start of a recurrence on a day of the month. -/
def monthDayStart : ℤ :=
  let s := r.m_sRecState
  let tm := gmtimeSafe r.getStartDateTime
  let tStart := r.getStartDateTime - (tm.tm_mday - 1) * 24 * 60 * 60
  let tStart := tStart + ((s.ulDayOfMonth - 1) * 24 * 60 * 60).toNat
  let tStart := addMonths (r.monthSkip tm).toNat (tm.tm_year + 1900) (tm.tm_mon + 1) tStart
  -- a day that a month does not have is one of the next month
  if s.ulDayOfMonth ≥ 28 ∧ s.ulDayOfMonth ≤ 31 then
    let tm := gmtimeSafe tStart
    if tm.tm_mday < s.ulDayOfMonth.toInt then tStart - tm.tm_mday * 24 * 60 * 60 else tStart
  else tStart

/-- `bMoveMonth`: the day is behind the one of its month. -/
def bMoveMonth (tm : Tm) : Bool :=
  if r.m_sRecState.ulWeekNumber = 5 then
    (r.dayBackward tm.tm_wday).any fun i =>
      (daysInMonth (BitVec.ofInt 32 (tm.tm_year + 1900)) (BitVec.ofInt 32 (tm.tm_mon + 1)) -
        BitVec.ofNat 32 i).toInt < tm.tm_mday
  else (r.dayForward tm.tm_wday).any fun i =>
    tm.tm_mday + i > (r.m_sRecState.ulWeekNumber * 7).toInt

/-- Go to the right month. -/
def moveMonths (tm : Tm) (bMoveMonth : Bool) (tStart : ℤ) : ℤ :=
  let s := r.m_sRecState
  if s.ulRecurFrequency = RF_YEARLY then
    let count : UInt :=
      if (r.getMonth : ℤ) - 1 < tm.tm_mon ∨ (r.getMonth : ℤ) - 1 = tm.tm_mon ∧ bMoveMonth then
        BitVec.ofInt 32 (12 - tm.tm_mon + (r.getMonth - 1))
      else BitVec.ofInt 32 (r.getMonth - 1 - tm.tm_mon)
    addMonths count.toNat (tm.tm_year + 1900) (tm.tm_mon + 1) tStart
  else if bMoveMonth then
    if s.ulWeekNumber = 5 then
      if tm.tm_mon + 1 = 12 then addMonths s.ulPeriod.toNat (tm.tm_year + 1900 + 1) 1 tStart
      else addMonths s.ulPeriod.toNat (tm.tm_year + 1900) (tm.tm_mon + 1 + 1) tStart
    else addMonths s.ulPeriod.toNat (tm.tm_year + 1900) (tm.tm_mon + 1) tStart
  else tStart

/-- Go to the right day, from the first or the last day of the month. -/
def seekDay (tStart : ℤ) : ℤ :=
  let s := r.m_sRecState
  let tm := gmtimeSafe tStart
  if s.ulWeekNumber = 5 then
    match r.dayBackward tm.tm_wday with
    | some i => tStart - i * 24 * 60 * 60
    | none => tStart
  else match r.dayForward tm.tm_wday with
    | some i =>
      tStart + (((s.ulWeekNumber - 1) * 7 + BitVec.ofNat 32 (i + 1) - 1) * 24 * 60 * 60).toNat
    | none => tStart

/-- The start of a recurrence on the n-th or the last weekday of a month. -/
def monthNthStart : ℤ :=
  let tm := gmtimeSafe r.getStartDateTime
  let tStart := r.getStartDateTime - (tm.tm_mday - 1) * 24 * 60 * 60
  let tStart := if r.m_sRecState.ulWeekNumber = 5 then
      tStart + monthInSeconds (tm.tm_year + 1900) (tm.tm_mon + 1) - 24 * 60 * 60
    else tStart
  r.seekDay (r.moveMonths tm (r.bMoveMonth tm) tStart)

def calcStartDate : ℤ :=
  let s := r.m_sRecState
  if s.ulRecurFrequency = RF_WEEKLY then r.weeklyStart
  else if s.ulRecurFrequency = RF_MONTHLY ∨ s.ulRecurFrequency = RF_YEARLY then
    if s.ulPatternType = PT_MONTH then r.monthDayStart
    else if s.ulPatternType = PT_MONTH_NTH then r.monthNthStart
    else r.getStartDateTime
  else r.getStartDateTime

/-! ## `calcEndDate` -/

/-- `calcBits`. -/
def calcBits (x : UInt) : ℕ := (List.range 32).countP fun i => x.getLsbD i

/-- The loop over the days behind the last full week; `tm_wday` is the weekday it starts with. -/
def restDays (tm_wday : ℤ) : ℕ → (j : ℤ) → (rest : ℤ) → ℤ → Option ℤ
  | 0, _, _, _ => none
  | fuel + 1, j, rest, tEnd =>
    if r.m_sRecState.ulWeekDays ≠ 0 ∧ rest > 0 then
      let tEnd := if (tm_wday + j).tmod 7 = r.getFirstDOW.toInt then
          tEnd + ((r.m_sRecState.ulPeriod - 1) * 7 * 24 * 60 * 60).toNat
        else tEnd
      let rest := if r.hasWeekDay ((tm_wday + j).tmod 7) then rest - 1 else rest
      restDays tm_wday fuel (j + 1) rest (tEnd + 24 * 60 * 60)
    else some tEnd

/-- The end of a weekly recurrence, and of a daily one on weekdays. -/
def weeklyEnd (fuel : ℕ) : Option ℤ :=
  let s := r.m_sRecState
  let daycount := calcBits s.ulWeekDays
  if daycount = 0 then none
  else
    let fwd : UInt := BitVec.ofNat 32 ((s.ulOccurrenceCount - 1).toNat / daycount)
    let rest : UInt := s.ulOccurrenceCount - fwd * BitVec.ofNat 32 daycount - 1
    let fwd := fwd * s.ulPeriod
    let tEnd := r.getStartDateTime + (fwd * 7 * 24 * 60 * 60).toInt
    r.restDays (gmtimeSafe tEnd).tm_wday fuel 1 rest.toInt tEnd

/-- The loop that goes from one matching day of the week to the next, as each of them is a step. -/
def monthNthEnd (tEnd : ℤ) : ℤ :=
  let s := r.m_sRecState
  (List.range 7).foldl (fun tEnd (daycount : ℕ) =>
    let tm := gmtimeSafe tEnd
    if s.ulWeekNumber = 5 ∧ r.hasWeekDay ((tm.tm_wday - daycount).tmod 7) then tEnd - tm.tm_mday * 24 * 60 * 60
    else if s.ulWeekNumber ≠ 5 ∧ r.hasWeekDay ((tm.tm_wday + daycount).tmod 7) then
      tEnd + ((BitVec.ofNat 32 daycount + (s.ulWeekNumber - 1) * 7) * 24 * 60 * 60).toNat
    else tEnd) tEnd

/-- The end of a monthly or yearly recurrence. -/
def monthlyEnd : ℤ :=
  let s := r.m_sRecState
  let tm := gmtimeSafe r.getStartDateTime
  let fwd : UInt := (s.ulOccurrenceCount - 1) * s.ulPeriod
  let tEnd := addMonths fwd.toInt.toNat (tm.tm_year + 1900) (tm.tm_mon + 1) r.getStartDateTime
  let tm := gmtimeSafe tEnd
  let daysInMonth := daysInMonth (BitVec.ofInt 32 (tm.tm_year + 1900)) (BitVec.ofInt 32 (tm.tm_mon + 1))
  if s.ulPatternType = 2 then
    if s.ulDayOfMonth ≥ 28 ∧ s.ulDayOfMonth ≤ 31 ∧ tm.tm_mday < s.ulDayOfMonth.toInt then
      if tm.tm_mday < 28 then tEnd - tm.tm_mday * 24 * 60 * 60
      else tEnd + ((daysInMonth - BitVec.ofInt 32 tm.tm_mday) * 24 * 60 * 60).toNat
    else tEnd
  else if s.ulPatternType = 3 then
    r.monthNthEnd (if s.ulWeekNumber = 5 then
        tEnd + ((daysInMonth - BitVec.ofInt 32 tm.tm_mday) * 24 * 60 * 60).toNat
      else tEnd - (tm.tm_mday - 1) * 24 * 60 * 60)
  else tEnd

/-- `calcEndDate`, for which a week without a day has no end. -/
def calcEndDate (fuel : ℕ) : Option ℤ :=
  let s := r.m_sRecState
  if s.ulEndType ≠ ET_NUMBER then some r.getEndDateTime
  else if s.ulRecurFrequency = RF_DAILY ∧ s.ulPatternType = 0 then
    some (r.getStartDateTime + (s.ulPeriod * 60 * (s.ulOccurrenceCount - 1)).toNat)
  else if s.ulRecurFrequency = RF_DAILY ∨ s.ulRecurFrequency = RF_WEEKLY then r.weeklyEnd fuel
  else if s.ulRecurFrequency = RF_MONTHLY ∨ s.ulRecurFrequency = RF_YEARLY then some r.monthlyEnd
  else some r.getStartDateTime

end Zcp.FreeBusy.Recurrence
