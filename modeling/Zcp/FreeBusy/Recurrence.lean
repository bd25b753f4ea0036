import Zcp.Common.TimeUtil
import Zcp.FreeBusy.PublishFreeBusy
import Zcp.M4lcommon.RecurrenceState

/-!
# The occurrences of a recurrence

`recurrence::HrGetItems` of `libfreebusy/recurrence.cpp` walks over the days of a recurrence and adds
the valid ones to an array of occurrences. Loops have fuel; `none` is a loop that does not end in it, a
division by zero, or an array that is larger than its allocation.
-/

namespace Zcp.FreeBusy

open Zcp.Lib Zcp.Common Zcp.M4lcommon

/-! ## Days and months -/

def startOfDay (t : ℤ) : ℤ :=
  let sTM := gmtimeSafe t
  t - (sTM.tm_hour * 60 * 60 + sTM.tm_min * 60 + sTM.tm_sec)

def startOfMonth (t : ℤ) : ℤ :=
  let sTM := gmtimeSafe t
  t - ((sTM.tm_mday - 1) * 24 * 60 * 60 + sTM.tm_hour * 60 * 60 + sTM.tm_min * 60 + sTM.tm_sec)

def startOfYear (t : ℤ) : ℤ :=
  let sTM := gmtimeSafe t
  t - (sTM.tm_yday * 24 * 60 * 60 + sTM.tm_hour * 60 * 60 + sTM.tm_min * 60 + sTM.tm_sec)

def isLeapYear (year : UInt) : Bool := year % 4 = 0 ∧ year % 100 ≠ 0 ∨ year % 400 = 0

/-- `DaysInMonth` without a year. -/
def daysOfMonth (month : UInt) : UInt :=
  [0, 31, 28, 31, 30, 31, 30, 31, 31, 30, 31, 30, 31].getD month.toNat 0

def daysInMonth (year month : UInt) : UInt :=
  daysOfMonth month + if month = 2 ∧ isLeapYear year then 1 else 0

def monthFromTime (t : ℤ) : UInt := BitVec.ofInt 32 ((gmtimeSafe t).tm_mon + 1)

def yearFromTime (t : ℤ) : UInt := BitVec.ofInt 32 ((gmtimeSafe t).tm_year + 1900)

def weekDayFromTime (t : ℤ) : ℕ := (gmtimeSafe t).tm_wday.toNat

def countDaysOfMonth (tsDate : ℤ) : UInt :=
  if isLeapYear (yearFromTime tsDate) ∧ monthFromTime tsDate = 2 then 29
  else daysOfMonth (monthFromTime tsDate)

/-- The loop over the months adds nothing behind December. -/
def daysTillMonth (tsDate : ℤ) (ulMonth : UInt) : UInt :=
  let first := monthFromTime tsDate
  ((List.range ((ulMonth + first).toNat - first.toNat)).map fun i =>
    daysInMonth (yearFromTime tsDate) (first + BitVec.ofNat 32 i)).sum

/-! ## The recurrence -/

/-- `freq_type`. -/
inductive FreqType where
  | DAILY
  | WEEKLY
  | MONTHLY
  | YEARLY
deriving DecidableEq, Repr

/-- `term_type`. -/
inductive TermType where
  | DATE
  | NUMBER
  | NEVER
deriving DecidableEq, Repr

def RF_DAILY : UInt := 0x200A
def RF_WEEKLY : UInt := 0x200B
def RF_MONTHLY : UInt := 0x200C
def RF_YEARLY : UInt := 0x200D
def ET_DATE : UInt := 0x2021
def ET_NUMBER : UInt := 0x2022

/-- `recurrence`. -/
structure Recurrence where
  m_sRecState : RecurrenceState
  m_ulMonth : UInt
deriving DecidableEq

/-- `OccrInfo`. -/
structure OccrInfo where
  fbBlock : FBBlock_1
  tBaseDate : ℤ
deriving DecidableEq, Repr

/-- The arguments of `HrGetItems`. -/
structure ItemQuery where
  tsStart : ℤ
  tsEnd : ℤ
  ttZinfo : TIMEZONE_STRUCT
  ulBusyStatus : UInt
deriving DecidableEq

namespace Recurrence

variable (r : Recurrence)

def getFrequency : FreqType :=
  if r.m_sRecState.ulRecurFrequency = RF_DAILY then .DAILY
  else if r.m_sRecState.ulRecurFrequency = RF_WEEKLY then .WEEKLY
  else if r.m_sRecState.ulRecurFrequency = RF_MONTHLY then .MONTHLY
  else if r.m_sRecState.ulRecurFrequency = RF_YEARLY then .YEARLY
  else .DAILY

def getEndType : TermType :=
  if r.m_sRecState.ulEndType = ET_DATE then .DATE
  else if r.m_sRecState.ulEndType = ET_NUMBER then .NUMBER
  else .NEVER

def getStartDate : ℤ := rTimeToUnixTime r.m_sRecState.ulStartDate

def getStartTimeOffset : UInt := r.m_sRecState.ulStartTimeOffset * 60

def getEndTimeOffset : UInt := r.m_sRecState.ulEndTimeOffset * 60

def getEndDateTime : ℤ :=
  rTimeToUnixTime r.m_sRecState.ulEndDate + (r.m_sRecState.ulEndTimeOffset * 60).toNat

/-- `getMonth`, from 1 to 12. -/
def getMonth : ℕ :=
  if 0 < r.m_ulMonth ∧ r.m_ulMonth < 13 then r.m_ulMonth.toNat
  else ((gmtimeSafe r.getStartDate).tm_mon + 1).toNat

/-- `getWeekNumber`, a `UCHAR`. -/
def getWeekNumber : ℕ :=
  if r.m_sRecState.ulPatternType ≠ 3 ∧ r.m_sRecState.ulPatternType ≠ 0xB then 0
  else r.m_sRecState.ulWeekNumber.toNat % 256

/-- `getDeletedExceptions`. A date with an exception was moved and not deleted. -/
def getDeletedExceptions : List ℤ :=
  let moved (e : Exception) : UInt := e.ulOriginalStartDate - e.ulOriginalStartDate % 1440
  let lstDeletedInstanceDates := r.m_sRecState.lstExceptions.foldl (fun l e => l.erase (moved e))
    r.m_sRecState.lstDeletedInstanceDates
  lstDeletedInstanceDates.map fun d => rTimeToUnixTime d + r.getStartTimeOffset.toNat

def getModifiedOccurrences : List ℤ :=
  r.m_sRecState.lstExceptions.map fun e => rTimeToUnixTime e.ulOriginalStartDate

def isException (tsOccDate : ℤ) : Bool :=
  r.getModifiedOccurrences.any fun t => startOfDay tsOccDate = startOfDay t

def isDeletedOccurrence (tsOccDate : ℤ) : Bool := tsOccDate ∈ r.getDeletedExceptions

def isOccurrenceValid (tsPeriodStart tsPeriodEnd tsNewOcc : ℤ) : Bool :=
  if r.isException tsNewOcc then false
  else if tsNewOcc < tsPeriodStart ∨ tsNewOcc > tsPeriodEnd then false
  else if r.isDeletedOccurrence tsNewOcc then false
  else true

/-! ## Adding an occurrence -/

/-- `sizeof(OccrInfo)`. -/
def sizeofOccrInfo : ℕ := 24

/-- `HrAddFBBlock`. The size of the new array is given to the allocator in 32 bits. -/
def hrAddFBBlock (sOccrInfo : OccrInfo) (lppsOccrInfo : List OccrInfo) : Option (List OccrInfo) :=
  let ulModVal := lppsOccrInfo.length + 1
  if sizeofOccrInfo * ulModVal < 2 ^ 32 then some (lppsOccrInfo ++ [sOccrInfo]) else none

/-- `AddValidOccr`. -/
def addValidOccr (tsOccrStart tsOccrEnd : ℤ) (ulBusyStatus : UInt) (lpFBBlocksAll : List OccrInfo) :
    Option (List OccrInfo) :=
  hrAddFBBlock
    ⟨⟨unixTimeToRTime tsOccrStart, unixTimeToRTime tsOccrEnd, ulBusyStatus.toNat⟩, tsOccrStart⟩
    lpFBBlocksAll

variable (q : ItemQuery)

/-- `CheckAddValidOccr`. -/
def checkAddValidOccr (tsNow : ℤ) (lppOccrInfoAll : List OccrInfo) :
    Option (Bool × List OccrInfo) :=
  if r.isOccurrenceValid (utcToLocal q.tsStart q.ttZinfo) (utcToLocal q.tsEnd q.ttZinfo)
      (tsNow + r.getStartTimeOffset.toNat) then do
    let tsOccStart := localToUTC (tsNow + r.getStartTimeOffset.toNat) q.ttZinfo
    let tsOccEnd := localToUTC (tsNow + r.getEndTimeOffset.toNat) q.ttZinfo
    let l ← addValidOccr tsOccStart tsOccEnd q.ulBusyStatus lppOccrInfoAll
    some (true, l)
  else some (false, lppOccrInfoAll)

/-! ## Daily and weekly recurrences -/

/-- `tsDayStart`. -/
def dayStart : ℤ := r.getStartDate

/-- `tsRangeEnd`. -/
def rangeEnd : ℤ :=
  if r.getEndType = .NEVER ∨ q.tsEnd < r.getEndDateTime then q.tsEnd
  else localToUTC r.getEndDateTime q.ttZinfo

/-- `tsDayEnd`. -/
def dayEnd : ℤ := startOfDay (utcToLocal (r.rangeEnd q) q.ttZinfo)

/-- Check the days of one pass of a loop and add all that are valid. -/
def addAll (days : List ℤ) (l : List OccrInfo) : Option (List OccrInfo) :=
  days.foldlM (fun l tsNow => (r.checkAddValidOccr q tsNow l).map Prod.snd) l

/-- Check the days of one pass of a loop until one is added. -/
def addFirst : List ℤ → List OccrInfo → Option (Bool × List OccrInfo)
  | [], l => some (false, l)
  | tsNow :: days, l => do
    let (found, l) ← r.checkAddValidOccr q tsNow l
    if found then some (true, l) else addFirst days l

/-- `for(tsNow = tsDayStart; tsNow <= tsDayEnd; tsNow += stride)` over the days of each pass. -/
def forward (days : ℤ → List ℤ) (stride : ℕ) : ℕ → ℤ → List OccrInfo → Option (List OccrInfo)
  | 0, _, _ => none
  | fuel + 1, tsNow, l =>
    if tsNow ≤ r.dayEnd q then do
      let l ← r.addAll q (days tsNow) l
      forward days stride fuel (tsNow + stride) l
    else some l

/-- `for(tsNow = tsDayEnd-remainder; tsNow >= tsDayStart; tsNow -= stride)` over the days of each pass,
the last day first, until one is added. -/
def backward (days : ℤ → List ℤ) (stride : ℕ) : ℕ → ℤ → List OccrInfo → Option (List OccrInfo)
  | 0, _, _ => none
  | fuel + 1, tsNow, l =>
    if tsNow ≥ r.dayStart then do
      let (found, l) ← r.addFirst q (days tsNow).reverse l
      if found then some l else backward days stride fuel (tsNow - stride) l
    else some l

/-- Both ways to walk over the days. -/
def walk (days : ℤ → List ℤ) (stride : ℕ) (last : Bool) (fuel : ℕ) (l : List OccrInfo) :
    Option (List OccrInfo) :=
  if last then
    if stride = 0 then none
    else
      let remainder := (r.dayEnd q - r.dayStart).tmod stride
      r.backward q days stride fuel (r.dayEnd q - remainder) l
  else r.forward q days stride fuel r.dayStart l

/-- Monday to Friday. -/
def weekdayOnly (tsNow : ℤ) : List ℤ :=
  let sTm := gmtimeSafe tsNow
  if sTm.tm_wday > 0 ∧ sTm.tm_wday < 6 then [tsNow] else []

/-- A weekday is one of those of the recurrence. -/
def onWeekDay (t : ℤ) : Bool := r.m_sRecState.ulWeekDays &&& 1 <<< weekDayFromTime t ≠ 0

/-- The days of the week that starts with a day. -/
def week (tsNow : ℤ) : List ℤ :=
  ((List.range 7).map fun (i : ℕ) => tsNow + i * 1440 * 60).filter r.onWeekDay

def dailyItems (last : Bool) (fuel : ℕ) (l : List OccrInfo) : Option (List OccrInfo) :=
  if r.m_sRecState.ulPatternType = 0 then
    r.walk q (fun tsNow => [tsNow]) (r.m_sRecState.ulPeriod * 60).toNat last fuel l
  else r.walk q weekdayOnly (60 * 1440) last fuel l

def weeklyItems (last : Bool) (fuel : ℕ) (l : List OccrInfo) : Option (List OccrInfo) :=
  r.walk q r.week (r.m_sRecState.ulPeriod * 604800).toNat last fuel l

/-! ## Monthly recurrences -/

/-- The weekday that is the `ulWeekNumber`-th one of the month; the first day when there is none. -/
def nthWeekDay (tsNow : ℤ) : ℤ :=
  let days := List.range (daysInMonth (yearFromTime tsNow) (monthFromTime tsNow)).toNat
  let onDay (ulDay : ℕ) : Bool := r.onWeekDay (tsNow + ulDay * 60 * 60 * 24)
  let ulDayCounter (ulDay : ℕ) : ℕ := (days.take (ulDay + 1)).countP onDay
  let ulValidDay := (days.find? fun d => r.m_sRecState.ulWeekNumber.toNat = ulDayCounter d).getD 0
  tsNow + ulValidDay * 60 * 60 * 24

/-- Go back to a weekday of the recurrence. -/
def lastWeekDay : ℕ → ℤ → Option ℤ
  | 0, _ => none
  | fuel + 1, tsDayNow => if r.onWeekDay tsDayNow then some tsDayNow else lastWeekDay fuel (tsDayNow - 86400)

/-- The day of the month that starts with `tsNow`; `tsDayNow` is the day of the month before. -/
def monthDay (fuel : ℕ) (tsNow tsDayNow : ℤ) : Option ℤ :=
  let s := r.m_sRecState
  let ulDaysOfMonths := countDaysOfMonth tsNow
  if s.ulDayOfMonth ≠ 0 then
    let ulDiffrence := if s.ulWeekDays = 0 ∧ s.ulDayOfMonth > ulDaysOfMonths then
      s.ulDayOfMonth - ulDaysOfMonths + 1 else 1
    some (tsNow + ((s.ulDayOfMonth - ulDiffrence) * 24 * 60 * 60).toNat)
  else if s.ulWeekNumber ≠ 0 ∧ s.ulWeekDays ≠ 0 then
    if s.ulWeekNumber < 5 then some (r.nthWeekDay tsNow)
    else
      let ulDaysOfMonths := daysInMonth (yearFromTime tsNow) (monthFromTime tsNow)
      r.lastWeekDay fuel (tsNow + ((ulDaysOfMonths - 1) * 60 * 60 * 24).toNat)
  else some tsDayNow

/-- Add a day of a month when it is valid. Here the window is in UTC. -/
def addMonthDay (tsDayNow : ℤ) (l : List OccrInfo) : Option (List OccrInfo) :=
  if r.isOccurrenceValid q.tsStart q.tsEnd (tsDayNow + r.getStartTimeOffset.toNat) then
    addValidOccr (localToUTC (tsDayNow + r.getStartTimeOffset.toNat) q.ttZinfo)
      (localToUTC (tsDayNow + r.getEndTimeOffset.toNat) q.ttZinfo) q.ulBusyStatus l
  else some l

/-- `while(tsNow < tsDayEnd)` over months or years, with the day of each. -/
def monthLoop (day : ℕ → ℤ → ℤ → Option ℤ) : ℕ → ℤ → ℤ → List OccrInfo → Option (List OccrInfo)
  | 0, _, _, _ => none
  | fuel + 1, tsNow, tsDayNow, l =>
    if tsNow < r.dayEnd q then do
      let tsDayNow ← day fuel tsNow tsDayNow
      let l ← r.addMonthDay q tsDayNow l
      monthLoop day fuel
        (tsNow + (daysTillMonth tsNow r.m_sRecState.ulPeriod * 60 * 60 * 24).toNat) tsDayNow l
    else some l

def monthlyItems (fuel : ℕ) (l : List OccrInfo) : Option (List OccrInfo) :=
  r.monthLoop q r.monthDay fuel (startOfMonth r.dayStart) 0 l

/-! ## Yearly recurrences -/

/-- Go back in weeks to the month that starts with `tsMonthNow`. -/
def backToMonth (tsMonthNow : ℤ) : ℕ → ℤ → Option ℤ
  | 0, _ => none
  | fuel + 1, tsDayNow =>
    if startOfMonth tsDayNow ≠ startOfMonth tsMonthNow then
      backToMonth tsMonthNow fuel (tsDayNow - 7 * 24 * 60 * 60)
    else some tsDayNow

/-- The day of the year that starts with `tsNow`; `tsDayNow` is the day of the year before. -/
def yearDay (fuel : ℕ) (tsNow tsDayNow : ℤ) : Option ℤ :=
  let s := r.m_sRecState
  let tMonthStart :=
    tsNow + (daysTillMonth tsNow (BitVec.ofNat 32 (r.getMonth - 1)) * 24 * 60 * 60).toNat
  if s.ulDayOfMonth ≠ 0 then
    let ulDays := daysInMonth (yearFromTime tMonthStart) (monthFromTime tMonthStart)
    let ulMonthDay := if s.ulDayOfMonth > ulDays then ulDays else s.ulDayOfMonth
    some (tMonthStart + ((ulMonthDay - 1) * 24 * 60 * 60).toNat)
  else if s.ulWeekNumber ≠ 0 ∧ s.ulWeekDays ≠ 0 then
    let ulValidDay := ((List.range 7).find? fun (ulDay : ℕ) =>
      r.onWeekDay (tMonthStart + ulDay * 60 * 60 * 24)).getD 0
    let ulDays : UInt := BitVec.ofNat 32 ulValidDay + BitVec.ofInt 32 ((r.getWeekNumber - 1) * 7)
    backToMonth tMonthStart fuel (tMonthStart + (ulDays * 60 * 60 * 24).toNat)
  else some tsDayNow

def yearlyItems (fuel : ℕ) (l : List OccrInfo) : Option (List OccrInfo) :=
  r.monthLoop q r.yearDay fuel (startOfYear r.dayStart) 0 l

/-! ## All occurrences -/

/-- A period of zero is replaced. -/
def withPeriod (ulPeriod : UInt) : Recurrence :=
  if r.m_sRecState.ulPeriod ≤ 0 then
    { r with m_sRecState := { r.m_sRecState with ulPeriod := ulPeriod } }
  else r

/-- Add an exception that overlaps the window. -/
def addException (lpException : Exception) (l : List OccrInfo) : Option (List OccrInfo) :=
  let tsOccStart := localToUTC (rTimeToUnixTime lpException.ulStartDateTime) q.ttZinfo
  let tsOccEnd := localToUTC (rTimeToUnixTime lpException.ulEndDateTime) q.ttZinfo
  if tsOccStart > q.tsEnd then some l
  else if tsOccEnd < q.tsStart then some l
  else hrAddFBBlock
    ⟨⟨unixTimeToRTime tsOccStart, unixTimeToRTime tsOccEnd, lpException.ulBusyStatus.toNat⟩,
      rTimeToUnixTime lpException.ulOriginalStartDate⟩ l

/-- The exceptions, the last one first. -/
def addExceptions (l : List OccrInfo) : Option (List OccrInfo) :=
  r.m_sRecState.lstExceptions.reverse.foldlM (fun l e => addException q e l) l

/-- The recurrence with the period that `HrGetItems` leaves in it. -/
def normalized : Recurrence :=
  match r.getFrequency with
  | .DAILY => r.withPeriod 1440
  | .WEEKLY => r.withPeriod 1
  | .MONTHLY => r.withPeriod 1
  | .YEARLY => r.withPeriod 12

/-- The occurrences of the pattern. -/
def patternItems (last : Bool) (fuel : ℕ) (l : List OccrInfo) : Option (List OccrInfo) :=
  match r.getFrequency with
  | .DAILY => r.dailyItems q last fuel l
  | .WEEKLY => r.weeklyItems q last fuel l
  | .MONTHLY => r.monthlyItems q fuel l
  | .YEARLY => r.yearlyItems q fuel l

/-- `HrGetItems`, which appends to the array. -/
def hrGetItems (last : Bool) (fuel : ℕ) (lppOccrInfo : List OccrInfo) :
    Option (Recurrence × List OccrInfo) := do
  let r' := r.normalized
  let lpOccrInfoAll ← r'.patternItems q last fuel lppOccrInfo
  let l ← r'.addExceptions q lpOccrInfoAll
  some (r', l)

end Recurrence

end Zcp.FreeBusy
