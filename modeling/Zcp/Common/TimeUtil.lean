import Zcp.Lib.Calendar

/-!
# Times

Unix times, relative times (minutes since 1601) and the time zones of `common/TimeUtil.cpp` and
`common/platform.cpp`. A `time_t` is an integer.
-/

namespace Zcp.Common

open Zcp.Lib

/-- `WORD`. -/
abbrev WORD := BitVec 16

/-- `LONG`. -/
abbrev LONG := BitVec 32

/-! ## Conversions -/

def NANOSECS_BETWEEN_EPOCHS : ℤ := 116444736000000000

def UnitsPerMinute : ℤ := 600000000

def UnitsPerHalfMinute : ℤ := 300000000

/-- `RTimeToUnixTime`. -/
def rTimeToUnixTime (rtime : LONG) : ℤ :=
  (rtime.toInt * UnitsPerMinute - NANOSECS_BETWEEN_EPOCHS).tdiv 10000000

/-- `UnixTimeToRTime`. -/
def unixTimeToRTime (unixtime : ℤ) : ℤ :=
  (unixtime * 10000000 + NANOSECS_BETWEEN_EPOCHS + UnitsPerHalfMinute) % 2 ^ 64 / UnitsPerMinute % 2 ^ 31

theorem rTimeToUnixTime_eq (rtime : LONG) : rTimeToUnixTime rtime = rtime.toInt * 60 - 11644473600 := by
  have hfactor : rtime.toInt * UnitsPerMinute - NANOSECS_BETWEEN_EPOCHS =
      (rtime.toInt * 60 - 11644473600) * 10000000 := by
    unfold UnitsPerMinute NANOSECS_BETWEEN_EPOCHS
    ring
  rw [rTimeToUnixTime, hfactor]
  exact Int.mul_tdiv_cancel _ (by decide)

/-- `struct tm`. -/
structure Tm where
  tm_sec : ℤ
  tm_min : ℤ
  tm_hour : ℤ
  tm_mday : ℤ
  tm_mon : ℤ
  tm_year : ℤ
  tm_wday : ℤ
  tm_yday : ℤ
deriving DecidableEq, Repr

/-- `gmtime_safe`: all fields are zero when the year does not fit in an `int`. -/
def gmtimeSafe (timer : ℤ) : Tm :=
  let day := timer / 86400
  let sec := timer % 86400
  let year := yearOf day - 1900
  if year < -2 ^ 31 ∨ 2 ^ 31 ≤ year then ⟨0, 0, 0, 0, 0, 0, 0, 0⟩
  else
    { tm_sec := sec % 60
      tm_min := sec / 60 % 60
      tm_hour := sec / 3600
      tm_mday := day - firstOfMonth (monthOf day) + 1
      tm_mon := monthOf day % 12
      tm_year := year
      tm_wday := (day + 4) % 7
      tm_yday := day - yearStart (yearOf day) }

/-- `timegm` of some minutes after midnight on the first day of a month. -/
def timegm (tm_year tm_mon tm_min : ℤ) : ℤ :=
  firstOfMonth (12 * (tm_year + 1900) + tm_mon) * 86400 + tm_min * 60

/-! ## Time zones -/

/-- `SYSTEMTIME`. -/
structure SYSTEMTIME where
  wYear : WORD
  wMonth : WORD
  wDayOfWeek : WORD
  wDay : WORD
  wHour : WORD
  wMinute : WORD
  wSecond : WORD
  wMilliseconds : WORD
deriving DecidableEq

/-- `TIMEZONE_STRUCT`. -/
structure TIMEZONE_STRUCT where
  lBias : LONG
  lStdBias : LONG
  lDstBias : LONG
  wStdYear : WORD
  stStdDate : SYSTEMTIME
  wDstYear : WORD
  stDstDate : SYSTEMTIME
deriving DecidableEq

/-- The `int` that a `WORD` times a constant is. -/
def timesInt (w : WORD) (n : LONG) : ℤ := (w.setWidth 32 * n).toInt

/-- `getDateByYearMonthWeekDayHour`. -/
def getDateByYearMonthWeekDayHour (year month week day hour : WORD) : ℤ :=
  let first := timegm year.toNat (month.toNat - 1) 0
  let date := first - (gmtimeSafe first).tm_wday * 24 * 60 * 60 + timesInt week (7 * 24 * 60 * 60) +
    timesInt day (24 * 60 * 60) + timesInt hour (60 * 60)
  if (gmtimeSafe date).tm_mon ≠ month.toNat - 1 then date - 7 * 24 * 60 * 60 else date

/-- `getTZOffset`. -/
def getTZOffset (date : ℤ) (sTimeZone : TIMEZONE_STRUCT) : LONG :=
  if sTimeZone.lStdBias = sTimeZone.lDstBias ∨ sTimeZone.stDstDate.wMonth = 0 ∨
      sTimeZone.stStdDate.wMonth = 0 then -sTimeZone.lBias * 60
  else
    let year := BitVec.ofInt 16 (gmtimeSafe date).tm_year
    let change (st : SYSTEMTIME) : ℤ :=
      getDateByYearMonthWeekDayHour year st.wMonth st.wDay st.wDayOfWeek st.wHour
    let dststart := change sTimeZone.stDstDate
    let dstend := change sTimeZone.stStdDate
    -- on the southern hemisphere the summer is around the turn of the year
    let dst : Bool := if dststart ≤ dstend then dststart < date ∧ date < dstend
      else date < dstend ∨ dststart < date
    if dst then -(sTimeZone.lBias + sTimeZone.lDstBias) * 60
    else -(sTimeZone.lBias + sTimeZone.lStdBias) * 60

/-- `UTCToLocal`. -/
def utcToLocal (utc : ℤ) (sTimeZone : TIMEZONE_STRUCT) : ℤ :=
  utc + (getTZOffset utc sTimeZone).toInt

/-- `LocalToUTC`. -/
def localToUTC (loc : ℤ) (sTimeZone : TIMEZONE_STRUCT) : ℤ :=
  loc - (getTZOffset loc sTimeZone).toInt

end Zcp.Common
