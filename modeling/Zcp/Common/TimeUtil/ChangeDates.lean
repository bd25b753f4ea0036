import Zcp.Common.TimeUtil

/-!
# The dates of a change of the clocks

`getDateByYearMonthWeekDayHour` starts from the Sunday in front of a month, or on its first day, and goes on by whole
weeks. When the month begins behind the weekday it asks for, the first such day is one week from there; when it begins on
it or before, the first such day is in the week of the start already, and the weeks are counted from the second one.
-/

namespace Zcp.Common

open Zcp.Lib

/-- What `getDateByYearMonthWeekDayHour` is called with. -/
structure ChangeDate where
  year : WORD
  month : WORD
  week : WORD
  day : WORD
  hour : WORD
  month_pos : 1 ≤ month.toNat
  month_le : month.toNat ≤ 12
  week_pos : 1 ≤ week.toNat
  week_le : week.toNat ≤ 5
  day_le : day.toNat ≤ 6
  hour_le : hour.toNat ≤ 23

namespace ChangeDate

variable (c : ChangeDate)

def date : ℤ := getDateByYearMonthWeekDayHour c.year c.month c.week c.day c.hour

/-- The month, in a year. -/
def monthIn (year : ℤ) : ℤ := 12 * year + (c.month.toNat - 1)

/-- The day is the n-th one of its weekday in the month of a year, or the last one. -/
def IsDay (year d : ℤ) : Prop :=
  monthOf d = c.monthIn year ∧ (d + 4) % 7 = c.day.toNat ∧
    if c.week.toNat = 5 then monthOf (d + 7) ≠ c.monthIn year
    else 7 * ((c.week.toNat : ℤ) - 1) ≤ d - firstOfMonth (c.monthIn year) ∧
      d - firstOfMonth (c.monthIn year) < 7 * c.week.toNat

/-- The time is the full hour of such a day. -/
def IsDate (year t : ℤ) : Prop := ∃ d, c.IsDay year d ∧ t = d * 86400 + c.hour.toNat * 3600

/-- The month, when years are counted from 1900. -/
def calledMonth : ℤ := c.monthIn (c.year.toNat + 1900)

/-- The weekday of the first of the month. -/
def firstWeekday : ℤ := (firstOfMonth c.calledMonth + 4) % 7

/-- The days from the first of the month to the day that the weeks lead to. -/
def offset : ℤ := 7 * c.week.toNat + c.day.toNat - c.firstWeekday

variable {c}

theorem calledMonth_bounds : 22800 ≤ c.calledMonth ∧ c.calledMonth < 2 ^ 20 := by
  have hyear := c.year.isLt
  have hmonth := And.intro c.month_pos c.month_le
  unfold calledMonth monthIn
  omega

theorem offset_bounds : 1 ≤ c.offset ∧ c.offset ≤ 41 := by
  have hweek := And.intro c.week_pos c.week_le
  have hday := c.day_le
  unfold offset firstWeekday
  omega

/-- The month of a day behind the first of a month. -/
theorem monthOf_eq_iff_lt {n d : ℤ} (hd : 0 ≤ d) : monthOf (firstOfMonth n + d) = n ↔ d < monthLength n := by
  rw [monthOf_eq_iff, firstOfMonth_succ]
  omega

/-- A day that is less than two months away is in the month or in the next one. -/
theorem monthOf_bounds {n d : ℤ} (hd : 0 ≤ d) (hd' : d < 56) :
    n ≤ monthOf (firstOfMonth n + d) ∧ monthOf (firstOfMonth n + d) ≤ n + 1 := by
  have hlength := (monthLength_bounds n).1
  rcases lt_or_ge d (monthLength n) with hlt | hge
  · rw [(monthOf_eq_iff_lt hd).mpr hlt]
    omega
  · have hnext := (monthLength_bounds (n + 1)).1
    have hsplit : firstOfMonth n + d = firstOfMonth (n + 1) + (d - monthLength n) := by
      rw [firstOfMonth_succ]
      ring
    rw [hsplit, (monthOf_eq_iff_lt (by omega)).mpr (by omega)]
    omega

theorem gmtimeSafe_mon {t : ℤ} (hlow : 0 ≤ monthOf (t / 86400)) (hhigh : monthOf (t / 86400) < 2 ^ 30) :
    (gmtimeSafe t).tm_mon = monthOf (t / 86400) % 12 := by
  unfold gmtimeSafe
  dsimp only
  rw [yearOf_eq, if_neg (by omega)]

theorem gmtimeSafe_wday_firstOfMonth {n : ℤ} (hlow : 0 ≤ n) (hhigh : n < 2 ^ 30) :
    (gmtimeSafe (firstOfMonth n * 86400)).tm_wday = (firstOfMonth n + 4) % 7 := by
  have hday : firstOfMonth n * 86400 / 86400 = firstOfMonth n := Int.mul_ediv_cancel _ (by decide)
  have hmonth : monthOf (firstOfMonth n) = n := monthOf_eq_iff.mpr ⟨le_rfl, firstOfMonth_strictMono (by omega)⟩
  unfold gmtimeSafe
  dsimp only
  rw [hday, yearOf_eq, hmonth, if_neg (by omega)]

theorem timesInt_eq {w : WORD} {n : ℕ} (hw : w.toNat ≤ 23) (hn : n ≤ 604800) :
    timesInt w (BitVec.ofNat 32 n) = w.toNat * n := by
  have hle : w.toNat * n ≤ 23 * 604800 := Nat.mul_le_mul hw hn
  have hprod : (w.setWidth 32 * BitVec.ofNat 32 n : LONG).toNat = w.toNat * n := by
    rw [BitVec.toNat_mul, BitVec.toNat_setWidth, BitVec.toNat_ofNat, Nat.mod_eq_of_lt (show w.toNat < 2 ^ 32 by omega),
      Nat.mod_eq_of_lt (show n < 2 ^ 32 by omega), Nat.mod_eq_of_lt (by omega)]
  unfold timesInt
  rw [BitVec.toInt_eq_toNat_of_lt (by omega), hprod]
  push_cast
  rfl

/-- The result, from the day that the weeks lead to: one week less when it is not in the month. -/
theorem date_eq : c.date =
      (firstOfMonth c.calledMonth + c.offset - if c.offset < monthLength c.calledMonth then 0 else 7) * 86400 +
        c.hour.toNat * 3600 := by
  obtain ⟨hlow, hhigh⟩ := calledMonth_bounds (c := c)
  obtain ⟨hoff, hoff'⟩ := offset_bounds (c := c)
  have hhour := c.hour_le
  have hweeks : timesInt c.week (7 * 24 * 60 * 60) = c.week.toNat * 604800 :=
    timesInt_eq (c.week_le.trans (by decide)) le_rfl
  have hdays : timesInt c.day (24 * 60 * 60) = c.day.toNat * 86400 :=
    timesInt_eq (n := 86400) (c.day_le.trans (by decide)) (by decide)
  have hhours : timesInt c.hour (60 * 60) = c.hour.toNat * 3600 := timesInt_eq (n := 3600) hhour (by decide)
  have hfirst : timegm c.year.toNat (c.month.toNat - 1) 0 = firstOfMonth c.calledMonth * 86400 := by
    unfold timegm calledMonth monthIn
    ring
  have hsum : firstOfMonth c.calledMonth * 86400 - (firstOfMonth c.calledMonth + 4) % 7 * 24 * 60 * 60 +
      c.week.toNat * 604800 + c.day.toNat * 86400 + c.hour.toNat * 3600 =
        (firstOfMonth c.calledMonth + c.offset) * 86400 + c.hour.toNat * 3600 := by
    unfold offset firstWeekday
    ring
  have hday : ((firstOfMonth c.calledMonth + c.offset) * 86400 + (c.hour.toNat : ℤ) * 3600) / 86400 =
      firstOfMonth c.calledMonth + c.offset := by
    omega
  obtain ⟨hmonth, hmonth'⟩ := monthOf_bounds (n := c.calledMonth) (d := c.offset) (by omega) (by omega)
  have hmod : c.calledMonth % 12 = c.month.toNat - 1 := by
    have hbounds := And.intro c.month_pos c.month_le
    unfold calledMonth monthIn
    omega
  unfold date getDateByYearMonthWeekDayHour
  dsimp only
  rw [hfirst, gmtimeSafe_wday_firstOfMonth (by omega) (by omega), hweeks, hdays, hhours, hsum,
    gmtimeSafe_mon (by rw [hday]; omega) (by rw [hday]; omega), hday]
  by_cases hinside : c.offset < monthLength c.calledMonth
  · rw [(monthOf_eq_iff_lt (by omega)).mpr hinside, if_neg (not_not.mpr hmod), if_pos hinside]
    ring
  · have hnext := mt (monthOf_eq_iff_lt (n := c.calledMonth) (show 0 ≤ c.offset by omega)).mp hinside
    rw [if_pos (by omega), if_neg hinside]
    ring

variable (c) in
/-- The month begins behind the weekday; or it has no fifth such day and the fourth is asked for, or it has a fifth one and
the last is asked for. -/
def Fits : Prop :=
  c.day.toNat < c.firstWeekday ∨
    c.week.toNat = 4 ∧ monthLength c.calledMonth ≤ 28 + (c.day.toNat - c.firstWeekday) ∨
    c.week.toNat = 5 ∧ 28 + (c.day.toNat - c.firstWeekday) < monthLength c.calledMonth

/-- With years counted from 1900, as its caller counts them, `getDateByYearMonthWeekDayHour` returns the day it is asked
for if and only if the weeks are counted right. With years as in its description it never does. -/
theorem getDateByYearMonthWeekDayHour_iff (c : ChangeDate) :
    (c.IsDate (c.year.toNat + 1900) c.date ↔ c.Fits) ∧ ¬ c.IsDate c.year.toNat c.date := by
  obtain ⟨hoff, hoff'⟩ := offset_bounds (c := c)
  obtain ⟨hlength, hlength'⟩ := monthLength_bounds c.calledMonth
  have hweek := And.intro c.week_pos c.week_le
  have hhour := c.hour_le
  have hday := c.day_le
  have hwday : 0 ≤ c.firstWeekday ∧ c.firstWeekday < 7 := by
    unfold firstWeekday
    omega
  have hweekday : (firstOfMonth c.calledMonth + c.offset + 4) % 7 = c.day.toNat := by
    unfold offset firstWeekday
    omega
  have hoffset : c.offset = 7 * c.week.toNat + c.day.toNat - c.firstWeekday := rfl
  -- the days from the first of the month to the result
  obtain ⟨d, hd, hdate⟩ : ∃ d, d = c.offset - (if c.offset < monthLength c.calledMonth then 0 else 7) ∧
      c.date = (firstOfMonth c.calledMonth + d) * 86400 + c.hour.toNat * 3600 := by
    refine ⟨_, rfl, ?_⟩
    rw [date_eq]
    ring
  have hnonneg : 0 ≤ d := by
    split_ifs at hd <;> omega
  have hunique (year : ℤ) : c.IsDate year c.date ↔ c.IsDay year (firstOfMonth c.calledMonth + d) := by
    unfold IsDate
    constructor
    · rintro ⟨e, he, hde⟩
      obtain rfl : e = firstOfMonth c.calledMonth + d := by omega
      exact he
    · exact fun h => ⟨_, h, hdate⟩
  rw [hunique, hunique]
  constructor
  · have hmonth : c.monthIn (c.year.toNat + 1900) = c.calledMonth := rfl
    have hnext : firstOfMonth c.calledMonth + d + 7 = firstOfMonth c.calledMonth + (d + 7) := by ring
    unfold IsDay Fits
    rw [hmonth, monthOf_eq_iff_lt hnonneg, hnext, ne_eq, monthOf_eq_iff_lt (by omega), add_sub_cancel_left]
    split_ifs at hd ⊢ <;> omega
  · rintro ⟨hmonth, -⟩
    have hbounds := monthOf_bounds (n := c.calledMonth) hnonneg (by split_ifs at hd <;> omega)
    unfold calledMonth monthIn at hbounds hmonth
    omega

/-- The first Sunday of June 2014. -/
def firstSunday : ChangeDate where
  year := 114
  month := 6
  week := 1
  day := 0
  hour := 2
  month_pos := by decide
  month_le := by decide
  week_pos := by decide
  week_le := by decide
  day_le := by decide
  hour_le := by decide

/-- The 1st of June 2014 is a Sunday, but the result is the 8th. -/
theorem not_isDate_firstSunday : ¬ firstSunday.IsDate (firstSunday.year.toNat + 1900) firstSunday.date := by
  rintro ⟨d, ⟨-, -, -, hd⟩, hdate⟩
  have hresult : firstSunday.date = 1402192800 := by decide +kernel
  have hfirst : firstOfMonth (firstSunday.monthIn (firstSunday.year.toNat + 1900)) = 16222 := by decide +kernel
  have hhour : (firstSunday.hour.toNat : ℤ) = 2 := rfl
  have hweek : (firstSunday.week.toNat : ℤ) = 1 := rfl
  omega

end ChangeDate

end Zcp.Common
