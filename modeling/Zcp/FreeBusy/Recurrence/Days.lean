import Zcp.FreeBusy.Recurrence.Dates

/-!
# Times of a recurrence as days

A time is a day and the seconds of that day. The functions on times are those of the calendar, as long as the year is
an `int`.
-/

namespace Zcp.FreeBusy

open Zcp.Lib Zcp.Common Zcp.M4lcommon

/-- A day of a year that is an `int`. -/
def InRange (d : ℤ) : Prop := -2 ^ 38 ≤ d ∧ d < 2 ^ 38

/-- The day of the month, from 1. -/
def mday (d : ℤ) : ℤ := d - firstOfMonth (monthOf d) + 1

/-- The weekday, from 0 for Sunday. -/
def wday (d : ℤ) : ℤ := (d + 4) % 7

theorem mday_pos (d : ℤ) : 1 ≤ mday d := by
  have h := (monthOf_spec d).1
  unfold mday
  omega

theorem mday_le (d : ℤ) : mday d ≤ monthLength (monthOf d) := by
  have h := (monthOf_spec d).2
  rw [firstOfMonth_succ] at h
  unfold mday
  omega

theorem wday_bounds (d : ℤ) : 0 ≤ wday d ∧ wday d < 7 := by
  unfold wday
  omega

theorem inRange_of_time {t : ℤ} (hlow : -2 ^ 40 ≤ t) (hhigh : t < 2 ^ 40) : InRange (t / 86400) := by
  unfold InRange
  omega

theorem InRange.year {d : ℤ} (hd : InRange d) : -2 ^ 30 ≤ yearOf d ∧ yearOf d < 2 ^ 30 := by
  obtain ⟨hlow, hhigh⟩ := hd
  unfold yearOf
  dsimp only
  split_ifs <;> omega

section

variable {d s : ℤ}

theorem gmtimeSafe_day (hd : InRange d) (hs : 0 ≤ s) (hs' : s < 86400) : gmtimeSafe (d * 86400 + s) =
      { tm_sec := s % 60
        tm_min := s / 60 % 60
        tm_hour := s / 3600
        tm_mday := mday d
        tm_mon := monthOf d % 12
        tm_year := monthOf d / 12 - 1900
        tm_wday := wday d
        tm_yday := d - yearStart (yearOf d) } := by
  have hday : (d * 86400 + s) / 86400 = d := by omega
  have hsec : (d * 86400 + s) % 86400 = s := by omega
  have hyear := hd.year
  unfold gmtimeSafe
  dsimp only
  rw [hday, hsec, if_neg (by omega), ← yearOf_eq]
  rfl

/-- The weekday of a time. -/
theorem gmtimeSafe_wday {t : ℤ} (ht : InRange (t / 86400)) : (gmtimeSafe t).tm_wday = wday (t / 86400) := by
  have htime : t = t / 86400 * 86400 + t % 86400 := by omega
  have hwday := congrArg Tm.tm_wday (gmtimeSafe_day ht (Int.emod_nonneg t (by decide)) (Int.emod_lt_of_pos t (by decide)))
  rwa [← htime] at hwday

theorem startOfDay_day (hd : InRange d) (hs : 0 ≤ s) (hs' : s < 86400) : startOfDay (d * 86400 + s) = d * 86400 := by
  unfold startOfDay
  rw [gmtimeSafe_day hd hs hs']
  dsimp only
  omega

/-- The year of a date that is not before Christ is a leap year for the code as well. -/
theorem isLeapYear_iff {y : ℤ} (hy : 0 ≤ y) (hy' : y < 2 ^ 32) : isLeapYear (BitVec.ofInt 32 y) ↔ IsLeap y := by
  have htoNat : (BitVec.ofInt 32 y).toNat = y.toNat := by
    rw [BitVec.toNat_ofInt]
    omega
  unfold isLeapYear IsLeap
  simp only [decide_eq_true_iff, BitVec.toNat_eq, BitVec.toNat_umod, htoNat, ne_eq]
  show y.toNat % 4 = 0 ∧ ¬ y.toNat % 100 = 0 ∨ y.toNat % 400 = 0 ↔ _
  omega

/-- The length of a month. -/
theorem daysInMonth_eq {n : ℤ} (hn : 0 ≤ n) (hn' : n < 2 ^ 34) :
    daysInMonth (BitVec.ofInt 32 (n / 12)) (BitVec.ofInt 32 (n % 12 + 1)) = BitVec.ofInt 32 (monthLength n) := by
  have hmonth : 0 ≤ n % 12 ∧ n % 12 < 12 := by omega
  have hyear : 0 ≤ n / 12 ∧ n / 12 < 2 ^ 31 := by omega
  have hleap : isLeapYear (BitVec.ofInt 32 (n / 12)) = decide (IsLeap (n / 12)) :=
    Bool.eq_iff_iff.mpr ((isLeapYear_iff hyear.1 (by omega)).trans decide_eq_true_iff.symm)
  unfold daysInMonth monthLength daysBefore
  rw [hleap]
  generalize n % 12 = m at hmonth
  obtain rfl | rfl | rfl | rfl | rfl | rfl | rfl | rfl | rfl | rfl | rfl | rfl :
      m = 0 ∨ m = 1 ∨ m = 2 ∨ m = 3 ∨ m = 4 ∨ m = 5 ∨ m = 6 ∨ m = 7 ∨ m = 8 ∨ m = 9 ∨ m = 10 ∨ m = 11 := by omega
  all_goals by_cases h : IsLeap (n / 12) <;> simp only [h] <;> rfl

theorem monthInSeconds_eq {n : ℤ} (hn : 0 ≤ n) (hn' : n < 2 ^ 34) :
    Recurrence.monthInSeconds (n / 12) (n % 12 + 1) = monthLength n * 86400 := by
  obtain ⟨hlow, hhigh⟩ := monthLength_bounds n
  unfold Recurrence.monthInSeconds
  rw [daysInMonth_eq hn hn']
  have hlength : (BitVec.ofInt 32 (monthLength n)).toNat = (monthLength n).toNat := by
    rw [BitVec.toNat_ofInt]
    omega
  have hmul : (BitVec.ofInt 32 (monthLength n) * 24 * 60 * 60 : UInt).toNat = (monthLength n).toNat * 86400 := by
    rw [BitVec.toNat_mul, BitVec.toNat_mul, BitVec.toNat_mul, hlength]
    show (monthLength n).toNat * 24 % 2 ^ 32 * 60 % 2 ^ 32 * 60 % 2 ^ 32 = _
    omega
  rw [hmul]
  omega

end

/-! ## The start -/

namespace Recurrence

/-- The date of the start. -/
def startDate (r : Recurrence) : ℤ := r.getStartDateTime / 86400

/-- The start time on another date. -/
def onDate (r : Recurrence) (d : ℤ) : ℤ := d * 86400 + r.getStartDateTime % 86400

variable {r : Recurrence}

theorem getStartDateTime_bounds : -2 ^ 38 ≤ r.getStartDateTime ∧ r.getStartDateTime < 2 ^ 38 := by
  have hoffset := (r.m_sRecState.ulStartTimeOffset * 60).isLt
  have hlow := BitVec.two_mul_toInt_lt (x := r.m_sRecState.ulStartDate)
  have hhigh := BitVec.le_two_mul_toInt (x := r.m_sRecState.ulStartDate)
  unfold getStartDateTime
  rw [rTimeToUnixTime_eq]
  omega

theorem onDate_startDate : r.onDate r.startDate = r.getStartDateTime := by
  unfold onDate startDate
  omega

theorem onDate_add (k : ℕ) : r.onDate (r.startDate + k) = r.getStartDateTime + k * 86400 := by
  unfold onDate startDate
  omega

theorem onDate_injective : Function.Injective r.onDate := by
  intro d d' h
  unfold onDate at h
  omega

end Recurrence

end Zcp.FreeBusy
