import Zcp.Common.TimeUtil.ChangeDates

/-!
# Local time

`getTZOffset` compares its argument with the dates of the changes, whichever clock the argument is of: a UTC time in
`UTCToLocal`, a local time in `LocalToUTC`. `localTime_iff` says, by the dates and the biases of a zone, which times do not
come back, and where the clock goes back besides the end of the daylight saving time.
-/

namespace Zcp.Common

open Zcp.Lib

/-! ## The dates of a year -/

/-- The year of a time. -/
def yearAt (t : ℤ) : ℤ := yearOf (t / 86400)

/-- The first second of a year. -/
def firstSecond (y : ℤ) : ℤ := yearStart y * 86400

/-- The year whose dates `getTZOffset` takes for the times of a year: it is counted from 1900 in 16 bits. Of a year that is
no `int` it takes those of 1900. -/
def ruleYear (y : ℤ) : ℤ := 1900 + if -2 ^ 31 ≤ y - 1900 ∧ y - 1900 < 2 ^ 31 then (y - 1900) % 2 ^ 16 else 0

/-- The date of a rule in a year. The weeks and days are counted from the Sunday on or in front of the first of the month,
and a date outside of the month is moved by a week. -/
def ruleDate (y : ℤ) (st : SYSTEMTIME) : ℤ :=
  let first := firstOfMonth (12 * y + (st.wMonth.toNat - 1))
  let t := (first - (first + 4) % 7) * 86400 + timesInt st.wDay (7 * 24 * 60 * 60) +
    timesInt st.wDayOfWeek (24 * 60 * 60) + timesInt st.wHour (60 * 60)
  if monthOf (t / 86400) % 12 = st.wMonth.toNat - 1 then t else t - 7 * 86400

/-- A time zone with biases below one day. -/
structure Zone where
  toStruct : TIMEZONE_STRUCT
  bias_lt : |toStruct.lBias.toInt| < 1440
  stdBias_lt : |toStruct.lStdBias.toInt| < 1440
  dstBias_lt : |toStruct.lDstBias.toInt| < 1440

namespace Zone

variable (z : Zone)

/-- The zone has a daylight saving time. -/
def HasRule : Prop :=
  z.toStruct.lStdBias ≠ z.toStruct.lDstBias ∧ z.toStruct.stDstDate.wMonth ≠ 0 ∧ z.toStruct.stStdDate.wMonth ≠ 0

instance : Decidable z.HasRule := instDecidableAnd

/-- The beginning of the daylight saving time, for the times of a year. -/
def dststart (y : ℤ) : ℤ := ruleDate (ruleYear y) z.toStruct.stDstDate

/-- The end of the daylight saving time, for the times of a year. -/
def dstend (y : ℤ) : ℤ := ruleDate (ruleYear y) z.toStruct.stStdDate

/-- A time is between the changes of a year, or around them on the southern hemisphere. -/
def IsSummer (y t : ℤ) : Prop :=
  if z.dststart y ≤ z.dstend y then z.dststart y < t ∧ t < z.dstend y else t < z.dstend y ∨ z.dststart y < t

instance (y : ℤ) : DecidablePred (z.IsSummer y) := fun _ =>
  inferInstanceAs (Decidable (if z.dststart y ≤ z.dstend y then _ else _))

/-- The seconds that local time is ahead of UTC, with daylight saving and without. -/
def summerOffset : ℤ := -(z.toStruct.lBias.toInt + z.toStruct.lDstBias.toInt) * 60

def winterOffset : ℤ := -(z.toStruct.lBias.toInt + z.toStruct.lStdBias.toInt) * 60

def toLocal (t : ℤ) : ℤ := utcToLocal t z.toStruct

def toUTC (t : ℤ) : ℤ := localToUTC t z.toStruct

/-- The local times that occur twice, before and behind the change at the end of the daylight saving time. -/
def InRepeatedHour (t : ℤ) : Prop :=
  z.HasRule ∧ z.dstend (yearAt t) - (z.summerOffset - z.winterOffset) ≤ t ∧ t < z.dstend (yearAt t)

/-- The daylight saving time ends at a time. -/
def EndsAt (t : ℤ) : Prop := z.HasRule ∧ t = z.dstend (yearAt t)

/-- The time comes back from local time, unless that is in the hour that occurs twice. -/
def RoundTrips (t : ℤ) : Prop := ¬ z.InRepeatedHour (z.toLocal t) → z.toUTC (z.toLocal t) = t

/-- Local time goes forward wherever the daylight saving time does not end. -/
def Increases : Prop := ∀ a b, a < b → (∀ t, a < t → t ≤ b → ¬ z.EndsAt t) → z.toLocal a < z.toLocal b

/-! ## Which times do not come back -/

/-- The wall time of a time: the summer's offset between the changes of its year, and the winter's elsewhere. -/
def wall (t : ℤ) : ℤ := t + if z.IsSummer (yearAt t) t then z.summerOffset else z.winterOffset

/-- A time near a change of a year, whose wall time is on the other side of it: in summer, behind the beginning or in front
of the end by no more than the summer's offset; in winter, in front of the beginning or behind the end by less than the
winter's. Where summer or winter is shorter than the offset, the wall time may be behind both changes. -/
def NearChange (y t : ℤ) : Prop :=
  if z.dststart y ≤ z.dstend y then
    (z.dststart y < t ∧ t < z.dstend y) ∧ (t ≤ z.dststart y - z.summerOffset ∨ z.dstend y - z.summerOffset ≤ t) ∨
      (t ≤ z.dststart y ∨ z.dstend y ≤ t) ∧ (z.dststart y - z.winterOffset < t ∧ t < z.dstend y - z.winterOffset)
  else
    (t < z.dstend y ∨ z.dststart y < t) ∧ (z.dstend y - z.summerOffset ≤ t ∧ t ≤ z.dststart y - z.summerOffset) ∨
      (z.dstend y ≤ t ∧ t ≤ z.dststart y) ∧ (t < z.dstend y - z.winterOffset ∨ z.dststart y - z.winterOffset < t)

/-- A time near the turn of a year whose wall time is in the other year, the dates of which say something else about it. -/
def NearTurn (t : ℤ) : Prop :=
  yearAt (z.wall t) ≠ yearAt t ∧ ¬ (z.IsSummer (yearAt t) t ↔ z.IsSummer (yearAt (z.wall t)) (z.wall t))

/-- `LocalToUTC` takes the wrong offset for the wall time of a time. -/
def Misread (t : ℤ) : Prop :=
  z.HasRule ∧ (yearAt (z.wall t) = yearAt t ∧ z.NearChange (yearAt t) t ∨ z.NearTurn t)

/-! ## Where the clock goes forward -/

/-- The daylight saving time begins in a year: the beginning and the second behind it are in the year, and not behind the
end. -/
def BeginsIn (y : ℤ) : Prop :=
  yearAt (z.dststart y) = y ∧ yearAt (z.dststart y + 1) = y ∧
    (z.dststart y ≤ z.dstend y → z.dststart y + 1 < z.dstend y)

/-- The last second of the year before and the first one of a year are both in summer or both not, by the dates of their
years, or the clock goes forward from one to the other. Otherwise the daylight saving time ends with the year. -/
def TurnsForward (y : ℤ) : Prop :=
  firstSecond y ≠ z.dstend y →
    (z.IsSummer (y - 1) (firstSecond y - 1) → ¬ z.IsSummer y (firstSecond y) → z.summerOffset < z.winterOffset) ∧
      (¬ z.IsSummer (y - 1) (firstSecond y - 1) → z.IsSummer y (firstSecond y) → z.winterOffset < z.summerOffset)

/-- The clock goes forward where the daylight saving time begins, and at the turn of every year. -/
def GoesForward : Prop :=
  z.HasRule → (z.winterOffset < z.summerOffset ∨ ∀ y, ¬ z.BeginsIn y) ∧ ∀ y, z.TurnsForward y

end Zone

/-! ## Dates in the code -/

theorem yearAt_eq_iff {t y : ℤ} : yearAt t = y ↔ firstSecond y ≤ t ∧ t < firstSecond (y + 1) := by
  have hspec := yearOf_spec (t / 86400)
  unfold yearAt firstSecond
  constructor
  · rintro rfl
    omega
  · rintro ⟨hle, hlt⟩
    have h := yearStart_strictMono.lt_iff_lt.mp (show yearStart (yearOf (t / 86400)) < yearStart (y + 1) by omega)
    have h' := yearStart_strictMono.lt_iff_lt.mp (show yearStart y < yearStart (yearOf (t / 86400) + 1) by omega)
    omega

/-- The months of the days that a rule can lead to. -/
theorem monthOf_bounds {d : ℤ} (hlow : firstOfMonth 22799 - 80000 ≤ d) (hhigh : d < firstOfMonth (2 ^ 20) + 80000) :
    0 ≤ monthOf d ∧ monthOf d < 2 ^ 30 := by
  obtain ⟨hle, hlt⟩ := monthOf_spec d
  have hfirst : firstOfMonth 0 ≤ firstOfMonth 22799 - 80000 := by decide +kernel
  have hlast : firstOfMonth (2 ^ 20) + 80000 ≤ firstOfMonth (2 ^ 30) := by decide +kernel
  constructor
  · by_contra hneg
    have hmono := firstOfMonth_strictMono.monotone (show monthOf d + 1 ≤ 0 by omega)
    omega
  · by_contra hge
    have hmono := firstOfMonth_strictMono.monotone (show 2 ^ 30 ≤ monthOf d by omega)
    omega

theorem timesInt_bounds (w : WORD) (n : LONG) : -2 ^ 31 ≤ timesInt w n ∧ timesInt w n < 2 ^ 31 := by
  have hle := BitVec.le_toInt (w.setWidth 32 * n)
  have hlt := BitVec.toInt_lt (x := w.setWidth 32 * n)
  unfold timesInt
  omega

/-- What the code calculates from a year in 16 bits is the date of the rule. -/
theorem getDateByYearMonthWeekDayHour_eq (year : WORD) (st : SYSTEMTIME) :
    getDateByYearMonthWeekDayHour year st.wMonth st.wDay st.wDayOfWeek st.wHour =
      ruleDate (1900 + year.toNat) st := by
  have hyear := year.isLt
  have hmonth := st.wMonth.isLt
  obtain ⟨n, hn⟩ : ∃ n : ℤ, n = 12 * (1900 + year.toNat) + (st.wMonth.toNat - 1) := ⟨_, rfl⟩
  have hlow : 22799 ≤ n := by omega
  have hhigh : n < 2 ^ 20 := by omega
  have hfirst : timegm year.toNat (st.wMonth.toNat - 1) 0 = firstOfMonth n * 86400 := by
    rw [hn, timegm, add_comm (1900 : ℤ)]
    ring
  obtain ⟨hweek, hweek'⟩ := timesInt_bounds st.wDay (7 * 24 * 60 * 60)
  obtain ⟨hday, hday'⟩ := timesInt_bounds st.wDayOfWeek (24 * 60 * 60)
  obtain ⟨hhour, hhour'⟩ := timesInt_bounds st.wHour (60 * 60)
  have hmono := firstOfMonth_strictMono.monotone hlow
  have hmono' := firstOfMonth_strictMono hhigh
  obtain ⟨t, ht⟩ : ∃ t : ℤ, t = (firstOfMonth n - (firstOfMonth n + 4) % 7) * 86400 +
      timesInt st.wDay (7 * 24 * 60 * 60) + timesInt st.wDayOfWeek (24 * 60 * 60) + timesInt st.wHour (60 * 60) :=
    ⟨_, rfl⟩
  obtain ⟨hmon, hmon'⟩ := monthOf_bounds (d := t / 86400) (by omega) (by omega)
  have hdate : firstOfMonth n * 86400 - (firstOfMonth n + 4) % 7 * 24 * 60 * 60 +
      timesInt st.wDay (7 * 24 * 60 * 60) + timesInt st.wDayOfWeek (24 * 60 * 60) + timesInt st.wHour (60 * 60) = t := by
    rw [ht]
    ring
  unfold getDateByYearMonthWeekDayHour ruleDate
  dsimp only
  rw [← hn, hfirst, ChangeDate.gmtimeSafe_wday_firstOfMonth (by omega) (by omega), hdate, ← ht,
    ChangeDate.gmtimeSafe_mon hmon hmon', ite_not]
  norm_num

/-- The year that is given for a time. -/
theorem toNat_year (t : ℤ) : 1900 + ((BitVec.ofInt 16 (gmtimeSafe t).tm_year).toNat : ℤ) = ruleYear (yearAt t) := by
  have hyear : (gmtimeSafe t).tm_year =
      if -2 ^ 31 ≤ yearAt t - 1900 ∧ yearAt t - 1900 < 2 ^ 31 then yearAt t - 1900 else 0 := by
    unfold gmtimeSafe yearAt
    dsimp only
    split_ifs <;> first | rfl | omega
  rw [hyear, ruleYear, BitVec.toNat_ofInt]
  split_ifs <;> omega

namespace Zone

variable {z : Zone}

/-! ## The offset -/

theorem toInt_offset {bias other : LONG} (hbias : |bias.toInt| < 1440) (hother : |other.toInt| < 1440) :
    (-(bias + other) * 60 : LONG).toInt = -(bias.toInt + other.toInt) * 60 := by
  rw [abs_lt] at hbias hother
  have hsixty : (60 : LONG).toInt = 60 := rfl
  have hsum : (bias + other).toInt = bias.toInt + other.toInt := by
    rw [BitVec.toInt_add, Int.bmod_eq_of_le (by omega) (by omega)]
  have hneg : (-(bias + other)).toInt = -(bias.toInt + other.toInt) := by
    rw [BitVec.toInt_neg, hsum, Int.bmod_eq_of_le (by omega) (by omega)]
  rw [BitVec.toInt_mul, hneg, hsixty, Int.bmod_eq_of_le (by omega) (by omega)]

theorem toInt_constantOffset {bias : LONG} (hbias : |bias.toInt| < 1440) :
    (-bias * 60 : LONG).toInt = -bias.toInt * 60 := by
  have h := @toInt_offset bias 0 hbias (by decide)
  have hsum : bias + 0 = bias := BitVec.add_zero bias
  have hzero : (0 : LONG).toInt = 0 := rfl
  rwa [hsum, hzero, add_zero] at h

/-- The offset of a time, by the dates of its year. -/
theorem getTZOffset_eq (date : ℤ) : (getTZOffset date z.toStruct).toInt =
      if z.HasRule then if z.IsSummer (yearAt date) date then z.summerOffset else z.winterOffset
      else -z.toStruct.lBias.toInt * 60 := by
  by_cases hrule : z.HasRule
  · obtain ⟨hbias, hdst, hstd⟩ := hrule
    rw [if_pos ⟨hbias, hdst, hstd⟩]
    unfold getTZOffset
    rw [if_neg (by rintro (h | h | h); exacts [hbias h, hdst h, hstd h])]
    dsimp only
    by_cases hsummer : z.IsSummer (yearAt date) date
    · rw [if_pos hsummer]
      unfold IsSummer dststart dstend at hsummer
      rw [← toNat_year, ← getDateByYearMonthWeekDayHour_eq, ← getDateByYearMonthWeekDayHour_eq] at hsummer
      rw [if_pos]
      · exact toInt_offset z.bias_lt z.dstBias_lt
      · split_ifs at hsummer ⊢ <;> simpa using hsummer
    · rw [if_neg hsummer]
      unfold IsSummer dststart dstend at hsummer
      rw [← toNat_year, ← getDateByYearMonthWeekDayHour_eq, ← getDateByYearMonthWeekDayHour_eq] at hsummer
      rw [if_neg]
      · exact toInt_offset z.bias_lt z.stdBias_lt
      · split_ifs at hsummer ⊢ <;> simpa using hsummer
  · rw [if_neg hrule]
    unfold HasRule at hrule
    unfold getTZOffset
    rw [if_pos (by tauto)]
    exact toInt_constantOffset z.bias_lt

theorem toLocal_eq (t : ℤ) (hrule : z.HasRule) : z.toLocal t = z.wall t := by
  unfold toLocal utcToLocal wall
  rw [getTZOffset_eq, if_pos hrule]

theorem toUTC_eq (t : ℤ) (hrule : z.HasRule) :
    z.toUTC t = t - if z.IsSummer (yearAt t) t then z.summerOffset else z.winterOffset := by
  unfold toUTC localToUTC
  rw [getTZOffset_eq, if_pos hrule]

theorem summerOffset_ne (hrule : z.HasRule) : z.summerOffset ≠ z.winterOffset := by
  intro heq
  unfold summerOffset winterOffset at heq
  exact hrule.1 (BitVec.eq_of_toInt_eq (by omega))

/-! ## There and back -/

/-- By the dates of one year, a time and its wall time are on two sides just near a change. -/
theorem nearChange_iff (z : Zone) (y t : ℤ) : z.NearChange y t ↔
    ¬ (z.IsSummer y t ↔ z.IsSummer y (t + if z.IsSummer y t then z.summerOffset else z.winterOffset)) := by
  unfold NearChange
  by_cases hsummer : z.IsSummer y t
  · rw [if_pos hsummer, iff_true_left hsummer]
    unfold IsSummer at hsummer ⊢
    split_ifs at hsummer ⊢ <;> omega
  · rw [if_neg hsummer, iff_false_left hsummer]
    unfold IsSummer at hsummer ⊢
    split_ifs at hsummer ⊢ <;> omega

/-- The time comes back just when its wall time is not misread. -/
theorem toUTC_toLocal_iff (t : ℤ) : z.toUTC (z.toLocal t) = t ↔ ¬ z.Misread t := by
  by_cases hrule : z.HasRule
  · have hne := summerOffset_ne hrule
    have hsame : z.Misread t ↔ ¬ (z.IsSummer (yearAt t) t ↔ z.IsSummer (yearAt (z.wall t)) (z.wall t)) := by
      rw [Misread, and_iff_right hrule, NearTurn, nearChange_iff]
      by_cases hyear : yearAt (z.wall t) = yearAt t
      · rw [hyear, and_iff_right rfl, wall]
        exact or_iff_left fun h => h.1 rfl
      · rw [and_iff_right hyear]
        exact or_iff_right fun h => hyear h.1
    rw [hsame, not_not, toUTC_eq _ hrule, toLocal_eq _ hrule]
    by_cases hsummer : z.IsSummer (yearAt t) t
    · have hwall : z.wall t = t + z.summerOffset := by rw [wall, if_pos hsummer]
      rw [iff_true_left hsummer]
      split_ifs with h
      · exact iff_of_true (by omega) h
      · exact iff_of_false (by omega) h
    · have hwall : z.wall t = t + z.winterOffset := by rw [wall, if_neg hsummer]
      rw [iff_false_left hsummer]
      split_ifs with h
      · exact iff_of_false (by omega) (not_not.mpr h)
      · exact iff_of_true (by omega) h
  · refine iff_of_true ?_ fun h => hrule h.1
    unfold toUTC toLocal localToUTC utcToLocal
    rw [getTZOffset_eq, getTZOffset_eq, if_neg hrule, if_neg hrule]
    exact add_sub_cancel_right _ _

/-! ## Going forward -/

/-- The offsets differ by whole minutes. -/
theorem offset_step (z : Zone) : 60 ∣ z.summerOffset - z.winterOffset :=
  ⟨z.toStruct.lStdBias.toInt - z.toStruct.lDstBias.toInt, by unfold summerOffset winterOffset; ring⟩

/-- From a second to the next local time goes forward unless a change leads to the smaller one of the two offsets. -/
theorem toLocal_lt_succ_iff (t : ℤ) : z.toLocal t < z.toLocal (t + 1) ↔ (z.HasRule →
    (z.IsSummer (yearAt t) t → ¬ z.IsSummer (yearAt (t + 1)) (t + 1) → z.summerOffset < z.winterOffset) ∧
      (¬ z.IsSummer (yearAt t) t → z.IsSummer (yearAt (t + 1)) (t + 1) → z.winterOffset < z.summerOffset)) := by
  by_cases hrule : z.HasRule
  · have hne := summerOffset_ne hrule
    have hstep := offset_step z
    rw [toLocal_eq _ hrule, toLocal_eq _ hrule, forall_prop_of_true hrule, wall, wall]
    by_cases hnow : z.IsSummer (yearAt t) t <;> by_cases hnext : z.IsSummer (yearAt (t + 1)) (t + 1)
    all_goals
      simp only [hnow, hnext, if_true, if_false, not_true, not_false_iff, true_imp_iff, false_imp_iff, and_self,
        and_true, true_and, iff_true]
      omega
  · refine iff_of_true ?_ fun h => absurd h hrule
    unfold toLocal utcToLocal
    rw [getTZOffset_eq, getTZOffset_eq, if_neg hrule, if_neg hrule]
    omega

/-- Within a year the summer begins just behind its first date, and ends with its last one. -/
theorem isSummer_succ {y t : ℤ} (hyear : yearAt t = y) (hnext : yearAt (t + 1) = y) (hend : t + 1 ≠ z.dstend y) :
    (z.IsSummer y t → z.IsSummer y (t + 1)) ∧
      (¬ z.IsSummer y t ∧ z.IsSummer y (t + 1) ↔ t = z.dststart y ∧ z.BeginsIn y) := by
  have hbegins : t = z.dststart y ∧ z.BeginsIn y ↔
      t = z.dststart y ∧ (z.dststart y ≤ z.dstend y → z.dststart y + 1 < z.dstend y) := by
    refine and_congr_right fun ht => ?_
    rw [BeginsIn, ← ht, and_iff_right hyear, and_iff_right hnext]
  rw [hbegins]
  unfold IsSummer
  split_ifs with hnorth
  · constructor
    · omega
    · constructor
      · omega
      · rintro ⟨ht, h⟩
        have hlt := h hnorth
        omega
  · constructor
    · omega
    · constructor
      · intro h
        exact ⟨by omega, fun h => absurd h hnorth⟩
      · omega

/-- Local time goes forward over a time when it does so at each second of it. -/
theorem increases_iff_succ : z.Increases ↔ ∀ t, ¬ z.EndsAt (t + 1) → z.toLocal t < z.toLocal (t + 1) := by
  constructor
  · intro h t hend
    refine h t (t + 1) (by omega) fun s hlow hhigh => ?_
    obtain rfl : s = t + 1 := by omega
    exact hend
  · intro h a b hab hnone
    obtain ⟨k, rfl⟩ : ∃ k : ℕ, b = a + 1 + k := ⟨(b - a - 1).toNat, by omega⟩
    -- one second more at a time
    induction k with
    | zero =>
      rw [Nat.cast_zero, add_zero] at hnone ⊢
      exact h a (hnone _ (by omega) le_rfl)
    | succ k ih =>
      have hshift : a + 1 + (k + 1 : ℕ) = a + 1 + k + 1 := by
        push_cast
        ring
      rw [hshift] at hnone ⊢
      have hlast := h (a + 1 + k) (hnone _ (by omega) le_rfl)
      exact (ih (by omega) fun t hlow hhigh => hnone t hlow (by omega)).trans hlast

/-- The next second is in the same year, or it is the first of the next one. -/
theorem yearAt_succ (t : ℤ) : yearAt (t + 1) = yearAt t ∨
    yearAt (t + 1) = yearAt t + 1 ∧ t + 1 = firstSecond (yearAt t + 1) := by
  obtain ⟨hle, hlt⟩ := yearAt_eq_iff.mp (rfl : yearAt t = yearAt t)
  by_cases hnext : t + 1 < firstSecond (yearAt t + 1)
  · exact .inl (yearAt_eq_iff.mpr ⟨by omega, hnext⟩)
  · have heq : t + 1 = firstSecond (yearAt t + 1) := by omega
    refine .inr ⟨yearAt_eq_iff.mpr ⟨heq.ge, ?_⟩, heq⟩
    have hmono := yearStart_strictMono (show yearAt t + 1 < yearAt t + 1 + 1 by omega)
    rw [heq, firstSecond, firstSecond]
    omega

theorem yearAt_firstSecond (y : ℤ) : yearAt (firstSecond y) = y ∧ yearAt (firstSecond y - 1) = y - 1 := by
  have hmono := yearStart_strictMono (show y < y + 1 by omega)
  have hmono' := yearStart_strictMono (show y - 1 < y by omega)
  constructor
  · refine yearAt_eq_iff.mpr ⟨le_rfl, ?_⟩
    rw [firstSecond, firstSecond]
    omega
  · refine yearAt_eq_iff.mpr ⟨?_, ?_⟩
    · rw [firstSecond, firstSecond]
      omega
    · rw [sub_add_cancel]
      exact sub_one_lt _

/-- Besides the end of the daylight saving time the clock can only go back where it begins, and at the turn of a year. -/
theorem increases_iff : z.Increases ↔ z.GoesForward := by
  rw [increases_iff_succ]
  simp only [toLocal_lt_succ_iff]
  constructor
  · intro h hrule
    refine ⟨or_iff_not_imp_right.mpr fun hbegins => ?_, fun y hend => ?_⟩
    · obtain ⟨y, hy⟩ := not_forall_not.mp hbegins
      obtain ⟨hyear, hnext, hlt⟩ := hy
      have hend : z.dststart y + 1 ≠ z.dstend y := by
        by_cases hnorth : z.dststart y ≤ z.dstend y
        · exact (hlt hnorth).ne
        · omega
      obtain ⟨hnow, hthen⟩ := (isSummer_succ hyear hnext hend).2.mpr ⟨rfl, hyear, hnext, hlt⟩
      have hends : ¬ z.EndsAt (z.dststart y + 1) := by
        rintro ⟨-, heq⟩
        rw [hnext] at heq
        exact hend heq
      have hforward := (h (z.dststart y) hends hrule).2
      rw [hyear, hnext] at hforward
      exact hforward hnow hthen
    · obtain ⟨hyear, hbefore⟩ := yearAt_firstSecond y
      have hends : ¬ z.EndsAt (firstSecond y) := by
        rintro ⟨-, heq⟩
        rw [hyear] at heq
        exact hend heq
      have hforward := h (firstSecond y - 1)
      rw [sub_add_cancel, hyear, hbefore] at hforward
      exact hforward hends hrule
  · intro h t hend hrule
    obtain ⟨hbegins, hturns⟩ := h hrule
    rcases yearAt_succ t with hnext | ⟨hnext, hfirst⟩
    · have hend' : t + 1 ≠ z.dstend (yearAt t) := fun heq => hend ⟨hrule, by rwa [hnext]⟩
      obtain ⟨hstays, hstart⟩ := isSummer_succ (z := z) rfl hnext hend'
      rw [hnext]
      refine ⟨fun hnow hnot => absurd (hstays hnow) hnot, fun hnow hthen => ?_⟩
      exact hbegins.resolve_right fun hnever => hnever _ (hstart.mp ⟨hnow, hthen⟩).2
    · have hturn := hturns (yearAt t + 1) fun heq => hend ⟨hrule, by rw [hnext, hfirst, heq]⟩
      rw [add_sub_cancel_right, ← hfirst, add_sub_cancel_right] at hturn
      rwa [hnext]

/-- **UTC and local time**: a UTC time comes back from local time if and only if it is not near a change of its year, or a
turn of the year, in such a way that its wall time is misread, or the local time occurs twice. Local time goes forward
up to the end of the daylight saving time if and only if the beginning does not put the clock back, and no turn of a
year does. -/
theorem localTime_iff (z : Zone) :
    (∀ t, z.RoundTrips t ↔ z.InRepeatedHour (z.wall t) ∨ ¬ z.Misread t) ∧ (z.Increases ↔ z.GoesForward) := by
  refine ⟨fun t => ?_, increases_iff⟩
  rw [RoundTrips, toUTC_toLocal_iff]
  by_cases hrule : z.HasRule
  · rw [toLocal_eq t hrule, or_iff_not_imp_left]
  · have hfine : ¬ z.Misread t := fun h => hrule h.1
    exact iff_of_true (fun _ => hfine) (.inr hfine)

/-- Central Europe: one hour ahead of UTC, two from the last Sunday of March at 2:00 until the last one of October at
3:00. -/
def centralEurope : Zone where
  toStruct :=
    { lBias := -60
      lStdBias := 0
      lDstBias := -60
      wStdYear := 0
      stStdDate := ⟨0, 10, 0, 5, 3, 0, 0, 0⟩
      wDstYear := 0
      stDstDate := ⟨0, 3, 0, 5, 2, 0, 0, 0⟩ }
  bias_lt := by decide
  stdBias_lt := by decide
  dstBias_lt := by decide

/-- 1:30 UTC on the 30th of March 2014 is half past two in local time, which `LocalToUTC` takes for one of the summer. -/
theorem not_roundTrips_centralEurope : ¬ centralEurope.RoundTrips 1396143000 := by
  have hlocal : centralEurope.toLocal 1396143000 = 1396146600 := by decide +kernel
  have hutc : centralEurope.toUTC 1396146600 = 1396139400 := by decide +kernel
  have hend : centralEurope.dstend (yearAt 1396146600) = 1414292400 := by decide +kernel
  have hhour : centralEurope.summerOffset - centralEurope.winterOffset = 3600 := by decide
  unfold RoundTrips InRepeatedHour
  rw [hlocal, hutc, hend, hhour]
  omega

end Zone

end Zcp.Common
