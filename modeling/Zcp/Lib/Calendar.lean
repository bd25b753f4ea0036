import Mathlib.Tactic

/-!
# The Gregorian calendar

Days are counted from the first of January 1970, months from the January of the year 0. A day is in the
one month whose first day is not behind it and whose successor's first day is.
-/

namespace Zcp.Lib

/-! ## Years -/

/-- A year with 366 days. -/
def IsLeap (y : ℤ) : Prop := (y % 4 = 0 ∧ y % 100 ≠ 0) ∨ y % 400 = 0

instance : DecidablePred IsLeap := fun y =>
  inferInstanceAs (Decidable ((y % 4 = 0 ∧ y % 100 ≠ 0) ∨ y % 400 = 0))

/-- The first day of a year. -/
def yearStart (y : ℤ) : ℤ :=
  365 * (y - 1970) + (y - 1969) / 4 - (y - 1901) / 100 + (y - 1601) / 400

/-- From the first day of a year to that of the next one there are 366 days in a leap year and 365 in any other. -/
theorem yearStart_succ (y : ℤ) : yearStart (y + 1) = yearStart y + if IsLeap y then 366 else 365 := by
  have hfour : (y + 1 - 1969) / 4 = (y - 1969) / 4 + if y % 4 = 0 then 1 else 0 := by split_ifs <;> omega
  have hcentury : (y + 1 - 1901) / 100 = (y - 1901) / 100 + if y % 100 = 0 then 1 else 0 := by split_ifs <;> omega
  have hera : (y + 1 - 1601) / 400 = (y - 1601) / 400 + if y % 400 = 0 then 1 else 0 := by split_ifs <;> omega
  have hdvd : (y % 400 = 0 → y % 100 = 0) ∧ (y % 100 = 0 → y % 4 = 0) := by omega
  unfold yearStart IsLeap
  rw [hfour, hcentury, hera]
  generalize (y - 1969) / 4 = a
  generalize (y - 1901) / 100 = b
  generalize (y - 1601) / 400 = c
  by_cases h4 : y % 4 = 0 <;> by_cases h100 : y % 100 = 0 <;> by_cases h400 : y % 400 = 0 <;>
    simp [h4, h100, h400] at hdvd ⊢ <;> ring

/-- Later years begin later, so that a day lies in one year only. -/
theorem yearStart_strictMono : StrictMono yearStart := by
  apply strictMono_int_of_lt_succ
  intro y
  rw [yearStart_succ]
  split_ifs <;> omega

/-- The year of a day. The days of 400 years give an estimate that misses by one at most. -/
def yearOf (d : ℤ) : ℤ :=
  let y := 1970 + d * 400 / 146097
  if yearStart (y + 1) ≤ d then y + 1
  else if d < yearStart y then y - 1
  else y

/-- The year of a day is the one whose first day is not later and whose last day is not earlier, before year 0 as
well. -/
theorem yearOf_spec (d : ℤ) : yearStart (yearOf d) ≤ d ∧ d < yearStart (yearOf d + 1) := by
  unfold yearOf
  dsimp only
  split_ifs with hnext hbefore
  · refine ⟨hnext, ?_⟩
    unfold yearStart
    omega
  · refine ⟨?_, ?_⟩
    · unfold yearStart
      omega
    · rw [sub_add_cancel]
      exact hbefore
  · exact ⟨not_lt.mp hbefore, not_le.mp hnext⟩

/-! ## Months -/

/-- The days of a year in front of a month, which is counted from 0. -/
def daysBefore (y m : ℤ) : ℤ :=
  (367 * m + 5) / 12 - if m < 2 then 0 else if IsLeap y then 1 else 2

/-- The month of a day of a year, both counted from 0. -/
def monthOfYear (y d : ℤ) : ℤ :=
  (12 * (d + if d < daysBefore y 2 then 0 else if IsLeap y then 1 else 2) + 6) / 367

theorem daysBefore_zero (y : ℤ) : daysBefore y 0 = 0 := rfl

/-- The twelve months of a year have as many days as the year. -/
theorem daysBefore_twelve (y : ℤ) : daysBefore y 12 = if IsLeap y then 366 else 365 := by
  unfold daysBefore
  split_ifs <;> omega

/-- A day of a year, counted from 0, lies in the month that the table of the days before each month gives. -/
theorem monthOfYear_spec {y d : ℤ} (hd : 0 ≤ d) (hd' : d < daysBefore y 12) :
    0 ≤ monthOfYear y d ∧ monthOfYear y d < 12 ∧ daysBefore y (monthOfYear y d) ≤ d ∧
      d < daysBefore y (monthOfYear y d + 1) := by
  rw [daysBefore_twelve] at hd'
  unfold monthOfYear daysBefore
  by_cases hleap : IsLeap y
  · simp only [hleap, if_true] at hd' ⊢
    refine ⟨?_, ?_, ?_, ?_⟩ <;> split_ifs <;> omega
  · simp only [hleap, if_false] at hd' ⊢
    refine ⟨?_, ?_, ?_, ?_⟩ <;> split_ifs <;> omega

/-- The first day of a month. -/
def firstOfMonth (n : ℤ) : ℤ := yearStart (n / 12) + daysBefore (n / 12) (n % 12)

/-- The days of a month. -/
def monthLength (n : ℤ) : ℤ := daysBefore (n / 12) (n % 12 + 1) - daysBefore (n / 12) (n % 12)

/-- Months follow each other without a gap, also from a December to the January of the next year. -/
theorem firstOfMonth_succ (n : ℤ) : firstOfMonth (n + 1) = firstOfMonth n + monthLength n := by
  unfold firstOfMonth monthLength
  by_cases hlast : n % 12 = 11
  · have hyear : (n + 1) / 12 = n / 12 + 1 := by omega
    have hmonth : (n + 1) % 12 = 0 := by omega
    have htwelve : (11 : ℤ) + 1 = 12 := rfl
    rw [hyear, hmonth, hlast, htwelve, yearStart_succ, daysBefore_zero, ← daysBefore_twelve]
    ring
  · have hyear : (n + 1) / 12 = n / 12 := by omega
    have hmonth : (n + 1) % 12 = n % 12 + 1 := by omega
    rw [hyear, hmonth]
    ring

/-- No month is shorter than 28 days or longer than 31. -/
theorem monthLength_bounds (n : ℤ) : 28 ≤ monthLength n ∧ monthLength n ≤ 31 := by
  have hmonth : 0 ≤ n % 12 ∧ n % 12 < 12 := by omega
  unfold monthLength daysBefore
  generalize n % 12 = m at hmonth
  constructor <;> split_ifs <;> omega

/-- Later months begin later, so that a day lies in one month only. -/
theorem firstOfMonth_strictMono : StrictMono firstOfMonth := by
  apply strictMono_int_of_lt_succ
  intro n
  have hlength := (monthLength_bounds n).1
  rw [firstOfMonth_succ]
  omega

/-- The month of a day. -/
def monthOf (d : ℤ) : ℤ := 12 * yearOf d + monthOfYear (yearOf d) (d - yearStart (yearOf d))

/-- The month of a day is the one that has begun on the day and whose successor has not. -/
theorem monthOf_spec (d : ℤ) : firstOfMonth (monthOf d) ≤ d ∧ d < firstOfMonth (monthOf d + 1) := by
  obtain ⟨hle, hlt⟩ := yearOf_spec d
  rw [yearStart_succ, ← daysBefore_twelve] at hlt
  obtain ⟨hnonneg, hlt12, hbefore, hafter⟩ := monthOfYear_spec (sub_nonneg.mpr hle)
    (sub_lt_iff_lt_add'.mpr hlt)
  unfold monthOf
  generalize monthOfYear (yearOf d) (d - yearStart (yearOf d)) = m at *
  have hyear : (12 * yearOf d + m) / 12 = yearOf d := by omega
  have hmonth : (12 * yearOf d + m) % 12 = m := by omega
  rw [firstOfMonth_succ]
  unfold firstOfMonth monthLength
  rw [hyear, hmonth]
  omega

/-- A day lies in a month exactly if it is not before the first day of the month and before the first day of the
next one. -/
theorem monthOf_eq_iff {d n : ℤ} : monthOf d = n ↔ firstOfMonth n ≤ d ∧ d < firstOfMonth (n + 1) := by
  obtain ⟨hle, hlt⟩ := monthOf_spec d
  constructor
  · rintro rfl
    exact ⟨hle, hlt⟩
  · rintro ⟨hle', hlt'⟩
    have h := firstOfMonth_strictMono.lt_iff_lt.mp (hle.trans_lt hlt')
    have h' := firstOfMonth_strictMono.lt_iff_lt.mp (hle'.trans_lt hlt)
    omega

/-- The year of a day is the year of its month, months being counted from January of the year 0. -/
theorem yearOf_eq (d : ℤ) : yearOf d = monthOf d / 12 := by
  obtain ⟨hle, hlt⟩ := yearOf_spec d
  rw [yearStart_succ, ← daysBefore_twelve] at hlt
  obtain ⟨hnonneg, hlt12, -, -⟩ := monthOfYear_spec (sub_nonneg.mpr hle)
    (sub_lt_iff_lt_add'.mpr hlt)
  unfold monthOf
  omega

end Zcp.Lib
