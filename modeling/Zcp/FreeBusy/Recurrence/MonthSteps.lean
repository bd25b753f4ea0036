import Mathlib.Data.List.GetD
import Zcp.FreeBusy.Recurrence.Days

/-!
# Steps of months

`DaysTillMonth` adds up the lengths of the months that follow a time, in the year of the time. Behind December there is
nothing to add, so that it never gets into the next year.
-/

namespace Zcp.FreeBusy

open Zcp.Lib Zcp.Common Zcp.M4lcommon

/-! ## Lengths of months -/

theorem monthOf_firstOfMonth (n : ℤ) : monthOf (firstOfMonth n) = n :=
  monthOf_eq_iff.mpr ⟨le_rfl, firstOfMonth_strictMono (by omega)⟩

/-- What the number of days of a year is off by when its number is an `unsigned int`. -/
def leapError (year : UInt) (y : ℤ) : ℤ := (if isLeapYear year then 1 else 0) - if IsLeap y then 1 else 0

theorem leapError_bounds (year : UInt) (y : ℤ) : -1 ≤ leapError year y ∧ leapError year y ≤ 1 := by
  unfold leapError
  split_ifs <;> omega

/-- The length of a month, which depends on the year in February. -/
theorem daysInMonth_toNat (year : UInt) (n : ℤ) :
    ((daysInMonth year (BitVec.ofNat 32 (n % 12 + 1).toNat)).toNat : ℤ) =
      monthLength n + if n % 12 = 1 then leapError year (n / 12) else 0 := by
  have hmonth : 0 ≤ n % 12 ∧ n % 12 < 12 := by omega
  unfold daysInMonth monthLength daysBefore leapError
  generalize n % 12 = m at hmonth
  obtain rfl | rfl | rfl | rfl | rfl | rfl | rfl | rfl | rfl | rfl | rfl | rfl :
      m = 0 ∨ m = 1 ∨ m = 2 ∨ m = 3 ∨ m = 4 ∨ m = 5 ∨ m = 6 ∨ m = 7 ∨ m = 8 ∨ m = 9 ∨ m = 10 ∨ m = 11 := by omega
  all_goals by_cases h : IsLeap (n / 12) <;> cases h' : isLeapYear year <;> simp only [h] <;> rfl

/-- There is no month behind December. -/
theorem daysInMonth_behind (year : UInt) {i : ℕ} (hi : 12 < i) (hi' : i < 2 ^ 32) :
    daysInMonth year (BitVec.ofNat 32 i) = 0 := by
  have hnat : (BitVec.ofNat 32 i).toNat = i := by
    rw [BitVec.toNat_ofNat, Nat.mod_eq_of_lt hi']
  have hne : ¬ BitVec.ofNat 32 i = 2 := by
    intro h
    have htwo : i = 2 := hnat.symm.trans (congrArg BitVec.toNat h)
    omega
  have hnone : daysOfMonth (BitVec.ofNat 32 i) = 0 := by
    unfold daysOfMonth
    rw [hnat, List.getD_eq_default]
    exact hi
  rw [daysInMonth, hnone, if_neg fun h => hne h.1]
  rfl

/-! ## The sum of the lengths -/

/-- The days of some months of a year, as far as it has them. -/
def monthSum (year : UInt) (first k : ℕ) : ℕ :=
  ∑ i ∈ Finset.range k, (daysInMonth year (BitVec.ofNat 32 (first + i))).toNat

/-- The loop of `DaysTillMonth`. -/
theorem sum_daysInMonth (year : UInt) (first k : ℕ) :
    ((List.range k).map fun i => daysInMonth year (BitVec.ofNat 32 first + BitVec.ofNat 32 i)).sum =
      BitVec.ofNat 32 (monthSum year first k) := by
  induction k with
  | zero => rfl
  | succ k ih =>
    rw [List.range_succ, List.map_append, List.sum_append, ih, monthSum, monthSum, Finset.sum_range_succ,
      BitVec.ofNat_add, List.map_singleton, List.sum_singleton, BitVec.ofNat_toNat, BitVec.setWidth_eq, BitVec.ofNat_add]

/-- In the year the sum is that of the calendar, except where February is taken for that of another year. -/
theorem monthSum_inside (year : UInt) (n : ℤ) {k : ℕ} (hk : n % 12 + k ≤ 12) :
    (monthSum year (n % 12 + 1).toNat k : ℤ) = firstOfMonth (n + k) - firstOfMonth n +
        if n % 12 ≤ 1 ∧ 1 < n % 12 + k then leapError year (n / 12) else 0 := by
  induction k with
  | zero =>
    rw [if_neg (by omega)]
    simp [monthSum]
  | succ k ih =>
    have hlast : (n % 12 + 1).toNat + k = ((n + k) % 12 + 1).toNat := by omega
    have hyear : (n + k) / 12 = n / 12 := by omega
    have hshift : n + (k + 1 : ℕ) = n + k + 1 := by
      push_cast
      ring
    have hmonth := daysInMonth_toNat year (n + k)
    have hsum := ih (by omega)
    unfold monthSum at hsum ⊢
    rw [Finset.sum_range_succ, Nat.cast_add, hsum, hlast, hmonth, hyear, hshift, firstOfMonth_succ]
    by_cases hfebruary : (n + k) % 12 = 1
    · rw [if_pos hfebruary, if_neg (by omega), if_pos (by omega)]
      ring
    · rw [if_neg hfebruary, add_zero]
      by_cases hbefore : n % 12 ≤ 1 ∧ 1 < n % 12 + k
      · rw [if_pos hbefore, if_pos (by omega)]
        ring
      · rw [if_neg hbefore, if_neg (by omega)]
        ring

/-- Behind December the sum stays the same. -/
theorem monthSum_behind (year : UInt) {first k : ℕ} (hk : 13 ≤ first + k) (hsize : first + k ≤ 2 ^ 32) :
    monthSum year first k = monthSum year first (13 - first) := by
  induction k with
  | zero =>
    rw [show 13 - first = 0 by omega]
  | succ k ih =>
    rcases Nat.lt_or_ge (first + k) 13 with hlt | hge
    · rw [show 13 - first = k + 1 by omega]
    · have hsum := ih hge (by omega)
      unfold monthSum at hsum ⊢
      rw [Finset.sum_range_succ, daysInMonth_behind year (by omega) (by omega), hsum]
      rfl

/-- A month is never shorter than four weeks. -/
theorem firstOfMonth_add_ge (n : ℤ) (k : ℕ) : firstOfMonth n + 28 * k ≤ firstOfMonth (n + k) := by
  induction k with
  | zero => simp
  | succ k ih =>
    have hlength := (monthLength_bounds (n + k)).1
    push_cast
    rw [← add_assoc, firstOfMonth_succ]
    omega

theorem monthSum_le (year : UInt) {first k : ℕ} (hfirst : 1 ≤ first) (hk : first + k ≤ 13) :
    monthSum year first k ≤ 32 * k := by
  have hterm : ∀ i ∈ Finset.range k, (daysInMonth year (BitVec.ofNat 32 (first + i))).toNat ≤ 32 := by
    intro i hi
    have hlt := Finset.mem_range.mp hi
    have hindex : first + i = (((first + i - 1 : ℤ)) % 12 + 1).toNat := by omega
    have hmonth := daysInMonth_toNat year (first + i - 1)
    have hlength := (monthLength_bounds (first + i - 1)).2
    have herror := (leapError_bounds year ((first + i - 1 : ℤ) / 12)).2
    rw [hindex]
    split_ifs at hmonth <;> omega
  have hsum := Finset.sum_le_card_nsmul _ _ _ hterm
  rw [Finset.card_range, smul_eq_mul, mul_comm] at hsum
  exact hsum

/-! ## `DaysTillMonth` -/

/-- `DaysTillMonth` from the month and the year of its time. The bound of the loop wraps. -/
theorem daysTillMonth_toNat {ts : ℤ} {year : UInt} {first : ℕ} (hyear : yearFromTime ts = year)
    (hmonth : monthFromTime ts = BitVec.ofNat 32 first) (hfirst : 1 ≤ first) (hlast : first ≤ 12) (k : UInt) :
    (daysTillMonth ts k).toNat = monthSum year first (if k.toNat + first < 2 ^ 32 then k.toNat else 0) := by
  have hk := k.isLt
  have hcount : (k + BitVec.ofNat 32 first).toNat - (BitVec.ofNat 32 first).toNat =
      if k.toNat + first < 2 ^ 32 then k.toNat else 0 := by
    rw [BitVec.toNat_add, BitVec.toNat_ofNat]
    split_ifs <;> omega
  have hsmall : monthSum year first (if k.toNat + first < 2 ^ 32 then k.toNat else 0) ≤ 32 * 13 := by
    split_ifs with hwraps
    · rcases Nat.lt_or_ge (first + k.toNat) 13 with hlt | hge
      · have hle := monthSum_le year hfirst (k := k.toNat) (by omega)
        omega
      · have hle := monthSum_le year hfirst (k := 13 - first) (by omega)
        rw [monthSum_behind year hge (by omega)]
        omega
    · exact Nat.zero_le _
  unfold daysTillMonth
  simp only [hmonth, hyear]
  rw [hcount, sum_daysInMonth, BitVec.toNat_ofNat, Nat.mod_eq_of_lt (by omega)]

/-- The year of a month, counted from 1900, is an `int`. -/
def YearFits (n : ℤ) : Prop := -2 ^ 31 ≤ n / 12 - 1900 ∧ n / 12 - 1900 < 2 ^ 31

instance (n : ℤ) : Decidable (YearFits n) := instDecidableAnd

theorem fromTime_firstOfMonth {n : ℤ} (hfits : YearFits n) :
    monthFromTime (firstOfMonth n * 86400) = BitVec.ofNat 32 (n % 12 + 1).toNat ∧
      yearFromTime (firstOfMonth n * 86400) = BitVec.ofInt 32 (n / 12) := by
  have hday : firstOfMonth n * 86400 / 86400 = firstOfMonth n := Int.mul_ediv_cancel _ (by decide)
  have hmonth : ((n % 12 + 1).toNat : ℤ) = n % 12 + 1 := by omega
  obtain ⟨hlow, hhigh⟩ := hfits
  have hyear : ¬ (n / 12 - 1900 < -2 ^ 31 ∨ 2 ^ 31 ≤ n / 12 - 1900) := by omega
  unfold monthFromTime yearFromTime gmtimeSafe
  simp only [hday, yearOf_eq, monthOf_firstOfMonth, if_neg hyear, sub_add_cancel]
  rw [← BitVec.ofInt_natCast, hmonth]
  exact ⟨rfl, trivial⟩

/-- A year that is no `int` is taken for 1900. -/
theorem fromTime_of_not_fits {n : ℤ} (hfits : ¬ YearFits n) :
    monthFromTime (firstOfMonth n * 86400) = BitVec.ofNat 32 1 ∧
      yearFromTime (firstOfMonth n * 86400) = BitVec.ofInt 32 (22800 / 12) := by
  have hday : firstOfMonth n * 86400 / 86400 = firstOfMonth n := Int.mul_ediv_cancel _ (by decide)
  have hyear : n / 12 - 1900 < -2 ^ 31 ∨ 2 ^ 31 ≤ n / 12 - 1900 := by
    unfold YearFits at hfits
    omega
  unfold monthFromTime yearFromTime gmtimeSafe
  simp only [hday, yearOf_eq, monthOf_firstOfMonth, if_pos hyear]
  exact ⟨rfl, rfl⟩

/-- The months are of the year of the time, and its February is as long as the code takes it to be. When the year is no
`int`, the months are as long as those of 1900. -/
def StepFits (n : ℤ) (k : UInt) : Prop :=
  if YearFits n then
    n % 12 + k.toNat ≤ 12 ∧
      (n % 12 ≤ 1 ∧ 1 < n % 12 + k.toNat → (isLeapYear (BitVec.ofInt 32 (n / 12)) ↔ IsLeap (n / 12)))
  else firstOfMonth (n + k.toNat) - firstOfMonth n = firstOfMonth (22800 + (min k.toNat 12 : ℕ)) - firstOfMonth 22800

theorem leapError_eq_zero (year : UInt) (y : ℤ) : leapError year y = 0 ↔ (isLeapYear year ↔ IsLeap y) := by
  unfold leapError
  split_ifs with hcode hyear hyear <;> simp [hcode, hyear]

/-- In a year that is an `int`, the months of the next year are missing. -/
theorem daysTillMonth_of_fits {n : ℤ} (hfits : YearFits n) (k : UInt) :
    ((daysTillMonth (firstOfMonth n * 86400) k).toNat : ℤ) = firstOfMonth (n + k.toNat) - firstOfMonth n ↔
      n % 12 + k.toNat ≤ 12 ∧
        (n % 12 ≤ 1 ∧ 1 < n % 12 + k.toNat → leapError (BitVec.ofInt 32 (n / 12)) (n / 12) = 0) := by
  have hk := k.isLt
  obtain ⟨hmonth, hyear⟩ := fromTime_firstOfMonth hfits
  rw [daysTillMonth_toNat hyear hmonth (by omega) (by omega)]
  rcases lt_or_ge 12 (n % 12 + k.toNat) with hbehind | hinside
  · refine iff_of_false (fun hsum => ?_) fun h => absurd h.1 (by omega)
    have hlong := firstOfMonth_add_ge n k.toNat
    split_ifs at hsum with hwraps
    · have hrest := monthSum_inside (BitVec.ofInt 32 (n / 12)) n (k := 13 - (n % 12 + 1).toNat) (by omega)
      have herror := leapError_bounds (BitVec.ofInt 32 (n / 12)) (n / 12)
      have hnext := firstOfMonth_add_ge (n + (13 - (n % 12 + 1).toNat : ℕ)) (k.toNat - (13 - (n % 12 + 1).toNat))
      have hshift : n + (13 - (n % 12 + 1).toNat : ℕ) + (k.toNat - (13 - (n % 12 + 1).toNat) : ℕ) = n + k.toNat := by
        omega
      rw [monthSum_behind _ (by omega) (by omega), hrest] at hsum
      rw [hshift] at hnext
      split_ifs at hsum <;> omega
    · rw [monthSum, Finset.sum_range_zero] at hsum
      omega
  · rw [if_pos (by omega), monthSum_inside _ n hinside, and_iff_right hinside]
    by_cases hfebruary : n % 12 ≤ 1 ∧ 1 < n % 12 + (k.toNat : ℤ)
    · rw [if_pos hfebruary, forall_prop_of_true hfebruary]
      omega
    · rw [if_neg hfebruary]
      exact iff_of_true (add_zero _) fun h => absurd h hfebruary

/-- In a year that is no `int`, the months are those of 1900. -/
theorem daysTillMonth_of_not_fits {n : ℤ} (hfits : ¬ YearFits n) (k : UInt) :
    ((daysTillMonth (firstOfMonth n * 86400) k).toNat : ℤ) = firstOfMonth (n + k.toNat) - firstOfMonth n ↔
      firstOfMonth (n + k.toNat) - firstOfMonth n = firstOfMonth (22800 + (min k.toNat 12 : ℕ)) - firstOfMonth 22800 := by
  have hk := k.isLt
  obtain ⟨hmonth, hyear⟩ := fromTime_of_not_fits hfits
  have hleap : leapError (BitVec.ofInt 32 (22800 / 12)) (22800 / 12) = 0 := by decide
  have hsum (j : ℕ) (hj : j ≤ 12) :
      (monthSum (BitVec.ofInt 32 (22800 / 12)) 1 j : ℤ) = firstOfMonth (22800 + j) - firstOfMonth 22800 := by
    have h := monthSum_inside (BitVec.ofInt 32 (22800 / 12)) 22800 (k := j) (by omega)
    rw [hleap, ite_self, add_zero] at h
    exact h
  rw [daysTillMonth_toNat hyear hmonth le_rfl (by decide)]
  rcases Nat.lt_or_ge 12 k.toNat with hbehind | hinside
  · rw [min_eq_right hbehind.le, ← hsum 12 le_rfl]
    split_ifs with hwraps
    · rw [monthSum_behind _ (by omega) (by omega)]
      exact eq_comm
    · have hlong := firstOfMonth_add_ge n k.toNat
      have hdays : (monthSum (BitVec.ofInt 32 (22800 / 12)) 1 12 : ℤ) = 365 := (hsum 12 le_rfl).trans (by decide)
      rw [monthSum, Finset.sum_range_zero]
      omega
  · rw [if_pos (by omega), hsum _ hinside, min_eq_left hinside]
    exact eq_comm

/-- `DaysTillMonth` leads to the start of the month that is `k` months later if and only if the year does not end in
between. -/
theorem daysTillMonth_iff (n : ℤ) (k : UInt) :
    firstOfMonth n * 86400 + (daysTillMonth (firstOfMonth n * 86400) k).toNat * 86400 =
      firstOfMonth (n + k.toNat) * 86400 ↔ StepFits n k := by
  have hdays : firstOfMonth n * 86400 + (daysTillMonth (firstOfMonth n * 86400) k).toNat * 86400 =
      firstOfMonth (n + k.toNat) * 86400 ↔
        ((daysTillMonth (firstOfMonth n * 86400) k).toNat : ℤ) = firstOfMonth (n + k.toNat) - firstOfMonth n := by
    omega
  rw [hdays, StepFits]
  split_ifs with hfits
  · rw [daysTillMonth_of_fits hfits, leapError_eq_zero]
  · exact daysTillMonth_of_not_fits hfits k

/-- Two months behind the start of December 2014 is the start of January 2015 for the code. -/
theorem not_daysTillMonth_december :
    ¬ firstOfMonth 24179 * 86400 + (daysTillMonth (firstOfMonth 24179 * 86400) 2).toNat * 86400 =
      firstOfMonth (24179 + 2) * 86400 := by
  decide

end Zcp.FreeBusy
