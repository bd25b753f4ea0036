import Zcp.FreeBusy.Recurrence.Days

/-!
# Monthly and yearly recurrences

`calcEndDate` goes forward by the lengths of the months, which leads to a day of the right month or, from the end of a
long month, to one behind it. From there it looks for the day of the pattern.
-/

namespace Zcp.FreeBusy.Recurrence

open Zcp.Lib Zcp.Common Zcp.M4lcommon

/-! ## Days of a month -/

/-- The last day of a month. -/
def lastOfMonth (n : ℤ) : ℤ := firstOfMonth (n + 1) - 1

theorem monthOf_add {n k : ℤ} (hk : 0 ≤ k) (hk' : k < monthLength n) : monthOf (firstOfMonth n + k) = n := by
  apply monthOf_eq_iff.mpr
  rw [firstOfMonth_succ]
  omega

theorem mday_add {n k : ℤ} (hk : 0 ≤ k) (hk' : k < monthLength n) : mday (firstOfMonth n + k) = k + 1 := by
  rw [mday, monthOf_add hk hk']
  omega

theorem lastOfMonth_eq (n : ℤ) : lastOfMonth n = firstOfMonth n + (monthLength n - 1) := by
  rw [lastOfMonth, firstOfMonth_succ]
  ring

theorem monthOf_lastOfMonth (n : ℤ) : monthOf (lastOfMonth n) = n := by
  have hlength := (monthLength_bounds n).1
  rw [lastOfMonth_eq, monthOf_add] <;> omega

theorem mday_lastOfMonth (n : ℤ) : mday (lastOfMonth n) = monthLength n := by
  have hlength := (monthLength_bounds n).1
  rw [lastOfMonth_eq, mday_add] <;> omega

/-- The last day of the month before is as many days back as the month has. -/
theorem lastOfMonth_sub (n : ℤ) : lastOfMonth n - monthLength n = lastOfMonth (n - 1) := by
  rw [lastOfMonth_eq, lastOfMonth, sub_add_cancel]
  ring

theorem firstOfMonth_add_le (n : ℤ) (k : ℕ) : firstOfMonth (n + k) ≤ firstOfMonth n + 31 * k := by
  induction k with
  | zero => simp
  | succ k ih =>
    have hlength := (monthLength_bounds (n + k)).2
    push_cast
    rw [← add_assoc, firstOfMonth_succ]
    omega

/-- The loop over the months. -/
theorem addMonths_eq (k : ℕ) {n : ℤ} (hn : 0 ≤ n) (hn' : n + k < 2 ^ 33) (t : ℤ) :
    addMonths k (n / 12) (n % 12 + 1) t = t + (firstOfMonth (n + k) - firstOfMonth n) * 86400 := by
  induction k generalizing n t with
  | zero => simp [addMonths]
  | succ k ih =>
    have hnext (t : ℤ) : addMonths k ((n + 1) / 12) ((n + 1) % 12 + 1) t = _ := ih (by omega) (by push_cast at hn'; omega) t
    have hshift : n + 1 + (k : ℤ) = n + (k + 1 : ℕ) := by
      push_cast
      ring
    have hresult (t : ℤ) : t + monthLength n * 86400 + (firstOfMonth (n + 1 + k) - firstOfMonth (n + 1)) * 86400 =
        t + (firstOfMonth (n + (k + 1 : ℕ)) - firstOfMonth n) * 86400 := by
      rw [hshift, firstOfMonth_succ]
      ring
    rw [addMonths, monthInSeconds_eq hn (by omega)]
    by_cases hdecember : n % 12 + 1 = 12
    · have hyear : (n + 1) / 12 = n / 12 + 1 := by omega
      have hmonth : (n + 1) % 12 + 1 = 1 := by omega
      simp only [hyear, hmonth] at hnext
      rw [if_pos hdecember, hnext, hresult]
    · have hyear : (n + 1) / 12 = n / 12 := by omega
      have hmonth : (n + 1) % 12 = n % 12 + 1 := by omega
      simp only [hyear, hmonth] at hnext
      rw [if_neg hdecember, hnext, hresult]

/-! ## The month of the last occurrence -/

variable (r : Recurrence)

/-- The months that `calcEndDate` goes forward, as an `int`. -/
def forwardMonths : ℕ := ((r.m_sRecState.ulOccurrenceCount - 1) * r.m_sRecState.ulPeriod).toInt.toNat

/-- The months to the last occurrence. -/
def monthsToLast : ℕ := (r.m_sRecState.ulOccurrenceCount.toNat - 1) * r.m_sRecState.ulPeriod.toNat

/-- The month that `calcEndDate` goes to. -/
def landingMonth : ℤ := monthOf r.startDate + r.forwardMonths

/-- The day that `calcEndDate` goes to. It is behind that month when the month is too short. -/
def landingDay : ℤ := firstOfMonth r.landingMonth + (mday r.startDate - 1)

/-- A monthly or yearly recurrence that ends after a number of occurrences. A relative time has 31 bits. -/
structure IsMonthly : Prop where
  frequency : r.m_sRecState.ulRecurFrequency = RF_MONTHLY ∨ r.m_sRecState.ulRecurFrequency = RF_YEARLY
  endType : r.m_sRecState.ulEndType = ET_NUMBER
  count : r.m_sRecState.ulOccurrenceCount ≠ 0
  startDate : r.m_sRecState.ulStartDate < 2 ^ 31

variable {r}

theorem calcEndDate_monthly (h : r.IsMonthly) (fuel : ℕ) : r.calcEndDate fuel = some r.monthlyEnd := by
  have hdaily : r.m_sRecState.ulRecurFrequency ≠ RF_DAILY ∧ r.m_sRecState.ulRecurFrequency ≠ RF_WEEKLY := by
    rcases h.frequency with hfreq | hfreq <;> rw [hfreq] <;> decide
  rw [calcEndDate, if_neg (by rw [h.endType]; decide), if_neg fun hand => hdaily.1 hand.1,
    if_neg (not_or.mpr hdaily), if_pos h.frequency]

theorem forwardMonths_lt : r.forwardMonths < 2 ^ 31 := by
  have hlt := BitVec.two_mul_toInt_lt (x := (r.m_sRecState.ulOccurrenceCount - 1) * r.m_sRecState.ulPeriod)
  unfold forwardMonths
  omega

/-- The months are right when they are an `int`, and otherwise too few. -/
theorem forwardMonths_spec (h : r.IsMonthly) :
    if r.monthsToLast < 2 ^ 31 then r.forwardMonths = r.monthsToLast
    else r.forwardMonths + 2 ^ 31 ≤ r.monthsToLast := by
  have hcount : r.m_sRecState.ulOccurrenceCount.toNat ≠ 0 := fun hzero => h.count (BitVec.eq_of_toNat_eq hzero)
  have hlt := r.m_sRecState.ulOccurrenceCount.isLt
  have hbefore : (r.m_sRecState.ulOccurrenceCount - 1).toNat = r.m_sRecState.ulOccurrenceCount.toNat - 1 := by
    rw [BitVec.toNat_sub]
    show (2 ^ 32 - 1 + r.m_sRecState.ulOccurrenceCount.toNat) % 2 ^ 32 = _
    omega
  have hmul : ((r.m_sRecState.ulOccurrenceCount - 1) * r.m_sRecState.ulPeriod).toNat = r.monthsToLast % 2 ^ 32 := by
    rw [BitVec.toNat_mul, hbefore]
    rfl
  unfold forwardMonths
  rw [BitVec.toInt_eq_toNat_cond, hmul]
  split_ifs <;> omega

theorem startDate_bounds (h : r.IsMonthly) : -134774 ≤ r.startDate ∧ r.startDate < 2 ^ 21 := by
  have hlt : r.m_sRecState.ulStartDate.toNat < 2 ^ 31 := h.startDate
  have hoffset := (r.m_sRecState.ulStartTimeOffset * 60).isLt
  have hint : r.m_sRecState.ulStartDate.toInt = r.m_sRecState.ulStartDate.toNat :=
    BitVec.toInt_eq_toNat_of_lt (by omega)
  unfold startDate getStartDateTime
  rw [rTimeToUnixTime_eq, hint]
  omega

theorem monthOf_startDate (h : r.IsMonthly) : 0 ≤ monthOf r.startDate ∧ monthOf r.startDate < 2 ^ 20 := by
  obtain ⟨hlow, hhigh⟩ := startDate_bounds h
  obtain ⟨hfirst, hlast⟩ := monthOf_spec r.startDate
  constructor
  · by_contra hneg
    have hle := firstOfMonth_strictMono.monotone (show monthOf r.startDate + 1 ≤ 0 by omega)
    have hzero : firstOfMonth 0 = -719528 := by decide +kernel
    omega
  · by_contra hlarge
    have hle := firstOfMonth_strictMono.monotone (not_lt.mp hlarge)
    have hbig : firstOfMonth (2 ^ 20) = 31195848 := by decide +kernel
    omega

theorem landingMonth_bounds (h : r.IsMonthly) : 0 ≤ r.landingMonth ∧ r.landingMonth < 2 ^ 32 := by
  obtain ⟨hlow, hhigh⟩ := monthOf_startDate h
  have hlt := forwardMonths_lt (r := r)
  unfold landingMonth
  omega

theorem mday_startDate (r : Recurrence) : 1 ≤ mday r.startDate ∧ mday r.startDate ≤ 31 :=
  ⟨mday_pos _, (mday_le _).trans (monthLength_bounds _).2⟩

/-- The days around the month that `calcEndDate` goes to. -/
theorem inRange_landing (h : r.IsMonthly) {k : ℤ} (hk : -1000 ≤ k) (hk' : k ≤ 1000) :
    InRange (firstOfMonth r.landingMonth + k) := by
  have hmonths := forwardMonths_lt (r := r)
  have hadd := firstOfMonth_add_le (monthOf r.startDate) r.forwardMonths
  have hmono := firstOfMonth_strictMono.monotone
    (show monthOf r.startDate ≤ monthOf r.startDate + r.forwardMonths by omega)
  have hmday := mday_startDate r
  obtain ⟨hlow, hhigh⟩ := startDate_bounds h
  unfold mday at hmday
  unfold InRange landingMonth
  omega

/-- The fields of a date with the start time. -/
theorem gmtimeSafe_onDate {d : ℤ} (hd : InRange d) :
    (gmtimeSafe (r.onDate d)).tm_mday = mday d ∧ (gmtimeSafe (r.onDate d)).tm_wday = wday d ∧
      (gmtimeSafe (r.onDate d)).tm_year = monthOf d / 12 - 1900 ∧ (gmtimeSafe (r.onDate d)).tm_mon = monthOf d % 12 := by
  have hseconds := Int.emod_lt_of_pos r.getStartDateTime (show 0 < (86400 : ℤ) by decide)
  unfold onDate
  rw [gmtimeSafe_day hd (Int.emod_nonneg _ (by decide)) hseconds]
  exact ⟨rfl, rfl, rfl, rfl⟩

theorem onDate_add_days (d k : ℤ) : r.onDate d + k * 86400 = r.onDate (d + k) := by
  unfold onDate
  ring

/-- The months are gone forward. -/
theorem addMonths_landing (h : r.IsMonthly) :
    addMonths r.forwardMonths ((gmtimeSafe r.getStartDateTime).tm_year + 1900)
        ((gmtimeSafe r.getStartDateTime).tm_mon + 1) r.getStartDateTime = r.onDate r.landingDay := by
  obtain ⟨hlow, hhigh⟩ := startDate_bounds h
  have hrange : InRange r.startDate := by
    unfold InRange
    omega
  obtain ⟨-, -, hyear, hmonth⟩ := gmtimeSafe_onDate (r := r) hrange
  obtain ⟨hnonneg, hlt⟩ := monthOf_startDate h
  have hmonths := forwardMonths_lt (r := r)
  rw [onDate_startDate] at hyear hmonth
  rw [hyear, hmonth, sub_add_cancel, addMonths_eq _ hnonneg (by omega), ← onDate_startDate, onDate_add_days]
  congr 1
  unfold landingDay landingMonth mday
  ring

/-- The length of the month of a date, as `DaysInMonth` gives it. -/
theorem daysInMonth_onDate {d : ℤ} (hd : InRange d) (hmonth : 0 ≤ monthOf d) :
    daysInMonth (BitVec.ofInt 32 ((gmtimeSafe (r.onDate d)).tm_year + 1900))
      (BitVec.ofInt 32 ((gmtimeSafe (r.onDate d)).tm_mon + 1)) = BitVec.ofInt 32 (monthLength (monthOf d)) := by
  obtain ⟨-, -, hyear, hmon⟩ := gmtimeSafe_onDate (r := r) hd
  have hlt := hd.year.2
  rw [yearOf_eq] at hlt
  rw [hyear, hmon, sub_add_cancel]
  exact daysInMonth_eq hmonth (by omega)

/-! ## The day of the last occurrence -/

/-- `DaysInMonth - tm_mday`. -/
theorem daysInMonth_sub {n m : ℤ} (hm : 0 ≤ m) (hm' : m ≤ monthLength n) :
    (((BitVec.ofInt 32 (monthLength n) - BitVec.ofInt 32 m) * 24 * 60 * 60 : UInt).toNat : ℤ) =
      (monthLength n - m) * 86400 := by
  have hlength := monthLength_bounds n
  have hsub : (BitVec.ofInt 32 (monthLength n) - BitVec.ofInt 32 m : UInt).toNat = (monthLength n - m).toNat := by
    rw [BitVec.toNat_sub, BitVec.toNat_ofInt, BitVec.toNat_ofInt]
    omega
  rw [BitVec.toNat_mul, BitVec.toNat_mul, BitVec.toNat_mul, hsub]
  show (((monthLength n - m).toNat * 24 % 2 ^ 32 * 60 % 2 ^ 32 * 60 % 2 ^ 32 : ℕ) : ℤ) = _
  omega

theorem landingDay_inside (hshort : mday r.startDate ≤ monthLength r.landingMonth) :
    monthOf r.landingDay = r.landingMonth ∧ mday r.landingDay = mday r.startDate := by
  obtain ⟨hlow, hhigh⟩ := mday_startDate r
  unfold landingDay
  rw [monthOf_add, mday_add] <;> omega

theorem landingDay_behind (hlong : monthLength r.landingMonth < mday r.startDate) :
    monthOf r.landingDay = r.landingMonth + 1 ∧
      mday r.landingDay = mday r.startDate - monthLength r.landingMonth := by
  obtain ⟨hlow, hhigh⟩ := mday_startDate r
  have hlength := monthLength_bounds r.landingMonth
  have hlength' := monthLength_bounds (r.landingMonth + 1)
  have hbehind : r.landingDay =
      firstOfMonth (r.landingMonth + 1) + (mday r.startDate - monthLength r.landingMonth - 1) := by
    rw [landingDay, firstOfMonth_succ]
    ring
  rw [hbehind, monthOf_add, mday_add] <;> omega

theorem inRange_landingDay (h : r.IsMonthly) : InRange r.landingDay := by
  obtain ⟨hlow, hhigh⟩ := mday_startDate r
  exact inRange_landing h (by omega) (by omega)

theorem monthOf_landingDay (h : r.IsMonthly) : 0 ≤ monthOf r.landingDay := by
  obtain ⟨hlow, -⟩ := landingMonth_bounds h
  rcases le_or_gt (mday r.startDate) (monthLength r.landingMonth) with hshort | hlong
  · rwa [(landingDay_inside hshort).1]
  · rw [(landingDay_behind hlong).1]
    omega

variable (r) in
/-- Day `ulDayOfMonth` of a month, or the last one of a shorter month. -/
def dayOf (n : ℤ) : ℤ := firstOfMonth n + (min (r.m_sRecState.ulDayOfMonth.toNat : ℤ) (monthLength n) - 1)

/-- The length of the month of the start. -/
abbrev startLength (r : Recurrence) : ℤ := monthLength (monthOf r.startDate)

/-- The two rules that correct the day. -/
theorem monthlyEnd_dayOfMonth (h : r.IsMonthly) (htype : r.m_sRecState.ulPatternType = 2) : r.monthlyEnd =
      if r.m_sRecState.ulDayOfMonth ≥ 28 ∧ r.m_sRecState.ulDayOfMonth ≤ 31 ∧
          mday r.landingDay < r.m_sRecState.ulDayOfMonth.toInt then
        if mday r.landingDay < 28 then r.onDate (r.landingDay - mday r.landingDay)
        else r.onDate (lastOfMonth (monthOf r.landingDay))
      else r.onDate r.landingDay := by
  have hrange := inRange_landingDay h
  obtain ⟨hmday, -, -, -⟩ := gmtimeSafe_onDate (r := r) hrange
  have hback : r.onDate r.landingDay - mday r.landingDay * 24 * 60 * 60 =
      r.onDate (r.landingDay - mday r.landingDay) := by
    unfold onDate
    ring
  have hforward : r.onDate r.landingDay + (monthLength (monthOf r.landingDay) - mday r.landingDay) * 86400 =
      r.onDate (lastOfMonth (monthOf r.landingDay)) := by
    rw [onDate_add_days, lastOfMonth_eq]
    congr 1
    unfold mday
    ring
  have hpos := mday_pos r.landingDay
  unfold monthlyEnd
  dsimp only
  have hlanding := addMonths_landing h
  rw [forwardMonths] at hlanding
  rw [if_pos htype, hlanding, daysInMonth_onDate hrange (monthOf_landingDay h), hmday,
    daysInMonth_sub (by omega) (mday_le _), hback, hforward]

/-- On a day of the month, `calcEndDate` returns that day of the month it goes to. When the month of the start does not
have the day, it is the last one. -/
theorem monthlyEnd_dayOf (h : r.IsMonthly) (htype : r.m_sRecState.ulPatternType = 2)
    (hday : 1 ≤ r.m_sRecState.ulDayOfMonth.toNat ∧ r.m_sRecState.ulDayOfMonth.toNat ≤ 31)
    (hstart : r.startDate = r.dayOf (monthOf r.startDate)) :
    r.monthlyEnd = r.onDate (if startLength r < r.m_sRecState.ulDayOfMonth.toNat then lastOfMonth r.landingMonth
      else r.dayOf r.landingMonth) := by
  have hmday : mday r.startDate = min (r.m_sRecState.ulDayOfMonth.toNat : ℤ) (startLength r) := by
    unfold mday startLength
    rw [dayOf] at hstart
    omega
  have hint : r.m_sRecState.ulDayOfMonth.toInt = r.m_sRecState.ulDayOfMonth.toNat :=
    BitVec.toInt_eq_toNat_of_lt (by omega)
  have hlength : 28 ≤ startLength r ∧ startLength r ≤ 31 := monthLength_bounds _
  have hlength' := monthLength_bounds r.landingMonth
  have hrange : (r.m_sRecState.ulDayOfMonth ≥ 28 ∧ r.m_sRecState.ulDayOfMonth ≤ 31 ∧
      mday r.landingDay < r.m_sRecState.ulDayOfMonth.toNat) ↔
      28 ≤ r.m_sRecState.ulDayOfMonth.toNat ∧ mday r.landingDay < r.m_sRecState.ulDayOfMonth.toNat := by
    rw [ge_iff_le, BitVec.le_def, BitVec.le_def]
    show 28 ≤ r.m_sRecState.ulDayOfMonth.toNat ∧ r.m_sRecState.ulDayOfMonth.toNat ≤ 31 ∧ _ ↔ _
    omega
  rw [monthlyEnd_dayOfMonth h htype, hint]
  rcases le_or_gt (mday r.startDate) (monthLength r.landingMonth) with hshort | hlong
  · obtain ⟨hmonth, hlanding⟩ := landingDay_inside hshort
    rw [hlanding] at hrange ⊢
    rw [hmonth]
    by_cases hbefore : startLength r < r.m_sRecState.ulDayOfMonth.toNat
    · rw [if_pos (hrange.mpr (by omega)), if_neg (by omega), if_pos hbefore]
    · rw [if_neg (mt hrange.mp (by omega)), if_neg hbefore]
      congr 1
      unfold landingDay dayOf
      omega
  · obtain ⟨hmonth, hlanding⟩ := landingDay_behind hlong
    have hback : r.landingDay - mday r.landingDay = lastOfMonth r.landingMonth := by
      rw [hlanding, landingDay, lastOfMonth_eq]
      ring
    rw [if_pos (hrange.mpr (by omega)), if_pos (by omega), hback]
    by_cases hbefore : startLength r < r.m_sRecState.ulDayOfMonth.toNat
    · rw [if_pos hbefore]
    · rw [if_neg hbefore, lastOfMonth_eq, dayOf]
      congr 2
      omega

/-! ## The weekday of the last occurrence -/

variable (r) in
/-- A pass of the loop that looks for the weekday, on days. -/
def nthStep (d : ℤ) (daycount : ℕ) : ℤ :=
  if r.m_sRecState.ulWeekNumber = 5 ∧ r.hasWeekDay ((wday d - daycount).tmod 7) then d - mday d
  else if r.m_sRecState.ulWeekNumber ≠ 5 ∧ r.hasWeekDay ((wday d + daycount).tmod 7) then
    d + (daycount + (r.m_sRecState.ulWeekNumber.toNat - 1) * 7)
  else d

section

variable (hlow : 1 ≤ r.m_sRecState.ulWeekNumber.toNat) (hhigh : r.m_sRecState.ulWeekNumber.toNat ≤ 5)
include hlow hhigh

/-- A pass on a time is one on its day. -/
theorem nthStep_onDate {d : ℤ} (hd : InRange d) {c : ℕ} (hc : c < 7) :
    (if r.m_sRecState.ulWeekNumber = 5 ∧ r.hasWeekDay (((gmtimeSafe (r.onDate d)).tm_wday - c).tmod 7) then
        r.onDate d - (gmtimeSafe (r.onDate d)).tm_mday * 24 * 60 * 60
      else if r.m_sRecState.ulWeekNumber ≠ 5 ∧ r.hasWeekDay (((gmtimeSafe (r.onDate d)).tm_wday + c).tmod 7) then
        r.onDate d + ((BitVec.ofNat 32 c + (r.m_sRecState.ulWeekNumber - 1) * 7) * 24 * 60 * 60).toNat
      else r.onDate d) = r.onDate (r.nthStep d c) := by
  obtain ⟨hmday, hwday, -, -⟩ := gmtimeSafe_onDate (r := r) hd
  have hback : r.onDate d - mday d * 24 * 60 * 60 = r.onDate (d - mday d) := by
    unfold onDate
    ring
  have hseconds : (((BitVec.ofNat 32 c + (r.m_sRecState.ulWeekNumber - 1) * 7) * 24 * 60 * 60 : UInt).toNat : ℤ) =
      (c + (r.m_sRecState.ulWeekNumber.toNat - 1) * 7) * 86400 := by
    have hsub : (r.m_sRecState.ulWeekNumber - 1).toNat = r.m_sRecState.ulWeekNumber.toNat - 1 := by
      rw [BitVec.toNat_sub]
      show (2 ^ 32 - 1 + r.m_sRecState.ulWeekNumber.toNat) % 2 ^ 32 = _
      omega
    rw [BitVec.toNat_mul, BitVec.toNat_mul, BitVec.toNat_mul, BitVec.toNat_add, BitVec.toNat_mul, BitVec.toNat_ofNat,
      hsub]
    show (((c % 2 ^ 32 + (r.m_sRecState.ulWeekNumber.toNat - 1) * 7 % 2 ^ 32) % 2 ^ 32 * 24 % 2 ^ 32 * 60 % 2 ^ 32 *
      60 % 2 ^ 32 : ℕ) : ℤ) = _
    omega
  rw [hmday, hwday, hback, hseconds, onDate_add_days]
  unfold nthStep
  split_ifs <;> rfl

/-- A pass moves by some weeks. -/
theorem nthStep_bounds (d : ℤ) {c : ℕ} (hc : c < 7) : d - 40 ≤ r.nthStep d c ∧ r.nthStep d c ≤ d + 40 := by
  have hmday := mday_pos d
  have hmday' := (mday_le d).trans (monthLength_bounds _).2
  unfold nthStep
  split_ifs <;> omega

/-- The loop on times is the one on days. -/
theorem monthNthEnd_onDate (h : r.IsMonthly) {d : ℤ} (hd : -100 ≤ d - firstOfMonth r.landingMonth)
    (hd' : d - firstOfMonth r.landingMonth ≤ 100) :
    r.monthNthEnd (r.onDate d) = r.onDate ((List.range 7).foldl r.nthStep d) := by
  have hloop : ∀ (l : List ℕ) (d : ℤ), (∀ c ∈ l, c < 7) → -1000 + 40 * l.length ≤ d - firstOfMonth r.landingMonth →
      d - firstOfMonth r.landingMonth ≤ 1000 - 40 * l.length →
      l.foldl (fun tEnd (daycount : ℕ) =>
        if r.m_sRecState.ulWeekNumber = 5 ∧ r.hasWeekDay (((gmtimeSafe tEnd).tm_wday - daycount).tmod 7) then
          tEnd - (gmtimeSafe tEnd).tm_mday * 24 * 60 * 60
        else if r.m_sRecState.ulWeekNumber ≠ 5 ∧ r.hasWeekDay (((gmtimeSafe tEnd).tm_wday + daycount).tmod 7) then
          tEnd + ((BitVec.ofNat 32 daycount + (r.m_sRecState.ulWeekNumber - 1) * 7) * 24 * 60 * 60).toNat
        else tEnd) (r.onDate d) = r.onDate (l.foldl r.nthStep d) := by
    intro l
    induction l with
    | nil => exact fun _ _ _ _ => rfl
    | cons c l ih =>
      intro d hl hlow' hhigh'
      have hc : c < 7 := hl c (List.mem_cons_self ..)
      have hrange := inRange_landing h (k := d - firstOfMonth r.landingMonth) (by omega) (by omega)
      rw [add_sub_cancel] at hrange
      have hmove := nthStep_bounds hlow hhigh d hc
      rw [List.length_cons] at hlow' hhigh'
      push_cast at hlow' hhigh'
      rw [List.foldl_cons, List.foldl_cons, nthStep_onDate hlow hhigh hrange hc]
      exact ih _ (fun c hc => hl c (List.mem_cons_of_mem _ hc)) (by omega) (by omega)
  exact hloop (List.range 7) d (fun c hc => List.mem_range.mp hc) (by simp; omega) (by simp; omega)

end

theorem foldl_eq_self {α β : Type*} {f : α → β → α} {a : α} {l : List β} (h : ∀ b ∈ l, f a b = a) :
    l.foldl f a = a := by
  induction l with
  | nil => rfl
  | cons b l ih =>
    rw [List.foldl_cons, h b (List.mem_cons_self ..)]
    exact ih fun b hb => h b (List.mem_cons_of_mem _ hb)

/-- A loop that changes its state in one pass. -/
theorem foldl_range_hit {α : Type*} {f : α → ℕ → α} {a b : α} {i n : ℕ} (hi : i < n) (hbefore : ∀ c < i, f a c = a)
    (hhit : f a i = b) (hafter : ∀ c < n, i < c → f b c = b) : (List.range n).foldl f a = b := by
  induction n with
  | zero => exact absurd hi (Nat.not_lt_zero _)
  | succ n ih =>
    rw [List.range_succ, List.foldl_append, List.foldl_cons, List.foldl_nil]
    rcases Nat.lt_succ_iff_lt_or_eq.mp hi with hlt | rfl
    · rw [ih hlt fun c hc => hafter c (by omega)]
      exact hafter n (Nat.lt_succ_self n) hlt
    · rw [foldl_eq_self fun c hc => hbefore c (List.mem_range.mp hc), hhit]

/-- The remainder of a negative number is not counted round the week. -/
theorem tmod_seven {w : ℤ} (hlow : -7 < w) (hhigh : w < 7) : w.tmod 7 = w := by
  rcases le_or_gt 0 w with hnonneg | hneg
  · rw [Int.tmod_eq_emod_of_nonneg hnonneg, Int.emod_eq_of_lt hnonneg hhigh]
  · rw [← neg_neg w, Int.neg_tmod, Int.tmod_eq_emod_of_nonneg (by omega), Int.emod_eq_of_lt (by omega) (by omega)]

/-- The mask has one weekday. -/
theorem hasWeekDay_single {k : ℕ} (hk : k < 7) (hmask : r.m_sRecState.ulWeekDays = 1 <<< k) {tm_wday : ℤ}
    (hlow : -7 < tm_wday) (hhigh : tm_wday < 7) : r.hasWeekDay tm_wday = true ↔ tm_wday = k := by
  have hbits : ∀ k < 7, ∀ i < 7, ((1 <<< k : ℕ) : UInt) &&& ((1 <<< i : ℕ) : UInt) ≠ 0 ↔ i = k := by decide
  unfold hasWeekDay
  rw [decide_eq_true_iff, hmask]
  constructor
  · rintro ⟨hnonneg, hbit⟩
    have heq := (hbits k hk _ (by omega)).mp hbit
    omega
  · rintro rfl
    exact ⟨Int.natCast_nonneg k, (hbits k hk _ (by omega)).mpr (Int.toNat_natCast k)⟩

section

variable {k : ℕ} (hk : k < 7) (hmask : r.m_sRecState.ulWeekDays = 1 <<< k)
include hk hmask

/-- The loop for the n-th weekday finds it from the first day of the month. -/
theorem foldl_nthStep (hnumber : r.m_sRecState.ulWeekNumber ≠ 5) (d : ℤ) : (List.range 7).foldl r.nthStep d =
      d + ((k - wday d) % 7 + (r.m_sRecState.ulWeekNumber.toNat - 1) * 7) := by
  have hstep (d : ℤ) {c : ℕ} (hc : c < 7) : r.nthStep d c =
      if (wday d + c) % 7 = k then d + (c + (r.m_sRecState.ulWeekNumber.toNat - 1) * 7) else d := by
    have hwday := wday_bounds d
    unfold nthStep
    rw [if_neg fun hand => hnumber hand.1, Int.tmod_eq_emod_of_nonneg (by omega)]
    apply if_congr _ rfl rfl
    rw [hasWeekDay_single hk hmask (by omega) (by omega)]
    exact and_iff_right hnumber
  have hwday := wday_bounds d
  have hi : ((((k - wday d) % 7).toNat : ℕ) : ℤ) = (k - wday d) % 7 := Int.toNat_of_nonneg (by omega)
  apply foldl_range_hit (show ((k - wday d) % 7).toNat < 7 by omega)
  · intro c hc
    rw [hstep d (by omega), if_neg (by omega)]
  · rw [hstep d (by omega), if_pos (by omega), hi]
  · intro c hc hlater
    have hweek : wday (d + ((k - wday d) % 7 + (r.m_sRecState.ulWeekNumber.toNat - 1) * 7)) = k := by
      unfold wday at hwday ⊢
      omega
    rw [hstep _ hc, hweek, if_neg (by omega)]

/-- A pass of the loop for the last weekday goes back to the end of the month before. -/
theorem nthStep_last (hnumber : r.m_sRecState.ulWeekNumber = 5) (n : ℤ) {c : ℕ} (hc : c < 7) :
    r.nthStep (lastOfMonth n) c = if wday (lastOfMonth n) - c = k then lastOfMonth (n - 1) else lastOfMonth n := by
  have hwday := wday_bounds (lastOfMonth n)
  have hmod : (wday (lastOfMonth n) - c).tmod 7 = wday (lastOfMonth n) - c := tmod_seven (by omega) (by omega)
  have hsingle : r.hasWeekDay (wday (lastOfMonth n) - c) = true ↔ wday (lastOfMonth n) - c = k :=
    hasWeekDay_single hk hmask (by omega) (by omega)
  unfold nthStep
  rw [hmod, mday_lastOfMonth, lastOfMonth_sub]
  by_cases hday : wday (lastOfMonth n) - c = k
  · rw [if_pos ⟨hnumber, hsingle.mpr hday⟩, if_pos hday]
  · rw [if_neg fun hand => hday (hsingle.mp hand.2), if_neg fun hand => hand.1 hnumber, if_neg hday]

/-- The loop for the last weekday ends at the end of a month. -/
theorem foldl_nthStep_last (hnumber : r.m_sRecState.ulWeekNumber = 5) {l : List ℕ} (hl : ∀ c ∈ l, c < 7) (n : ℤ) :
    ∃ j : ℕ, l.foldl r.nthStep (lastOfMonth n) = lastOfMonth (n - j) := by
  induction l generalizing n with
  | nil => exact ⟨0, by simp⟩
  | cons c l ih =>
    have hrest : ∀ c ∈ l, c < 7 := fun c hc => hl c (List.mem_cons_of_mem _ hc)
    rw [List.foldl_cons, nthStep_last hk hmask hnumber n (hl c (List.mem_cons_self ..))]
    split_ifs
    · obtain ⟨j, hj⟩ := ih hrest (n - 1)
      refine ⟨j + 1, hj.trans ?_⟩
      congr 1
      push_cast
      ring
    · exact ih hrest n

/-- The loop leaves the last day of a month when the weekday is not behind it in the week from Sunday on. -/
theorem foldl_nthStep_cases (hnumber : r.m_sRecState.ulWeekNumber = 5) (n : ℤ) :
    if wday (lastOfMonth n) < k then (List.range 7).foldl r.nthStep (lastOfMonth n) = lastOfMonth n
    else ∃ j : ℕ, (List.range 7).foldl r.nthStep (lastOfMonth n) = lastOfMonth (n - 1 - j) ∧
      (wday (lastOfMonth (n - 1)) = k → j = 0) := by
  have hwday := wday_bounds (lastOfMonth n)
  have hstep (n : ℤ) {c : ℕ} (hc : c < 7) := nthStep_last hk hmask hnumber n hc
  by_cases hlate : wday (lastOfMonth n) < k
  · rw [if_pos hlate]
    apply foldl_eq_self
    intro c hc
    rw [hstep n (List.mem_range.mp hc), if_neg (by omega)]
  · rw [if_neg hlate]
    obtain ⟨i, hi⟩ := Int.eq_ofNat_of_zero_le (show 0 ≤ wday (lastOfMonth n) - k by omega)
    have hbefore : ∀ c < i, r.nthStep (lastOfMonth n) c = lastOfMonth n := by
      intro c hc
      rw [hstep n (by omega), if_neg (by omega)]
    have hhit : r.nthStep (lastOfMonth n) i = lastOfMonth (n - 1) := by
      rw [hstep n (by omega), if_pos (by omega)]
    by_cases hsame : wday (lastOfMonth (n - 1)) = k
    · refine ⟨0, ?_, fun _ => rfl⟩
      rw [Nat.cast_zero, sub_zero]
      apply foldl_range_hit (show i < 7 by omega) hbefore hhit
      intro c hc hlater
      rw [hstep _ hc, if_neg (by omega)]
    · have hsplit : List.range 7 = List.range (i + 1) ++ (List.range (6 - i)).map (i + 1 + ·) := by
        rw [← List.range_add]
        congr 1
        omega
      have hrest : ∀ c ∈ (List.range (6 - i)).map (i + 1 + ·), c < 7 := by
        intro c hc
        obtain ⟨c', hc', rfl⟩ := List.mem_map.mp hc
        have hlt := List.mem_range.mp hc'
        omega
      obtain ⟨j, hj⟩ := foldl_nthStep_last hk hmask hnumber hrest (n - 1)
      refine ⟨j, ?_, fun hsame' => absurd hsame' hsame⟩
      rw [hsplit, List.foldl_append, foldl_range_hit (Nat.lt_succ_self i) hbefore hhit, hj]
      intro c hc hlater
      omega

end

/-- On a weekday of the month, `calcEndDate` looks for it from the first or the last day of the month it goes to. -/
theorem monthlyEnd_nth (h : r.IsMonthly) (htype : r.m_sRecState.ulPatternType = 3)
    (hlow : 1 ≤ r.m_sRecState.ulWeekNumber.toNat) (hhigh : r.m_sRecState.ulWeekNumber.toNat ≤ 5) :
    r.monthlyEnd = r.onDate ((List.range 7).foldl r.nthStep
      (if r.m_sRecState.ulWeekNumber = 5 then lastOfMonth (monthOf r.landingDay)
        else firstOfMonth (monthOf r.landingDay))) := by
  have hrange := inRange_landingDay h
  obtain ⟨hmday, -, -, -⟩ := gmtimeSafe_onDate (r := r) hrange
  have hpos := mday_pos r.landingDay
  have hle := mday_le r.landingDay
  have hlength := monthLength_bounds (monthOf r.landingDay)
  obtain ⟨hstart, hstart'⟩ := mday_startDate r
  have hfirst : r.onDate r.landingDay - (mday r.landingDay - 1) * 24 * 60 * 60 =
      r.onDate (firstOfMonth (monthOf r.landingDay)) := by
    unfold onDate mday
    ring
  have hlast : r.onDate r.landingDay + (monthLength (monthOf r.landingDay) - mday r.landingDay) * 86400 =
      r.onDate (lastOfMonth (monthOf r.landingDay)) := by
    rw [onDate_add_days, lastOfMonth_eq]
    congr 1
    unfold mday
    ring
  have hlanding := addMonths_landing h
  rw [forwardMonths] at hlanding
  unfold monthlyEnd
  dsimp only
  rw [if_neg (by rw [htype]; decide), if_pos htype, hlanding, daysInMonth_onDate hrange (monthOf_landingDay h), hmday,
    daysInMonth_sub (by omega) hle, hfirst, hlast, ← apply_ite r.onDate]
  have hday : r.landingDay = firstOfMonth r.landingMonth + (mday r.startDate - 1) := rfl
  have hmday' : mday r.landingDay = r.landingDay - firstOfMonth (monthOf r.landingDay) + 1 := rfl
  have hlastDay := lastOfMonth_eq (monthOf r.landingDay)
  apply monthNthEnd_onDate hlow hhigh h
  · split_ifs <;> omega
  · split_ifs <;> omega

/-! ## The last occurrence -/

variable (r) in
/-- The pattern is a day of the month, or the n-th (1 to 4) or last (5) of one weekday. -/
def IsPattern : Prop :=
  r.m_sRecState.ulPatternType = 2 ∧ 1 ≤ r.m_sRecState.ulDayOfMonth.toNat ∧ r.m_sRecState.ulDayOfMonth.toNat ≤ 31 ∨
  r.m_sRecState.ulPatternType = 3 ∧ 1 ≤ r.m_sRecState.ulWeekNumber.toNat ∧ r.m_sRecState.ulWeekNumber.toNat ≤ 5 ∧
    ∃ k < 7, r.m_sRecState.ulWeekDays = 1 <<< k

variable (r) in
/-- A day of the pattern: day `ulDayOfMonth` or the last one of a shorter month, or the n-th or last such weekday of its
month. -/
def OnPattern (d : ℤ) : Prop :=
  if r.m_sRecState.ulPatternType = 2 then
    mday d = min (r.m_sRecState.ulDayOfMonth.toNat : ℤ) (monthLength (monthOf d))
  else r.hasWeekDay (wday d) = true ∧
    if r.m_sRecState.ulWeekNumber = 5 then monthLength (monthOf d) - 7 < mday d
    else (r.m_sRecState.ulWeekNumber.toNat - 1 : ℤ) * 7 < mday d ∧ mday d ≤ r.m_sRecState.ulWeekNumber.toNat * 7

instance : DecidablePred r.OnPattern := fun _ => inferInstanceAs (Decidable (ite _ _ _))

variable (r) in
/-- The month of the last occurrence. -/
def lastMonth : ℤ := monthOf r.startDate + r.monthsToLast

variable (r) in
/-- The months are an `int`. A day of the month that the month of the start does not have is not in front of the end of
the last month. For the last weekday of a month, the start is on a later day than the last month has, its last day is on
that weekday, and the month behind it does not end on an earlier one of the week. -/
def MonthsFit : Prop :=
  r.monthsToLast < 2 ^ 31 ∧
    if r.m_sRecState.ulPatternType = 2 then
      startLength r < r.m_sRecState.ulDayOfMonth.toNat → monthLength r.lastMonth ≤ r.m_sRecState.ulDayOfMonth.toNat
    else r.m_sRecState.ulWeekNumber = 5 →
      monthLength r.lastMonth < mday r.startDate ∧ r.hasWeekDay (wday (lastOfMonth r.lastMonth)) = true ∧
        wday (lastOfMonth r.lastMonth) ≤ wday (lastOfMonth (r.lastMonth + 1))

variable (r) in
/-- `calcEndDate` returns the n-th occurrence. -/
def EndsOnLast (fuel : ℕ) : Prop :=
  ∃ d, monthOf d = r.lastMonth ∧ r.OnPattern d ∧ r.calcEndDate fuel = some (r.onDate d)

theorem endsOnLast_iff (h : r.IsMonthly) {fuel : ℕ} {d : ℤ} (hd : r.monthlyEnd = r.onDate d) :
    r.EndsOnLast fuel ↔ monthOf d = r.lastMonth ∧ r.OnPattern d := by
  unfold EndsOnLast
  rw [calcEndDate_monthly h, hd]
  constructor
  · rintro ⟨d', hmonth, hpattern, heq⟩
    rw [onDate_injective (Option.some.inj heq)]
    exact ⟨hmonth, hpattern⟩
  · rintro ⟨hmonth, hpattern⟩
    exact ⟨d, hmonth, hpattern, rfl⟩

/-- Where the months do not fit, the last month is far behind. -/
theorem lastMonth_spec (h : r.IsMonthly) :
    if r.monthsToLast < 2 ^ 31 then r.lastMonth = r.landingMonth else r.landingMonth + 2 ^ 31 ≤ r.lastMonth := by
  have hspec := forwardMonths_spec h
  unfold lastMonth landingMonth
  split_ifs at hspec ⊢ <;> omega

/-- A day of the month. -/
theorem endsOnLast_dayOfMonth (h : r.IsMonthly) (htype : r.m_sRecState.ulPatternType = 2)
    (hday : 1 ≤ r.m_sRecState.ulDayOfMonth.toNat ∧ r.m_sRecState.ulDayOfMonth.toNat ≤ 31)
    (hstart : r.OnPattern r.startDate) (fuel : ℕ) : r.EndsOnLast fuel ↔ r.MonthsFit := by
  have hmonths := lastMonth_spec h
  have hlength := monthLength_bounds r.landingMonth
  unfold OnPattern at hstart
  rw [if_pos htype] at hstart
  have hstartDay : r.startDate = r.dayOf (monthOf r.startDate) := by
    unfold mday at hstart
    unfold dayOf
    omega
  rw [endsOnLast_iff h (monthlyEnd_dayOf h htype hday hstartDay)]
  unfold MonthsFit OnPattern
  rw [if_pos htype, if_pos htype]
  by_cases hbefore : startLength r < r.m_sRecState.ulDayOfMonth.toNat
  · rw [if_pos hbefore, monthOf_lastOfMonth, mday_lastOfMonth]
    by_cases hlast : r.monthsToLast < 2 ^ 31
    · rw [if_pos hlast] at hmonths
      rw [hmonths]
      simp only [hbefore, hlast, true_and, true_imp_iff]
      omega
    · rw [if_neg hlast] at hmonths
      simp only [hlast, false_and, iff_false]
      omega
  · rw [if_neg hbefore, dayOf, monthOf_add (by omega) (by omega), mday_add (by omega) (by omega)]
    by_cases hlast : r.monthsToLast < 2 ^ 31
    · rw [if_pos hlast] at hmonths
      rw [hmonths]
      exact iff_of_true ⟨rfl, by ring⟩ ⟨hlast, fun hlt => absurd hlt hbefore⟩
    · rw [if_neg hlast] at hmonths
      simp only [hlast, false_and, iff_false]
      omega

section

variable {k : ℕ} (hk : k < 7) (hmask : r.m_sRecState.ulWeekDays = 1 <<< k)
  (hnumber : 1 ≤ r.m_sRecState.ulWeekNumber.toNat ∧ r.m_sRecState.ulWeekNumber.toNat ≤ 5)
  (htype : r.m_sRecState.ulPatternType = 3) (hstart : r.OnPattern r.startDate)
include hk hmask hnumber htype hstart

/-- The n-th weekday. -/
theorem endsOnLast_nth (h : r.IsMonthly) (hnth : r.m_sRecState.ulWeekNumber ≠ 5) (fuel : ℕ) :
    r.EndsOnLast fuel ↔ r.MonthsFit := by
  have htype' : r.m_sRecState.ulPatternType ≠ 2 := by
    rw [htype]
    decide
  have hfour : r.m_sRecState.ulWeekNumber.toNat ≠ 5 := fun hfive => hnth (BitVec.eq_of_toNat_eq hfive)
  unfold OnPattern at hstart
  rw [if_neg htype', if_neg hnth] at hstart
  have hmonths := lastMonth_spec h
  have hlength := monthLength_bounds r.landingMonth
  obtain ⟨hlanding, -⟩ := landingDay_inside (r := r) (by omega)
  have hend := monthlyEnd_nth h htype hnumber.1 hnumber.2
  rw [if_neg hnth, hlanding, foldl_nthStep hk hmask hnth] at hend
  -- the weekday is one of the first 28 days
  have hfound : wday (firstOfMonth r.landingMonth + ((k - wday (firstOfMonth r.landingMonth)) % 7 +
      (r.m_sRecState.ulWeekNumber.toNat - 1) * 7)) = k := by
    unfold wday
    omega
  rw [endsOnLast_iff h hend]
  unfold MonthsFit OnPattern
  rw [if_neg htype', if_neg htype', if_neg hnth, hfound, monthOf_add (by omega) (by omega),
    mday_add (by omega) (by omega), hasWeekDay_single hk hmask (by omega) (by omega)]
  by_cases hlast : r.monthsToLast < 2 ^ 31
  · rw [if_pos hlast] at hmonths
    exact iff_of_true ⟨hmonths.symm, rfl, by omega, by omega⟩ ⟨hlast, fun hfive => absurd hfive hnth⟩
  · rw [if_neg hlast] at hmonths
    exact iff_of_false (fun hand => by omega) fun hand => hlast hand.1

omit hstart in
/-- The last weekday. -/
theorem endsOnLast_last (h : r.IsMonthly) (hlast : r.m_sRecState.ulWeekNumber = 5) (fuel : ℕ) :
    r.EndsOnLast fuel ↔ r.MonthsFit := by
  have htype' : r.m_sRecState.ulPatternType ≠ 2 := by
    rw [htype]
    decide
  have hmonths := lastMonth_spec h
  have hend := monthlyEnd_nth h htype hnumber.1 hnumber.2
  have hcases := foldl_nthStep_cases hk hmask hlast (monthOf r.landingDay)
  have hsingle (n : ℤ) : r.hasWeekDay (wday (lastOfMonth n)) = true ↔ wday (lastOfMonth n) = k := by
    have hwday := wday_bounds (lastOfMonth n)
    exact hasWeekDay_single hk hmask (by omega) (by omega)
  have hlanding : if monthLength r.landingMonth < mday r.startDate then monthOf r.landingDay = r.landingMonth + 1
      else monthOf r.landingDay = r.landingMonth := by
    split_ifs with hlong
    · exact (landingDay_behind hlong).1
    · exact (landingDay_inside (not_lt.mp hlong)).1
  have hfits : r.MonthsFit ↔ r.monthsToLast < 2 ^ 31 ∧ monthLength r.lastMonth < mday r.startDate ∧
      wday (lastOfMonth r.lastMonth) = k ∧
        wday (lastOfMonth r.lastMonth) ≤ wday (lastOfMonth (r.lastMonth + 1)) := by
    unfold MonthsFit
    rw [if_neg htype', hsingle]
    exact and_congr_right' (forall_prop_of_true hlast)
  rw [if_pos hlast] at hend
  rw [hfits]
  -- either the walk over the weekdays leaves the month where it landed, or it stays there
  by_cases hlate : wday (lastOfMonth (monthOf r.landingDay)) < k
  · rw [if_pos hlate] at hcases
    rw [hcases] at hend
    rw [endsOnLast_iff h hend]
    unfold OnPattern
    rw [if_neg htype', hsingle]
    apply iff_of_false
    · rintro ⟨-, hsame, -⟩
      omega
    · rintro ⟨hlt, hlong, hsame, hle⟩
      rw [if_pos hlt] at hmonths
      rw [hmonths] at hlong hsame hle
      rw [if_pos hlong] at hlanding
      rw [hlanding] at hlate
      omega
  · rw [if_neg hlate] at hcases
    obtain ⟨j, hj, hfirst⟩ := hcases
    rw [hj] at hend
    rw [endsOnLast_iff h hend]
    unfold OnPattern
    rw [if_neg htype', if_pos hlast, hsingle, monthOf_lastOfMonth, mday_lastOfMonth]
    constructor
    · rintro ⟨hmonth, hsame, -⟩
      have hlt : r.monthsToLast < 2 ^ 31 := by
        by_contra hlarge
        rw [if_neg hlarge] at hmonths
        split_ifs at hlanding <;> omega
      rw [if_pos hlt] at hmonths
      have hlong : monthLength r.landingMonth < mday r.startDate := by
        by_contra hshort
        rw [if_neg hshort] at hlanding
        omega
      rw [if_pos hlong] at hlanding
      have hprev : monthOf r.landingDay - 1 - j = r.lastMonth := hmonth
      have hnext : monthOf r.landingDay = r.lastMonth + 1 := by omega
      rw [hprev] at hsame
      rw [hnext] at hlate
      exact ⟨hlt, by rwa [hmonths], hsame, by omega⟩
    · rintro ⟨hlt, hlong, hsame, hle⟩
      rw [if_pos hlt] at hmonths
      rw [hmonths] at hlong hsame hle ⊢
      rw [if_pos hlong] at hlanding
      have hprev : monthOf r.landingDay - 1 = r.landingMonth := by omega
      rw [hprev] at hfirst ⊢
      rw [hfirst hsame, Nat.cast_zero, sub_zero]
      exact ⟨rfl, hsame, by omega⟩

end

/-- `calcEndDate` returns the last occurrence of a monthly or yearly recurrence if and only if the months fit. -/
theorem calcEndDate_monthly_iff (r : Recurrence) (h : r.IsMonthly) (hpattern : r.IsPattern)
    (hstart : r.OnPattern r.startDate) (fuel : ℕ) : r.EndsOnLast fuel ↔ r.MonthsFit := by
  rcases hpattern with ⟨htype, hday⟩ | ⟨htype, hlow, hhigh, k, hk, hmask⟩
  · exact endsOnLast_dayOfMonth h htype hday hstart fuel
  · by_cases hlast : r.m_sRecState.ulWeekNumber = 5
    · exact endsOnLast_last hk hmask ⟨hlow, hhigh⟩ htype h hlast fuel
    · exact endsOnLast_nth hk hmask ⟨hlow, hhigh⟩ htype hstart h hlast fuel

/-- The 30th of every month from the 28th of February 2015 on, twice. -/
def thirtieth : Recurrence :=
  (((((new 0).setStartDateTime 1425081600).setFrequency .MONTHLY).setDayOfMonth 30).setEndType .NUMBER).setCount 2

theorem calcEndDate_monthly_thirtieth : thirtieth.EndsOnLast 0 ↔ thirtieth.MonthsFit :=
  calcEndDate_monthly_iff thirtieth ⟨.inl rfl, rfl, by decide, by decide⟩ (.inl ⟨rfl, by decide, by decide⟩)
    (by decide +kernel) 0

/-- The end is the 31st of March. -/
theorem not_endsOnLast_thirtieth : ¬ thirtieth.EndsOnLast 0 := by
  rintro ⟨d, -, hpattern, hend⟩
  have hcalc : thirtieth.calcEndDate 0 = some (thirtieth.onDate (thirtieth.startDate + 31)) := by decide +kernel
  have hd := onDate_injective (Option.some.inj (hend.symm.trans hcalc))
  rw [hd] at hpattern
  exact absurd hpattern (by decide +kernel)

end Zcp.FreeBusy.Recurrence
