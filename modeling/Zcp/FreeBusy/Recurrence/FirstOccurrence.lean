import Zcp.FreeBusy.Recurrence.Months

/-!
# The first occurrence of a monthly or yearly recurrence

Every month has one day of the pattern. `calcStartDate` decides whether the one of the month of the start is in front of
the start, goes to the month of the first occurrence and looks for the day there. For the last weekday of a month, both
searches go back in the week without going round it.
-/

namespace Zcp.FreeBusy.Recurrence

open Zcp.Lib Zcp.Common Zcp.M4lcommon

variable (r : Recurrence)

/-! ## The days of the pattern -/

/-- A monthly recurrence of any period, or a yearly one. The lengths of months are known from the year 0 on. -/
structure GoesByMonths : Prop where
  frequency : r.m_sRecState.ulRecurFrequency = RF_MONTHLY ∧ r.m_sRecState.ulPeriod ≠ 0 ∨
    r.m_sRecState.ulRecurFrequency = RF_YEARLY ∧ r.m_sRecState.ulPeriod = 12
  startDate : 0 ≤ monthOf r.startDate

/-- The months of the recurrence: those of a yearly one are the month `getMonth()`, those of a monthly one are multiples
of the period behind the month of the start. -/
def EligibleMonth (n : ℤ) : Prop :=
  if r.m_sRecState.ulRecurFrequency = RF_YEARLY then n % 12 = r.getMonth - 1
  else ∃ k : ℕ, n = monthOf r.startDate + k * r.m_sRecState.ulPeriod.toNat

/-- The one weekday of the mask. -/
def weekDay : ℕ := r.m_sRecState.ulWeekDays.toNat.log2

/-- The n-th such weekday of a month. -/
def nthDay (n : ℤ) : ℤ :=
  firstOfMonth n + ((r.weekDay - wday (firstOfMonth n)) % 7 + (r.m_sRecState.ulWeekNumber.toNat - 1) * 7)

/-- The last such weekday of a month. -/
def lastDay (n : ℤ) : ℤ := lastOfMonth n - (wday (lastOfMonth n) - r.weekDay) % 7

/-- The day of the pattern in a month. -/
def dayInMonth (n : ℤ) : ℤ :=
  if r.m_sRecState.ulPatternType = 2 then r.dayOf n
  else if r.m_sRecState.ulWeekNumber = 5 then r.lastDay n
  else r.nthDay n

/-- The day is one of its month. -/
structure IsDayOfMonth (f : ℤ → ℤ) : Prop where
  first (n : ℤ) : firstOfMonth n ≤ f n
  last (n : ℤ) : f n < firstOfMonth (n + 1)

theorem IsDayOfMonth.monthOf {f : ℤ → ℤ} (hf : IsDayOfMonth f) (n : ℤ) : monthOf (f n) = n :=
  monthOf_eq_iff.mpr ⟨hf.first n, hf.last n⟩

theorem IsDayOfMonth.strictMono {f : ℤ → ℤ} (hf : IsDayOfMonth f) : StrictMono f := by
  intro n n' hlt
  calc f n < firstOfMonth (n + 1) := hf.last n
    _ ≤ firstOfMonth n' := firstOfMonth_strictMono.monotone hlt
    _ ≤ f n' := hf.first n'

/-- The days of the later months are the ones that are not in front of a day, and the one of its own month may be. -/
theorem IsDayOfMonth.le_iff {f : ℤ → ℤ} (hf : IsDayOfMonth f) (d n : ℤ) :
    d ≤ f n ↔ if f (Zcp.Lib.monthOf d) < d then Zcp.Lib.monthOf d < n else Zcp.Lib.monthOf d ≤ n := by
  obtain ⟨hfirst, hlast⟩ := monthOf_spec d
  have hbehind (hlt : Zcp.Lib.monthOf d < n) : d < f n := by
    calc d < firstOfMonth (Zcp.Lib.monthOf d + 1) := hlast
      _ ≤ firstOfMonth n := firstOfMonth_strictMono.monotone hlt
      _ ≤ f n := hf.first n
  have hfront (hlt : n < Zcp.Lib.monthOf d) : f n < d := by
    calc f n < firstOfMonth (n + 1) := hf.last n
      _ ≤ firstOfMonth (Zcp.Lib.monthOf d) := firstOfMonth_strictMono.monotone hlt
      _ ≤ d := hfirst
  rcases lt_trichotomy n (Zcp.Lib.monthOf d) with hlt | rfl | hlt
  · have hday := hfront hlt
    split_ifs <;> omega
  · split_ifs <;> omega
  · have hday := hbehind hlt
    split_ifs <;> omega

variable {r}

theorem weekDay_single {k : ℕ} (hk : k < 7) (hmask : r.m_sRecState.ulWeekDays = 1 <<< k) : r.weekDay = k := by
  have hlog : ∀ k < 7, ((1 <<< k : ℕ) : UInt).toNat.log2 = k := by decide
  unfold weekDay
  rw [hmask]
  exact hlog k hk

theorem isDayOfMonth_dayOf (hday : 1 ≤ r.m_sRecState.ulDayOfMonth.toNat) : IsDayOfMonth r.dayOf := by
  constructor <;> intro n <;> have hlength := monthLength_bounds n <;> unfold dayOf
  · omega
  · rw [firstOfMonth_succ]
    omega

theorem isDayOfMonth_lastDay : IsDayOfMonth r.lastDay := by
  constructor <;> intro n <;> have hlength := monthLength_bounds n <;> unfold lastDay
  · rw [lastOfMonth_eq]
    omega
  · rw [lastOfMonth]
    omega

theorem isDayOfMonth_nthDay (hlow : 1 ≤ r.m_sRecState.ulWeekNumber.toNat)
    (hhigh : r.m_sRecState.ulWeekNumber.toNat ≤ 4) : IsDayOfMonth r.nthDay := by
  constructor <;> intro n <;> have hlength := monthLength_bounds n <;> unfold nthDay
  · omega
  · rw [firstOfMonth_succ]
    omega

/-- The n-th weekday is the one of its kind in the n-th seven days. -/
theorem eq_nthDay_iff {d : ℤ} {a : ℤ} (ha : r.m_sRecState.ulWeekNumber.toNat - 1 = a) :
    d = r.nthDay (monthOf d) ↔ wday d = r.weekDay % 7 ∧ a * 7 < mday d ∧ mday d ≤ (a + 1) * 7 := by
  unfold nthDay mday wday
  rw [ha]
  omega

theorem eq_lastDay_iff {d : ℤ} :
    d = r.lastDay (monthOf d) ↔ wday d = r.weekDay % 7 ∧ monthLength (monthOf d) - 7 < mday d := by
  have hle := mday_le d
  have hlast := lastOfMonth_eq (monthOf d)
  unfold lastDay
  unfold mday wday at *
  omega

theorem isDayOfMonth_dayInMonth (hpattern : r.IsPattern) : IsDayOfMonth r.dayInMonth := by
  unfold dayInMonth
  rcases hpattern with ⟨htype, hday, -⟩ | ⟨htype, hlow, hhigh, -⟩
  · simpa only [htype, if_pos] using isDayOfMonth_dayOf hday
  · have htype' : r.m_sRecState.ulPatternType ≠ 2 := by
      rw [htype]
      decide
    by_cases hlast : r.m_sRecState.ulWeekNumber = 5
    · simpa only [htype', hlast, if_false, if_true] using isDayOfMonth_lastDay
    · have hfour : r.m_sRecState.ulWeekNumber.toNat ≠ 5 := fun hfive => hlast (BitVec.eq_of_toNat_eq hfive)
      simpa only [htype', hlast, if_false] using isDayOfMonth_nthDay hlow (by omega)

/-- A day of the pattern is the one of its month. -/
theorem onPattern_iff (hpattern : r.IsPattern) (d : ℤ) : r.OnPattern d ↔ d = r.dayInMonth (monthOf d) := by
  unfold OnPattern dayInMonth
  rcases hpattern with ⟨htype, -, -⟩ | ⟨htype, hlow, hhigh, k, hk, hmask⟩
  · rw [if_pos htype, if_pos htype]
    unfold dayOf mday
    omega
  · have htype' : r.m_sRecState.ulPatternType ≠ 2 := by
      rw [htype]
      decide
    have hwday := wday_bounds d
    have hweekDay := weekDay_single hk hmask
    rw [if_neg htype', if_neg htype', hasWeekDay_single hk hmask (by omega) (by omega)]
    by_cases hlast : r.m_sRecState.ulWeekNumber = 5
    · rw [if_pos hlast, if_pos hlast, eq_lastDay_iff]
      omega
    · rw [if_neg hlast, if_neg hlast, eq_nthDay_iff rfl]
      omega

/-! ## The first month -/

variable (r) in
/-- The month to go to, given whether the day of the month of the start is in front of the start. -/
def targetMonth (bMoveMonth : Bool) : ℤ :=
  let n := monthOf r.startDate
  if r.m_sRecState.ulRecurFrequency = RF_YEARLY then
    if (r.getMonth : ℤ) - 1 < n % 12 ∨ (r.getMonth : ℤ) - 1 = n % 12 ∧ bMoveMonth then
      n - n % 12 + 12 + (r.getMonth - 1)
    else n - n % 12 + (r.getMonth - 1)
  else if bMoveMonth then n + r.m_sRecState.ulPeriod.toNat
  else n

variable (r) in
/-- The month of the first occurrence. -/
def monthOfFirst : ℤ := r.targetMonth (r.dayInMonth (monthOf r.startDate) < r.startDate)

theorem getMonth_bounds (r : Recurrence) : 1 ≤ r.getMonth ∧ r.getMonth ≤ 12 := by
  unfold getMonth
  split_ifs with hset
  · obtain ⟨hlow, hhigh⟩ := hset
    have hlow' : 0 < r.m_ulMonth.toNat := hlow
    have hhigh' : r.m_ulMonth.toNat < 13 := hhigh
    omega
  · have hlow := BitVec.two_mul_toInt_lt (x := r.m_sRecState.ulStartDate)
    have hhigh := BitVec.le_two_mul_toInt (x := r.m_sRecState.ulStartDate)
    have htime : -2 ^ 40 ≤ r.getStartDate ∧ r.getStartDate < 2 ^ 40 := by
      unfold getStartDate
      rw [rTimeToUnixTime_eq]
      omega
    have hfields := gmtimeSafe_day (inRange_of_time htime.1 htime.2) (Int.emod_nonneg r.getStartDate (by decide))
      (Int.emod_lt_of_pos r.getStartDate (by decide))
    rw [mul_comm, Int.mul_ediv_add_emod] at hfields
    have hmon := congrArg Tm.tm_mon hfields
    dsimp only at hmon
    rw [hmon]
    omega

theorem isLeast_monthOfFirst (h : r.GoesByMonths) (hpattern : r.IsPattern) :
    IsLeast {n | r.EligibleMonth n ∧ r.startDate ≤ r.dayInMonth n} r.monthOfFirst := by
  have hmonth := getMonth_bounds r
  unfold EligibleMonth monthOfFirst targetMonth
  simp only [(isDayOfMonth_dayInMonth hpattern).le_iff r.startDate, decide_eq_true_iff]
  generalize monthOf r.startDate = n
  rcases h.frequency with ⟨hfreq, hperiod⟩ | ⟨hfreq, -⟩
  · have hyearly : r.m_sRecState.ulRecurFrequency ≠ RF_YEARLY := by
      rw [hfreq]
      decide
    have hpos : 0 < r.m_sRecState.ulPeriod.toNat :=
      Nat.pos_of_ne_zero fun hzero => hperiod (BitVec.eq_of_toNat_eq hzero)
    simp only [if_neg hyearly]
    by_cases hfront : r.dayInMonth n < r.startDate
    · simp only [hfront, if_true]
      refine ⟨⟨⟨1, by push_cast; ring⟩, by omega⟩, ?_⟩
      rintro _ ⟨⟨k, rfl⟩, hlt⟩
      have hk : 0 < k := by
        by_contra hzero
        obtain rfl : k = 0 := by omega
        omega
      have hle := Nat.le_mul_of_pos_left r.m_sRecState.ulPeriod.toNat hk
      push_cast at *
      omega
    · simp only [hfront, if_false]
      refine ⟨⟨⟨0, by simp⟩, le_rfl⟩, ?_⟩
      rintro m ⟨-, hle⟩
      exact hle
  · simp only [if_pos hfreq]
    constructor
    · exact ⟨by split_ifs <;> omega, by split_ifs <;> omega⟩
    · rintro m ⟨hmod, hle⟩
      split_ifs at hle ⊢ <;> omega

/-- The first occurrence is the day of the pattern in that month. -/
theorem isLeast_dayInMonth (h : r.GoesByMonths) (hpattern : r.IsPattern) :
    IsLeast {d | r.startDate ≤ d ∧ r.EligibleMonth (monthOf d) ∧ r.OnPattern d} (r.dayInMonth r.monthOfFirst) := by
  have hday := isDayOfMonth_dayInMonth hpattern
  have himage : {d | r.startDate ≤ d ∧ r.EligibleMonth (monthOf d) ∧ r.OnPattern d} =
      r.dayInMonth '' {n | r.EligibleMonth n ∧ r.startDate ≤ r.dayInMonth n} := by
    ext d
    constructor
    · rintro ⟨hstart, heligible, hon⟩
      have hd := (onPattern_iff hpattern d).mp hon
      exact ⟨monthOf d, ⟨heligible, hd ▸ hstart⟩, hd.symm⟩
    · rintro ⟨n, ⟨heligible, hstart⟩, rfl⟩
      exact ⟨hstart, by rwa [hday.monthOf], (onPattern_iff hpattern _).mpr (by rw [hday.monthOf])⟩
  rw [himage]
  exact hday.strictMono.monotone.map_isLeast (isLeast_monthOfFirst h hpattern)

/-! ## The way to the first month -/

theorem inRange_startDate (r : Recurrence) : InRange r.startDate := by
  obtain ⟨hlow, hhigh⟩ := getStartDateTime_bounds (r := r)
  exact inRange_of_time (by omega) (by omega)

/-- The fields of the start. -/
theorem gmtimeSafe_start (r : Recurrence) : (gmtimeSafe r.getStartDateTime).tm_mday = mday r.startDate ∧
      (gmtimeSafe r.getStartDateTime).tm_wday = wday r.startDate ∧
      (gmtimeSafe r.getStartDateTime).tm_year = monthOf r.startDate / 12 - 1900 ∧
      (gmtimeSafe r.getStartDateTime).tm_mon = monthOf r.startDate % 12 := by
  rw [← onDate_startDate]
  exact gmtimeSafe_onDate (inRange_startDate r)

theorem monthOf_startDate_lt (r : Recurrence) : monthOf r.startDate < 2 ^ 20 := by
  obtain ⟨-, hhigh⟩ := getStartDateTime_bounds (r := r)
  obtain ⟨hfirst, -⟩ := monthOf_spec r.startDate
  by_contra hlarge
  have hle := firstOfMonth_strictMono.monotone (not_lt.mp hlarge)
  have hbig : firstOfMonth (2 ^ 20) = 31195848 := by decide +kernel
  unfold startDate at hfirst hle
  omega

/-- The month to go to is not in front of the month of the start. -/
theorem exists_targetMonth (r : Recurrence) (bMoveMonth : Bool) :
    ∃ count : ℕ, count < 2 ^ 32 ∧ r.targetMonth bMoveMonth = monthOf r.startDate + count := by
  have hmonth := getMonth_bounds r
  have hperiod := r.m_sRecState.ulPeriod.isLt
  unfold targetMonth
  dsimp only
  split_ifs with hfreq hbehind hmove
  · exact ⟨(12 + (r.getMonth - 1) - monthOf r.startDate % 12).toNat, by omega, by omega⟩
  · exact ⟨((r.getMonth : ℤ) - 1 - monthOf r.startDate % 12).toNat, by omega, by omega⟩
  · exact ⟨r.m_sRecState.ulPeriod.toNat, by omega, rfl⟩
  · exact ⟨0, by omega, by simp⟩

/-- The days around the month that is gone to. -/
theorem inRange_targetMonth (r : Recurrence) (bMoveMonth : Bool) {k : ℤ} (hk : -1000 ≤ k) (hk' : k ≤ 1000) :
    InRange (firstOfMonth (r.targetMonth bMoveMonth) + k) := by
  obtain ⟨count, hcount, htarget⟩ := exists_targetMonth r bMoveMonth
  have hadd := firstOfMonth_add_le (monthOf r.startDate) count
  have hmono := firstOfMonth_strictMono.monotone (show monthOf r.startDate ≤ monthOf r.startDate + count by omega)
  have hmday := mday_startDate r
  obtain ⟨hlow, hhigh⟩ := getStartDateTime_bounds (r := r)
  rw [htarget]
  unfold mday startDate at hmday
  unfold startDate at *
  unfold InRange
  omega

/-- The loop over the months from that of the start on. -/
theorem addMonths_start (h : r.GoesByMonths) {count : ℕ} (hcount : count < 2 ^ 32) (d : ℤ) :
    addMonths count ((gmtimeSafe r.getStartDateTime).tm_year + 1900) ((gmtimeSafe r.getStartDateTime).tm_mon + 1)
        (r.onDate d) =
      r.onDate (d + (firstOfMonth (monthOf r.startDate + count) - firstOfMonth (monthOf r.startDate))) := by
  obtain ⟨-, -, hyear, hmon⟩ := gmtimeSafe_start r
  have hlt := monthOf_startDate_lt r
  rw [hyear, hmon, sub_add_cancel, addMonths_eq _ h.startDate (by omega), onDate_add_days]

/-! ## A day of the month -/

/-- The day of the month of the start is in front of the start when it is an earlier one of the month. -/
theorem dayOf_lt_iff : r.dayOf (monthOf r.startDate) < r.startDate ↔
    (r.m_sRecState.ulDayOfMonth.toNat : ℤ) < mday r.startDate := by
  have hle := mday_le r.startDate
  unfold dayOf
  unfold mday at *
  omega

/-- The months that are skipped lead to the first month. -/
theorem monthSkip_eq (h : r.GoesByMonths) (htype : r.m_sRecState.ulPatternType = 2)
    (hday : r.m_sRecState.ulDayOfMonth.toNat ≤ 31) :
    monthOf r.startDate + (r.monthSkip (gmtimeSafe r.getStartDateTime)).toNat = r.monthOfFirst := by
  obtain ⟨hmday, -, -, hmon⟩ := gmtimeSafe_start r
  have hmonth := getMonth_bounds r
  have hint : r.m_sRecState.ulDayOfMonth.toInt = r.m_sRecState.ulDayOfMonth.toNat :=
    BitVec.toInt_eq_toNat_of_lt (by omega)
  unfold monthOfFirst targetMonth monthSkip dayInMonth
  simp only [if_pos htype, hmday, hmon, hint, dayOf_lt_iff, decide_eq_true_iff]
  rcases h.frequency with ⟨hfreq, -⟩ | ⟨hfreq, hperiod⟩
  · have hne : RF_MONTHLY ≠ RF_YEARLY := by decide
    simp only [hfreq, hne, true_and, if_false]
    split_ifs
    · rfl
    · simp
  · have hne : RF_YEARLY ≠ RF_MONTHLY := by decide
    simp only [hfreq, hne, false_and, if_false, if_true, hperiod]
    split_ifs
    · rw [BitVec.toNat_sub, BitVec.toNat_ofInt]
      show _ + (((2 ^ 32 - _ + 12) % 2 ^ 32 : ℕ) : ℤ) = _
      omega
    · rw [BitVec.toNat_ofInt]
      omega
    · simp
      omega

/-- On a day of the month, `calcStartDate` returns that day of the first month. -/
theorem monthDayStart_eq (h : r.GoesByMonths) (htype : r.m_sRecState.ulPatternType = 2)
    (hlow : 1 ≤ r.m_sRecState.ulDayOfMonth.toNat) (hhigh : r.m_sRecState.ulDayOfMonth.toNat ≤ 31) :
    r.monthDayStart = r.onDate (r.dayOf r.monthOfFirst) := by
  obtain ⟨hmday, -, -, -⟩ := gmtimeSafe_start r
  have hlength := monthLength_bounds r.monthOfFirst
  have hint : r.m_sRecState.ulDayOfMonth.toInt = r.m_sRecState.ulDayOfMonth.toNat :=
    BitVec.toInt_eq_toNat_of_lt (by omega)
  have hseconds : (((r.m_sRecState.ulDayOfMonth - 1) * 24 * 60 * 60 : UInt).toNat : ℤ) =
      (r.m_sRecState.ulDayOfMonth.toNat - 1) * 86400 := by
    have hsub : (r.m_sRecState.ulDayOfMonth - 1).toNat = r.m_sRecState.ulDayOfMonth.toNat - 1 := by
      rw [BitVec.toNat_sub]
      show (2 ^ 32 - 1 + r.m_sRecState.ulDayOfMonth.toNat) % 2 ^ 32 = _
      omega
    rw [BitVec.toNat_mul, BitVec.toNat_mul, BitVec.toNat_mul, hsub]
    show (((r.m_sRecState.ulDayOfMonth.toNat - 1) * 24 % 2 ^ 32 * 60 % 2 ^ 32 * 60 % 2 ^ 32 : ℕ) : ℤ) = _
    omega
  have hbegin : r.getStartDateTime - (mday r.startDate - 1) * 24 * 60 * 60 +
      (r.m_sRecState.ulDayOfMonth.toNat - 1) * 86400 =
        r.onDate (firstOfMonth (monthOf r.startDate) + (r.m_sRecState.ulDayOfMonth.toNat - 1)) := by
    rw [← onDate_startDate]
    unfold onDate mday
    ring
  have hlanding : firstOfMonth (monthOf r.startDate) + (r.m_sRecState.ulDayOfMonth.toNat - 1) +
      (firstOfMonth r.monthOfFirst - firstOfMonth (monthOf r.startDate)) =
        firstOfMonth r.monthOfFirst + (r.m_sRecState.ulDayOfMonth.toNat - 1) := by ring
  have hrange : InRange (firstOfMonth r.monthOfFirst + (r.m_sRecState.ulDayOfMonth.toNat - 1)) :=
    inRange_targetMonth r _ (by omega) (by omega)
  have hlong : (r.m_sRecState.ulDayOfMonth ≥ 28 ∧ r.m_sRecState.ulDayOfMonth ≤ 31) ↔
      28 ≤ r.m_sRecState.ulDayOfMonth.toNat := by
    rw [ge_iff_le, BitVec.le_def, BitVec.le_def]
    show 28 ≤ r.m_sRecState.ulDayOfMonth.toNat ∧ r.m_sRecState.ulDayOfMonth.toNat ≤ 31 ↔ _
    omega
  unfold monthDayStart
  dsimp only
  rw [hmday, hseconds, hbegin, addMonths_start h (BitVec.isLt _), monthSkip_eq h htype hhigh, hlanding,
    (gmtimeSafe_onDate hrange).1, hint, if_congr hlong rfl rfl]
  rcases le_or_gt (r.m_sRecState.ulDayOfMonth.toNat : ℤ) (monthLength r.monthOfFirst) with hshort | hbehind
  · rw [mday_add (by omega) (by omega), dayOf, min_eq_left hshort]
    split_ifs <;> first | rfl | omega
  · -- the day is one of the next month
    have hnext : firstOfMonth r.monthOfFirst + (r.m_sRecState.ulDayOfMonth.toNat - 1) =
        firstOfMonth (r.monthOfFirst + 1) + (r.m_sRecState.ulDayOfMonth.toNat - 1 - monthLength r.monthOfFirst) := by
      rw [firstOfMonth_succ]
      ring
    have hlength' := monthLength_bounds (r.monthOfFirst + 1)
    rw [hnext, mday_add (by omega) (by omega), if_pos (by omega), if_pos (by omega), firstOfMonth_succ, dayOf,
      min_eq_right hbehind.le]
    unfold onDate
    ring

/-! ## A weekday of the month -/

section

variable {k : ℕ} (hk : k < 7) (hmask : r.m_sRecState.ulWeekDays = 1 <<< k)
include hk hmask

/-- The search forward finds the weekday in the week that begins with the day. -/
theorem dayForward_single (d : ℤ) : r.dayForward (wday d) = some ((k - wday d) % 7).toNat := by
  have hwday := wday_bounds d
  have hmod (i : ℕ) : (wday d + i).tmod 7 = (wday d + i) % 7 := Int.tmod_eq_emod_of_nonneg (by omega)
  have hsingle (i : ℕ) : r.hasWeekDay ((wday d + i).tmod 7) = true ↔ (wday d + i) % 7 = k := by
    rw [hmod]
    exact hasWeekDay_single hk hmask (by omega) (by omega)
  unfold dayForward
  rw [List.find?_range_eq_some]
  refine ⟨(hsingle _).mpr (by omega), List.mem_range.mpr (by omega), fun i hi => ?_⟩
  rw [Bool.not_eq_true', Bool.eq_false_iff, ne_eq, hsingle]
  omega

/-- The search backward finds the weekday when it is not behind the day in the week from Sunday on. -/
theorem dayBackward_single (d : ℤ) :
    r.dayBackward (wday d) = if k ≤ wday d then some (wday d - k).toNat else none := by
  have hwday := wday_bounds d
  have hsingle {i : ℕ} (hi : i < 7) : r.hasWeekDay ((wday d - i).tmod 7) = true ↔ wday d - i = k := by
    rw [tmod_seven (by omega) (by omega)]
    exact hasWeekDay_single hk hmask (by omega) (by omega)
  unfold dayBackward
  split_ifs with hle
  · rw [List.find?_range_eq_some]
    refine ⟨(hsingle (by omega)).mpr (by omega), List.mem_range.mpr (by omega), fun i hi => ?_⟩
    rw [Bool.not_eq_true', Bool.eq_false_iff, ne_eq, hsingle (by omega)]
    omega
  · rw [List.find?_eq_none]
    intro i hi
    rw [hsingle (List.mem_range.mp hi)]
    omega

/-- Whether the n-th weekday of the month is in front of the start is decided by the next such weekday. -/
theorem bMoveMonth_nth (hnth : r.m_sRecState.ulWeekNumber ≠ 5) (hlow : 1 ≤ r.m_sRecState.ulWeekNumber.toNat)
    (hhigh : r.m_sRecState.ulWeekNumber.toNat ≤ 5) :
    r.bMoveMonth (gmtimeSafe r.getStartDateTime) = decide (r.nthDay (monthOf r.startDate) < r.startDate) := by
  obtain ⟨hmday, hwday, -, -⟩ := gmtimeSafe_start r
  have hbounds := wday_bounds r.startDate
  have hweekDay := weekDay_single hk hmask
  have hseven : (r.m_sRecState.ulWeekNumber * 7).toInt = r.m_sRecState.ulWeekNumber.toNat * 7 := by
    have hnat : (r.m_sRecState.ulWeekNumber * 7).toNat = r.m_sRecState.ulWeekNumber.toNat * 7 := by
      rw [BitVec.toNat_mul]
      show r.m_sRecState.ulWeekNumber.toNat * 7 % 2 ^ 32 = _
      omega
    rw [BitVec.toInt_eq_toNat_of_lt (by omega), hnat, Nat.cast_mul, Nat.cast_ofNat]
  unfold bMoveMonth
  rw [if_neg hnth, hmday, hwday, hseven, dayForward_single hk hmask]
  apply decide_eq_decide.mpr
  unfold nthDay
  rw [hweekDay, Int.toNat_of_nonneg (by omega)]
  unfold mday wday
  omega

omit hk hmask in
variable (r) in
/-- Counted back from the end of the month like from the start, the weekday is in front of the start. -/
def MovesMonth : Prop :=
  r.weekDay ≤ wday r.startDate ∧
    monthLength (monthOf r.startDate) - (wday r.startDate - r.weekDay) < mday r.startDate

omit hk hmask in
instance (r : Recurrence) : Decidable r.MovesMonth := instDecidableAnd

theorem bMoveMonth_last (h : r.GoesByMonths) (hlast : r.m_sRecState.ulWeekNumber = 5) :
    r.bMoveMonth (gmtimeSafe r.getStartDateTime) = decide r.MovesMonth := by
  obtain ⟨hmday, hwday, -, -⟩ := gmtimeSafe_start r
  have hbounds := wday_bounds r.startDate
  have hlength := monthLength_bounds (monthOf r.startDate)
  have hdays := daysInMonth_onDate (r := r) (inRange_startDate r) h.startDate
  obtain rfl := weekDay_single hk hmask
  rw [onDate_startDate] at hdays
  unfold bMoveMonth
  rw [if_pos hlast, hdays, hmday, hwday, dayBackward_single hk hmask]
  split_ifs with hle
  · have hsub : (BitVec.ofInt 32 (monthLength (monthOf r.startDate)) -
        BitVec.ofNat 32 (wday r.startDate - r.weekDay).toNat).toInt =
          monthLength (monthOf r.startDate) - (wday r.startDate - r.weekDay) := by
      rw [← BitVec.ofInt_natCast, Int.toNat_of_nonneg (by omega), BitVec.toInt_sub, BitVec.toInt_ofInt,
        BitVec.toInt_ofInt, ← Int.sub_bmod, Int.bmod_eq_of_le (by omega) (by omega)]
    rw [Option.any_some, hsub]
    apply decide_eq_decide.mpr
    exact (and_iff_right hle).symm
  · rw [Option.any_none]
    exact (decide_eq_false fun hand => hle hand.1).symm

/-- The search for the n-th weekday begins on the first day of a month. -/
theorem seekDay_nth (hnth : r.m_sRecState.ulWeekNumber ≠ 5) (hlow : 1 ≤ r.m_sRecState.ulWeekNumber.toNat)
    (hhigh : r.m_sRecState.ulWeekNumber.toNat ≤ 5) {n : ℤ} (hrange : InRange (firstOfMonth n)) :
    r.seekDay (r.onDate (firstOfMonth n)) = r.onDate (r.nthDay n) := by
  obtain ⟨-, hwday, -, -⟩ := gmtimeSafe_onDate (r := r) hrange
  obtain rfl := weekDay_single hk hmask
  obtain ⟨i, hi⟩ := Int.eq_ofNat_of_zero_le (show 0 ≤ (r.weekDay - wday (firstOfMonth n)) % 7 by omega)
  have hlt : i < 7 := by omega
  have hsub : (r.m_sRecState.ulWeekNumber - 1).toNat = r.m_sRecState.ulWeekNumber.toNat - 1 := by
    rw [BitVec.toNat_sub]
    show (2 ^ 32 - 1 + r.m_sRecState.ulWeekNumber.toNat) % 2 ^ 32 = _
    omega
  have hdays : ((r.m_sRecState.ulWeekNumber - 1) * 7 + BitVec.ofNat 32 (i + 1) - 1 : UInt).toNat =
      (r.m_sRecState.ulWeekNumber.toNat - 1) * 7 + i := by
    rw [BitVec.toNat_sub, BitVec.toNat_add, BitVec.toNat_mul, BitVec.toNat_ofNat, hsub]
    show (2 ^ 32 - 1 + ((r.m_sRecState.ulWeekNumber.toNat - 1) * 7 % 2 ^ 32 + (i + 1) % 2 ^ 32) % 2 ^ 32) % 2 ^ 32 = _
    omega
  have hseconds : ((((r.m_sRecState.ulWeekNumber - 1) * 7 + BitVec.ofNat 32 (i + 1) - 1) * 24 * 60 * 60 : UInt).toNat : ℤ) =
      (i + (r.m_sRecState.ulWeekNumber.toNat - 1) * 7) * 86400 := by
    rw [BitVec.toNat_mul, BitVec.toNat_mul, BitVec.toNat_mul, hdays]
    show ((((r.m_sRecState.ulWeekNumber.toNat - 1) * 7 + i) * 24 % 2 ^ 32 * 60 % 2 ^ 32 * 60 % 2 ^ 32 : ℕ) : ℤ) = _
    omega
  unfold seekDay nthDay
  dsimp only
  rw [if_neg hnth, hwday, dayForward_single hk hmask, hi, ← onDate_add_days, ← hseconds]
  rfl

/-- The search for the last weekday. -/
theorem seekDay_last (hlast : r.m_sRecState.ulWeekNumber = 5) {d : ℤ} (hrange : InRange d) :
    r.seekDay (r.onDate d) = r.onDate (d - max 0 (wday d - r.weekDay)) := by
  obtain ⟨-, hwday, -, -⟩ := gmtimeSafe_onDate (r := r) hrange
  obtain rfl := weekDay_single hk hmask
  unfold seekDay
  dsimp only
  rw [if_pos hlast, hwday, dayBackward_single hk hmask]
  split_ifs with hle
  · show r.onDate d - ((wday d - r.weekDay).toNat : ℤ) * 24 * 60 * 60 = _
    rw [Int.toNat_of_nonneg (by omega), max_eq_right (by omega)]
    unfold onDate
    ring
  · rw [max_eq_left (by omega), sub_zero]

end

variable (r) in
/-- The day that the search for the weekday begins with. For the last weekday of a month it is the end of the month, but
in a yearly recurrence as many days behind its beginning as the month of the start has. -/
def searchDay (bMoveMonth : Bool) : ℤ :=
  if r.m_sRecState.ulWeekNumber = 5 then
    if r.m_sRecState.ulRecurFrequency = RF_YEARLY then
      firstOfMonth (r.targetMonth bMoveMonth) + (monthLength (monthOf r.startDate) - 1)
    else lastOfMonth (r.targetMonth bMoveMonth)
  else firstOfMonth (r.targetMonth bMoveMonth)

/-- The months of a yearly recurrence to the month to go to. -/
theorem moveMonths_yearly (h : r.GoesByMonths) (hfreq : r.m_sRecState.ulRecurFrequency = RF_YEARLY) (bMoveMonth : Bool)
    (d : ℤ) : r.moveMonths (gmtimeSafe r.getStartDateTime) bMoveMonth (r.onDate d) =
      r.onDate (d + (firstOfMonth (r.targetMonth bMoveMonth) - firstOfMonth (monthOf r.startDate))) := by
  obtain ⟨-, -, -, hmon⟩ := gmtimeSafe_start r
  have hmonth := getMonth_bounds r
  unfold moveMonths
  dsimp only
  rw [if_pos hfreq, addMonths_start h (BitVec.isLt _), hmon]
  congr 4
  unfold targetMonth
  dsimp only
  rw [if_pos hfreq]
  split_ifs
  · rw [BitVec.toNat_ofInt]
    omega
  · rw [BitVec.toNat_ofInt]
    omega

/-- The months of a monthly recurrence, which for the last weekday begin with the month behind that of the start. -/
theorem moveMonths_monthly (h : r.GoesByMonths) (hfreq : r.m_sRecState.ulRecurFrequency ≠ RF_YEARLY) (bMoveMonth : Bool)
    (d : ℤ) : r.moveMonths (gmtimeSafe r.getStartDateTime) bMoveMonth (r.onDate d) =
      r.onDate (d + if r.m_sRecState.ulWeekNumber = 5 then
          lastOfMonth (r.targetMonth bMoveMonth) - lastOfMonth (monthOf r.startDate)
        else firstOfMonth (r.targetMonth bMoveMonth) - firstOfMonth (monthOf r.startDate)) := by
  obtain ⟨-, -, hyear, hmon⟩ := gmtimeSafe_start r
  have hlt := monthOf_startDate_lt r
  have hnonneg := h.startDate
  have hperiod := r.m_sRecState.ulPeriod.isLt
  have hnext (t : ℤ) : (if (gmtimeSafe r.getStartDateTime).tm_mon + 1 = 12 then
        addMonths r.m_sRecState.ulPeriod.toNat ((gmtimeSafe r.getStartDateTime).tm_year + 1900 + 1) 1 t
      else addMonths r.m_sRecState.ulPeriod.toNat ((gmtimeSafe r.getStartDateTime).tm_year + 1900)
        ((gmtimeSafe r.getStartDateTime).tm_mon + 1 + 1) t) =
      addMonths r.m_sRecState.ulPeriod.toNat ((monthOf r.startDate + 1) / 12) ((monthOf r.startDate + 1) % 12 + 1) t := by
    rw [hyear, hmon]
    split_ifs with hdecember
    · congr 1 <;> omega
    · congr 1 <;> omega
  unfold moveMonths targetMonth
  dsimp only
  rw [if_neg hfreq, if_neg hfreq]
  cases bMoveMonth with
  | false => simp
  | true =>
    rw [if_pos rfl, if_pos rfl]
    by_cases hlast : r.m_sRecState.ulWeekNumber = 5
    · rw [if_pos hlast, if_pos hlast, hnext, addMonths_eq _ (by omega) (by omega), onDate_add_days, lastOfMonth,
        lastOfMonth, add_right_comm, sub_sub_sub_cancel_right]
    · rw [if_neg hlast, if_neg hlast]
      exact addMonths_start h hperiod d

/-- The way to the day that the search for the weekday begins with. -/
theorem monthNthStart_eq (h : r.GoesByMonths) : r.monthNthStart =
      r.seekDay (r.onDate (r.searchDay (r.bMoveMonth (gmtimeSafe r.getStartDateTime)))) := by
  obtain ⟨hmday, -, hyear, hmon⟩ := gmtimeSafe_start r
  have hlt := monthOf_startDate_lt r
  have hbegin : r.getStartDateTime - (mday r.startDate - 1) * 24 * 60 * 60 =
      r.onDate (firstOfMonth (monthOf r.startDate)) := by
    rw [← onDate_startDate]
    unfold onDate mday
    ring
  have hend : r.onDate (firstOfMonth (monthOf r.startDate)) +
      monthInSeconds ((gmtimeSafe r.getStartDateTime).tm_year + 1900) ((gmtimeSafe r.getStartDateTime).tm_mon + 1) -
        24 * 60 * 60 = r.onDate (lastOfMonth (monthOf r.startDate)) := by
    rw [hyear, hmon, sub_add_cancel, monthInSeconds_eq h.startDate (by omega), lastOfMonth_eq]
    unfold onDate
    ring
  unfold monthNthStart
  dsimp only
  rw [hmday, hbegin, hend, ← apply_ite r.onDate]
  generalize r.bMoveMonth (gmtimeSafe r.getStartDateTime) = bMoveMonth
  unfold searchDay
  by_cases hfreq : r.m_sRecState.ulRecurFrequency = RF_YEARLY
  · rw [moveMonths_yearly h hfreq, if_pos hfreq]
    congr 2
    split_ifs
    · rw [lastOfMonth_eq]
      ring
    · ring
  · rw [moveMonths_monthly h hfreq, if_neg hfreq]
    congr 2
    split_ifs <;> ring

/-! ## The first occurrence -/

variable (r) in
/-- The days that the month of the start has more than the first month, where a yearly recurrence goes from one to the
other by its length. -/
def lengthError : ℤ :=
  if r.m_sRecState.ulRecurFrequency = RF_YEARLY then monthLength (monthOf r.startDate) - monthLength r.monthOfFirst else 0

variable (r) in
/-- The weekday of the start tells whether the last such weekday of its month is in front of it, which does not matter to
a yearly recurrence in another month. In the week from Sunday on, the search in the first month begins on the weekday or
behind it, and it leads to one of the last seven days of the month. -/
def LastWeekDayFits : Prop :=
  ((r.m_sRecState.ulRecurFrequency = RF_YEARLY → (r.getMonth : ℤ) - 1 = monthOf r.startDate % 12) →
    (r.MovesMonth ↔ r.lastDay (monthOf r.startDate) < r.startDate)) ∧
  r.weekDay + max 0 r.lengthError ≤ wday (lastOfMonth r.monthOfFirst + r.lengthError) ∧
  wday (lastOfMonth r.monthOfFirst + r.lengthError) < r.weekDay + 7 + r.lengthError

/-- The search finds the last weekday of a month. -/
theorem search_eq_lastDay_iff (hweekDay : r.weekDay < 7) (n e : ℤ) :
    lastOfMonth n + e - max 0 (wday (lastOfMonth n + e) - r.weekDay) = r.lastDay n ↔
      r.weekDay + max 0 e ≤ wday (lastOfMonth n + e) ∧ wday (lastOfMonth n + e) < r.weekDay + 7 + e := by
  unfold lastDay wday
  omega

/-- The decision matters, except in another month of a yearly recurrence. -/
theorem targetMonth_eq_iff (h : r.GoesByMonths) (bMoveMonth bMoveMonth' : Bool) :
    r.targetMonth bMoveMonth = r.targetMonth bMoveMonth' ↔
      ((r.m_sRecState.ulRecurFrequency = RF_YEARLY → (r.getMonth : ℤ) - 1 = monthOf r.startDate % 12) →
        bMoveMonth = bMoveMonth') := by
  unfold targetMonth
  dsimp only
  rcases h.frequency with ⟨hfreq, hperiod⟩ | ⟨hfreq, -⟩
  · have hyearly : r.m_sRecState.ulRecurFrequency ≠ RF_YEARLY := by
      rw [hfreq]
      decide
    have hpos : 0 < r.m_sRecState.ulPeriod.toNat :=
      Nat.pos_of_ne_zero fun hzero => hperiod (BitVec.eq_of_toNat_eq hzero)
    simp only [hyearly, false_imp_iff, true_imp_iff, if_false]
    cases bMoveMonth <;> cases bMoveMonth' <;> simp <;> omega
  · simp only [hfreq, true_imp_iff, if_true]
    cases bMoveMonth <;> cases bMoveMonth' <;> simp <;> split_ifs <;> omega

/-- Two months to go to in a yearly recurrence are a year apart. -/
theorem targetMonth_yearly (hfreq : r.m_sRecState.ulRecurFrequency = RF_YEARLY) {bMoveMonth bMoveMonth' : Bool}
    (hne : r.targetMonth bMoveMonth ≠ r.targetMonth bMoveMonth') :
    r.targetMonth bMoveMonth' = r.targetMonth bMoveMonth + 12 ∨
      r.targetMonth bMoveMonth' = r.targetMonth bMoveMonth - 12 := by
  unfold targetMonth at *
  dsimp only at *
  rw [if_pos hfreq, if_pos hfreq] at *
  split_ifs at * <;> omega

/-- In another month, the weekday is not found. -/
theorem search_ne_lastDay (hlast : r.m_sRecState.ulWeekNumber = 5) {bMoveMonth bMoveMonth' : Bool}
    (hne : r.targetMonth bMoveMonth ≠ r.targetMonth bMoveMonth') :
    r.searchDay bMoveMonth - max 0 (wday (r.searchDay bMoveMonth) - r.weekDay) ≠
      r.lastDay (r.targetMonth bMoveMonth') := by
  have hwday := wday_bounds (r.searchDay bMoveMonth)
  have hstart := monthLength_bounds (monthOf r.startDate)
  have hlength := monthLength_bounds (r.targetMonth bMoveMonth)
  have hfirst := (isDayOfMonth_lastDay (r := r)).first (r.targetMonth bMoveMonth')
  have hend := (isDayOfMonth_lastDay (r := r)).last (r.targetMonth bMoveMonth')
  intro heq
  rw [← heq] at hfirst hend
  unfold searchDay at *
  rw [if_pos hlast] at *
  split_ifs at * with hfreq
  · have hyear := targetMonth_yearly hfreq hne
    have hnext := monthLength_bounds (r.targetMonth bMoveMonth + 1)
    have hlow : r.targetMonth bMoveMonth < r.targetMonth bMoveMonth' + 1 :=
      firstOfMonth_strictMono.lt_iff_lt.mp (by omega)
    have hhigh : r.targetMonth bMoveMonth' < r.targetMonth bMoveMonth + 1 + 1 := by
      apply firstOfMonth_strictMono.lt_iff_lt.mp
      rw [firstOfMonth_succ, firstOfMonth_succ]
      omega
    omega
  · have hlastDay := lastOfMonth_eq (r.targetMonth bMoveMonth)
    have hlow : r.targetMonth bMoveMonth < r.targetMonth bMoveMonth' + 1 :=
      firstOfMonth_strictMono.lt_iff_lt.mp (by omega)
    have hhigh : r.targetMonth bMoveMonth' < r.targetMonth bMoveMonth + 1 := by
      apply firstOfMonth_strictMono.lt_iff_lt.mp
      rw [firstOfMonth_succ]
      omega
    omega

/-- The last weekday of a month. -/
theorem monthNthStart_last (h : r.GoesByMonths) (hlast : r.m_sRecState.ulWeekNumber = 5) {k : ℕ} (hk : k < 7)
    (hmask : r.m_sRecState.ulWeekDays = 1 <<< k) (hfirst : r.dayInMonth = r.lastDay) :
    r.monthNthStart = r.onDate (r.lastDay r.monthOfFirst) ↔ r.LastWeekDayFits := by
  have hweekDay : r.weekDay < 7 := (weekDay_single hk hmask).trans_lt hk
  have hrange (bMoveMonth : Bool) : InRange (r.searchDay bMoveMonth) := by
    have hstart := monthLength_bounds (monthOf r.startDate)
    have hlength := monthLength_bounds (r.targetMonth bMoveMonth)
    unfold searchDay
    rw [if_pos hlast, lastOfMonth_eq]
    split_ifs
    · exact inRange_targetMonth r bMoveMonth (by omega) (by omega)
    · exact inRange_targetMonth r bMoveMonth (by omega) (by omega)
  have hmonth : r.monthOfFirst = r.targetMonth (r.lastDay (monthOf r.startDate) < r.startDate) := by
    unfold monthOfFirst
    rw [hfirst]
  have hsame := targetMonth_eq_iff h r.MovesMonth (r.lastDay (monthOf r.startDate) < r.startDate)
  rw [← hmonth, decide_eq_decide] at hsame
  have hsearch (hmoves : r.targetMonth r.MovesMonth = r.monthOfFirst) :
      r.searchDay r.MovesMonth = lastOfMonth r.monthOfFirst + r.lengthError := by
    unfold searchDay lengthError
    rw [if_pos hlast, hmoves, lastOfMonth_eq]
    split_ifs <;> ring
  rw [monthNthStart_eq h, bMoveMonth_last hk hmask h hlast, seekDay_last hk hmask hlast (hrange _), onDate_injective.eq_iff]
  unfold LastWeekDayFits
  rw [← hsame]
  by_cases hmoves : r.targetMonth r.MovesMonth = r.monthOfFirst
  · rw [hsearch hmoves, search_eq_lastDay_iff hweekDay]
    exact (and_iff_right hmoves).symm
  · refine iff_of_false ?_ fun hand => hmoves hand.1
    rw [hmonth] at hmoves ⊢
    exact search_ne_lastDay hlast hmoves

/-- The n-th weekday of a month. -/
theorem monthNthStart_nth (h : r.GoesByMonths) (hnth : r.m_sRecState.ulWeekNumber ≠ 5)
    (hlow : 1 ≤ r.m_sRecState.ulWeekNumber.toNat) (hhigh : r.m_sRecState.ulWeekNumber.toNat ≤ 5) {k : ℕ} (hk : k < 7)
    (hmask : r.m_sRecState.ulWeekDays = 1 <<< k) (hfirst : r.dayInMonth = r.nthDay) :
    r.monthNthStart = r.onDate (r.nthDay r.monthOfFirst) := by
  have hrange (bMoveMonth : Bool) := inRange_targetMonth r bMoveMonth (k := 0) (by decide) (by decide)
  have hmonth : r.monthOfFirst = r.targetMonth (r.nthDay (monthOf r.startDate) < r.startDate) := by
    unfold monthOfFirst
    rw [hfirst]
  simp only [add_zero] at hrange
  rw [monthNthStart_eq h, bMoveMonth_nth hk hmask hnth hlow hhigh, searchDay, if_neg hnth, ← hmonth]
  exact seekDay_nth hk hmask hnth hlow hhigh (by rw [hmonth]; exact hrange _)

theorem calcStartDate_months (h : r.GoesByMonths) :
    r.calcStartDate = if r.m_sRecState.ulPatternType = 2 then r.monthDayStart
      else if r.m_sRecState.ulPatternType = 3 then r.monthNthStart
      else r.getStartDateTime := by
  have hweekly : r.m_sRecState.ulRecurFrequency ≠ RF_WEEKLY := by
    rcases h.frequency with ⟨hfreq, -⟩ | ⟨hfreq, -⟩ <;> rw [hfreq] <;> decide
  rw [calcStartDate, if_neg hweekly, if_pos (h.frequency.imp And.left And.left)]
  rfl

/-- `calcStartDate` returns the earliest day of the pattern in an eligible month if and only if, for the last weekday of
a month, the weekdays fit. -/
theorem calcStartDate_monthly_iff (r : Recurrence) (h : r.GoesByMonths) (hpattern : r.IsPattern) :
    (∃ d, IsLeast {d | r.startDate ≤ d ∧ r.EligibleMonth (monthOf d) ∧ r.OnPattern d} d ∧
      r.calcStartDate = r.onDate d) ↔
    (r.m_sRecState.ulPatternType = 3 → r.m_sRecState.ulWeekNumber = 5 → r.LastWeekDayFits) := by
  have hleast := isLeast_dayInMonth h hpattern
  have hdate : (∃ d, IsLeast {d | r.startDate ≤ d ∧ r.EligibleMonth (monthOf d) ∧ r.OnPattern d} d ∧
      r.calcStartDate = r.onDate d) ↔ r.calcStartDate = r.onDate (r.dayInMonth r.monthOfFirst) :=
    ⟨fun ⟨d, hd, hcalc⟩ => hd.unique hleast ▸ hcalc, fun hcalc => ⟨_, hleast, hcalc⟩⟩
  rw [hdate, calcStartDate_months h]
  rcases hpattern with ⟨htype, hlow, hhigh⟩ | ⟨htype, hlow, hhigh, k, hk, hmask⟩
  · have htype' : r.m_sRecState.ulPatternType ≠ 3 := by
      rw [htype]
      decide
    rw [if_pos htype, monthDayStart_eq h htype hlow hhigh, dayInMonth, if_pos htype]
    exact iff_of_true rfl fun hthree => absurd hthree htype'
  · have htype' : r.m_sRecState.ulPatternType ≠ 2 := by
      rw [htype]
      decide
    rw [if_neg htype', if_pos htype, forall_prop_of_true htype]
    by_cases hlast : r.m_sRecState.ulWeekNumber = 5
    · have hfirst : r.dayInMonth = r.lastDay := by
        funext n
        rw [dayInMonth, if_neg htype', if_pos hlast]
      rw [forall_prop_of_true hlast, hfirst]
      exact monthNthStart_last h hlast hk hmask hfirst
    · have hfirst : r.dayInMonth = r.nthDay := by
        funext n
        rw [dayInMonth, if_neg htype', if_neg hlast]
      rw [hfirst]
      exact iff_of_true (monthNthStart_nth h hlast hlow hhigh hk hmask hfirst) fun hfive => absurd hfive hlast

/-- The last Friday of every month from the 1st of August 2011 on, a Monday. -/
def lastFriday : Recurrence :=
  ((((new 0).setStartDateTime 1312156800).setFrequency .MONTHLY).setWeekDays 0x20).setWeekNumber 5

theorem calcStartDate_lastFriday :
    (∃ d, IsLeast {d | lastFriday.startDate ≤ d ∧ lastFriday.EligibleMonth (monthOf d) ∧ lastFriday.OnPattern d} d ∧
      lastFriday.calcStartDate = lastFriday.onDate d) ↔
    (lastFriday.m_sRecState.ulPatternType = 3 → lastFriday.m_sRecState.ulWeekNumber = 5 →
      lastFriday.LastWeekDayFits) :=
  calcStartDate_monthly_iff lastFriday ⟨.inl ⟨rfl, by decide⟩, by decide +kernel⟩
    (.inr ⟨rfl, by decide, by decide, 5, by decide, rfl⟩)

/-- The start is the 31st, a Wednesday. -/
theorem not_startsOnFirst_lastFriday :
    ¬ ∃ d, IsLeast {d | lastFriday.startDate ≤ d ∧ lastFriday.EligibleMonth (monthOf d) ∧ lastFriday.OnPattern d} d ∧
      lastFriday.calcStartDate = lastFriday.onDate d := by
  rintro ⟨d, ⟨⟨-, -, hpattern⟩, -⟩, hstart⟩
  have hcalc : lastFriday.calcStartDate = lastFriday.onDate (lastFriday.startDate + 30) := by decide +kernel
  rw [onDate_injective (hstart.symm.trans hcalc)] at hpattern
  exact absurd hpattern (by decide +kernel)

end Zcp.FreeBusy.Recurrence
