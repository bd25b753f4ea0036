import Zcp.FreeBusy.Recurrence.Days
import Zcp.Lib.WeekPattern

/-!
# Weekly recurrences

The days of a weekly recurrence are those of a pattern of weekdays. `calcStartDate` looks for the first of them and
`calcEndDate` for the last one of a number of occurrences.
-/

namespace Zcp.FreeBusy.Recurrence

open Zcp.Lib Zcp.Common Zcp.M4lcommon

variable (r : Recurrence)

/-! ## The days of a weekly recurrence -/

/-- The week of a date. Weeks begin on `ulFirstDOW`. -/
def weekOf (d : ℤ) : ℤ := (d + 4 - r.m_sRecState.ulFirstDOW.toNat) / 7

/-- A matching day: on one of the weekdays, in a week that is a multiple of the period behind the one of the start. -/
def MatchingDay (d : ℤ) : Prop :=
  r.hasWeekDay (wday d) = true ∧ (r.m_sRecState.ulPeriod.toNat : ℤ) ∣ r.weekOf d - r.weekOf r.startDate

instance : DecidablePred r.MatchingDay := fun _ => instDecidableAnd

/-- The fields of a weekly recurrence. -/
structure IsWeekly : Prop where
  frequency : r.m_sRecState.ulRecurFrequency = RF_WEEKLY
  period : r.m_sRecState.ulPeriod ≠ 0
  weekDays : r.m_sRecState.ulWeekDays ≠ 0
  weekDays_lt : r.m_sRecState.ulWeekDays < 128
  firstDOW : r.m_sRecState.ulFirstDOW < 7

/-- The weekday of the start. -/
def startWeekDay : ℕ := (wday r.startDate).toNat

/-- The days of the week of the start in front of it. -/
def daysInFront : ℕ := ((r.startDate + 4 - r.m_sRecState.ulFirstDOW.toNat) % 7).toNat

/-- The weekday some days behind another one is one of the recurrence. -/
def onDay (tm_wday k : ℕ) : Prop := r.hasWeekDay ((tm_wday + k) % 7 : ℕ) = true

instance (tm_wday : ℕ) : DecidablePred (r.onDay tm_wday) := fun _ => instDecidableEqBool _ _

/-- The seconds of the weeks that are left out between two weeks of the recurrence. -/
def skippedSeconds : ℕ := (r.m_sRecState.ulPeriod.toNat - 1) * 604800

variable {r}

theorem startWeekDay_lt : r.startWeekDay < 7 := by
  have h := wday_bounds r.startDate
  unfold startWeekDay
  omega

theorem daysInFront_lt : r.daysInFront < 7 := by
  unfold daysInFront
  omega

/-- The days in front of the start, from its weekday. -/
theorem daysInFront_eq (hfirst : r.m_sRecState.ulFirstDOW < 7) :
    r.daysInFront = (r.startWeekDay + 7 - r.m_sRecState.ulFirstDOW.toNat) % 7 := by
  have hlt : r.m_sRecState.ulFirstDOW.toNat < 7 := hfirst
  unfold daysInFront startWeekDay wday
  omega

theorem onDay_iff {tm_wday k : ℕ} :
    r.onDay tm_wday k ↔ r.m_sRecState.ulWeekDays &&& 1 <<< ((tm_wday + k) % 7) ≠ 0 := by
  unfold onDay hasWeekDay
  rw [decide_eq_true_iff, Int.toNat_natCast]
  exact and_iff_right (Int.natCast_nonneg _)

theorem onDay_add_week (tm_wday k : ℕ) : r.onDay tm_wday (k + 7) ↔ r.onDay tm_wday k := by
  unfold onDay
  rw [← add_assoc, Nat.add_mod_right]

/-- The matching days behind the start are those of a pattern. -/
theorem matchingDay_iff (k : ℕ) : r.MatchingDay (r.startDate + k) ↔
      InPattern (r.onDay r.startWeekDay) r.daysInFront r.m_sRecState.ulPeriod.toNat k := by
  have hwday : wday (r.startDate + k) = ((r.startWeekDay + k) % 7 : ℕ) := by
    unfold startWeekDay wday
    omega
  have hweek : r.weekOf (r.startDate + k) - r.weekOf r.startDate = ((r.daysInFront + k) / 7 : ℕ) := by
    unfold weekOf daysInFront
    omega
  unfold MatchingDay InPattern onDay
  rw [hwday, hweek, Int.natCast_dvd_natCast]

-- the fourth of January 1970
example : wday 3 = 0 := by decide +kernel

/-! ## `calcStartDate` -/

variable (r) in
/-- The first weekday that matches is `k` days behind the start. -/
def FirstDay (k : ℕ) : Prop := k < 7 ∧ r.onDay r.startWeekDay k ∧ ∀ i < k, ¬ r.onDay r.startWeekDay i

theorem dayForward_eq (tm_wday : ℕ) :
    r.dayForward tm_wday = (List.range 7).find? fun k => decide (r.onDay tm_wday k) := by
  unfold dayForward
  congr 1
  funext k
  have hmod : ((tm_wday : ℤ) + k).tmod 7 = ((tm_wday + k) % 7 : ℕ) := by
    rw [Int.tmod_eq_emod_of_nonneg (by omega)]
    rfl
  rw [hmod]
  exact Bool.decide_eq_true.symm

theorem dayForward_of_first {k : ℕ} (hk : r.FirstDay k) : r.dayForward r.startWeekDay = some k := by
  obtain ⟨hlt, hon, hfirst⟩ := hk
  rw [dayForward_eq, List.find?_range_eq_some]
  exact ⟨by simpa using hon, List.mem_range.mpr hlt, by simpa using hfirst⟩

/-- Every mask has a first day. -/
theorem exists_first (h : r.IsWeekly) : ∃ k, r.FirstDay k := by
  have hmask : ∀ weekDays < 128, weekDays ≠ 0 → ∃ j < 7, BitVec.ofNat 32 weekDays &&& 1 <<< j ≠ 0 := by
    decide +kernel
  have hlt : r.m_sRecState.ulWeekDays.toNat < 128 := h.weekDays_lt
  have hne : r.m_sRecState.ulWeekDays.toNat ≠ 0 := fun hzero => h.weekDays (BitVec.eq_of_toNat_eq hzero)
  obtain ⟨j, hj, hon⟩ := hmask _ hlt hne
  rw [BitVec.ofNat_toNat, BitVec.setWidth_eq] at hon
  obtain ⟨k, hk, hkj⟩ : ∃ k < 7, (r.startWeekDay + k) % 7 = j := by
    have hwday := startWeekDay_lt (r := r)
    exact ⟨(j + 7 - r.startWeekDay) % 7, Nat.mod_lt _ (by decide), by omega⟩
  have honk : r.onDay r.startWeekDay k := by rwa [onDay_iff, hkj]
  have hex : ∃ k, r.onDay r.startWeekDay k := ⟨k, honk⟩
  exact ⟨Nat.find hex, (Nat.find_min' hex honk).trans_lt hk, Nat.find_spec hex, fun i hi => Nat.find_min hex hi⟩

theorem FirstDay.unique {i k : ℕ} (hi : r.FirstDay i) (hk : r.FirstDay k) : i = k := by
  obtain ⟨-, honi, hbeforei⟩ := hi
  obtain ⟨-, honk, hbeforek⟩ := hk
  have hik : ¬ i < k := fun hlt => hbeforek i hlt honi
  have hki : ¬ k < i := fun hlt => hbeforei k hlt honk
  omega

theorem IsWeekly.period_pos (h : r.IsWeekly) : 0 < r.m_sRecState.ulPeriod.toNat :=
  Nat.pos_of_ne_zero fun hzero => h.period (BitVec.eq_of_toNat_eq hzero)

/-- The first matching day behind the start. -/
theorem isLeast_matchingDay (h : r.IsWeekly) {k : ℕ} (hk : r.FirstDay k) :
    IsLeast {d | r.startDate ≤ d ∧ r.MatchingDay d}
      (r.startDate + patternDay r.daysInFront r.m_sRecState.ulPeriod.toNat k) := by
  obtain ⟨hlt, hon, hfirst⟩ := hk
  obtain ⟨hmem, hle⟩ :=
    isLeast_inPattern (onDay_add_week (r := r) _) daysInFront_lt h.period_pos hlt hon hfirst
  refine ⟨⟨by omega, (matchingDay_iff _).mpr hmem⟩, ?_⟩
  rintro d ⟨hd, hmatch⟩
  obtain ⟨i, rfl⟩ := Int.le.dest hd
  have hi := hle ((matchingDay_iff i).mp hmatch)
  omega

/-- The weekday of the start, as `gmtime_safe` gives it. -/
theorem startWeekDay_eq : (gmtimeSafe r.getStartDateTime).tm_wday = r.startWeekDay := by
  obtain ⟨hlow, hhigh⟩ := getStartDateTime_bounds (r := r)
  rw [gmtimeSafe_wday (inRange_of_time (by omega) (by omega))]
  have h := wday_bounds r.startDate
  unfold startWeekDay
  rw [Int.toNat_of_nonneg h.1]
  rfl

/-- The seconds between two weeks of the recurrence, as they are calculated. -/
theorem skippedSeconds_wrapped (hp : 0 < r.m_sRecState.ulPeriod.toNat) :
    ((r.m_sRecState.ulPeriod - 1) * 7 * 24 * 60 * 60).toNat = r.skippedSeconds % 2 ^ 32 := by
  have hsub : (r.m_sRecState.ulPeriod - 1).toNat = r.m_sRecState.ulPeriod.toNat - 1 := by
    rw [BitVec.toNat_sub]
    show (2 ^ 32 - 1 + r.m_sRecState.ulPeriod.toNat) % 2 ^ 32 = _
    have hlt := r.m_sRecState.ulPeriod.isLt
    omega
  rw [BitVec.toNat_mul, BitVec.toNat_mul, BitVec.toNat_mul, BitVec.toNat_mul, hsub]
  show (r.m_sRecState.ulPeriod.toNat - 1) * 7 % 2 ^ 32 * 24 % 2 ^ 32 * 60 % 2 ^ 32 * 60 % 2 ^ 32 = _
  unfold skippedSeconds
  omega

variable (r) in
/-- `weekskip`: the first matching day is taken for one of the next week. -/
def SkipsWeek (k : ℕ) : Prop := r.startWeekDay < r.m_sRecState.ulFirstDOW.toNat ∧ 0 < k ∨ 6 < r.startWeekDay + k

instance : DecidablePred r.SkipsWeek := fun _ => instDecidableOr

/-- The result of `calcStartDate`. -/
theorem calcStartDate_weekly (h : r.IsWeekly) {k : ℕ} (hk : r.FirstDay k) : r.calcStartDate =
      r.getStartDateTime + k * 86400 + if r.SkipsWeek k then (r.skippedSeconds % 2 ^ 32 : ℕ) else 0 := by
  have hfirst : r.m_sRecState.ulFirstDOW.toInt = r.m_sRecState.ulFirstDOW.toNat := by
    have hlt : r.m_sRecState.ulFirstDOW.toNat < 7 := h.firstDOW
    exact BitVec.toInt_eq_toNat_of_lt (by omega)
  have hskip : ((r.startWeekDay : ℤ) < r.m_sRecState.ulFirstDOW.toNat ∧ (k : ℤ) > 0 ∨
      (r.startWeekDay : ℤ) + k > 6) ↔ r.SkipsWeek k := by
    unfold SkipsWeek
    omega
  rw [calcStartDate, if_pos h.frequency]
  unfold weeklyStart weeklySkip
  dsimp only
  have hdayskip : ((some k).map Int.ofNat).getD (-1) = k := rfl
  rw [startWeekDay_eq, dayForward_of_first hk, hfirst, hdayskip]
  show r.getStartDateTime + (k : ℤ) * 24 * 60 * 60 + ((if _ then (1 : UInt) else 0) * _ * 7 * 24 * 60 * 60).toNat = _
  by_cases hskips : r.SkipsWeek k
  · have hone : (1 : UInt) * (r.m_sRecState.ulPeriod - 1) = r.m_sRecState.ulPeriod - 1 := BitVec.one_mul _
    rw [if_pos (hskip.mpr hskips), if_pos hskips, hone, skippedSeconds_wrapped h.period_pos]
    ring
  · have hzero : (0 : UInt) * (r.m_sRecState.ulPeriod - 1) = 0 := BitVec.zero_mul
    rw [if_neg (mt hskip.mp hskips), if_neg hskips, hzero]
    show r.getStartDateTime + (k : ℤ) * 24 * 60 * 60 + 0 = r.getStartDateTime + (k : ℤ) * 86400 + 0
    ring

variable (r) in
/-- When the first matching day is in the week of the start, it is not taken for one of the next week. When it is not,
the weeks in between have less than 2 ^ 32 seconds. -/
def StartFits : Prop :=
  ∀ k, r.FirstDay k →
    if r.daysInFront + k < 7 then r.SkipsWeek k → 2 ^ 25 ∣ r.m_sRecState.ulPeriod.toNat - 1
    else r.skippedSeconds < 2 ^ 32

/-- `calcStartDate` returns the earliest matching day if and only if the weeks are counted right. -/
theorem calcStartDate_weekly_iff (r : Recurrence) (h : r.IsWeekly) :
    (∃ d, IsLeast {d | r.startDate ≤ d ∧ r.MatchingDay d} d ∧ r.calcStartDate = r.onDate d) ↔ r.StartFits := by
  obtain ⟨k, hk⟩ := exists_first h
  have hleast := isLeast_matchingDay h hk
  have hfirst : r.StartFits ↔ if r.daysInFront + k < 7 then r.SkipsWeek k → 2 ^ 25 ∣ r.m_sRecState.ulPeriod.toNat - 1
      else r.skippedSeconds < 2 ^ 32 :=
    ⟨fun hfits => hfits k hk, fun hfits i hi => hi.unique hk ▸ hfits⟩
  have hdate : (∃ d, IsLeast {d | r.startDate ≤ d ∧ r.MatchingDay d} d ∧ r.calcStartDate = r.onDate d) ↔
      r.calcStartDate = r.getStartDateTime + patternDay r.daysInFront r.m_sRecState.ulPeriod.toNat k * 86400 := by
    rw [← onDate_add]
    exact ⟨fun ⟨d, hd, hcalc⟩ => hd.unique hleast ▸ hcalc, fun hcalc => ⟨_, hleast, hcalc⟩⟩
  rw [hdate, hfirst, calcStartDate_weekly h hk]
  obtain ⟨hweekDay, hfront⟩ := And.intro (startWeekDay_lt (r := r)) (daysInFront_eq h.firstDOW)
  have hlt : r.m_sRecState.ulFirstDOW.toNat < 7 := h.firstDOW
  have hk7 := hk.1
  have hpos := h.period_pos
  by_cases hweek : r.daysInFront + k < 7
  · rw [patternDay_of_before hweek, if_pos hweek]
    by_cases hskips : r.SkipsWeek k
    · rw [if_pos hskips]
      unfold skippedSeconds
      simp only [hskips, true_imp_iff]
      omega
    · rw [if_neg hskips]
      simp [hskips]
  · have hskips : r.SkipsWeek k := by
      unfold SkipsWeek
      omega
    rw [patternDay_of_behind (not_lt.mp hweek), if_neg hweek, if_pos hskips]
    unfold skippedSeconds
    omega

/-- Every second Sunday from Friday the 2nd of January 2015 on, where weeks begin on Monday. -/
def everySecondSunday : Recurrence :=
  (((((new 0).setStartDateTime 1420156800).setFrequency .WEEKLY).setInterval 2).setWeekDays 1).setFirstDOW 1

theorem calcStartDate_weekly_everySecondSunday :
    (∃ d, IsLeast {d | everySecondSunday.startDate ≤ d ∧ everySecondSunday.MatchingDay d} d ∧
      everySecondSunday.calcStartDate = everySecondSunday.onDate d) ↔ everySecondSunday.StartFits :=
  calcStartDate_weekly_iff everySecondSunday ⟨rfl, by decide, by decide, by decide, by decide⟩

/-- The Sunday is one of the same week, but the result is the next Sunday but one. -/
theorem not_earliest_everySecondSunday :
    ¬ ∃ d, IsLeast {d | everySecondSunday.startDate ≤ d ∧ everySecondSunday.MatchingDay d} d ∧
      everySecondSunday.calcStartDate = everySecondSunday.onDate d := by
  rintro ⟨d, ⟨-, hle⟩, hcalc⟩
  have hsunday := hle (show everySecondSunday.startDate + 2 ∈ {d | _} from ⟨by decide +kernel, by decide +kernel⟩)
  have hlater : everySecondSunday.calcStartDate = everySecondSunday.onDate (everySecondSunday.startDate + 9) := by
    decide +kernel
  have hd := onDate_injective (hcalc.symm.trans hlater)
  omega

/-! ## `calcEndDate` -/

variable (r) in
/-- The seconds of the weeks in which all weekdays have an occurrence. -/
def forwardSeconds : ℕ :=
  (r.m_sRecState.ulOccurrenceCount.toNat - 1) / calcBits r.m_sRecState.ulWeekDays * r.m_sRecState.ulPeriod.toNat *
    604800

variable (r) in
/-- The occurrences behind these weeks. -/
def restCount : ℕ := (r.m_sRecState.ulOccurrenceCount.toNat - 1) % calcBits r.m_sRecState.ulWeekDays

theorem onDay_succ (tm_wday k : ℕ) : r.onDay tm_wday (k + 1) ↔ r.onDay (tm_wday + 1) k := by
  unfold onDay
  rw [add_right_comm, add_assoc]

/-- Seven days have the same weekdays, whichever of them is the first. -/
theorem count_onDay_eq (tm_wday : ℕ) : Nat.count (r.onDay tm_wday) 7 = Nat.count (r.onDay 0) 7 := by
  induction tm_wday with
  | zero => rfl
  | succ t ih =>
    have hnext : Nat.count (fun k => r.onDay t (k + 1)) 7 = Nat.count (r.onDay (t + 1)) 7 := by
      unfold Nat.count
      congr 1
      funext k
      exact decide_eq_decide.mpr (onDay_succ t k)
    have hfirst := Nat.count_succ' (r.onDay t) 7
    rw [Nat.count_succ, if_congr (onDay_add_week t 0) rfl rfl, hnext] at hfirst
    rw [← ih]
    exact (Nat.add_right_cancel hfirst).symm

/-- All days of a mask are in one week. -/
theorem count_onDay_week (hlt : r.m_sRecState.ulWeekDays < 128) (tm_wday : ℕ) :
    Nat.count (r.onDay tm_wday) 7 = calcBits r.m_sRecState.ulWeekDays := by
  have hmask : ∀ weekDays < 128,
      Nat.count (fun k => BitVec.ofNat 32 weekDays &&& 1 <<< ((0 + k) % 7) ≠ 0) 7 =
        calcBits (BitVec.ofNat 32 weekDays) := by
    decide +kernel
  have h := hmask r.m_sRecState.ulWeekDays.toNat hlt
  simp only [BitVec.ofNat_toNat, BitVec.setWidth_eq] at h
  rw [count_onDay_eq, ← h]
  unfold Nat.count
  congr 1
  funext k
  exact decide_eq_decide.mpr onDay_iff

/-- A step of the loop over the days behind the whole weeks. -/
theorem restDays_succ (h : r.IsWeekly) {tm_wday fuel j rest : ℕ} {tEnd : ℤ} (hrest : 0 < rest) :
    r.restDays tm_wday (fuel + 1) j rest tEnd =
      r.restDays tm_wday fuel (j + 1 : ℕ) (rest - if r.onDay tm_wday j then 1 else 0 : ℕ)
        (tEnd + 86400 +
          (if (tm_wday + j) % 7 = r.m_sRecState.ulFirstDOW.toNat then 1 else 0 : ℕ) *
            (r.skippedSeconds % 2 ^ 32 : ℕ)) := by
  have hmod : ((tm_wday : ℤ) + j).tmod 7 = ((tm_wday + j) % 7 : ℕ) := by
    rw [Int.tmod_eq_emod_of_nonneg (by omega)]
    rfl
  have hfirst : (((tm_wday + j) % 7 : ℕ) : ℤ) = r.getFirstDOW.toInt ↔
      (tm_wday + j) % 7 = r.m_sRecState.ulFirstDOW.toNat := by
    have hlt : r.m_sRecState.ulFirstDOW.toNat < 7 := h.firstDOW
    rw [getFirstDOW, BitVec.toInt_eq_toNat_of_lt (by omega)]
    omega
  have hseconds : ((r.m_sRecState.ulPeriod - 1) * 7 * 24 * 60 * 60).toNat = r.skippedSeconds % 2 ^ 32 :=
    skippedSeconds_wrapped h.period_pos
  rw [restDays, if_pos ⟨h.weekDays, by omega⟩]
  dsimp only
  rw [hmod, hseconds]
  congr 1
  · by_cases hon : r.onDay tm_wday j
    · have hon' : r.hasWeekDay ((tm_wday + j) % 7 : ℕ) = true := hon
      rw [if_pos hon', if_pos hon]
      omega
    · have hon' : ¬ r.hasWeekDay ((tm_wday + j) % 7 : ℕ) = true := hon
      rw [if_neg hon', if_neg hon]
      omega
  · by_cases hjump : (tm_wday + j) % 7 = r.m_sRecState.ulFirstDOW.toNat
    · rw [if_pos (hfirst.mpr hjump), if_pos hjump]
      push_cast
      ring
    · rw [if_neg (mt hfirst.mp hjump), if_neg hjump]
      push_cast
      ring

/-- The loop ends with the last of the remaining occurrences. -/
theorem restDays_eq (h : r.IsWeekly) {tm_wday m : ℕ} :
    ∀ {fuel j rest : ℕ} {tEnd : ℤ}, m < fuel → Nat.count (fun i => r.onDay tm_wday (i + j)) m = rest →
      (m ≠ 0 → r.onDay tm_wday (m - 1 + j)) → r.restDays tm_wday fuel j rest tEnd = some (tEnd + m * 86400 +
          Nat.count (fun i => (tm_wday + (i + j)) % 7 = r.m_sRecState.ulFirstDOW.toNat) m *
            (r.skippedSeconds % 2 ^ 32 : ℕ)) := by
  induction m with
  | zero =>
    intro fuel j rest tEnd hfuel hrest _
    obtain ⟨fuel, rfl⟩ := Nat.exists_eq_succ_of_ne_zero (Nat.ne_of_gt hfuel)
    rw [Nat.count_zero] at hrest
    rw [restDays, if_neg (by omega), Nat.count_zero]
    simp
  | succ m ih =>
    intro fuel j rest tEnd hfuel hrest hlast
    obtain ⟨fuel, rfl⟩ := Nat.exists_eq_succ_of_ne_zero (Nat.ne_of_gt (Nat.zero_lt_of_lt hfuel))
    have hon : r.onDay tm_wday (m + j) := hlast m.succ_ne_zero
    have hpos : 0 < rest := by
      rw [← hrest, Nat.count_succ, if_pos hon]
      omega
    have hnext : m ≠ 0 → r.onDay tm_wday (m - 1 + (j + 1)) := by
      intro hm
      have hday : m - 1 + (j + 1) = m + j := by omega
      rwa [hday]
    rw [Nat.count_succ'] at hrest ⊢
    simp only [Nat.succ_add_eq_add_succ, zero_add] at hrest ⊢
    rw [restDays_succ h hpos, ih (by omega) (Nat.eq_sub_of_add_eq hrest) hnext]
    push_cast
    congr 1
    ring

variable (r) in
/-- The time behind the whole weeks, whose seconds are an `int`. -/
def forwardEnd : ℤ := r.getStartDateTime + (BitVec.ofNat 32 r.forwardSeconds).toInt

theorem calcBits_pos (h : r.IsWeekly) : 0 < calcBits r.m_sRecState.ulWeekDays := by
  obtain ⟨k, hk, hon, -⟩ := exists_first h
  rw [← count_onDay_week h.weekDays_lt r.startWeekDay]
  exact Nat.pos_of_ne_zero (Nat.count_ne_iff_exists.mpr ⟨k, hk, hon⟩)

example : calcBits 0x2A = 3 := by decide +kernel

theorem restCount_lt (h : r.IsWeekly) : r.restCount < calcBits r.m_sRecState.ulWeekDays :=
  Nat.mod_lt _ (calcBits_pos h)

theorem calcBits_le (h : r.IsWeekly) : calcBits r.m_sRecState.ulWeekDays ≤ 7 := by
  rw [← count_onDay_week h.weekDays_lt r.startWeekDay]
  exact Nat.count_le _

section

variable (hcount : r.m_sRecState.ulOccurrenceCount ≠ 0)
include hcount

theorem occurrenceCount_pos : 0 < r.m_sRecState.ulOccurrenceCount.toNat :=
  Nat.pos_of_ne_zero fun hzero => hcount (BitVec.eq_of_toNat_eq hzero)

theorem occurrenceCount_pred :
    (r.m_sRecState.ulOccurrenceCount - 1).toNat = r.m_sRecState.ulOccurrenceCount.toNat - 1 := by
  have hpos := occurrenceCount_pos hcount
  have hlt := r.m_sRecState.ulOccurrenceCount.isLt
  rw [BitVec.toNat_sub]
  show (2 ^ 32 - 1 + r.m_sRecState.ulOccurrenceCount.toNat) % 2 ^ 32 = _
  omega

/-- `rest`. -/
theorem restCount_wrapped (h : r.IsWeekly) : (r.m_sRecState.ulOccurrenceCount -
      BitVec.ofNat 32 ((r.m_sRecState.ulOccurrenceCount.toNat - 1) / calcBits r.m_sRecState.ulWeekDays) *
        BitVec.ofNat 32 (calcBits r.m_sRecState.ulWeekDays) - 1).toInt = r.restCount := by
  have hpos := occurrenceCount_pos hcount
  have hlt := r.m_sRecState.ulOccurrenceCount.isLt
  have hdivmod := Nat.div_add_mod' (r.m_sRecState.ulOccurrenceCount.toNat - 1) (calcBits r.m_sRecState.ulWeekDays)
  have hbits := calcBits_le h
  have hrest := restCount_lt h
  unfold restCount at hrest ⊢
  have hsub : r.m_sRecState.ulOccurrenceCount -
      BitVec.ofNat 32 ((r.m_sRecState.ulOccurrenceCount.toNat - 1) / calcBits r.m_sRecState.ulWeekDays) *
        BitVec.ofNat 32 (calcBits r.m_sRecState.ulWeekDays) - 1 =
      BitVec.ofNat 32 ((r.m_sRecState.ulOccurrenceCount.toNat - 1) % calcBits r.m_sRecState.ulWeekDays) := by
    rw [← BitVec.ofNat_mul]
    apply BitVec.eq_of_toNat_eq
    rw [BitVec.toNat_sub, BitVec.toNat_sub, BitVec.toNat_ofNat, BitVec.toNat_ofNat]
    show (2 ^ 32 - 1 + _) % 2 ^ 32 = _
    omega
  rw [hsub, BitVec.toInt_eq_toNat_of_lt]
  · rw [BitVec.toNat_ofNat]
    omega
  · rw [BitVec.toNat_ofNat]
    omega

omit hcount in
/-- The whole weeks as they are calculated. -/
theorem forwardSeconds_wrapped :
    BitVec.ofNat 32 ((r.m_sRecState.ulOccurrenceCount.toNat - 1) / calcBits r.m_sRecState.ulWeekDays) *
      r.m_sRecState.ulPeriod * 7 * 24 * 60 * 60 = BitVec.ofNat 32 r.forwardSeconds := by
  unfold forwardSeconds
  generalize (r.m_sRecState.ulOccurrenceCount.toNat - 1) / calcBits r.m_sRecState.ulWeekDays = fwd
  have hweeks : (BitVec.ofNat 32 fwd * r.m_sRecState.ulPeriod).toNat = fwd * r.m_sRecState.ulPeriod.toNat % 2 ^ 32 := by
    rw [BitVec.toNat_mul, BitVec.toNat_ofNat]
    exact Nat.mod_mul_mod _ _ _
  apply BitVec.eq_of_toNat_eq
  rw [BitVec.toNat_mul, BitVec.toNat_mul, BitVec.toNat_mul, BitVec.toNat_mul, BitVec.toNat_ofNat, hweeks]
  generalize fwd * r.m_sRecState.ulPeriod.toNat = weeks
  show weeks % 2 ^ 32 * 7 % 2 ^ 32 * 24 % 2 ^ 32 * 60 % 2 ^ 32 * 60 % 2 ^ 32 = _
  omega

omit hcount in
theorem forwardEnd_inRange : InRange (r.forwardEnd / 86400) := by
  have hlow := BitVec.le_two_mul_toInt (x := BitVec.ofNat 32 r.forwardSeconds)
  have hhigh := BitVec.two_mul_toInt_lt (x := BitVec.ofNat 32 r.forwardSeconds)
  obtain ⟨hstart, hstart'⟩ := getStartDateTime_bounds (r := r)
  unfold forwardEnd
  exact inRange_of_time (by omega) (by omega)

/-- The result of `calcEndDate`, from the day of the last of the remaining occurrences. -/
theorem weeklyEnd_eq (h : r.IsWeekly) {tm_wday m fuel : ℕ} (hwday : wday (r.forwardEnd / 86400) = tm_wday)
    (hfuel : m < fuel) (hrest : Nat.count (fun i => r.onDay tm_wday (i + 1)) m = r.restCount)
    (hlast : m ≠ 0 → r.onDay tm_wday m) : r.weeklyEnd fuel = some (r.forwardEnd + m * 86400 +
        Nat.count (fun i => (tm_wday + (i + 1)) % 7 = r.m_sRecState.ulFirstDOW.toNat) m *
          (r.skippedSeconds % 2 ^ 32 : ℕ)) := by
  unfold weeklyEnd
  dsimp only
  rw [if_neg (calcBits_pos h).ne', occurrenceCount_pred hcount, restCount_wrapped hcount h, forwardSeconds_wrapped]
  show r.restDays (gmtimeSafe r.forwardEnd).tm_wday fuel ((1 : ℕ) : ℤ) _ r.forwardEnd = _
  rw [gmtimeSafe_wday forwardEnd_inRange, hwday]
  apply restDays_eq h hfuel hrest
  intro hm
  have hday : m - 1 + 1 = m := by omega
  rw [hday]
  exact hlast hm

end

/-- The day of the last of the remaining occurrences, from any weekday on. -/
theorem exists_rest (h : r.IsWeekly) (tm_wday : ℕ) :
    ∃ m ≤ 7, Nat.count (fun i => r.onDay tm_wday (i + 1)) m = r.restCount ∧ (m ≠ 0 → r.onDay tm_wday m) := by
  have hweek : Nat.count (fun i => r.onDay tm_wday (i + 1)) 7 = calcBits r.m_sRecState.ulWeekDays := by
    rw [← count_onDay_week h.weekDays_lt (tm_wday + 1)]
    simp only [onDay_succ]
  have hrest := restCount_lt h
  obtain ⟨m, hm, hcount, hlast⟩ :=
    exists_count_eq (p := fun i => r.onDay tm_wday (i + 1)) (n := r.restCount) (m := 7) (by omega)
  refine ⟨m, hm, hcount, fun hne => ?_⟩
  have hday : m - 1 + 1 = m := by omega
  rw [← hday]
  exact hlast hne

/-- A week begins once in seven days. -/
theorem jumps_le : ∀ ulFirstDOW < 7, ∀ tm_wday < 7, ∀ m ≤ 7,
    Nat.count (fun i => (tm_wday + (i + 1)) % 7 = ulFirstDOW) m ≤ 1 := by
  decide +kernel

/-- The next week begins behind the rest of the week of the start. -/
theorem jumps_eq : ∀ ulFirstDOW < 7, ∀ tm_wday < 7, ∀ m ≤ 6,
    Nat.count (fun i => (tm_wday + (i + 1)) % 7 = ulFirstDOW) m =
      if (tm_wday + 7 - ulFirstDOW) % 7 + m < 7 then 0 else 1 := by
  decide +kernel

section

variable (hstart : r.MatchingDay r.startDate)
include hstart

theorem onDay_start : r.onDay r.startWeekDay 0 := by
  have hpattern : InPattern (r.onDay r.startWeekDay) r.daysInFront r.m_sRecState.ulPeriod.toNat 0 := by
    apply (matchingDay_iff 0).mp
    rwa [Nat.cast_zero, add_zero]
  exact hpattern.1

/-- The start itself is an occurrence. -/
theorem count_onDay_start {m : ℕ} (hlast : m ≠ 0 → r.onDay r.startWeekDay m) :
    Nat.count (fun i => r.onDay r.startWeekDay (i + 1)) m = Nat.count (r.onDay r.startWeekDay) m := by
  have hsucc := Nat.count_succ (r.onDay r.startWeekDay) m
  have hsucc' := Nat.count_succ' (r.onDay r.startWeekDay) m
  have honm : r.onDay r.startWeekDay m := by
    cases m with
    | zero => exact onDay_start hstart
    | succ m => exact hlast m.succ_ne_zero
  rw [if_pos honm] at hsucc
  rw [if_pos (onDay_start hstart)] at hsucc'
  omega

/-- The day of the last of the remaining occurrences, from the start on. -/
theorem exists_rest_start (h : r.IsWeekly) :
    ∃ m ≤ 6, r.onDay r.startWeekDay m ∧ Nat.count (r.onDay r.startWeekDay) m = r.restCount := by
  obtain ⟨m, hm, hcount, hlast⟩ := exists_rest h r.startWeekDay
  rw [count_onDay_start hstart hlast] at hcount
  have hm6 : m ≠ 7 := by
    rintro rfl
    have hrest := restCount_lt h
    rw [count_onDay_week h.weekDays_lt] at hcount
    omega
  refine ⟨m, by omega, ?_, hcount⟩
  cases m with
  | zero => exact onDay_start hstart
  | succ m => exact hlast m.succ_ne_zero

omit hstart in
/-- The n-th matching day. -/
theorem nth_matchingDay (h : r.IsWeekly) {m : ℕ} (hm : m ≤ 6) (hon : r.onDay r.startWeekDay m)
    (hcount : Nat.count (r.onDay r.startWeekDay) m = r.restCount) :
    r.onDate (r.startDate + Nat.nth (fun k : ℕ => r.MatchingDay (r.startDate + k))
        (r.m_sRecState.ulOccurrenceCount.toNat - 1)) = r.getStartDateTime + r.forwardSeconds +
        patternDay r.daysInFront r.m_sRecState.ulPeriod.toNat m * 86400 := by
  have hpattern : (fun k : ℕ => r.MatchingDay (r.startDate + k)) =
      InPattern (r.onDay r.startWeekDay) r.daysInFront r.m_sRecState.ulPeriod.toNat :=
    funext fun k => propext (matchingDay_iff k)
  have hnth := nth_inPattern (onDay_add_week (r := r) r.startWeekDay) (daysInFront_lt (r := r)) h.period_pos
    (show m < 7 by omega) hon ((r.m_sRecState.ulOccurrenceCount.toNat - 1) / calcBits r.m_sRecState.ulWeekDays)
  rw [hcount, count_onDay_week h.weekDays_lt, restCount, Nat.div_add_mod'] at hnth
  rw [hpattern, hnth, onDate_add]
  unfold forwardSeconds
  push_cast
  ring

end

variable (r) in
/-- The seconds of the whole weeks are an `int`, and when the rest of the occurrences goes on in another week, the weeks
in between have less than 2 ^ 32 seconds. -/
def EndFits : Prop :=
  r.forwardSeconds < 2 ^ 31 ∧
    ∀ m < 7, r.onDay r.startWeekDay m → Nat.count (r.onDay r.startWeekDay) m = r.restCount →
      7 ≤ r.daysInFront + m → r.skippedSeconds < 2 ^ 32

theorem startWeekDay_natCast : (r.startWeekDay : ℤ) = wday r.startDate := by
  unfold startWeekDay
  exact Int.toNat_of_nonneg (wday_bounds _).1

/-- The end that is calculated when the whole weeks fit. -/
theorem weeklyEnd_of_fits (h : r.IsWeekly) (hcount : r.m_sRecState.ulOccurrenceCount ≠ 0)
    (hstart : r.MatchingDay r.startDate) (hforward : r.forwardSeconds < 2 ^ 31) {m : ℕ} (hm : m ≤ 6)
    (hon : r.onDay r.startWeekDay m) (hrest : Nat.count (r.onDay r.startWeekDay) m = r.restCount) {fuel : ℕ}
    (hfuel : m < fuel) : r.weeklyEnd fuel = some (r.getStartDateTime + r.forwardSeconds + m * 86400 +
        (if r.daysInFront + m < 7 then 0 else 1 : ℕ) * (r.skippedSeconds % 2 ^ 32 : ℕ)) := by
  have hend : r.forwardEnd = r.getStartDateTime + r.forwardSeconds := by
    unfold forwardEnd
    rw [BitVec.toInt_eq_toNat_of_lt, BitVec.toNat_ofNat]
    · omega
    · rw [BitVec.toNat_ofNat]
      omega
  have hwday : wday (r.forwardEnd / 86400) = r.startWeekDay := by
    rw [hend, startWeekDay_natCast]
    unfold wday startDate forwardSeconds
    omega
  rw [weeklyEnd_eq hcount h hwday hfuel ((count_onDay_start hstart fun _ => hon).trans hrest) fun _ => hon, hend,
    jumps_eq _ h.firstDOW _ startWeekDay_lt m hm, daysInFront_eq h.firstDOW]

/-- Less than 2 ^ 32 seconds and a week are 2 ^ 32 seconds at most once. -/
theorem eq_one_of_wrapped {k d m rest : ℕ} (hm : m ≤ 7) (hk : 1 ≤ k) (hrest : rest < 2 ^ 32)
    (hback : rest + m * 86400 = k * 2 ^ 32 + d * 86400) : k = 1 := by
  have hdays := Nat.mul_le_mul_right 86400 hm
  have hlt : k < 2 := by
    by_contra hlarge
    have hseconds := Nat.mul_le_mul_right (2 ^ 32) (not_lt.mp hlarge)
    linarith
  omega

/-- Where the seconds are counted round once, the sum of the days is off by 2 ^ 32 seconds. -/
theorem add_of_wrapped {skipped d m forward : ℕ} (hm : m ≤ 7) (hforward : forward < 2 ^ 31 + 2 ^ 32)
    (hlarge : skipped + 604800 ≤ forward) (hback : skipped % 2 ^ 32 + m * 86400 = 2 ^ 32 + d * 86400) :
    skipped + m * 86400 = 2 ^ 32 + d * 86400 := by
  rcases lt_or_ge skipped (2 ^ 32) with hlt | hge
  · rwa [Nat.mod_eq_of_lt hlt] at hback
  · rw [Nat.mod_eq_sub_mod hge, Nat.mod_eq_of_lt (by omega)] at hback
    omega

/-- A result that is off by 2 ^ 32 seconds is off by no whole days. -/
theorem not_wrapped {i k d m jumps forward : ℕ} (hjumps : jumps ≤ 1) (hm : m ≤ 7) (hk : 1 ≤ k)
    (hforward : forward < 2 ^ 31 + k * 2 ^ 32) (hlarge : i * 604800 + 604800 ≤ forward) :
    jumps * (i * 604800 % 2 ^ 32) + m * 86400 ≠ k * 2 ^ 32 + d * 86400 := by
  have hrest := Nat.mod_lt (i * 604800) (show 0 < 2 ^ 32 by decide)
  intro hback
  rcases Nat.le_one_iff_eq_zero_or_eq_one.mp hjumps with rfl | rfl
  · rw [Nat.zero_mul, Nat.zero_add] at hback
    have hdays := Nat.mul_le_mul_right 86400 hm
    have hseconds := Nat.mul_le_mul_right (2 ^ 32) hk
    linarith
  · rw [Nat.one_mul] at hback
    obtain rfl := eq_one_of_wrapped hm hk hrest hback
    rw [Nat.one_mul] at hback hforward
    have hsum := add_of_wrapped hm hforward hlarge hback
    have hdvd : 86400 ∣ 2 ^ 32 + d * 86400 := ⟨i * 7 + m, by rw [← hsum]; ring⟩
    exact absurd ((Nat.dvd_add_left (Nat.dvd_mul_left 86400 d)).mp hdvd) (by decide)

/-- The `int` of some seconds that are not one. -/
theorem toInt_wrapped {forward : ℕ} (hforward : 2 ^ 31 ≤ forward) : ∃ k : ℕ, 1 ≤ k ∧ forward < 2 ^ 31 + k * 2 ^ 32 ∧
      (BitVec.ofNat 32 forward).toInt = forward - k * 2 ^ 32 := by
  rw [BitVec.toInt_eq_toNat_cond, BitVec.toNat_ofNat]
  split_ifs
  · exact ⟨forward / 2 ^ 32, by omega, by omega, by omega⟩
  · exact ⟨forward / 2 ^ 32 + 1, by omega, by omega, by omega⟩

/-- A whole week is longer than the weeks in between. -/
theorem skippedSeconds_lt (h : r.IsWeekly) (hforward : 0 < r.forwardSeconds) :
    (r.m_sRecState.ulPeriod.toNat - 1) * 604800 + 604800 ≤ r.forwardSeconds := by
  have hpos := h.period_pos
  have hweek : (r.m_sRecState.ulPeriod.toNat - 1) * 604800 + 604800 = r.m_sRecState.ulPeriod.toNat * 604800 := by
    omega
  rw [hweek]
  unfold forwardSeconds at hforward ⊢
  generalize (r.m_sRecState.ulOccurrenceCount.toNat - 1) / calcBits r.m_sRecState.ulWeekDays = fwd at hforward ⊢
  apply Nat.mul_le_mul_right
  apply Nat.le_mul_of_pos_left
  apply Nat.pos_of_ne_zero
  rintro rfl
  omega

/-- Whole weeks that are not an `int` do not lead to the right day. -/
theorem weeklyEnd_of_overflow (h : r.IsWeekly) (hcount : r.m_sRecState.ulOccurrenceCount ≠ 0)
    (hforward : 2 ^ 31 ≤ r.forwardSeconds) (d : ℕ) {fuel : ℕ} (hfuel : 7 < fuel) :
    r.weeklyEnd fuel ≠ some (r.getStartDateTime + r.forwardSeconds + d * 86400) := by
  obtain ⟨hwlow, hwhigh⟩ := wday_bounds (r.forwardEnd / 86400)
  obtain ⟨tm_wday, hwday⟩ := Int.eq_ofNat_of_zero_le hwlow
  obtain ⟨m, hm, hrest, hlast⟩ := exists_rest h tm_wday
  have hjumps := jumps_le _ h.firstDOW tm_wday (by omega) m hm
  rw [weeklyEnd_eq hcount h hwday (by omega) hrest hlast]
  obtain ⟨k, hk, hlt, hwrapped⟩ := toInt_wrapped hforward
  intro heq
  apply not_wrapped (d := d) hjumps hm hk hlt (skippedSeconds_lt h (by omega))
  have hsum := Option.some.inj heq
  rw [forwardEnd, hwrapped, skippedSeconds] at hsum
  zify at hsum ⊢
  linarith

variable (r) in
/-- The n-th matching day. -/
noncomputable def lastOccurrence : ℤ :=
  r.startDate + Nat.nth (fun k : ℕ => r.MatchingDay (r.startDate + k)) (r.m_sRecState.ulOccurrenceCount.toNat - 1)

/-- `calcEndDate` returns the n-th matching day if and only if the seconds of the weeks fit. -/
theorem calcEndDate_weekly_iff (r : Recurrence) (h : r.IsWeekly) (htype : r.m_sRecState.ulEndType = ET_NUMBER)
    (hcount : r.m_sRecState.ulOccurrenceCount ≠ 0) (hstart : r.MatchingDay r.startDate) :
    (∃ n, ∀ fuel ≥ n, r.calcEndDate fuel = some (r.onDate r.lastOccurrence)) ↔ r.EndFits := by
  obtain ⟨m, hm, hon, hrest⟩ := exists_rest_start hstart h
  have hweekly (fuel : ℕ) : r.calcEndDate fuel = r.weeklyEnd fuel := by
    rw [calcEndDate, if_neg (by rw [htype]; decide), if_neg fun hdaily => absurd (h.frequency.symm.trans hdaily.1) (by decide),
      if_pos (.inr h.frequency)]
  have hlast : r.onDate r.lastOccurrence = _ := nth_matchingDay h hm hon hrest
  simp only [hweekly, hlast]
  by_cases hforward : r.forwardSeconds < 2 ^ 31
  · have hunique : ∀ m' < 7, r.onDay r.startWeekDay m' → Nat.count (r.onDay r.startWeekDay) m' = r.restCount →
        m' = m := by
      intro m' _ hon' hrest'
      exact Nat.count_injective hon' hon (hrest'.trans hrest.symm)
    have hfits : r.EndFits ↔ (7 ≤ r.daysInFront + m → r.skippedSeconds < 2 ^ 32) := by
      constructor
      · intro hfits
        exact hfits.2 m (by omega) hon hrest
      · intro hfits
        refine ⟨hforward, fun m' hm' hon' hrest' => ?_⟩
        rw [hunique m' hm' hon' hrest']
        exact hfits
    have hvalue : (∃ n, ∀ fuel ≥ n, r.weeklyEnd fuel = some (r.getStartDateTime + r.forwardSeconds +
        patternDay r.daysInFront r.m_sRecState.ulPeriod.toNat m * 86400)) ↔
        m * 86400 + (if r.daysInFront + m < 7 then 0 else 1 : ℕ) * (r.skippedSeconds % 2 ^ 32 : ℕ) =
          patternDay r.daysInFront r.m_sRecState.ulPeriod.toNat m * 86400 := by
      have hend {fuel : ℕ} (hfuel : m < fuel) := weeklyEnd_of_fits h hcount hstart hforward hm hon hrest hfuel
      constructor
      · rintro ⟨n, hn⟩
        have hfuel := hn (n + m + 1) (by omega)
        rw [hend (by omega)] at hfuel
        have hsum := Option.some.inj hfuel
        omega
      · intro hsum
        refine ⟨m + 1, fun fuel hfuel => ?_⟩
        rw [hend hfuel]
        congr 1
        omega
    rw [hvalue, hfits]
    unfold patternDay skippedSeconds
    split_ifs <;> omega
  · apply iff_of_false
    · rintro ⟨n, hn⟩
      exact weeklyEnd_of_overflow h hcount (not_lt.mp hforward) _ (show 7 < n + 8 by omega) (hn _ (by omega))
    · intro hfits
      exact hforward hfits.1

/-- Every 99 weeks on Monday from the 5th of January 2015 on, 37 times. -/
def everyOtherYear : Recurrence :=
  (((((((new 0).setStartDateTime 1420416000).setFrequency .WEEKLY).setInterval 99).setWeekDays 2).setFirstDOW
    1).setEndType .NUMBER).setCount 37

theorem isWeekly_everyOtherYear : everyOtherYear.IsWeekly := ⟨rfl, by decide, by decide, by decide, by decide⟩

theorem calcEndDate_weekly_everyOtherYear :
    (∃ n, ∀ fuel ≥ n, everyOtherYear.calcEndDate fuel = some (everyOtherYear.onDate everyOtherYear.lastOccurrence)) ↔
      everyOtherYear.EndFits :=
  calcEndDate_weekly_iff everyOtherYear isWeekly_everyOtherYear rfl (by decide) (by decide +kernel)

/-- The 3564 weeks in between are more seconds than an `int` has, so the end is in front of the start. -/
theorem not_last_everyOtherYear : ¬ ∃ n, ∀ fuel ≥ n, everyOtherYear.calcEndDate fuel =
      some (everyOtherYear.onDate everyOtherYear.lastOccurrence) := by
  rintro ⟨n, hn⟩
  have hfuel : everyOtherYear.weeklyEnd (n + 1) = _ := hn (n + 1) (by omega)
  have hwday : wday (everyOtherYear.forwardEnd / 86400) = (4 : ℕ) := by decide +kernel
  rw [weeklyEnd_eq (by decide) isWeekly_everyOtherYear hwday (show 0 < n + 1 by omega) (by decide +kernel)
    fun hzero => absurd rfl hzero] at hfuel
  have hend := Option.some.inj hfuel
  have hbefore : everyOtherYear.forwardEnd < everyOtherYear.getStartDateTime := by decide +kernel
  rw [lastOccurrence, onDate_add, Nat.count_zero] at hend
  omega

end Zcp.FreeBusy.Recurrence
