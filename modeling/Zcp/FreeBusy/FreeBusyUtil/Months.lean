import Zcp.FreeBusy.FreeBusyUtil

/-!
# Relative times and months

A relative time is cut into its month and the minutes from the start of this month. An event of a
free/busy property has the year of its month in 12 bits (`eventTime_yearMonth`).
-/

namespace Zcp.FreeBusy

open Zcp.Lib Zcp.Common

/-! ## Months -/

/-- The relative time of the first of January 1970. -/
def RTIME_EPOCH : ℤ := 194074560

/-- The relative time of the start of a month. -/
def monthStart (n : ℤ) : ℤ := firstOfMonth n * 1440 + RTIME_EPOCH

/-- The month of a relative time. -/
def monthOfRTime (t : ℤ) : ℤ := monthOf ((t - RTIME_EPOCH) / 1440)

theorem monthStart_succ (n : ℤ) : monthStart (n + 1) = monthStart n + monthLength n * 1440 := by
  unfold monthStart
  rw [firstOfMonth_succ]
  ring

theorem monthStart_strictMono : StrictMono monthStart := by
  intro m n hmn
  have hlt := firstOfMonth_strictMono hmn
  unfold monthStart
  omega

theorem monthOfRTime_spec (t : ℤ) : monthStart (monthOfRTime t) ≤ t ∧ t < monthStart (monthOfRTime t + 1) := by
  obtain ⟨hle, hlt⟩ := monthOf_spec ((t - RTIME_EPOCH) / 1440)
  unfold monthStart monthOfRTime
  omega

theorem le_monthOfRTime {n t : ℤ} : n ≤ monthOfRTime t ↔ monthStart n ≤ t := by
  obtain ⟨hle, hlt⟩ := monthOfRTime_spec t
  constructor
  · intro h
    exact (monthStart_strictMono.monotone h).trans hle
  · intro h
    have h := monthStart_strictMono.lt_iff_lt.mp (h.trans_lt hlt)
    omega

theorem monthOfRTime_mono : Monotone monthOfRTime := fun _ _ h =>
  le_monthOfRTime.mpr ((monthOfRTime_spec _).1.trans h)

/-- The month of a relative time as `gmtime_safe` gives it. -/
theorem gmtimeSafe_rTime {t : ℤ} (ht : RTIME_EPOCH ≤ t) (ht' : t < 2 ^ 31) :
    (gmtimeSafe (rTimeToUnixTime (BitVec.ofInt 32 t))).tm_year = monthOfRTime t / 12 - 1900 ∧
      (gmtimeSafe (rTimeToUnixTime (BitVec.ofInt 32 t))).tm_mon = monthOfRTime t % 12 ∧
      monthMinutes (gmtimeSafe (rTimeToUnixTime (BitVec.ofInt 32 t))) =
        BitVec.ofInt 16 (t - monthStart (monthOfRTime t)) := by
  have hunix : rTimeToUnixTime (BitVec.ofInt 32 t) = (t - RTIME_EPOCH) * 60 := by
    rw [rTimeToUnixTime_eq, BitVec.toInt_ofInt_eq_self (by decide)]
    · unfold RTIME_EPOCH
      ring
    · unfold RTIME_EPOCH at ht
      omega
    · omega
  have hday : (t - RTIME_EPOCH) * 60 / 86400 = (t - RTIME_EPOCH) / 1440 := by omega
  have hyear : 1970 ≤ yearOf ((t - RTIME_EPOCH) / 1440) ∧
      yearOf ((t - RTIME_EPOCH) / 1440) < 10000 := by
    obtain ⟨hle, hlt⟩ := yearOf_spec ((t - RTIME_EPOCH) / 1440)
    unfold RTIME_EPOCH at *
    constructor
    · by_contra hbefore
      have hle' := yearStart_strictMono.monotone (Int.add_one_le_iff.mpr (not_le.mp hbefore))
      have h1970 : yearStart 1970 = 0 := rfl
      omega
    · by_contra hafter
      have hle' := yearStart_strictMono.monotone (not_lt.mp hafter)
      have h10000 : yearStart 10000 = 2932897 := rfl
      omega
  rw [hunix]
  unfold monthMinutes gmtimeSafe monthOfRTime monthStart
  dsimp only
  rw [hday, if_neg (by omega)]
  refine ⟨by rw [yearOf_eq], rfl, congrArg _ ?_⟩
  dsimp only
  omega

/-! ## Events -/

/-- The year and month of a month. -/
def yearMonth (n : ℤ) : LONG := FB_YEARMONTH (n / 12) (n % 12 + 1)

/-- The macro keeps 12 bits of the year. -/
theorem toNat_yearMonth (n : ℤ) : (yearMonth n).toNat = (n / 12 % 4096).toNat * 16 + (n % 12 + 1).toNat := by
  have hmask (a : ℕ) : a <<< 4 &&& 0xFFF0 = (a % 2 ^ 12) <<< 4 := by
    rw [← Nat.and_two_pow_sub_one_eq_mod, Nat.shiftLeft_and_distrib]
    rfl
  have hyear : (BitVec.ofInt 16 (n / 12)).toNat < 2 ^ 16 := BitVec.isLt _
  have hyear' : (BitVec.ofInt 16 (n / 12)).toNat % 2 ^ 12 = (n / 12 % 4096).toNat := by
    rw [BitVec.toNat_ofInt]
    omega
  have hmonth : (BitVec.ofInt 16 (n % 12 + 1)).toNat = (n % 12 + 1).toNat := by
    rw [BitVec.toNat_ofInt]
    omega
  have hconst : (0xFFF0 : LONG).toNat = 0xFFF0 := rfl
  unfold yearMonth FB_YEARMONTH
  rw [BitVec.toNat_or, BitVec.toNat_and, BitVec.toNat_shiftLeft, BitVec.toNat_setWidth,
    BitVec.toNat_setWidth, hmonth, hconst]
  generalize (BitVec.ofInt 16 (n / 12)).toNat = year at hyear hyear'
  have hshift : (year % 2 ^ 32) <<< 4 % 2 ^ 32 = year <<< 4 := by
    rw [Nat.shiftLeft_eq, Nat.shiftLeft_eq]
    omega
  have hsmall : (n % 12 + 1).toNat % 2 ^ 32 = (n % 12 + 1).toNat := by omega
  rw [hshift, hsmall, hmask, hyear', ← Nat.shiftLeft_add_eq_or_of_lt (by omega), Nat.shiftLeft_eq]

/-- The month that is read from the year and month of a month. -/
def readMonth (n : ℤ) : ℤ := n / 12 % 4096 * 12 + n % 12

theorem readMonth_of_lt {n : ℤ} (hn : 0 ≤ n) (hn' : n < 4096 * 12) : readMonth n = n := by
  unfold readMonth
  omega

/-- An event is read as minutes of `readMonth`. -/
theorem eventTime_yearMonth (n : ℤ) {x : ℤ} (hx : 0 ≤ x) (hx' : x < 2 ^ 16) :
    eventTime (yearMonth n) (BitVec.ofInt 16 x) =
      unixTimeToRTime ((monthStart (readMonth n) - RTIME_EPOCH + x) * 60) := by
  have hlow : (yearMonth n).toNat < 2 ^ 16 := by
    rw [toNat_yearMonth]
    omega
  have hyear : FB_YEAR (yearMonth n) = n / 12 % 4096 := by
    unfold FB_YEAR
    rw [BitVec.toNat_ushiftRight, BitVec.toNat_setWidth, Nat.mod_eq_of_lt hlow, Nat.shiftRight_eq_div_pow,
      toNat_yearMonth]
    omega
  have hmonth : FB_MONTH (yearMonth n) = n % 12 + 1 := by
    have hmask (a : ℕ) : a &&& 0x000F = a % 2 ^ 4 := Nat.and_two_pow_sub_one_eq_mod a 4
    have hconst : (0x000F : SHORT).toNat = 0x000F := rfl
    unfold FB_MONTH
    rw [BitVec.toNat_and, BitVec.toNat_setWidth, Nat.mod_eq_of_lt hlow, hconst, hmask, toNat_yearMonth]
    omega
  have hmin : ((BitVec.ofInt 16 x).toNat : ℤ) = x := by
    rw [BitVec.toNat_ofInt]
    omega
  unfold eventTime timegm monthStart
  rw [hyear, hmonth, hmin]
  have hread : 12 * (n / 12 % 4096 - 1900 + 1900) + (n % 12 + 1 - 1) = readMonth n := by
    unfold readMonth
    ring
  rw [hread]
  apply congrArg
  ring

/-- Minutes from 1970 on are relative times. -/
theorem unixTimeToRTime_minutes {t : ℤ} (ht : RTIME_EPOCH ≤ t) (ht' : t < 2 ^ 31) :
    unixTimeToRTime ((t - RTIME_EPOCH) * 60) = t := by
  have hfile : (t - RTIME_EPOCH) * 60 * 10000000 + NANOSECS_BETWEEN_EPOCHS + UnitsPerHalfMinute =
      t * 600000000 + 300000000 := by
    unfold RTIME_EPOCH NANOSECS_BETWEEN_EPOCHS UnitsPerHalfMinute
    ring
  have hlow : (t * 600000000 + 300000000) % 2 ^ 64 = t * 600000000 + 300000000 := by
    unfold RTIME_EPOCH at ht
    exact Int.emod_eq_of_lt (by omega) (by omega)
  unfold RTIME_EPOCH at ht
  rw [unixTimeToRTime, hfile, hlow, UnitsPerMinute]
  omega

/-- Minutes of a month before the year 4096 are read as they were. -/
theorem eventTime_of_lt {n x : ℤ} (hn : 1970 * 12 ≤ n) (hn' : n < 4096 * 12) (hx : 0 ≤ x)
    (hx' : x < 2 ^ 16) : eventTime (yearMonth n) (BitVec.ofInt 16 x) = monthStart n + x := by
  have hstart := monthStart_strictMono.monotone hn
  have hend := monthStart_strictMono.monotone hn'.le
  have h1970 : monthStart (1970 * 12) = RTIME_EPOCH := rfl
  have h4096 : monthStart (4096 * 12) = 1312243200 := rfl
  have hunix : monthStart (readMonth n) - RTIME_EPOCH + x = monthStart n + x - RTIME_EPOCH := by
    rw [readMonth_of_lt (by omega) hn']
    ring
  rw [eventTime_yearMonth n hx hx', hunix]
  exact unixTimeToRTime_minutes (by omega) (by omega)

/-- Minutes of a month from the year 4096 on are read as minutes of a month before 1601, so that the
relative time wraps around. -/
theorem eventTime_of_le {n x : ℤ} (hn : 4096 * 12 ≤ n) (hn' : n < 5685 * 12) (hx : 0 ≤ x)
    (hx' : x < 2 ^ 16) : eventTime (yearMonth n) (BitVec.ofInt 16 x) =
      (monthStart (n - 4096 * 12) + x + 679802384) % 2 ^ 31 := by
  have hread : readMonth n = n - 4096 * 12 := by
    unfold readMonth
    omega
  have hstart := monthStart_strictMono.monotone (sub_nonneg.mpr hn)
  have hend := monthStart_strictMono.monotone (show n - 4096 * 12 ≤ 1589 * 12 by omega)
  have h0 : monthStart 0 = -842045760 := rfl
  have h1589 : monthStart (1589 * 12) = -6311520 := rfl
  rw [eventTime_yearMonth n hx hx', hread]
  generalize monthStart (n - 4096 * 12) = m at *
  have hfile : (m - RTIME_EPOCH + x) * 60 * 10000000 + NANOSECS_BETWEEN_EPOCHS +
      UnitsPerHalfMinute = (m + x) * 600000000 + 300000000 := by
    unfold RTIME_EPOCH NANOSECS_BETWEEN_EPOCHS UnitsPerHalfMinute
    ring
  have hwrap : ((m + x) * 600000000 + 300000000) % 2 ^ 64 =
      (m + x + 30744573456) * 600000000 + 409551616 := by
    omega
  rw [unixTimeToRTime, hfile, hwrap, UnitsPerMinute]
  omega

/-- The event of some minutes of a month. -/
def eventOf (e : ℤ × ℤ × ℤ) : LONG × SfbEvent :=
  (yearMonth e.1, ⟨BitVec.ofInt 16 e.2.1, BitVec.ofInt 16 e.2.2⟩)

/-- The interval that is read from an event. -/
def readInterval (e : LONG × SfbEvent) : ℤ × ℤ :=
  (eventTime e.1 e.2.rtmStart, eventTime e.1 e.2.rtmEnd)

/-- The interval that some minutes of a month are. -/
def interval (e : ℤ × ℤ × ℤ) : ℤ × ℤ := (monthStart e.1 + e.2.1, monthStart e.1 + e.2.2)

end Zcp.FreeBusy
