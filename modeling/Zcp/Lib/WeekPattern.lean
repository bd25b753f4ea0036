import Mathlib.Data.Nat.Nth
import Mathlib.Order.Bounds.Basic
import Mathlib.Tactic.Ring

/-!
# Weekdays of every p-th week

Days are counted from a day that has `a` days of its week in front of it. A pattern consists of some weekdays of this
week and of every `p`-th one behind it. Its days up to the one in seven days are those weekdays, with the weeks in
between left out, and from then on everything repeats.
-/

namespace Zcp.Lib

/-- Where a number of days that is not too large has been counted. -/
theorem exists_count_eq {p : ℕ → Prop} [DecidablePred p] {n m : ℕ} (h : n ≤ Nat.count p m) :
    ∃ k ≤ m, Nat.count p k = n ∧ (k ≠ 0 → p (k - 1)) := by
  have hex : ∃ k, n ≤ Nat.count p k := ⟨m, h⟩
  have hfind := Nat.find_spec hex
  refine ⟨Nat.find hex, Nat.find_min' hex h, ?_⟩
  cases hk : Nat.find hex with
  | zero =>
    rw [hk, Nat.count_zero] at hfind
    exact ⟨by rw [Nat.count_zero]; omega, fun hzero => absurd rfl hzero⟩
  | succ k =>
    have hbefore : ¬ n ≤ Nat.count p k := Nat.find_min hex (by omega)
    rw [hk, Nat.count_succ] at hfind
    have hpk : p k := by
      by_contra hnot
      rw [if_neg hnot] at hfind
      omega
    rw [if_pos hpk] at hfind
    refine ⟨?_, fun _ => hpk⟩
    rw [Nat.count_succ, if_pos hpk]
    omega

/-- A day is on one of the weekdays, in a week that is in the pattern. -/
def InPattern (on : ℕ → Prop) (a p k : ℕ) : Prop := on k ∧ p ∣ (a + k) / 7

/-- Go some days forward from day 0, where the weeks that are not in the pattern are left out. -/
def patternDay (a p j : ℕ) : ℕ := if a + j < 7 then j else j + 7 * (p - 1)

section

variable {on : ℕ → Prop} {a p j k : ℕ}

instance [DecidablePred on] : DecidablePred (InPattern on a p) := fun _ => instDecidableAnd

theorem patternDay_of_before (h : a + j < 7) : patternDay a p j = j := if_pos h

theorem patternDay_of_behind (h : 7 ≤ a + j) : patternDay a p j = j + 7 * (p - 1) := if_neg (not_lt.mpr h)

variable (hon : ∀ k, on (k + 7) ↔ on k)
include hon

theorem on_add_weeks (k m : ℕ) : on (k + 7 * m) ↔ on k := by
  induction m with
  | zero => rfl
  | succ m ih => rw [Nat.mul_succ, ← add_assoc, hon, ih]

theorem inPattern_patternDay (hp : 0 < p) (hj : a + j < 14) : InPattern on a p (patternDay a p j) ↔ on j := by
  unfold InPattern
  by_cases hweek : a + j < 7
  · rw [patternDay_of_before hweek, Nat.div_eq_of_lt hweek]
    exact and_iff_left (dvd_zero p)
  · have hdiv : (a + (j + 7 * (p - 1))) / 7 = p := by omega
    rw [patternDay_of_behind (not_lt.mp hweek), on_add_weeks hon, hdiv]
    exact and_iff_left dvd_rfl

omit hon in
/-- The weeks in between are not in the pattern. -/
theorem not_inPattern (hlow : 7 ≤ a + k) (hhigh : a + k < 7 * p) : ¬ InPattern on a p k := by
  rintro ⟨-, hdvd⟩
  have hle := Nat.le_of_dvd (by omega) hdvd
  omega

theorem inPattern_add (k : ℕ) : InPattern on a p (7 * p + k) ↔ InPattern on a p k := by
  unfold InPattern
  have hdiv : (a + (7 * p + k)) / 7 = (a + k) / 7 + p := by omega
  rw [hdiv, add_comm (7 * p), on_add_weeks hon, Nat.dvd_add_self_right]

variable [DecidablePred on]

/-- The days of the pattern in front of a day of the next week. -/
theorem count_patternDay (ha : a < 7) (hp : 0 < p) (hj : a + j ≤ 14) :
    Nat.count (InPattern on a p) (patternDay a p j) = Nat.count on j := by
  induction j with
  | zero =>
    rw [patternDay_of_before (by omega), Nat.count_zero, Nat.count_zero]
  | succ j ih =>
    have hday := inPattern_patternDay hon hp (show a + j < 14 by omega)
    have hnext : Nat.count (InPattern on a p) (patternDay a p j + 1) = Nat.count on (j + 1) := by
      rw [Nat.count_succ, Nat.count_succ, ih (by omega)]
      exact congrArg _ (if_congr hday rfl rfl)
    by_cases hsunday : a + (j + 1) = 7
    · -- the day in front of the weeks in between
      have hgap : Nat.count (fun k => InPattern on a p (j + 1 + k)) (7 * (p - 1)) = 0 := by
        apply Nat.count_iff_forall_not.mpr
        intro k hk
        exact not_inPattern (by omega) (by omega)
      rw [patternDay_of_before (by omega)] at hnext
      rw [patternDay_of_behind (by omega), Nat.count_add, hgap, hnext, add_zero]
    · have hsucc : patternDay a p (j + 1) = patternDay a p j + 1 := by
        unfold patternDay
        split_ifs <;> omega
      rw [hsucc, hnext]

/-- Everything repeats after `p` weeks. -/
theorem count_inPattern_add (ha : a < 7) (hp : 0 < p) (m k : ℕ) :
    Nat.count (InPattern on a p) (7 * p * m + k) = m * Nat.count on 7 + Nat.count (InPattern on a p) k := by
  have hperiod : Nat.count (InPattern on a p) (7 * p) = Nat.count on 7 := by
    rw [← count_patternDay hon ha hp (j := 7) (by omega), patternDay_of_behind (by omega)]
    congr 1
    omega
  induction m with
  | zero => rw [mul_zero, zero_add, zero_mul, zero_add]
  | succ m ih =>
    have hsplit : 7 * p * (m + 1) + k = 7 * p + (7 * p * m + k) := by ring
    rw [hsplit, Nat.count_add, hperiod]
    simp only [inPattern_add hon]
    rw [ih]
    ring

/-- The first day of the pattern. -/
theorem isLeast_inPattern (ha : a < 7) (hp : 0 < p) (hj : j < 7) (honj : on j) (hfirst : ∀ i < j, ¬ on i) :
    IsLeast {k | InPattern on a p k} (patternDay a p j) := by
  have hnone : Nat.count (InPattern on a p) (patternDay a p j) = 0 := by
    rw [count_patternDay hon ha hp (by omega)]
    exact Nat.count_iff_forall_not.mpr hfirst
  refine ⟨(inPattern_patternDay hon hp (by omega)).mpr honj, fun k hk => not_lt.mp fun hlt => ?_⟩
  exact Nat.count_iff_forall_not.mp hnone k hlt hk

/-- The days of the pattern in their order. -/
theorem nth_inPattern (ha : a < 7) (hp : 0 < p) (hj : j < 7) (honj : on j) (m : ℕ) :
    Nat.nth (InPattern on a p) (m * Nat.count on 7 + Nat.count on j) = 7 * p * m + patternDay a p j := by
  have hcount := count_inPattern_add hon ha hp m (patternDay a p j)
  rw [count_patternDay hon ha hp (by omega)] at hcount
  rw [← hcount]
  apply Nat.nth_count
  have hrepeat : InPattern on a p (7 * p * m + patternDay a p j) ↔ InPattern on a p (patternDay a p j) := by
    induction m with
    | zero => rw [mul_zero, zero_add]
    | succ m ih =>
      have hsplit : 7 * p * (m + 1) + patternDay a p j = 7 * p + (7 * p * m + patternDay a p j) := by ring
      rw [hsplit, inPattern_add hon, ih]
      rw [count_inPattern_add hon ha hp, count_patternDay hon ha hp (by omega)]
  exact hrepeat.mpr ((inPattern_patternDay hon hp (by omega)).mpr honj)

end

end Zcp.Lib
