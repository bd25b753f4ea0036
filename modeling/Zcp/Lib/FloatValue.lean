import Mathlib.Algebra.Order.Field.Power
import Mathlib.Data.Int.Log
import Mathlib.Data.Rat.Floor
import Mathlib.Tactic.NormNum

/-!
# The values of binary floating point numbers

The bits of a float stand for a number, an infinity or no number. Values are compared as C compares them, and a difference
is rounded to the nearest number of the format, with ties to even. What a conversion to an integer gives is the number
without its fraction.
-/

namespace Zcp.Lib

open Float.Model

/-- What the bits of a float stand for. Zero has one value. -/
inductive FloatValue where
  | nan
  | infinity (negative : Bool)
  | number (q : ℚ)
deriving DecidableEq

namespace FloatValue

/-- The value of the bits of a float of some format. -/
def ofBits (spec : Format) (bits : BitVec spec.numBits) : FloatValue :=
  match UnpackedFloat.unpack spec bits with
  | .notANumber => nan
  | .infinity .negative => infinity true
  | .infinity .positive => infinity false
  | .zero _ => number 0
  | .finite .negative m e _ => number (-(m * 2 ^ e))
  | .finite .positive m e _ => number (m * 2 ^ e)

/-- The operator `==`. -/
def eq : FloatValue → FloatValue → Bool
  | number x, number y => x = y
  | infinity s, infinity t => s = t
  | _, _ => false

/-- The operator `<`. -/
def lt : FloatValue → FloatValue → Bool
  | number x, number y => x < y
  | infinity negative, number _ => negative
  | number _, infinity negative => !negative
  | infinity s, infinity t => s && !t
  | _, _ => false

/-! ## Rounding -/

/-- The nearest integer; of two, the even one. -/
def roundEven (q : ℚ) : ℤ :=
  if Int.fract q < 1 / 2 ∨ Int.fract q = 1 / 2 ∧ ⌊q⌋ % 2 = 0 then ⌊q⌋ else ⌊q⌋ + 1

/-- The nearest number with a mantissa of `p` bits. -/
def roundTo (p : ℕ) (q : ℚ) : ℚ :=
  let ulp : ℚ := 2 ^ (Int.log 2 |q| + 1 - p)
  roundEven (q / ulp) * ulp

/-- A number without its fraction. -/
def truncate (q : ℚ) : ℤ := if 0 ≤ q then ⌊q⌋ else ⌈q⌉

variable {q : ℚ}

theorem roundEven_nonneg (h : 0 ≤ q) : 0 ≤ roundEven q := by
  have hfloor : 0 ≤ ⌊q⌋ := Int.floor_nonneg.mpr h
  rw [roundEven]
  split_ifs <;> omega

theorem roundEven_nonpos (h : q ≤ 0) : roundEven q ≤ 0 := by
  rw [roundEven]
  rcases eq_or_lt_of_le h with rfl | hlt
  · simp
  · have hfloor : ⌊q⌋ < 0 := Int.floor_lt.mpr (by simpa using hlt)
    split_ifs <;> omega

theorem roundTo_zero (p : ℕ) : roundTo p 0 = 0 := by
  simp [roundTo, roundEven]

/-- Rounding does not change the sign. -/
theorem roundTo_nonneg (p : ℕ) (h : 0 ≤ q) : 0 ≤ roundTo p q :=
  mul_nonneg (Int.cast_nonneg (roundEven_nonneg (div_nonneg h (zpow_nonneg zero_le_two _)))) (zpow_nonneg zero_le_two _)

theorem roundTo_nonpos (p : ℕ) (h : q ≤ 0) : roundTo p q ≤ 0 :=
  mul_nonpos_of_nonpos_of_nonneg (Int.cast_nonpos.mpr (roundEven_nonpos (div_nonpos_of_nonpos_of_nonneg h (zpow_nonneg zero_le_two _))))
    (zpow_nonneg zero_le_two _)

theorem truncate_eq_zero (h : |q| < 1) : truncate q = 0 := by
  obtain ⟨hlo, hhi⟩ := abs_lt.mp h
  rw [truncate]
  split_ifs with hq
  · exact Int.floor_eq_zero_iff.mpr ⟨hq, hhi⟩
  · exact Int.ceil_eq_zero_iff.mpr ⟨hlo, (not_le.mp hq).le⟩

theorem truncate_pos (h : 1 ≤ q) : 0 < truncate q := by
  rw [truncate, if_pos (zero_le_one.trans h)]
  exact Int.floor_pos.mpr h

theorem truncate_neg (h : q ≤ -1) : truncate q < 0 := by
  have hneg : ¬ 0 ≤ q := not_le.mpr (h.trans_lt (by norm_num))
  rw [truncate, if_neg hneg]
  exact (Int.ceil_le.mpr (by simpa using h) : ⌈q⌉ ≤ -1).trans_lt (by decide)

/-- A difference that is not cut to zero has the sign of the difference. -/
theorem truncate_roundTo_pos {p : ℕ} (h : 1 ≤ |roundTo p q|) (hq : 0 < q) : 0 < truncate (roundTo p q) :=
  truncate_pos (h.trans_eq (abs_of_nonneg (roundTo_nonneg p hq.le)))

theorem truncate_roundTo_neg {p : ℕ} (h : 1 ≤ |roundTo p q|) (hq : q < 0) : truncate (roundTo p q) < 0 :=
  truncate_neg (le_neg_of_le_neg (h.trans_eq (abs_of_nonpos (roundTo_nonpos p hq.le))))

end FloatValue

end Zcp.Lib
