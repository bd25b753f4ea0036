import Mathlib.Data.UInt
import Mathlib.Order.Compare
import Mathlib.Tactic.SplitIfs

/-!
# The bytes of a number

Most significant byte first, they are compared like the number. They are read back with `ofBigEndian`
and `ofLittleEndian`.
-/

namespace Zcp.Lib

/-- The low `n` bytes of a number. -/
def bigEndian : ℕ → ℕ → List UInt8
  | 0, _ => []
  | n + 1, v => bigEndian n (v / 256) ++ [UInt8.ofNat (v % 256)]

@[simp]
theorem length_bigEndian (n v : ℕ) : (bigEndian n v).length = n := by
  induction n generalizing v with
  | zero => rfl
  | succ n ih => rw [bigEndian, List.length_append, ih, List.length_singleton]

/-- The high bytes come before the low ones. -/
theorem bigEndian_add (m n v : ℕ) : bigEndian (m + n) v = bigEndian m (v / 256 ^ n) ++ bigEndian n v := by
  induction n generalizing v with
  | zero => rw [pow_zero, Nat.div_one, bigEndian, List.append_nil, add_zero]
  | succ n ih =>
    rw [← add_assoc, bigEndian, bigEndian, ih, List.append_assoc, Nat.div_div_eq_div_mul,
      pow_succ, mul_comm]

/-- Only the low bytes of the number count. -/
theorem bigEndian_mod (n v : ℕ) : bigEndian n (v % 256 ^ n) = bigEndian n v := by
  induction n generalizing v with
  | zero => rfl
  | succ n ih =>
    rw [bigEndian, bigEndian, pow_succ, mul_comm, Nat.mod_mul_right_mod, Nat.mod_mul_right_div_self,
      ih]

/-- Lists that begin with parts of the same length are compared part by part. -/
theorem compare_append {α : Type*} [Ord α] {a c : List α} (h : a.length = c.length)
    (b d : List α) : compare (a ++ b) (c ++ d) = (compare a c).then (compare b d) := by
  induction a generalizing c with
  | nil =>
    rw [List.eq_nil_of_length_eq_zero h.symm]
    rfl
  | cons x a ih =>
    cases c with
    | nil => cases h
    | cons y c =>
      rw [List.cons_append, List.cons_append, List.compare_cons_cons, List.compare_cons_cons,
        ih (Nat.succ.inj h), Ordering.then_assoc]

/-- The digits of two numbers are compared like the numbers. -/
theorem compare_div_mod (v w : ℕ) :
    (compare (v / 256) (w / 256)).then (compare (v % 256) (w % 256)) = compare v w := by
  have hlt (h : v < w) : compare v w = .lt := Nat.compare_eq_lt.mpr h
  have hgt (h : w < v) : compare v w = .gt := Nat.compare_eq_gt.mpr h
  rcases lt_trichotomy (v / 256) (w / 256) with h | h | h
  · rw [Nat.compare_eq_lt.mpr h, hlt (by omega)]
    rfl
  · rw [Nat.compare_eq_eq.mpr h]
    rcases lt_trichotomy (v % 256) (w % 256) with h' | h' | h'
    · rw [Nat.compare_eq_lt.mpr h', hlt (by omega)]
      rfl
    · rw [Nat.compare_eq_eq.mpr h', Nat.compare_eq_eq.mpr (by omega : v = w)]
      rfl
    · rw [Nat.compare_eq_gt.mpr h', hgt (by omega)]
      rfl
  · rw [Nat.compare_eq_gt.mpr h, hgt (by omega)]
    rfl

theorem compare_byte {v w : ℕ} (hv : v < 256) (hw : w < 256) :
    compare [UInt8.ofNat v] [UInt8.ofNat w] = compare v w := by
  have hbyte : compare (UInt8.ofNat v) (UInt8.ofNat w) = compare v w := by
    show compareOfLessAndEq (UInt8.ofNat v) (UInt8.ofNat w) = compareOfLessAndEq v w
    simp only [compareOfLessAndEq, UInt8.lt_iff_toNat_lt, ← UInt8.toNat_inj, UInt8.toNat_ofNat',
      Nat.mod_eq_of_lt hv, Nat.mod_eq_of_lt hw]
  rw [List.compare_cons_cons, hbyte]
  exact Ordering.then_eq

/-- The bytes are compared like the numbers. -/
theorem compare_bigEndian {n v w : ℕ} (hv : v < 256 ^ n) (hw : w < 256 ^ n) :
    compare (bigEndian n v) (bigEndian n w) = compare v w := by
  induction n generalizing v w with
  | zero =>
    rw [Nat.lt_one_iff.mp hv, Nat.lt_one_iff.mp hw]
    rfl
  | succ n ih =>
    rw [pow_succ, mul_comm] at hv hw
    rw [bigEndian, bigEndian, compare_append (by rw [length_bigEndian, length_bigEndian]),
      ih (Nat.div_lt_of_lt_mul hv) (Nat.div_lt_of_lt_mul hw),
      compare_byte (Nat.mod_lt _ (by decide)) (Nat.mod_lt _ (by decide)), compare_div_mod]

/-- The number that bytes are, most significant first. -/
def ofBigEndian (bytes : List UInt8) : ℕ := bytes.foldl (fun v b => 256 * v + b.toNat) 0

theorem ofBigEndian_bigEndian (n v : ℕ) : ofBigEndian (bigEndian n v) = v % 256 ^ n := by
  induction n generalizing v with
  | zero => rw [pow_zero, Nat.mod_one]; rfl
  | succ n ih =>
    have hbyte : (UInt8.ofNat (v % 256)).toNat = v % 256 := by simp
    unfold ofBigEndian at ih ⊢
    rw [bigEndian, List.foldl_append, ih, List.foldl_cons, List.foldl_nil, hbyte, pow_succ,
      mul_comm (256 ^ n), Nat.mod_mul, add_comm]

/-- The low `n` bytes of a number, least significant first. -/
def littleEndian : ℕ → ℕ → List UInt8
  | 0, _ => []
  | n + 1, v => UInt8.ofNat (v % 256) :: littleEndian n (v / 256)

/-- The number that bytes are, least significant first. -/
def ofLittleEndian : List UInt8 → ℕ
  | [] => 0
  | b :: bs => b.toNat + 256 * ofLittleEndian bs

@[simp]
theorem length_littleEndian (n v : ℕ) : (littleEndian n v).length = n := by
  induction n generalizing v with
  | zero => rfl
  | succ n ih => rw [littleEndian, List.length_cons, ih]

theorem ofLittleEndian_lt (bytes : List UInt8) : ofLittleEndian bytes < 256 ^ bytes.length := by
  induction bytes with
  | nil => exact Nat.one_pos
  | cons b bytes ih =>
    have hb : b.toNat < 256 := b.toNat_lt
    rw [ofLittleEndian, List.length_cons, pow_succ]
    omega

theorem ofLittleEndian_littleEndian (n v : ℕ) : ofLittleEndian (littleEndian n v) = v % 256 ^ n := by
  induction n generalizing v with
  | zero => rw [pow_zero, Nat.mod_one]; rfl
  | succ n ih =>
    have hbyte : (UInt8.ofNat (v % 256)).toNat = v % 256 := by simp
    rw [littleEndian, ofLittleEndian, hbyte, ih, pow_succ, mul_comm (256 ^ n), Nat.mod_mul]

end Zcp.Lib
