import Mathlib.Data.List.Basic
import Mathlib.Tactic.IntervalCases

/-!
# Octets as sextets

Three octets are four numbers below 64. A last group of one octet is two such numbers, and one of two octets is three.
-/

namespace Zcp.Lib

/-- The numbers of a sequence of octets, the bits that are missing in the last of them being zero. -/
def toSextets : List UInt8 → List UInt8
  | a :: b :: c :: rest => a / 4 :: (a % 4 * 16 + b / 16) :: (b % 16 * 4 + c / 64) :: c % 64 :: toSextets rest
  | [a, b] => [a / 4, a % 4 * 16 + b / 16, b % 16 * 4]
  | [a] => [a / 4, a % 4 * 16]
  | [] => []

/-- The octets that a sequence of numbers has all bits of. -/
def ofSextets : List UInt8 → List UInt8
  | a :: b :: c :: d :: rest =>
    (a * 4 + b / 16 % 4) :: (b % 16 * 16 + c / 4 % 16) :: (c % 4 * 64 + d) :: ofSextets rest
  | [a, b, c] => [a * 4 + b / 16 % 4, b % 16 * 16 + c / 4 % 16]
  | [a, b] => [a * 4 + b / 16 % 4]
  | _ => []

/-! ## Lengths -/

theorem length_toSextets (octets : List UInt8) : (toSextets octets).length = (4 * octets.length + 2) / 3 := by
  fun_induction toSextets octets with
  | case1 a b c rest ih =>
    simp only [List.length_cons, ih]
    omega
  | case2 a b => simp
  | case3 a => simp
  | case4 => simp

theorem length_ofSextets (sextets : List UInt8) : (ofSextets sextets).length = 3 * sextets.length / 4 := by
  fun_induction ofSextets sextets with
  | case1 a b c d rest ih =>
    simp only [List.length_cons, ih]
    omega
  | case2 a b c => simp
  | case3 a b => simp
  | case4 sextets hfour hthree htwo =>
    match sextets with
    | [] => simp
    | [_] => simp
    | [a, b] => exact absurd rfl (htwo a b)
    | [a, b, c] => exact absurd rfl (hthree a b c)
    | a :: b :: c :: d :: rest => exact absurd rfl (hfour a b c d rest)

/-- The first numbers give the first octets. -/
theorem ofSextets_take (sextets : List UInt8) (n : ℕ) :
    ofSextets (sextets.take n) = (ofSextets sextets).take (3 * n / 4) := by
  fun_induction ofSextets sextets generalizing n with
  | case1 a b c d rest ih =>
    match n with
    | 0 => rfl
    | 1 => simp [ofSextets]
    | 2 => simp [ofSextets]
    | 3 => simp [ofSextets]
    | n + 4 =>
      have hn : 3 * (n + 4) / 4 = 3 * n / 4 + 3 := by omega
      rw [hn]
      simp only [List.take_succ_cons, ofSextets, ih]
  | case2 a b c =>
    match n with
    | 0 => rfl
    | 1 => simp [ofSextets]
    | 2 => simp [ofSextets]
    | n + 3 =>
      have hn : 3 * (n + 3) / 4 = (3 * n + 1) / 4 + 2 := by omega
      simp [ofSextets, hn]
  | case3 a b =>
    match n with
    | 0 => rfl
    | 1 => simp [ofSextets]
    | n + 2 =>
      have hn : 3 * (n + 2) / 4 = (3 * n + 2) / 4 + 1 := by omega
      simp [ofSextets, hn]
  | case4 sextets hfour hthree htwo =>
    match sextets with
    | [] => simp [ofSextets]
    | [_] => cases n <;> simp [ofSextets]
    | [a, b] => exact absurd rfl (htwo a b)
    | [a, b, c] => exact absurd rfl (hthree a b c)
    | a :: b :: c :: d :: rest => exact absurd rfl (hfour a b c d rest)

/-! ## Single octets -/

/-- A statement about every octet is decided by going through them. -/
instance decidableForallOctet {p : UInt8 → Prop} [DecidablePred p] : Decidable (∀ c, p c) :=
  decidable_of_iff (∀ n : Fin 256, p (UInt8.ofFin n)) ⟨fun h c => h c.toFin, fun h n => h (.ofFin n)⟩

theorem octet_first (a x : UInt8) (hx : x < 16) : a / 4 * 4 + (a % 4 * 16 + x) / 16 % 4 = a := by
  have hx' := UInt8.lt_iff_toNat_lt.mp hx
  apply UInt8.toNat.inj
  simp only [UInt8.toNat_add, UInt8.toNat_mul, UInt8.toNat_div, UInt8.toNat_mod, UInt8.reduceToNat, Nat.reducePow] at hx' ⊢
  have ha := a.toNat_lt
  omega

theorem octet_second (a b x : UInt8) (hx : x < 4) :
    (a % 4 * 16 + b / 16) % 16 * 16 + (b % 16 * 4 + x) / 4 % 16 = b := by
  have hx' := UInt8.lt_iff_toNat_lt.mp hx
  apply UInt8.toNat.inj
  simp only [UInt8.toNat_add, UInt8.toNat_mul, UInt8.toNat_div, UInt8.toNat_mod, UInt8.reduceToNat, Nat.reducePow] at hx' ⊢
  have ha := a.toNat_lt
  have hb := b.toNat_lt
  omega

theorem octet_third (b c : UInt8) : (b % 16 * 4 + c / 64) % 4 * 64 + c % 64 = c := by
  apply UInt8.toNat.inj
  simp only [UInt8.toNat_add, UInt8.toNat_mul, UInt8.toNat_div, UInt8.toNat_mod, UInt8.reduceToNat, Nat.reducePow]
  have hb := b.toNat_lt
  have hc := c.toNat_lt
  omega

theorem sextet_div (a : UInt8) : a / 4 < 64 := by
  apply UInt8.lt_iff_toNat_lt.mpr
  simp only [UInt8.toNat_div, UInt8.reduceToNat]
  have ha := a.toNat_lt
  omega

theorem sextet_mod (a : UInt8) : a % 64 < 64 := by
  apply UInt8.lt_iff_toNat_lt.mpr
  simp only [UInt8.toNat_mod, UInt8.reduceToNat]
  omega

theorem sextet_first (a x : UInt8) (hx : x < 16) : a % 4 * 16 + x < 64 := by
  have hx' := UInt8.lt_iff_toNat_lt.mp hx
  apply UInt8.lt_iff_toNat_lt.mpr
  simp only [UInt8.toNat_add, UInt8.toNat_mul, UInt8.toNat_mod, UInt8.reduceToNat, Nat.reducePow] at hx' ⊢
  omega

theorem sextet_second (b x : UInt8) (hx : x < 4) : b % 16 * 4 + x < 64 := by
  have hx' := UInt8.lt_iff_toNat_lt.mp hx
  apply UInt8.lt_iff_toNat_lt.mpr
  simp only [UInt8.toNat_add, UInt8.toNat_mul, UInt8.toNat_mod, UInt8.reduceToNat, Nat.reducePow] at hx' ⊢
  omega

theorem div_sixteen_lt (b : UInt8) : b / 16 < 16 := by
  apply UInt8.lt_iff_toNat_lt.mpr
  simp only [UInt8.toNat_div, UInt8.reduceToNat]
  have hb := b.toNat_lt
  omega

theorem div_sixtyFour_lt (c : UInt8) : c / 64 < 4 := by
  apply UInt8.lt_iff_toNat_lt.mpr
  simp only [UInt8.toNat_div, UInt8.reduceToNat]
  have hc := c.toNat_lt
  omega

/-! ## The round trip -/

theorem toSextets_lt {octets : List UInt8} {x : UInt8} (hx : x ∈ toSextets octets) : x < 64 := by
  fun_induction toSextets octets with
  | case1 a b c rest ih =>
    simp only [List.mem_cons] at hx
    rcases hx with rfl | rfl | rfl | rfl | hx
    · exact sextet_div a
    · exact sextet_first a _ (div_sixteen_lt b)
    · exact sextet_second b _ (div_sixtyFour_lt c)
    · exact sextet_mod c
    · exact ih hx
  | case2 a b =>
    simp only [List.mem_cons, List.not_mem_nil, or_false] at hx
    rcases hx with rfl | rfl | rfl
    · exact sextet_div a
    · exact sextet_first a _ (div_sixteen_lt b)
    · simpa using sextet_second b 0 (by decide)
  | case3 a =>
    simp only [List.mem_cons, List.not_mem_nil, or_false] at hx
    rcases hx with rfl | rfl
    · exact sextet_div a
    · simpa using sextet_first a 0 (by decide)
  | case4 => cases hx

theorem ofSextets_toSextets (octets : List UInt8) : ofSextets (toSextets octets) = octets := by
  fun_induction toSextets octets with
  | case1 a b c rest ih =>
    rw [ofSextets, ih, octet_first a _ (div_sixteen_lt b), octet_second a b _ (div_sixtyFour_lt c), octet_third]
  | case2 a b =>
    have hb := octet_second a b 0 (by decide)
    rw [UInt8.add_zero] at hb
    rw [ofSextets, octet_first a _ (div_sixteen_lt b), hb]
  | case3 a =>
    have ha := octet_first a 0 (by decide)
    rw [UInt8.add_zero] at ha
    rw [ofSextets, ha]
  | case4 => rfl

end Zcp.Lib
