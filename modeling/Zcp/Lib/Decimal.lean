import Mathlib.Data.Nat.Digits.Defs
import Mathlib.Data.List.TakeWhile

/-!
# Decimal texts

Numbers as decimal texts in ASCII, and how `strtol` and `strtoul` of the C library read them back, with
64-bit `long`s. Reading the text of a number gives that number and the rest behind it (`scanInt_signedDecimal`).
-/

namespace Zcp.Lib

/-- The text of a natural number. -/
def decimal (n : ℕ) : List UInt8 :=
  if n = 0 then [48] else (Nat.digits 10 n).reverse.map fun d => UInt8.ofNat (48 + d)

/-- The text of an integer. -/
def signedDecimal (z : ℤ) : List UInt8 :=
  if z < 0 then 45 :: decimal z.natAbs else decimal z.natAbs

def isDigit (c : UInt8) : Bool := 48 ≤ c && c ≤ 57

/-- `isspace`. -/
def isSpace (c : UInt8) : Bool := c = 32 || (9 ≤ c && c ≤ 13)

/-- The number that some digits stand for. -/
def digitsValue (ds : List UInt8) : ℕ := ds.foldl (fun acc c => 10 * acc + (c.toNat - 48)) 0

/-- The sign in front of a number, and what is behind it. -/
def scanSign : List UInt8 → Bool × List UInt8
  | c :: s => if c = 45 then (true, s) else if c = 43 then (false, s) else (false, c :: s)
  | [] => (false, [])

/-- The number at the start of a text and the rest behind it; without digits there is no number, and the whole text
is left. -/
def scanInt (s : List UInt8) : ℤ × List UInt8 :=
  let (negative, ds) := scanSign (s.dropWhile isSpace)
  let n := digitsValue (ds.takeWhile isDigit)
  if ds.takeWhile isDigit = [] then (0, s) else (if negative then -n else n, ds.dropWhile isDigit)

/-- `strtol`, and where it stops. -/
def strtol (s : List UInt8) : ℤ × List UInt8 :=
  let (z, rest) := scanInt s
  (max (-2 ^ 63) (min z (2 ^ 63 - 1)), rest)

/-- `strtoul`, and where it stops. A negative number is negated as an `unsigned long`. -/
def strtoul (s : List UInt8) : ℕ × List UInt8 :=
  let (z, rest) := scanInt s
  (if z.natAbs < 2 ^ 64 then (z % 2 ^ 64).toNat else 2 ^ 64 - 1, rest)

/-- `atoi`, which is `strtol` made an `int`. -/
def atoi (s : List UInt8) : BitVec 32 := BitVec.ofInt 32 (strtol s).1

/-- `atoll`. -/
def atoll (s : List UInt8) : BitVec 64 := BitVec.ofInt 64 (strtol s).1

/-! ## Reading what was written -/

/-- A text does not go on with another digit. -/
def EndsNumber (rest : List UInt8) : Prop := ∀ c ∈ rest.head?, isDigit c = false

theorem endsNumber_nil : EndsNumber [] := by
  intro c hc
  cases hc

theorem isDigit_ofNat {d : ℕ} (hd : d < 10) : isDigit (UInt8.ofNat (48 + d)) = true := by
  revert d
  decide

theorem toNat_ofNat {d : ℕ} (hd : d < 10) : (UInt8.ofNat (48 + d)).toNat - 48 = d := by
  revert d
  decide

theorem isDigit_decimal {n : ℕ} : ∀ c ∈ decimal n, isDigit c = true := by
  intro c hc
  rw [decimal] at hc
  split_ifs at hc with hn
  · rw [List.mem_singleton.mp hc]
    rfl
  · obtain ⟨d, hd, rfl⟩ := List.mem_map.mp hc
    exact isDigit_ofNat (Nat.digits_lt_base (by decide) (List.mem_reverse.mp hd))

theorem decimal_ne_nil (n : ℕ) : decimal n ≠ [] := by
  rw [decimal]
  split_ifs with hn
  · exact List.cons_ne_nil _ _
  · simp [Nat.digits_ne_nil_iff_ne_zero.mpr hn]

theorem digitsValue_decimal (n : ℕ) : digitsValue (decimal n) = n := by
  rw [decimal]
  split_ifs with hn
  · rw [hn]
    rfl
  · have hfold : ∀ ds : List ℕ, (∀ d ∈ ds, d < 10) →
        digitsValue (ds.reverse.map fun d => UInt8.ofNat (48 + d)) = Nat.ofDigits 10 ds := by
      intro ds hds
      induction ds with
      | nil => rfl
      | cons d ds ih =>
        have hih := ih fun x hx => hds x (List.mem_cons_of_mem _ hx)
        rw [digitsValue] at hih ⊢
        rw [List.reverse_cons, List.map_append, List.foldl_append, hih, Nat.ofDigits_cons]
        show 10 * Nat.ofDigits 10 ds + ((UInt8.ofNat (48 + d)).toNat - 48) = _
        rw [toNat_ofNat (hds d List.mem_cons_self)]
        ring
    rw [hfold _ fun d hd => Nat.digits_lt_base (by decide) hd, Nat.ofDigits_digits]

variable {ds rest : List UInt8}

/-- Digits end where the text goes on with something else. -/
theorem takeWhile_digits (hds : ∀ c ∈ ds, isDigit c = true) (hrest : EndsNumber rest) :
    (ds ++ rest).takeWhile isDigit = ds ∧ (ds ++ rest).dropWhile isDigit = rest := by
  rw [List.takeWhile_append_of_pos hds, List.dropWhile_append_of_pos hds]
  cases rest with
  | nil => simp
  | cons c rest =>
    have hc : isDigit c = false := hrest c rfl
    simp [hc]

theorem isDigit_plain {c : UInt8} (hc : isDigit c = true) : isSpace c = false ∧ c ≠ 45 ∧ c ≠ 43 := by
  rw [isDigit, Bool.and_eq_true, decide_eq_true_eq, decide_eq_true_eq, UInt8.le_iff_toNat_le, UInt8.le_iff_toNat_le] at hc
  have hlo : 48 ≤ c.toNat := hc.1
  have hhi : c.toNat ≤ 57 := hc.2
  refine ⟨?_, ?_, ?_⟩
  · rw [isSpace, Bool.or_eq_false_iff, Bool.and_eq_false_iff, decide_eq_false_iff_not, decide_eq_false_iff_not,
      decide_eq_false_iff_not, UInt8.le_iff_toNat_le, UInt8.le_iff_toNat_le]
    refine ⟨?_, .inr ?_⟩
    · rintro rfl
      exact absurd hlo (by decide)
    · show ¬ c.toNat ≤ 13
      omega
  · rintro rfl
    exact absurd hlo (by decide)
  · rintro rfl
    exact absurd hlo (by decide)

/-- Digits have no space or sign in front. -/
theorem scanSign_digits (hne : ds ≠ []) (hds : ∀ c ∈ ds, isDigit c = true) (rest : List UInt8) :
    (ds ++ rest).dropWhile isSpace = ds ++ rest ∧ scanSign (ds ++ rest) = (false, ds ++ rest) := by
  obtain ⟨c, s, rfl⟩ := List.exists_cons_of_ne_nil hne
  obtain ⟨hspace, hminus, hplus⟩ := isDigit_plain (hds c List.mem_cons_self)
  rw [List.cons_append]
  constructor
  · rw [List.dropWhile_cons_of_neg (by simp [hspace])]
  · rw [scanSign, if_neg hminus, if_neg hplus]

theorem scanInt_digits (hne : ds ≠ []) (hds : ∀ c ∈ ds, isDigit c = true)
    (hrest : EndsNumber rest) : scanInt (ds ++ rest) = ((digitsValue ds : ℤ), rest) := by
  obtain ⟨hdigits, hbehind⟩ := takeWhile_digits hds hrest
  obtain ⟨hspace, hsign⟩ := scanSign_digits hne hds rest
  rw [scanInt, hspace, hsign]
  simp only [hdigits, hbehind, hne, if_false, Bool.false_eq_true]

theorem strtoul_digits (hne : ds ≠ []) (hds : ∀ c ∈ ds, isDigit c = true)
    (hsize : digitsValue ds < 2 ^ 64) (hrest : EndsNumber rest) : strtoul (ds ++ rest) = (digitsValue ds, rest) := by
  rw [strtoul, scanInt_digits hne hds hrest]
  simp only [Int.natAbs_natCast, hsize, if_true]
  congr 1
  omega

/-- **The text of a number is read back**, whatever stands behind it. -/
theorem scanInt_signedDecimal (z : ℤ) (hrest : EndsNumber rest) : scanInt (signedDecimal z ++ rest) = (z, rest) := by
  obtain ⟨hdigits, hbehind⟩ := takeWhile_digits (isDigit_decimal (n := z.natAbs)) hrest
  have hne := decimal_ne_nil z.natAbs
  rw [signedDecimal]
  split_ifs with hz
  · have hminus : scanSign ((45 :: decimal z.natAbs ++ rest).dropWhile isSpace) =
        (true, decimal z.natAbs ++ rest) := rfl
    rw [scanInt, hminus]
    simp only [hdigits, hbehind, hne, if_false, if_true, digitsValue_decimal]
    congr 1
    omega
  · rw [scanInt_digits hne isDigit_decimal hrest, digitsValue_decimal]
    congr 1
    omega

theorem signedDecimal_natCast (n : ℕ) : signedDecimal n = decimal n := by
  rw [signedDecimal, if_neg (by omega), Int.natAbs_natCast]

theorem strtoul_decimal {n : ℕ} (hn : n < 2 ^ 64) (hrest : EndsNumber rest) :
    strtoul (decimal n ++ rest) = (n, rest) := by
  have hvalue := digitsValue_decimal n
  rw [strtoul_digits (decimal_ne_nil n) isDigit_decimal (by omega) hrest, hvalue]

theorem strtol_signedDecimal {z : ℤ} (hlo : -2 ^ 63 ≤ z) (hhi : z < 2 ^ 63) : (strtol (signedDecimal z)).1 = z := by
  have hscan := scanInt_signedDecimal z endsNumber_nil
  rw [List.append_nil] at hscan
  rw [strtol, hscan]
  show max _ (min z _) = z
  omega

theorem mem_signedDecimal {z : ℤ} {c : UInt8} (hc : c ∈ signedDecimal z) : isDigit c = true ∨ c = 45 := by
  rw [signedDecimal] at hc
  split_ifs at hc with hz
  · rcases List.mem_cons.mp hc with hminus | hc
    · exact .inr hminus
    · exact .inl (isDigit_decimal c hc)
  · exact .inl (isDigit_decimal c hc)

/-! ## Numbers of fixed width -/

/-- An `int` is read back by `atoi`. -/
theorem atoi_signedDecimal (x : BitVec 32) : atoi (signedDecimal x.toInt) = x := by
  have hlo := x.le_toInt
  have hhi := x.toInt_lt
  rw [atoi, strtol_signedDecimal (by omega) (by omega), BitVec.ofInt_toInt]

/-- An `unsigned int` is read back by `atoi` too, since a `long` is wider. -/
theorem atoi_decimal (x : BitVec 32) : atoi (decimal x.toNat) = x := by
  have hx := x.isLt
  rw [atoi, ← signedDecimal_natCast, strtol_signedDecimal (by omega) (by omega), BitVec.ofInt_natCast,
    BitVec.ofNat_toNat, BitVec.setWidth_eq]

theorem atoll_signedDecimal (x : BitVec 64) : atoll (signedDecimal x.toInt) = x := by
  have hlo := x.le_toInt
  have hhi := x.toInt_lt
  rw [atoll, strtol_signedDecimal (by omega) (by omega), BitVec.ofInt_toInt]

end Zcp.Lib
