import Zcp.Common.PropValues
import Zcp.Lib.Comparator

/-!
# Comparing property values

What `CompareProp` of the server and of the client share: the loops over multi-values, and what it means
that a comparison is an order. `isOrder_iff` turns this into a statement about a comparator of the values
of one type.
-/

namespace Zcp.Common

open Zcp.Lib
open Std (TransCmp TransOrd)

/-! ## Results -/

/-- `memcmp` of memory of the same size. -/
def memcmp (a b : List UInt8) : ℤ :=
  match compare a b with
  | .lt => -1
  | .eq => 0
  | .gt => 1

/-- A `bool` as an `int`. -/
def boolInt (b : Bool) : ℤ := if b then 1 else 0

/-- The comparison of two numbers with a branch for each result. -/
def compareBranches (a b : ℤ) : ℤ := if a = b then 0 else if a < b then -1 else 1

/-- The loop over two multi-values of the same size, which ends at the first difference. -/
def firstDifference {α : Type} (cmp : α → α → ℤ) : List α → List α → ℤ
  | a :: as, b :: bs => if cmp a b ≠ 0 then cmp a b else firstDifference cmp as bs
  | _, _ => 0

/-- The comparison of strings that can be `NULL`: the pointers, when one is. -/
def compareStrings {α : Type} (icompare : α → α → ℤ) (a b : Option α) : ℤ :=
  match a, b with
  | some a, some b => icompare a b
  | none, none => boolInt false
  | _, _ => boolInt true

/-- The number of elements, as the code has it. -/
def Counted.size {w : ℕ} {α : Type} (x : Counted w α) : BitVec w := BitVec.ofNat w x.elems.length

/-- The sign of a result. -/
def sgn (r : ℤ) : Ordering := compare r 0

section Signs

theorem sgn_eq_eq {r : ℤ} : sgn r = .eq ↔ r = 0 := Std.compare_eq_iff_eq

theorem sgn_eq_lt {r : ℤ} : sgn r = .lt ↔ r < 0 := compare_lt_iff_lt

theorem sgn_eq_gt {r : ℤ} : sgn r = .gt ↔ 0 < r := compare_gt_iff_gt

theorem isLE_sgn {r : ℤ} : (sgn r).isLE ↔ r ≤ 0 := by
  rw [← Ordering.ne_gt_iff_isLE, sgn_eq_gt, not_lt]

theorem sgn_eq_swap_iff {r r' : ℤ} : sgn r = (sgn r').swap ↔ r.sign = -r'.sign := by
  unfold sgn
  rcases lt_trichotomy r 0 with h | h | h <;> rcases lt_trichotomy r' 0 with h' | h' | h' <;>
    simp [compare_lt_iff_lt.mpr, compare_gt_iff_gt.mpr, h, h', Int.sign_eq_neg_one_of_neg,
      Int.sign_eq_one_of_pos]

theorem sgn_sub (a b : ℤ) : sgn (a - b) = compare a b := by
  rcases lt_trichotomy a b with h | h | h
  · rw [compare_lt_iff_lt.mpr h, sgn_eq_lt]
    omega
  · rw [h, Std.compare_self, sub_self]
    rfl
  · rw [compare_gt_iff_gt.mpr h, sgn_eq_gt]
    omega

theorem sgn_natSub (a b : ℕ) : sgn ((a : ℤ) - b) = compare a b := by
  rcases lt_trichotomy a b with h | h | h
  · rw [compare_lt_iff_lt.mpr h, sgn_eq_lt]
    omega
  · rw [h, Std.compare_self, sub_self]
    rfl
  · rw [compare_gt_iff_gt.mpr h, sgn_eq_gt]
    omega

theorem sgn_compareBranches (a b : ℤ) : sgn (compareBranches a b) = compare a b := by
  unfold compareBranches
  split_ifs with heq hlt
  · rw [heq, Std.compare_self]
    rfl
  · rw [compare_lt_iff_lt.mpr hlt]
    rfl
  · rw [compare_gt_iff_gt.mpr (by omega)]
    rfl

theorem sgn_memcmp (a b : List UInt8) : sgn (memcmp a b) = compare a b := by
  unfold memcmp
  cases compare a b <;> rfl

theorem sgn_firstDifference {α : Type} {cmp : α → α → ℤ} {as bs : List α} (h : as.length = bs.length) :
    sgn (firstDifference cmp as bs) = List.compareLex (fun a b => sgn (cmp a b)) as bs := by
  induction as generalizing bs with
  | nil =>
    cases bs with
    | nil => rfl
    | cons b bs => cases h
  | cons a as ih =>
    cases bs with
    | nil => cases h
    | cons b bs =>
      rw [firstDifference, List.compareLex_cons_cons]
      split_ifs with hne
      · cases hab : sgn (cmp a b) with
        | eq => exact absurd (sgn_eq_eq.mp hab) hne
        | lt => rfl
        | gt => rfl
      · rw [not_not] at hne
        rw [sgn_eq_eq.mpr hne]
        exact ih (Nat.succ_injective h)

theorem Counted.size_eq_iff {w : ℕ} {α : Type} {x y : Counted w α} :
    x.size = y.size ↔ x.elems.length = y.elems.length := by
  unfold Counted.size
  constructor
  · intro h
    have h := congrArg BitVec.toNat h
    rwa [BitVec.toNat_ofNat, BitVec.toNat_ofNat, Nat.mod_eq_of_lt x.length_lt,
      Nat.mod_eq_of_lt y.length_lt] at h
  · intro h
    rw [h]

end Signs

/-! ## Orders -/

/-- The successful results of a comparison are an order on a set: the sign is antisymmetric and
transitive, and 0 is an equivalence that implies that values are the same. -/
structure IsOrder {γ : Type} (cmp : γ → γ → Option ℤ) (same : γ → γ → Prop) (S : Set γ) : Prop where
  antisymm : ∀ a ∈ S, ∀ b ∈ S, ∀ r r', cmp a b = some r → cmp b a = some r' → r.sign = -r'.sign
  trans : ∀ a ∈ S, ∀ b ∈ S, ∀ d ∈ S, ∀ r r' r'', cmp a b = some r → cmp b d = some r' →
    cmp a d = some r'' → r ≤ 0 → r' ≤ 0 → r'' ≤ 0 ∧ (r < 0 ∨ r' < 0 → r'' < 0)
  refl : ∀ a ∈ S, ∀ r, cmp a a = some r → r = 0
  symm : ∀ a ∈ S, ∀ b ∈ S, ∀ r, cmp a b = some 0 → cmp b a = some r → r = 0
  eq_trans : ∀ a ∈ S, ∀ b ∈ S, ∀ d ∈ S, ∀ r, cmp a b = some 0 → cmp b d = some 0 →
    cmp a d = some r → r = 0
  same : ∀ a ∈ S, ∀ b ∈ S, cmp a b = some 0 → same a b

section IsOrder

variable {β γ δ : Type} {cmp : γ → γ → Option ℤ} {same : γ → γ → Prop} {S T : Set γ}

/-- A comparison whose results are those of a comparator that orders a set. -/
theorem IsOrder.of_ordersOn {c : γ → γ → Ordering} (hc : OrdersOn c S)
    (hcmp : ∀ a ∈ S, ∀ b ∈ S, ∀ r, cmp a b = some r → sgn r = c a b)
    (hsame : ∀ a ∈ S, ∀ b ∈ S, cmp a b = some 0 → same a b) : IsOrder cmp same S where
  antisymm a ha b hb r r' hab hba := by
    rw [← sgn_eq_swap_iff, hcmp a ha b hb r hab, hcmp b hb a ha r' hba]
    exact hc.swap a ha b hb
  trans a ha b hb d hd r r' r'' hab hbd had hr hr' := by
    have hab' := hcmp a ha b hb r hab
    have hbd' := hcmp b hb d hd r' hbd
    have had' := hcmp a ha d hd r'' had
    rw [← isLE_sgn, hab'] at hr
    rw [← isLE_sgn, hbd'] at hr'
    rw [← isLE_sgn, ← sgn_eq_lt, ← sgn_eq_lt, ← sgn_eq_lt, hab', hbd', had']
    exact ⟨hc.trans a ha b hb d hd hr hr', hc.lt_trans ha hb hd hr hr'⟩
  refl a ha r h := by
    rw [← sgn_eq_eq, hcmp a ha a ha r h]
    exact hc.refl ha
  symm a ha b hb r hab hba := by
    have hab := hcmp a ha b hb 0 hab
    rw [← sgn_eq_eq, hcmp b hb a ha r hba, hc.swap b hb a ha, ← hab]
    rfl
  eq_trans a ha b hb d hd r hab hbd had := by
    rw [← sgn_eq_eq, hcmp a ha d hd r had]
    exact hc.eq_trans ha hb hd (hcmp a ha b hb 0 hab).symm (hcmp b hb d hd 0 hbd).symm
  same := hsame

theorem IsOrder.ordersOn (h : IsOrder cmp same S) {c : γ → γ → Ordering} (hsub : T ⊆ S)
    (hcmp : ∀ a ∈ T, ∀ b ∈ T, ∃ r, cmp a b = some r ∧ sgn r = c a b) : OrdersOn c T := by
  constructor
  · intro a ha b hb
    obtain ⟨r, hab, hr⟩ := hcmp a ha b hb
    obtain ⟨r', hba, hr'⟩ := hcmp b hb a ha
    rw [← hr, ← hr', sgn_eq_swap_iff]
    exact h.antisymm a (hsub ha) b (hsub hb) r r' hab hba
  · intro a ha b hb d hd hle hle'
    obtain ⟨r, hab, hr⟩ := hcmp a ha b hb
    obtain ⟨r', hbd, hr'⟩ := hcmp b hb d hd
    obtain ⟨r'', had, hr''⟩ := hcmp a ha d hd
    rw [← hr, isLE_sgn] at hle
    rw [← hr', isLE_sgn] at hle'
    rw [← hr'', isLE_sgn]
    exact (h.trans a (hsub ha) b (hsub hb) d (hsub hd) r r' r'' hab hbd had hle hle').1

/-- The values of one type in a set. -/
def payloads (value : γ → δ) (C : β → δ) (S : Set γ) : Set β := {x | ∃ a ∈ S, value a = C x}

variable {value : γ → δ} {C : β → δ} {c : β → β → Ordering}

/-- A comparison of values of one type that may fail. -/
theorem IsOrder.of_payloads (hC : Function.Injective C) (hS : ∀ a ∈ S, ∃ x, value a = C x)
    (hcmp : ∀ a ∈ S, ∀ b ∈ S, ∀ x y r, value a = C x → value b = C y → cmp a b = some r → sgn r = c x y)
    (hc : OrdersOn c (payloads value C S))
    (hsame : ∀ a ∈ S, ∀ b ∈ S, ∀ x y, value a = C x → value b = C y → c x y = .eq → same a b) :
    IsOrder cmp same S := by
  rcases isEmpty_or_nonempty β with hβ | hβ
  · have hempty : ∀ a, a ∉ S := fun a ha => hβ.elim (hS a ha).choose
    refine IsOrder.of_ordersOn (c := fun _ _ => .eq) (OrdersOn.of_empty hempty) ?_ ?_
    · exact fun a ha => absurd ha (hempty a)
    · exact fun a ha => absurd ha (hempty a)
  choose! payload hpayload using hS
  have hvalues : payloads value C S = payload '' S := by
    ext x
    constructor
    · rintro ⟨a, ha, hax⟩
      exact ⟨a, ha, hC ((hpayload a ha).symm.trans hax)⟩
    · rintro ⟨a, ha, rfl⟩
      exact ⟨a, ha, hpayload a ha⟩
  rw [hvalues, ordersOn_image] at hc
  refine IsOrder.of_ordersOn hc (fun a ha b hb r hab => ?_) fun a ha b hb hab => ?_
  · exact hcmp a ha b hb _ _ r (hpayload a ha) (hpayload b hb) hab
  · refine hsame a ha b hb _ _ (hpayload a ha) (hpayload b hb) ?_
    exact (hcmp a ha b hb _ _ 0 (hpayload a ha) (hpayload b hb) hab).symm

/-- A comparison of values of one type that always succeeds. -/
theorem isOrder_iff {same' : β → β → Prop} (hC : Function.Injective C) (hS : ∀ a ∈ S, ∃ x, value a = C x)
    (hcmp : ∀ a ∈ S, ∀ b ∈ S, ∀ x y, value a = C x → value b = C y → ∃ r, cmp a b = some r ∧ sgn r = c x y)
    (hsame : ∀ a b x y, value a = C x → value b = C y → (same a b ↔ same' x y)) :
    IsOrder cmp same S ↔ OrdersOn c (payloads value C S) ∧
      ∀ x ∈ payloads value C S, ∀ y ∈ payloads value C S, c x y = .eq → same' x y := by
  constructor
  · intro h
    refine ⟨?_, ?_⟩
    · constructor
      · rintro x ⟨a, ha, hax⟩ y ⟨b, hb, hby⟩
        obtain ⟨r, hab, hr⟩ := hcmp a ha b hb x y hax hby
        obtain ⟨r', hba, hr'⟩ := hcmp b hb a ha y x hby hax
        rw [← hr, ← hr', sgn_eq_swap_iff]
        exact h.antisymm a ha b hb r r' hab hba
      · rintro x ⟨a, ha, hax⟩ y ⟨b, hb, hby⟩ z ⟨d, hd, hdz⟩ hle hle'
        obtain ⟨r, hab, hr⟩ := hcmp a ha b hb x y hax hby
        obtain ⟨r', hbd, hr'⟩ := hcmp b hb d hd y z hby hdz
        obtain ⟨r'', had, hr''⟩ := hcmp a ha d hd x z hax hdz
        rw [← hr, isLE_sgn] at hle
        rw [← hr', isLE_sgn] at hle'
        rw [← hr'', isLE_sgn]
        exact (h.trans a ha b hb d hd r r' r'' hab hbd had hle hle').1
    · rintro x ⟨a, ha, hax⟩ y ⟨b, hb, hby⟩ heq
      obtain ⟨r, hab, hr⟩ := hcmp a ha b hb x y hax hby
      rw [heq, sgn_eq_eq] at hr
      exact (hsame a b x y hax hby).mp (h.same a ha b hb (hr ▸ hab))
  · rintro ⟨hc, hsame'⟩
    have hresult : ∀ a ∈ S, ∀ b ∈ S, ∀ x y r, value a = C x → value b = C y → cmp a b = some r →
        sgn r = c x y := by
      intro a ha b hb x y r hax hby hab
      obtain ⟨r', hab', hr'⟩ := hcmp a ha b hb x y hax hby
      rw [hab] at hab'
      rwa [Option.some.inj hab']
    exact IsOrder.of_payloads hC hS hresult hc fun a ha b hb x y hax hby heq =>
      (hsame a b x y hax hby).mpr (hsame' x ⟨a, ha, hax⟩ y ⟨b, hb, hby⟩ heq)

end IsOrder

/-- Lists compare as equal when their elements do. -/
theorem compareLex_eq_eq_iff {α : Type} {c : α → α → Ordering} {as bs : List α} :
    List.compareLex c as bs = .eq ↔ List.Forall₂ (fun a b => c a b = .eq) as bs := by
  induction as generalizing bs with
  | nil =>
    cases bs with
    | nil => exact iff_of_true rfl .nil
    | cons b bs => exact iff_of_false (by rintro ⟨⟩) (by rintro ⟨⟩)
  | cons a as ih =>
    cases bs with
    | nil => exact iff_of_false (by rintro ⟨⟩) (by rintro ⟨⟩)
    | cons b bs => rw [List.compareLex_cons_cons, Ordering.then_eq_eq, ih, List.forall₂_cons]

/-! ## Comparators of values -/

section Values

variable {α : Type} {S : Set α}

theorem ordersOn_compare {κ : Type} [Ord κ] [TransOrd κ] (key : α → κ) :
    OrdersOn (fun a b => compare (key a) (key b)) S :=
  ordersOn_image.mp (OrdersOn.of_transCmp inferInstance)

theorem respectsEq_compare {κ : Type} [Ord κ] [TransOrd κ] (key : α → κ) :
    RespectsEq fun a b => compare (key a) (key b) :=
  (RespectsEq.of_transCmp inferInstance).comp key

/-- All strings are `NULL`, or none is. -/
def NullsAlike (S : Set (Option α)) : Prop := ∀ a ∈ S, ∀ b ∈ S, a.isSome = b.isSome

/-- Two strings are equal for a comparison, or both are `NULL`. -/
def SameString (icompare : α → α → ℤ) : Option α → Option α → Prop
  | some a, some b => icompare a b = 0
  | none, none => True
  | _, _ => False

variable {icompare : α → α → ℤ}

theorem sgn_compareStrings_eq_eq {a b : Option α} :
    sgn (compareStrings icompare a b) = .eq ↔ SameString icompare a b := by
  cases a with
  | none =>
    cases b with
    | none => exact iff_of_true rfl trivial
    | some b => exact iff_of_false (by rintro ⟨⟩) id
  | some a =>
    cases b with
    | none => exact iff_of_false (by rintro ⟨⟩) id
    | some b => exact sgn_eq_eq

theorem respectsEq_compareStrings (h : TransCmp fun a b => sgn (icompare a b)) :
    RespectsEq fun a b => sgn (compareStrings icompare a b) := by
  have hc := RespectsEq.of_transCmp h
  refine ⟨fun a => ?_, fun {a b} hab => ?_, fun {a b} d hab => ?_, fun {a b} d hab => ?_⟩
  · cases a with
    | none => rfl
    | some a => exact hc.refl a
  all_goals
    rw [sgn_compareStrings_eq_eq] at hab
    cases a <;> cases b <;> first | exact hab.elim | skip
  · rfl
  · exact hc.symm (sgn_eq_eq.mpr hab)
  · rfl
  · cases d with
    | none => rfl
    | some d => exact hc.left d (sgn_eq_eq.mpr hab)
  · rfl
  · cases d with
    | none => rfl
    | some d => exact hc.right d (sgn_eq_eq.mpr hab)

/-- A `NULL` string is greater than any other one, and smaller. -/
theorem ordersOn_compareStrings_iff (h : TransCmp fun a b => sgn (icompare a b)) {S : Set (Option α)} :
    OrdersOn (fun a b => sgn (compareStrings icompare a b)) S ↔ NullsAlike S := by
  constructor
  · intro hc a ha b hb
    have hswap := hc.swap a ha b hb
    cases a with
    | none =>
      cases b with
      | none => rfl
      | some b => cases hswap
    | some a =>
      cases b with
      | none => cases hswap
      | some b => rfl
  · intro hnulls
    by_cases hnone : none ∈ S
    · refine OrdersOn.of_subset_singleton (a := none) (fun a ha => ?_) rfl
      have hisSome := hnulls a ha none hnone
      cases a with
      | none => rfl
      | some a => cases hisSome
    · have himage : S = some '' {a | some a ∈ S} := by
        ext a
        cases a with
        | none => simp [hnone]
        | some a => simp
      rw [himage, ordersOn_image]
      exact OrdersOn.of_transCmp h

/-- The difference of numbers orders them in a window. -/
theorem ordersOn_sgn_sub_iff {w : ℕ} {f : α → BitVec w} :
    OrdersOn (fun a b => sgn (f a - f b).toInt) S ↔ InWindow (f '' S) := by
  rw [← ordersOn_diff_iff, ordersOn_image]
  rfl

theorem sgn_toInt_sub_eq_eq {w : ℕ} {x y : BitVec w} : sgn (x - y).toInt = .eq ↔ x = y :=
  diffCmp_eq_eq

end Values

end Zcp.Common
