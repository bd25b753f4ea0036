import Mathlib.Data.Set.Image
import Mathlib.Data.Set.Finite.Basic
import Mathlib.Order.WellFounded
import Mathlib.Data.BitVec
import Mathlib.Algebra.Order.Ring.Nat

/-!
# Comparators that order a set

A comparator need not be an order on all values: it orders a set when it is antisymmetric and transitive
there. `ordersOn_then_iff` and `ordersOn_compareLex_iff` say which sets a comparator by several keys
orders, and `ordersOn_diff_iff` when the difference of numbers of a fixed width orders them.
-/

namespace Zcp.Lib

open Std (TransCmp OrientedCmp ReflCmp TransOrd)

variable {α β : Type*}

/-- A comparator orders the values of a set. -/
structure OrdersOn (c : α → α → Ordering) (S : Set α) : Prop where
  swap : ∀ a ∈ S, ∀ b ∈ S, c a b = (c b a).swap
  trans : ∀ a ∈ S, ∀ b ∈ S, ∀ d ∈ S, (c a b).isLE → (c b d).isLE → (c a d).isLE

section Orders

variable {c : α → α → Ordering} {S T : Set α}

theorem OrdersOn.mono (h : OrdersOn c T) (hsub : S ⊆ T) : OrdersOn c S where
  swap a ha b hb := h.swap a (hsub ha) b (hsub hb)
  trans a ha b hb d hd := h.trans a (hsub ha) b (hsub hb) d (hsub hd)

theorem OrdersOn.of_transCmp (h : TransCmp c) : OrdersOn c S where
  swap _ _ _ _ := h.eq_swap
  trans _ _ _ _ _ _ := h.isLE_trans

theorem OrdersOn.of_subset_singleton {a : α} (hS : ∀ x ∈ S, x = a) (ha : c a a = .eq) : OrdersOn c S := by
  constructor
  · intro x hx y hy
    rw [hS x hx, hS y hy, ha]
    rfl
  · intro x hx y hy z hz _ _
    rw [hS x hx, hS z hz, ha]
    rfl

theorem ordersOn_image {c : β → β → Ordering} {f : α → β} :
    OrdersOn c (f '' S) ↔ OrdersOn (fun a b => c (f a) (f b)) S := by
  constructor
  · intro h
    constructor
    · intro a ha b hb
      exact h.swap _ (Set.mem_image_of_mem f ha) _ (Set.mem_image_of_mem f hb)
    · intro a ha b hb d hd
      exact h.trans _ (Set.mem_image_of_mem f ha) _ (Set.mem_image_of_mem f hb) _
        (Set.mem_image_of_mem f hd)
  · intro h
    constructor
    · rintro _ ⟨a, ha, rfl⟩ _ ⟨b, hb, rfl⟩
      exact h.swap a ha b hb
    · rintro _ ⟨a, ha, rfl⟩ _ ⟨b, hb, rfl⟩ _ ⟨d, hd, rfl⟩
      exact h.trans a ha b hb d hd

theorem ordersOn_congr {c' : α → α → Ordering} (h : ∀ a ∈ S, ∀ b ∈ S, c a b = c' a b) :
    OrdersOn c S ↔ OrdersOn c' S := by
  have hle {c c' : α → α → Ordering} (h : ∀ a ∈ S, ∀ b ∈ S, c a b = c' a b) (hc : OrdersOn c S) :
      OrdersOn c' S := by
    constructor
    · intro a ha b hb
      rw [← h a ha b hb, ← h b hb a ha]
      exact hc.swap a ha b hb
    · intro a ha b hb d hd
      rw [← h a ha b hb, ← h b hb d hd, ← h a ha d hd]
      exact hc.trans a ha b hb d hd
  exact ⟨hle h, hle fun a ha b hb => (h a ha b hb).symm⟩

/-- Values that compare as equal are an equivalence. -/
theorem OrdersOn.eq_trans (h : OrdersOn c S) {a b d : α} (ha : a ∈ S) (hb : b ∈ S) (hd : d ∈ S)
    (hab : c a b = .eq) (hbd : c b d = .eq) : c a d = .eq := by
  have hba : c b a = .eq := by rw [h.swap b hb a ha, hab]; rfl
  have hdb : c d b = .eq := by rw [h.swap d hd b hb, hbd]; rfl
  have had : (c a d).isLE := h.trans a ha b hb d hd (by rw [hab]; rfl) (by rw [hbd]; rfl)
  have hda : (c d a).isLE := h.trans d hd b hb a ha (by rw [hdb]; rfl) (by rw [hba]; rfl)
  rw [h.swap d hd a ha] at hda
  cases hcad : c a d with
  | eq => rfl
  | lt => rw [hcad] at hda; cases hda
  | gt => rw [hcad] at had; cases had

theorem OrdersOn.refl (h : OrdersOn c S) {a : α} (ha : a ∈ S) : c a a = .eq := by
  have hswap := h.swap a ha a ha
  cases hc : c a a with
  | eq => rfl
  | lt => rw [hc] at hswap; cases hswap
  | gt => rw [hc] at hswap; cases hswap

/-- One of the steps is strict, so is the whole. -/
theorem OrdersOn.lt_trans (h : OrdersOn c S) {a b d : α} (ha : a ∈ S) (hb : b ∈ S) (hd : d ∈ S)
    (hab : (c a b).isLE) (hbd : (c b d).isLE) (hlt : c a b = .lt ∨ c b d = .lt) : c a d = .lt := by
  have had := h.trans a ha b hb d hd hab hbd
  cases hcad : c a d with
  | lt => rfl
  | gt => rw [hcad] at had; cases had
  | eq =>
    -- going back from `d` to `a` would close a cycle
    have hda : c d a = .eq := by rw [h.swap d hd a ha, hcad]; rfl
    rcases hlt with hlt | hlt
    · have hba := h.trans b hb d hd a ha hbd (by rw [hda]; rfl)
      rw [h.swap b hb a ha, hlt] at hba
      cases hba
    · have hdb := h.trans d hd a ha b hb (by rw [hda]; rfl) hab
      rw [h.swap d hd b hb, hlt] at hdb
      cases hdb

/-- A finite set that is ordered has a least value. -/
theorem OrdersOn.exists_le (h : OrdersOn c S) (hfinite : S.Finite) (hne : S.Nonempty) :
    ∃ m ∈ S, ∀ a ∈ S, (c m a).isLE := by
  induction S, hfinite using Set.Finite.induction_on with
  | empty => exact absurd hne Set.not_nonempty_empty
  | @insert a T _ _ ih =>
    have hrest := h.mono (Set.subset_insert a T)
    have ha := Set.mem_insert a T
    rcases T.eq_empty_or_nonempty with rfl | hne
    · refine ⟨a, ha, fun b hb => ?_⟩
      obtain rfl : b = a := by simpa using hb
      rw [h.refl ha]
      rfl
    · obtain ⟨m, hm, hle⟩ := ih hrest hne
      have hm' := Set.mem_insert_of_mem a hm
      by_cases hma : (c m a).isLE
      · refine ⟨m, hm', fun b hb => ?_⟩
        rcases hb with rfl | hb
        · exact hma
        · exact hle b hb
      · have ham : (c a m).isLE := by
          rw [h.swap a ha m hm', Ordering.isLE_swap]
          cases hcma : c m a <;> simp_all
        refine ⟨a, ha, fun b hb => ?_⟩
        rcases hb with rfl | hb
        · rw [h.refl ha]
          rfl
        · exact h.trans a ha m hm' b (Set.mem_insert_of_mem a hb) ham (hle b hb)

/-! ## Several keys -/

/-- Values that compare as equal compare alike. -/
structure RespectsEq (c : α → α → Ordering) : Prop where
  refl : ∀ a, c a a = .eq
  symm : ∀ {a b}, c a b = .eq → c b a = .eq
  left : ∀ {a b} d, c a b = .eq → c a d = c b d
  right : ∀ {a b} d, c a b = .eq → c d a = c d b

theorem RespectsEq.of_eq_iff (h : ∀ a b, c a b = .eq ↔ a = b) : RespectsEq c where
  refl a := (h a a).mpr rfl
  symm hab := (h _ _).mpr ((h _ _).mp hab).symm
  left d hab := by rw [(h _ _).mp hab]
  right d hab := by rw [(h _ _).mp hab]

theorem RespectsEq.of_transCmp (h : TransCmp c) : RespectsEq c where
  refl _ := ReflCmp.compare_self
  symm hab := OrientedCmp.eq_symm hab
  left _ hab := TransCmp.congr_left hab
  right _ hab := TransCmp.congr_right hab

theorem RespectsEq.comp {c : β → β → Ordering} (h : RespectsEq c) (f : α → β) :
    RespectsEq fun a b => c (f a) (f b) where
  refl a := h.refl (f a)
  symm hab := h.symm hab
  left d hab := h.left (f d) hab
  right d hab := h.right (f d) hab

/-- A comparator by two keys orders a set when the first key does and the second one does among values
of the same first key. -/
theorem ordersOn_then_iff {c₁ c₂ : α → α → Ordering} (h₁ : RespectsEq c₁) :
    OrdersOn (fun a b => (c₁ a b).then (c₂ a b)) S ↔
      OrdersOn c₁ S ∧ ∀ x ∈ S, OrdersOn c₂ {a ∈ S | c₁ x a = .eq} := by
  have hsame {x a b : α} (ha : c₁ x a = .eq) (hb : c₁ x b = .eq) : c₁ a b = .eq :=
    (h₁.left b (h₁.symm ha)).trans hb
  constructor
  · intro h
    -- the first comparison is symmetric by itself: else one side of the whole one would be decided by it alone
    have hswap {a b : α} (ha : a ∈ S) (hb : b ∈ S) : c₁ a b = (c₁ b a).swap := by
      have hab := h.swap a ha b hb
      rw [Ordering.swap_then] at hab
      cases hcab : c₁ a b with
      | eq => rw [h₁.symm hcab]; rfl
      | lt =>
        cases hcba : c₁ b a with
        | eq => rw [h₁.symm hcba] at hcab; cases hcab
        | lt => rw [hcab, hcba] at hab; cases hab
        | gt => rfl
      | gt =>
        cases hcba : c₁ b a with
        | eq => rw [h₁.symm hcba] at hcab; cases hcab
        | lt => rfl
        | gt => rw [hcab, hcba] at hab; cases hab
    refine ⟨⟨fun a ha b hb => hswap ha hb, fun a ha b hb d hd hab hbd => ?_⟩, fun x hx => ?_⟩
    · rcases Ordering.isLE_iff_eq_lt_or_eq_eq.mp hab with hab | hab
      · rcases Ordering.isLE_iff_eq_lt_or_eq_eq.mp hbd with hbd | hbd
        · have had : ((c₁ a d).then (c₂ a d)).isLE := by
            refine h.trans a ha b hb d hd ?_ ?_
            · rw [hab]
              rfl
            · rw [hbd]
              rfl
          exact Ordering.isLE_left_of_isLE_then had
        · rw [← h₁.right a hbd, hab]
          rfl
      · rw [h₁.left d hab]
        exact hbd
    · -- on values that are equal for the first comparison, the whole one is the second
      have hthen {a b : α} (ha : c₁ x a = .eq) (hb : c₁ x b = .eq) :
          (c₁ a b).then (c₂ a b) = c₂ a b := by
        rw [hsame ha hb]
        rfl
      constructor
      · rintro a ⟨ha, hxa⟩ b ⟨hb, hxb⟩
        rw [← hthen hxa hxb, ← hthen hxb hxa]
        exact h.swap a ha b hb
      · rintro a ⟨ha, hxa⟩ b ⟨hb, hxb⟩ d ⟨hd, hxd⟩
        rw [← hthen hxa hxb, ← hthen hxb hxd, ← hthen hxa hxd]
        exact h.trans a ha b hb d hd
  · rintro ⟨hfirst, hsecond⟩
    constructor
    · intro a ha b hb
      rw [Ordering.swap_then, ← hfirst.swap a ha b hb]
      cases hab : c₁ a b with
      | lt => rfl
      | gt => rfl
      | eq => exact (hsecond a ha).swap a ⟨ha, h₁.refl a⟩ b ⟨hb, hab⟩
    · intro a ha b hb d hd hab hbd
      have hfirst_ab := Ordering.isLE_left_of_isLE_then hab
      have hfirst_bd := Ordering.isLE_left_of_isLE_then hbd
      -- a strict step in the first comparison decides; without one all three values are equal for it
      by_cases hlt : c₁ a b = .lt ∨ c₁ b d = .lt
      · rw [hfirst.lt_trans ha hb hd hfirst_ab hfirst_bd hlt]
        rfl
      · have heq {o : Ordering} (ho : o.isLE) (hno : o ≠ .lt) : o = .eq := by
          cases o <;> simp_all
        have hcab := heq hfirst_ab fun h => hlt (.inl h)
        have hcbd := heq hfirst_bd fun h => hlt (.inr h)
        have hcad : c₁ a d = .eq := (h₁.left d hcab).trans hcbd
        rw [hcab] at hab
        rw [hcbd] at hbd
        rw [hcad]
        exact (hsecond a ha).trans a ⟨ha, h₁.refl a⟩ b ⟨hb, hcab⟩ d ⟨hd, hcad⟩ hab hbd

end Orders

/-! ## Lists -/

section Lists

variable {c : α → α → Ordering} {S : Set (List α)}

/-- The values that follow a prefix in some lists, where the values of the prefix may be related ones. -/
def nextValues (r : α → α → Prop) (S : Set (List α)) (p : List α) : Set α :=
  {x | ∃ q rest, q ++ x :: rest ∈ S ∧ List.Forall₂ r p q}

theorem nextValues_nil {r : α → α → Prop} : nextValues r S [] = {x | ∃ rest, x :: rest ∈ S} := by
  ext x
  constructor
  · rintro ⟨q, rest, hmem, hq⟩
    cases hq
    exact ⟨rest, hmem⟩
  · rintro ⟨rest, hmem⟩
    exact ⟨[], rest, hmem, .nil⟩

theorem nextValues_cons {r : α → α → Prop} (y : α) (p : List α) :
    nextValues r S (y :: p) = nextValues r {l | ∃ a, r y a ∧ a :: l ∈ S} p := by
  ext x
  constructor
  · rintro ⟨q, rest, hmem, hq⟩
    cases hq with
    | cons hya hq => exact ⟨_, rest, ⟨_, hya, hmem⟩, hq⟩
  · rintro ⟨q, rest, ⟨a, hya, hmem⟩, hq⟩
    exact ⟨a :: q, rest, hmem, .cons hya hq⟩

theorem OrdersOn.of_empty {γ : Type*} {c : γ → γ → Ordering} {S : Set γ} (hS : ∀ a, a ∉ S) :
    OrdersOn c S := ⟨fun a ha => absurd ha (hS a), fun a ha => absurd ha (hS a)⟩

/-- A comparator orders lists of one length when it orders the values that follow each prefix. -/
theorem ordersOn_compareLex_iff (hc : RespectsEq c) {n : ℕ} (hS : ∀ l ∈ S, l.length = n) :
    OrdersOn (List.compareLex c) S ↔ ∀ p, OrdersOn c (nextValues (fun a b => c a b = .eq) S p) := by
  induction n generalizing S with
  | zero =>
    have hnil : ∀ l ∈ S, l = [] := fun l hl => List.eq_nil_of_length_eq_zero (hS l hl)
    refine ⟨fun _ p => OrdersOn.of_empty ?_, fun _ => OrdersOn.of_subset_singleton hnil rfl⟩
    rintro x ⟨q, rest, hmem, -⟩
    have hlength := hS _ hmem
    rw [List.length_append, List.length_cons] at hlength
    omega
  | succ n ih =>
    -- the lists by their first values and the rest
    have himage : S = (fun q : α × List α => q.1 :: q.2) '' {q | q.1 :: q.2 ∈ S} := by
      ext l
      constructor
      · intro hl
        cases l with
        | nil => cases hS [] hl
        | cons a l => exact ⟨(a, l), hl, rfl⟩
      · rintro ⟨q, hq, rfl⟩
        exact hq
    have hheads : OrdersOn (fun q q' : α × List α => c q.1 q'.1) {q | q.1 :: q.2 ∈ S} ↔
        OrdersOn c (nextValues (fun a b => c a b = .eq) S []) := by
      rw [← ordersOn_image (f := Prod.fst), nextValues_nil]
      refine iff_of_eq (congrArg _ ?_)
      ext x
      constructor
      · rintro ⟨⟨x, rest⟩, hmem, rfl⟩
        exact ⟨rest, hmem⟩
      · rintro ⟨rest, hmem⟩
        exact ⟨(x, rest), hmem, rfl⟩
    have htails (y : α) : OrdersOn (fun q q' : α × List α => List.compareLex c q.2 q'.2)
        {q ∈ {q : α × List α | q.1 :: q.2 ∈ S} | c y q.1 = .eq} ↔
          ∀ p, OrdersOn c (nextValues (fun a b => c a b = .eq) S (y :: p)) := by
      have hsnd : Prod.snd '' {q ∈ {q : α × List α | q.1 :: q.2 ∈ S} | c y q.1 = .eq} =
          {l | ∃ a, c y a = .eq ∧ a :: l ∈ S} := by
        ext l
        constructor
        · rintro ⟨⟨a, l⟩, ⟨hmem, hya⟩, rfl⟩
          exact ⟨a, hya, hmem⟩
        · rintro ⟨a, hya, hmem⟩
          exact ⟨(a, l), ⟨hmem, hya⟩, rfl⟩
      rw [← ordersOn_image (f := Prod.snd), hsnd, ih]
      · simp only [nextValues_cons]
      · rintro l ⟨a, -, hmem⟩
        exact Nat.succ_injective (hS _ hmem)
    have hpairs : OrdersOn (List.compareLex c) S ↔ OrdersOn (fun q q' : α × List α =>
        (c q.1 q'.1).then (List.compareLex c q.2 q'.2)) {q | q.1 :: q.2 ∈ S} := by
      conv_lhs => rw [himage]
      rw [ordersOn_image]
      simp only [List.compareLex_cons_cons]
    rw [hpairs, ordersOn_then_iff (hc.comp Prod.fst), hheads]
    constructor
    · rintro ⟨hfirst, hrest⟩ p
      cases p with
      | nil => exact hfirst
      | cons y p =>
        by_cases hy : ∃ q : α × List α, q.1 :: q.2 ∈ S ∧ c y q.1 = .eq
        · obtain ⟨q, hq, hyq⟩ := hy
          have hsame : nextValues (fun a b => c a b = .eq) S (y :: p) =
              nextValues (fun a b => c a b = .eq) S (q.1 :: p) := by
            simp only [nextValues_cons, hc.left _ hyq]
          rw [hsame]
          exact (htails q.1).mp (hrest q hq) p
        · refine OrdersOn.of_empty ?_
          rintro x ⟨q, rest, hmem, hq⟩
          cases hq with
          | cons hya hq => exact hy ⟨(_, _), hmem, hya⟩
    · intro h
      exact ⟨h [], fun q _ => (htails q.1).mpr fun p => h (q.1 :: p)⟩

section Sized

variable {γ κ : Type*} {cl : κ → κ → Ordering} {size : γ → κ} {elems : γ → List α} {T : Set γ}

/-- The values that follow a prefix in the members of a set that have some length. -/
def nextElems (r : α → α → Prop) (elems : γ → List α) (T : Set γ) (n : ℕ) (p : List α) : Set α :=
  nextValues r (elems '' {a ∈ T | (elems a).length = n}) p

/-- A comparator by sizes, and for the same size by values. -/
theorem ordersOn_sized_iff (hcl : RespectsEq cl) (hc : RespectsEq c)
    (hsize : ∀ a b, cl (size a) (size b) = .eq ↔ (elems a).length = (elems b).length) :
    OrdersOn (fun a b => (cl (size a) (size b)).then (List.compareLex c (elems a) (elems b))) T ↔
      OrdersOn cl (size '' T) ∧ ∀ n p, OrdersOn c (nextElems (fun a b => c a b = .eq) elems T n p) := by
  have hlists (n : ℕ) : OrdersOn (fun a b => List.compareLex c (elems a) (elems b))
      {a ∈ T | (elems a).length = n} ↔
        ∀ p, OrdersOn c (nextElems (fun a b => c a b = .eq) elems T n p) := by
    rw [← ordersOn_image, ordersOn_compareLex_iff hc (n := n)]
    · rfl
    · rintro _ ⟨a, ha, rfl⟩
      exact ha.2
  rw [ordersOn_then_iff (hcl.comp size), ordersOn_image]
  refine and_congr_right fun _ => ⟨fun h n => ?_, fun h x _ => ?_⟩
  · rw [← hlists]
    by_cases hn : ∃ x ∈ T, (elems x).length = n
    · obtain ⟨x, hx, rfl⟩ := hn
      refine (h x hx).mono fun a ha => ⟨ha.1, ?_⟩
      exact (hsize x a).mpr ha.2.symm
    · exact OrdersOn.of_empty fun a ha => hn ⟨a, ha⟩
  · refine ((hlists (elems x).length).mpr (h _)).mono fun a ha => ⟨ha.1, ?_⟩
    exact ((hsize x a).mp ha.2).symm

end Sized

end Lists

/-! ## Differences of numbers of a fixed width -/

section Differences

variable {w : ℕ}

/-- The sign of the difference of two numbers. -/
def diffCmp (x y : BitVec w) : Ordering := compare (x - y).toInt 0

/-- All numbers are among half of all numbers from some number on. -/
def InWindow (S : Set (BitVec w)) : Prop := ∃ r, ∀ x ∈ S, (x - r).toNat < 2 ^ (w - 1)

theorem diffCmp_eq_eq {x y : BitVec w} : diffCmp x y = .eq ↔ x = y := by
  unfold diffCmp
  rw [Std.compare_eq_iff_eq, ← BitVec.toInt_zero (w := w), BitVec.toInt_inj]
  exact sub_eq_zero

theorem respectsEq_diffCmp : RespectsEq (diffCmp (w := w)) :=
  RespectsEq.of_eq_iff fun _ _ => diffCmp_eq_eq

/-- In a window the difference compares the distances from its start. -/
theorem diffCmp_eq {x y r : BitVec w} (hx : (x - r).toNat < 2 ^ (w - 1))
    (hy : (y - r).toNat < 2 ^ (w - 1)) : diffCmp x y = compare (x - r).toNat (y - r).toNat := by
  unfold diffCmp
  rw [← sub_sub_sub_cancel_right x y r]
  generalize x - r = u at *
  generalize y - r = v at *
  cases w with
  | zero =>
    obtain rfl := Subsingleton.elim u v
    rw [sub_self, Std.compare_self]
    rfl
  | succ w =>
    rw [Nat.add_sub_cancel] at hx hy
    have hpow : 2 ^ (w + 1) = 2 * 2 ^ w := pow_succ' 2 w
    have hdiff : (u - v).toInt = u.toNat - v.toNat := by
      rw [BitVec.toInt_sub, BitVec.toInt_eq_toNat_of_lt (by omega),
        BitVec.toInt_eq_toNat_of_lt (by omega)]
      exact Int.bmod_eq_of_le (by omega) (by omega)
    rw [hdiff]
    rcases lt_trichotomy u.toNat v.toNat with h | h | h
    · rw [compare_lt_iff_lt.mpr h, compare_lt_iff_lt]
      omega
    · rw [h, sub_self, Std.compare_self, Std.compare_self]
    · rw [compare_gt_iff_gt.mpr h, compare_gt_iff_gt]
      omega

/-- Differences order the numbers in a window, and no others. -/
theorem ordersOn_diff_iff {S : Set (BitVec w)} : OrdersOn diffCmp S ↔ InWindow S := by
  constructor
  · intro h
    rcases S.eq_empty_or_nonempty with rfl | hne
    · exact ⟨0, fun x hx => hx.elim⟩
    -- the least number is the start
    have hfinite : Finite (BitVec w) := Finite.of_injective BitVec.toFin fun _ _ => BitVec.eq_of_toFin_eq
    obtain ⟨r, hr, hle⟩ := h.exists_le S.toFinite hne
    refine ⟨r, fun x hx => ?_⟩
    have hge : ¬ (x - r).toInt < 0 := by
      intro hlt
      have hxr : diffCmp x r = .lt := compare_lt_iff_lt.mpr hlt
      have hrx := hle x hx
      rw [h.swap r hr x hx, hxr] at hrx
      cases hrx
    rw [BitVec.toInt_neg_iff, not_le] at hge
    cases w with
    | zero => omega
    | succ w =>
      rw [Nat.add_sub_cancel]
      have hpow : 2 ^ (w + 1) = 2 * 2 ^ w := pow_succ' 2 w
      omega
  · rintro ⟨r, hr⟩
    refine (ordersOn_congr fun x hx y hy => diffCmp_eq (hr x hx) (hr y hy)).mpr ?_
    exact ordersOn_image.mp (OrdersOn.of_transCmp (c := compare) (inferInstanceAs (TransOrd ℕ)))

end Differences

end Zcp.Lib
