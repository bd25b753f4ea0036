import Mathlib.Data.List.Sort
import Mathlib.Order.Basic

/-!
# Lexicographic comparison with one comparator per position

`lexBy cmp` compares two lists position by position with the comparator of that position; a list
that runs out first is the smaller one. It is a total preorder when every comparator is one, also
when some positions compare in reverse. The second half is about lists kept in order of such a
comparator: `List.orderedInsert` with the strict comparison puts a new value behind all values that
are not greater, and a value that is neither smaller nor greater can replace another in place.
-/

namespace Zcp.Lib

open Std

variable {α : Type*}

/-- Compare position by position; the shorter list is smaller when it is a prefix. -/
def lexBy (cmp : ℕ → α → α → Ordering) : List α → List α → Ordering
  | [], [] => .eq
  | [], _ :: _ => .lt
  | _ :: _, [] => .gt
  | a :: as, b :: bs => (cmp 0 a b).then (lexBy (fun i => cmp (i + 1)) as bs)

@[simp] theorem lexBy_nil_nil (cmp : ℕ → α → α → Ordering) : lexBy cmp [] [] = .eq := rfl

@[simp] theorem lexBy_nil_cons (cmp : ℕ → α → α → Ordering) (b : α) (bs : List α) :
    lexBy cmp [] (b :: bs) = .lt := rfl

@[simp] theorem lexBy_cons_nil (cmp : ℕ → α → α → Ordering) (a : α) (as : List α) :
    lexBy cmp (a :: as) [] = .gt := rfl

@[simp] theorem lexBy_cons_cons (cmp : ℕ → α → α → Ordering) (a b : α) (as bs : List α) :
    lexBy cmp (a :: as) (b :: bs) = (cmp 0 a b).then (lexBy (fun i => cmp (i + 1)) as bs) := rfl

private theorem lexBy_swap (as bs : List α) (cmp : ℕ → α → α → Ordering)
    (h : ∀ i, OrientedCmp (cmp i)) : lexBy cmp as bs = (lexBy cmp bs as).swap := by
  induction as generalizing bs cmp with
  | nil => cases bs <;> rfl
  | cons a as ih =>
    cases bs with
    | nil => rfl
    | cons b bs =>
      rw [lexBy_cons_cons, lexBy_cons_cons, Ordering.swap_then, ih _ _ fun i => h (i + 1),
        ← (h 0).eq_swap]

private theorem then_isLE_trans {o₁ o₂ o₃ p₁ p₂ p₃ : Ordering}
    (hlt : o₁.isLE → o₂.isLE → o₃.isLE) (heq : o₃ = .eq → o₁.isLE → o₂.isLE → o₁ = .eq ∧ o₂ = .eq)
    (hp : p₁.isLE → p₂.isLE → p₃.isLE) (h₁ : (o₁.then p₁).isLE) (h₂ : (o₂.then p₂).isLE) :
    (o₃.then p₃).isLE := by
  cases o₁ <;> cases o₂ <;> cases o₃ <;> simp_all [Ordering.then]

private theorem lexBy_trans (as bs cs : List α) (cmp : ℕ → α → α → Ordering)
    (h : ∀ i, TransCmp (cmp i)) (h₁ : (lexBy cmp as bs).isLE) (h₂ : (lexBy cmp bs cs).isLE) :
    (lexBy cmp as cs).isLE := by
  induction as generalizing bs cs cmp with
  | nil => cases cs <;> rfl
  | cons a as ih =>
    match bs, cs, h₁, h₂ with
    | b :: bs, c :: cs, h₁, h₂ =>
      have h0 := h 0
      rw [lexBy_cons_cons] at h₁ h₂ ⊢
      refine then_isLE_trans TransCmp.isLE_trans ?_ (ih bs cs _ fun i => h (i + 1)) h₁ h₂
      intro hac hab hbc
      have hba : (cmp 0 b a).isLE :=
        TransCmp.isLE_trans hbc (by rw [OrientedCmp.eq_symm hac]; rfl)
      have hcb : (cmp 0 c b).isLE :=
        TransCmp.isLE_trans (by rw [OrientedCmp.eq_symm hac]; rfl) hab
      exact ⟨OrientedCmp.isLE_antisymm hab hba, OrientedCmp.isLE_antisymm hbc hcb⟩

/-- A lexicographic comparison of total preorders is a total preorder. -/
theorem lexBy_transCmp {cmp : ℕ → α → α → Ordering} (h : ∀ i, TransCmp (cmp i)) : TransCmp (lexBy cmp) where
  eq_swap := lexBy_swap _ _ cmp fun i => (h i).toOrientedCmp
  isLE_trans := lexBy_trans _ _ _ cmp h

/-! ## Lists in order of a comparator -/

section Sorted

variable (lt : α → α → Bool)

/-- `lt` is a strict weak order on the values satisfying `ok`. -/
structure StrictWeakOn (ok : α → Prop) : Prop where
  asymm : ∀ {a b}, ok a → ok b → lt a b → ¬ lt b a
  negTrans : ∀ {a b c}, ok a → ok b → ok c → ¬ lt a b → ¬ lt b c → ¬ lt a c

/-- No value is smaller than one before it. -/
def NonDecreasing (l : List α) : Prop := l.Pairwise fun a b => ¬ lt b a

variable {lt} {ok : α → Prop}

/-- The strict part of a total preorder is a strict weak order. -/
theorem StrictWeakOn.of_transCmp {cmp : α → α → Ordering} (hc : TransCmp cmp)
    (h : ∀ {a b}, ok a → ok b → (lt a b ↔ cmp a b = .lt)) : StrictWeakOn lt ok where
  asymm ha hb hab hba := by
    rw [h ha hb] at hab
    rw [h hb ha, hc.eq_swap, hab] at hba
    cases hba
  negTrans {a b c} ha hb hc' hab hbc := by
    have hle {x y : α} (hx : ok x) (hy : ok y) (hxy : ¬ lt x y) : (cmp y x).isLE := by
      rw [h hx hy] at hxy
      rw [hc.eq_swap]
      cases hxy' : cmp x y <;> simp_all
    have hca : (cmp c a).isLE := TransCmp.isLE_trans (hle hb hc' hbc) (hle ha hb hab)
    rw [h ha hc']
    intro hac
    rw [hc.eq_swap, hac] at hca
    cases hca

theorem StrictWeakOn.lt_of_lt_of_not_lt (h : StrictWeakOn lt ok) {a b c : α} (ha : ok a)
    (hb : ok b) (hc : ok c) (hab : lt a b) (hcb : ¬ lt c b) : lt a c := by
  by_contra hac
  exact h.negTrans ha hc hb hac hcb hab

theorem StrictWeakOn.lt_of_not_lt_of_lt (h : StrictWeakOn lt ok) {a b c : α} (ha : ok a)
    (hb : ok b) (hc : ok c) (hba : ¬ lt b a) (hbc : lt b c) : lt a c := by
  by_contra hac
  exact h.negTrans hb ha hc hba hac hbc

/-- In a list in order, the values greater than `a` come last. -/
theorem NonDecreasing.pairwise_lt (h : StrictWeakOn lt ok) {a : α} (ha : ok a) {l : List α}
    (hl : ∀ x ∈ l, ok x) (hs : NonDecreasing lt l) : l.Pairwise fun x y => lt a x → lt a y := by
  refine List.Pairwise.imp_of_mem ?_ hs
  intro x y hx hy hyx hax
  exact h.lt_of_lt_of_not_lt ha (hl x hx) (hl y hy) hax hyx

theorem orderedInsert_eq_takeWhile (a : α) (l : List α) : l.orderedInsert (fun x y => lt x y) a =
      l.takeWhile (fun x => !lt a x) ++ a :: l.dropWhile (fun x => !lt a x) := by
  rw [List.orderedInsert_eq_take_drop]
  congr 2
  · funext x; simp
  · congr 1; funext x; simp

/-- Inserting behind all values that are not greater keeps the order. -/
theorem NonDecreasing.insert (h : StrictWeakOn lt ok) {a : α} (ha : ok a) {l : List α}
    (hl : ∀ x ∈ l, ok x) (hs : NonDecreasing lt l) : NonDecreasing lt (l.orderedInsert (fun x y => lt x y) a) := by
  induction l with
  | nil => exact List.pairwise_singleton _ _
  | cons x l ih =>
    obtain ⟨hx, hs⟩ := List.pairwise_cons.mp hs
    have hokx : ok x := hl x (by simp)
    have hokl : ∀ y ∈ l, ok y := fun y hy => hl y (List.mem_cons_of_mem _ hy)
    rw [List.orderedInsert]
    split_ifs with hax
    · refine List.pairwise_cons.mpr ⟨?_, List.pairwise_cons.mpr ⟨hx, hs⟩⟩
      intro y hy
      rcases List.mem_cons.mp hy with rfl | hy
      · exact h.asymm ha hokx hax
      · exact h.asymm ha (hokl y hy) (h.lt_of_lt_of_not_lt ha hokx (hokl y hy) hax (hx y hy))
    · refine List.pairwise_cons.mpr ⟨?_, ih hokl hs⟩
      intro y hy
      rcases (List.mem_orderedInsert _).mp hy with rfl | hy
      · exact hax
      · exact hx y hy

theorem NonDecreasing.sublist {l₁ l₂ : List α} (hsub : l₁.Sublist l₂) (hs : NonDecreasing lt l₂) :
    NonDecreasing lt l₁ :=
  List.Pairwise.sublist hsub hs

end Sorted

/-- Lists compare as less when they are less in the order of lists. -/
theorem compare_list_eq_lt [Ord α] [LT α] [LawfulLTOrd α] [LawfulEqOrd α] {a b : List α} :
    compare a b = .lt ↔ a < b := by
  induction a generalizing b with
  | nil => cases b <;> simp
  | cons x a ih =>
    cases b with
    | nil => simp
    | cons y b =>
      rw [List.compare_cons_cons, List.cons_lt_cons_iff, Ordering.then_eq_lt, ih,
        LawfulLTCmp.eq_lt_iff_lt, Std.compare_eq_iff_eq]

end Zcp.Lib
