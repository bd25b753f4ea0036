import Mathlib.Data.List.Sort
import Mathlib.Order.Basic

/-!
# Sorted lists as sets

Sorting a list and dropping what is there twice gives an ascending list with these elements (`pairwise_sortUnique`,
`mem_sortUnique`), and there is only one such list (`eq_of_mem_iff`). In a list where an element that passes a test is
followed only by others that do, the position of the first one divides the list (`findIdx_le_iff`), which is what binary
searches look for.
-/

namespace Zcp.Lib

section Unique

variable {α : Type*} [DecidableEq α]

/-- `std::list::unique`. -/
def unique : List α → List α
  | a :: b :: rest => if a = b then unique (b :: rest) else a :: unique (b :: rest)
  | l => l

theorem mem_unique {x : α} {l : List α} : x ∈ unique l ↔ x ∈ l := by
  fun_induction unique l with
  | case1 b rest ih => rw [ih, List.mem_cons (l := b :: rest), or_iff_right_of_imp (by rintro rfl; exact List.mem_cons_self)]
  | case2 a b rest hne ih => rw [List.mem_cons, ih, List.mem_cons (l := b :: rest)]
  | case3 l => rfl

end Unique

section Sorted

variable {α : Type*} [LinearOrder α]

theorem pairwise_unique {l : List α} (hsorted : l.Pairwise (· ≤ ·)) : (unique l).Pairwise (· < ·) := by
  fun_induction unique l with
  | case1 b rest ih => exact ih (List.pairwise_cons.mp hsorted).2
  | case2 a b rest hne ih =>
    obtain ⟨hle, hrest⟩ := List.pairwise_cons.mp hsorted
    refine List.pairwise_cons.mpr ⟨fun x hx => ?_, ih hrest⟩
    have hab : a < b := lt_of_le_of_ne (hle b List.mem_cons_self) hne
    rcases List.mem_cons.mp (mem_unique.mp hx) with rfl | hx
    · exact hab
    · exact hab.trans_le ((List.pairwise_cons.mp hrest).1 x hx)
  | case3 l hshort =>
    match l with
    | [] => exact List.Pairwise.nil
    | [a] => exact List.pairwise_singleton _ a
    | a :: b :: rest => exact absurd rfl (hshort a b rest)

/-- `std::list::sort` and then `std::list::unique`. -/
def sortUnique (l : List α) : List α := unique (l.insertionSort (· ≤ ·))

@[simp]
theorem mem_sortUnique {x : α} {l : List α} : x ∈ sortUnique l ↔ x ∈ l := by
  rw [sortUnique, mem_unique, List.mem_insertionSort]

theorem pairwise_sortUnique (l : List α) : (sortUnique l).Pairwise (· < ·) :=
  pairwise_unique (List.pairwise_insertionSort (· ≤ ·) l)

/-- Ascending lists with the same elements are the same. -/
theorem eq_of_mem_iff {l l' : List α} (h : l.Pairwise (· < ·)) (h' : l'.Pairwise (· < ·)) (hmem : ∀ x, x ∈ l ↔ x ∈ l') :
    l = l' := by
  have hperm : l.Perm l' :=
    (List.perm_ext_iff_of_nodup (h.imp ne_of_lt) (h'.imp ne_of_lt)).mpr hmem
  exact hperm.eq_of_pairwise (fun a b _ _ hab hba => absurd hba hab.asymm) h h'

end Sorted

section Positions

variable {α : Type*} {p : α → Bool} {l : List α}

/-- The first element that passes a test stands before, or at, the elements that do. -/
theorem findIdx_le_iff (hmono : l.Pairwise fun a b => p a = true → p b = true) {i : ℕ} {a : α} (hi : l[i]? = some a) :
    l.findIdx p ≤ i ↔ p a = true := by
  obtain ⟨hlt, rfl⟩ := List.getElem?_eq_some_iff.mp hi
  constructor
  · intro hle
    have hfirst : p l[l.findIdx p] = true := List.findIdx_getElem
    rcases hle.eq_or_lt with heq | hlt'
    · simpa only [← heq] using hfirst
    · exact List.pairwise_iff_getElem.mp hmono _ i (by omega) hlt hlt' hfirst
  · intro hp
    by_contra hnot
    rw [List.not_of_lt_findIdx (Nat.lt_of_not_le hnot)] at hp
    cases hp

end Positions

end Zcp.Lib
