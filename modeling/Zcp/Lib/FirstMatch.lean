import Mathlib.Data.List.Basic

/-!
# Replacing the first match

`List.replaceF` puts something else in the place of the first element that is asked for. The rules say what a later
search finds, and how the elements of a kind are counted.
-/

namespace Zcp.Lib

variable {α : Type*} {f : α → Option α} {q : α → Bool} {l : List α}

/-- The list around the element that is replaced. -/
theorem replaceF_split (hsome : ∃ a ∈ l, (f a).isSome) :
    ∃ a a' l₁ l₂, f a = some a' ∧ l = l₁ ++ a :: l₂ ∧ l.replaceF f = l₁ ++ a' :: l₂ := by
  obtain ⟨b, hmem, hb⟩ := hsome
  obtain ⟨b', hb'⟩ := Option.isSome_iff_exists.mp hb
  obtain ⟨a, a', l₁, l₂, -, ha, hl, hreplaced⟩ := List.exists_of_replaceF hmem hb'
  exact ⟨a, a', l₁, l₂, ha, hl, hreplaced⟩

/-- A search that has nothing to do with the element. -/
theorem find?_replaceF (h : ∀ a a', f a = some a' → q a = false ∧ q a' = false) :
    (l.replaceF f).find? q = l.find? q := by
  obtain hsame | ⟨a, a', l₁, l₂, -, ha, hl, hreplaced⟩ := List.exists_or_eq_self_of_replaceF f l
  · rw [hsame]
  · obtain ⟨hq, hq'⟩ := h a a' ha
    rw [hreplaced, hl, List.find?_append, List.find?_append, List.find?_cons_of_neg (by simp only [hq']; decide),
      List.find?_cons_of_neg (by simp only [hq]; decide)]

/-- The only element that was looked for is no longer found. -/
theorem find?_replaceF_eq_none (h : ∀ a a', f a = some a' → q a = true ∧ q a' = false)
    (hsome : ∃ a ∈ l, (f a).isSome) (hone : (l.filter q).length ≤ 1) : (l.replaceF f).find? q = none := by
  obtain ⟨a, a', l₁, l₂, ha, hl, hreplaced⟩ := replaceF_split hsome
  obtain ⟨hq, hq'⟩ := h a a' ha
  rw [hl, List.filter_append, List.filter_cons_of_pos hq, List.length_append, List.length_cons] at hone
  have h₁ : l₁.filter q = [] := List.length_eq_zero_iff.mp (by omega)
  have h₂ : l₂.filter q = [] := List.length_eq_zero_iff.mp (by omega)
  rw [List.filter_eq_nil_iff] at h₁ h₂
  rw [hreplaced, List.find?_eq_none]
  intro b hb
  rcases List.mem_append.mp hb with hb | hb
  · exact h₁ b hb
  · rcases List.mem_cons.mp hb with rfl | hb
    · simp only [hq']
      decide
    · exact h₂ b hb

theorem countP_le_countP_replaceF (h : ∀ a a', f a = some a' → q a' = true) :
    l.countP q ≤ (l.replaceF f).countP q := by
  obtain hsame | ⟨a, a', l₁, l₂, -, ha, hl, hreplaced⟩ := List.exists_or_eq_self_of_replaceF f l
  · exact hsame.symm ▸ Nat.le_refl _
  · rw [hreplaced, hl, List.countP_append, List.countP_append, List.countP_cons, List.countP_cons, if_pos (h a a' ha)]
    split_ifs <;> omega

theorem countP_lt_countP_replaceF (h : ∀ a a', f a = some a' → q a = false ∧ q a' = true)
    (hsome : ∃ a ∈ l, (f a).isSome) : l.countP q < (l.replaceF f).countP q := by
  obtain ⟨a, a', l₁, l₂, ha, hl, hreplaced⟩ := replaceF_split hsome
  obtain ⟨hq, hq'⟩ := h a a' ha
  rw [hreplaced, hl, List.countP_append, List.countP_append, List.countP_cons, List.countP_cons, if_pos hq',
    if_neg (by simp only [hq]; decide)]
  omega

/-- Nothing changes when the element is replaced by itself. -/
theorem replaceF_eq_self (h : ∀ a a', f a = some a' → a' = a) : l.replaceF f = l := by
  obtain hsame | ⟨a, a', l₁, l₂, -, ha, hl, hreplaced⟩ := List.exists_or_eq_self_of_replaceF f l
  · exact hsame
  · rw [hreplaced, hl, h a a' ha]

end Zcp.Lib
