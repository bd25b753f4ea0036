import Mathlib.Logic.Basic

/-!
# Partly inverse relations

Two tables that hold the same pairs, one for each direction, may both have lost pairs. They are still
consistent when a pair of one, followed by a pair of the other, leads back.
-/

namespace Zcp.Lib

variable {α β : Type*}

/-- Going forth with one relation and back with the other ends where it began. -/
structure PartlyInverse (R : α → β → Prop) (S : β → α → Prop) : Prop where
  left : ∀ {a b a'}, R a b → S b a' → a = a'
  right : ∀ {b a b'}, S b a → R a b' → b = b'

namespace PartlyInverse

variable {R R' : α → β → Prop} {S S' : β → α → Prop}

/-- Pairs may be lost on either side. -/
theorem mono (h : PartlyInverse R S) (hR : ∀ a b, R' a b → R a b) (hS : ∀ b a, S' b a → S b a) :
    PartlyInverse R' S' where
  left hab hba := h.left (hR _ _ hab) (hS _ _ hba)
  right hba hab := h.right (hS _ _ hba) (hR _ _ hab)

/-- A pair may be added on both sides when neither side has another pair for its ends. -/
theorem insert {a : α} {b : β} (h : PartlyInverse R S) (hR : ∀ a' b', R' a' b' → a' = a ∧ b' = b ∨ a' ≠ a ∧ R a' b')
    (hS : ∀ b' a', S' b' a' → b' = b ∧ a' = a ∨ b' ≠ b ∧ S b' a')
    (hRb : ∀ a', a' ≠ a → ¬ R a' b) (hSa : ∀ b', b' ≠ b → ¬ S b' a) : PartlyInverse R' S' := by
  constructor
  · intro x y x' hxy hyx
    obtain ⟨rfl, rfl⟩ | ⟨hx, hxy⟩ := hR x y hxy
    · obtain ⟨-, rfl⟩ | ⟨hne, -⟩ := hS _ x' hyx
      · rfl
      · exact absurd rfl hne
    · obtain ⟨rfl, -⟩ | ⟨-, hyx⟩ := hS y x' hyx
      · exact absurd hxy (hRb x hx)
      · exact h.left hxy hyx
  · intro y x y' hyx hxy
    obtain ⟨rfl, rfl⟩ | ⟨hy, hyx⟩ := hS y x hyx
    · obtain ⟨-, rfl⟩ | ⟨hne, -⟩ := hR _ y' hxy
      · rfl
      · exact absurd rfl hne
    · obtain ⟨rfl, -⟩ | ⟨-, hxy⟩ := hR x y' hxy
      · exact absurd hyx (hSa y hy)
      · exact h.right hyx hxy

end PartlyInverse

end Zcp.Lib
