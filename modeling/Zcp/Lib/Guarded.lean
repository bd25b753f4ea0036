import Mathlib.Logic.Basic

/-!
# Guarded steps

A step that may fail is an `Option`. `Guarded P Q o` says exactly when the step is done, and what holds of
its result; the rules follow the ways in which steps are put together.
-/

namespace Zcp.Lib

variable {α β : Type*} {P P' : Prop} {Q : α → Prop} {Q' : β → Prop} {o : Option α}

/-- The step is done exactly when `P` holds, and `Q` holds of its result. -/
structure Guarded (P : Prop) (Q : α → Prop) (o : Option α) : Prop where
  isSome_iff : o.isSome ↔ P
  result : ∀ a, o = some a → Q a

namespace Guarded

theorem some {a : α} (h : Q a) : Guarded True Q (some a) where
  isSome_iff := iff_of_true rfl trivial
  result _ heq := Option.some.inj heq ▸ h

theorem none : Guarded False Q none where
  isSome_iff := iff_of_false Bool.false_ne_true id
  result _ heq := nomatch heq

theorem congr (h : Guarded P Q o) (hP : P ↔ P') : Guarded P' Q o := ⟨h.isSome_iff.trans hP, h.result⟩

theorem ite {c : Prop} [Decidable c] {o' : Option α} (h : c → Guarded P Q o)
    (h' : ¬ c → Guarded P' Q o') : Guarded (if c then P else P') Q (if c then o else o') := by
  by_cases hc : c
  · rw [if_pos hc, if_pos hc]
    exact h hc
  · rw [if_neg hc, if_neg hc]
    exact h' hc

/-- A test before a step. -/
theorem guard {c : Prop} [Decidable c] {a : α} (h : Q a) :
    Guarded c Q (if c then Option.some a else Option.none) :=
  (ite (fun _ => some h) fun _ => none).congr (by split <;> simp_all)

/-- The rule for one step after another; the second one may use the condition of the first. -/
theorem bind {f : α → Option β} (h : Guarded P Q o) (hf : P → ∀ a, Q a → Guarded P' Q' (f a)) :
    Guarded (P ∧ P') Q' (o.bind f) := by
  cases o with
  | none => exact none.congr (iff_of_false id fun hP => Bool.false_ne_true (h.isSome_iff.mpr hP.1))
  | some a =>
    have hP : P := h.isSome_iff.mp rfl
    exact (hf hP a (h.result a rfl)).congr (and_iff_right hP).symm

theorem map {f : α → β} (h : Guarded P Q o) (hf : ∀ a, Q a → Q' (f a)) : Guarded P Q' (o.map f) := by
  cases o with
  | none => exact ⟨h.isSome_iff, fun _ heq => nomatch heq⟩
  | some a => exact ⟨h.isSome_iff, fun _ heq => Option.some.inj heq ▸ hf a (h.result a rfl)⟩

end Guarded

end Zcp.Lib
