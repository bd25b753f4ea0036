import Mathlib.Algebra.Group.Basic
import Mathlib.Data.List.Nodup
import Mathlib.Logic.Function.Basic

/-!
# Assertions about a heap

A heap is a partial map from addresses to values. An assertion describes a heap, and the product
`P * Q` describes a heap that splits into two disjoint parts, one described by `P` and one by `Q`.
Assertions are a commutative monoid with this product, so a statement about a heap can be reordered
with `ac_rfl`. A read or a write needs only the cell it touches; the rest of the heap is a frame that
stays as it is.

`Yields` is the total-correctness statement about a partial computation: it returns, and its result
has the property.
-/

namespace Zcp.Lib

universe u

/-! ## Results of partial computations -/

section Yields

variable {α β : Type u}

/-- The computation returns a value with the property. -/
def Yields (x : Option α) (Q : α → Prop) : Prop := ∃ a, x = some a ∧ Q a

@[simp] theorem yields_some {a : α} {Q : α → Prop} : Yields (some a) Q ↔ Q a :=
  ⟨fun ⟨_, h, hQ⟩ => Option.some.inj h ▸ hQ, fun h => ⟨a, rfl, h⟩⟩

theorem Yields.bind {x : Option α} {f : α → Option β} {Q : α → Prop} {R : β → Prop}
    (h : Yields x Q) (hf : ∀ a, Q a → Yields (f a) R) : Yields (x >>= f) R := by
  obtain ⟨a, rfl, ha⟩ := h
  exact hf a ha

theorem Yields.imp {x : Option α} {Q R : α → Prop} (h : Yields x Q) (hQR : ∀ a, Q a → R a) : Yields x R :=
  let ⟨a, hx, ha⟩ := h
  ⟨a, hx, hQR a ha⟩

end Yields

/-! ## Assertions -/

variable {V : Type*}

/-- A property of heaps. -/
def Assn (V : Type*) := (ℕ → Option V) → Prop

namespace Assn

/-- The heap `h` is the union of the disjoint heaps `h₁` and `h₂`. -/
def Splits (h h₁ h₂ : ℕ → Option V) : Prop :=
  ∀ a, h₁ a = none ∧ h a = h₂ a ∨ h₂ a = none ∧ h a = h₁ a

/-- The heap has exactly one cell. -/
def pts (a : ℕ) (v : V) : Assn V := fun h => h = Function.update (fun _ => none) a (some v)

/-- Some instance of the assertion holds. -/
def ex {ι : Sort*} (P : ι → Assn V) : Assn V := fun h => ∃ i, P i h

instance : One (Assn V) := ⟨fun h => ∀ a, h a = none⟩

instance : Mul (Assn V) := ⟨fun P Q h => ∃ h₁ h₂, Splits h h₁ h₂ ∧ P h₁ ∧ Q h₂⟩

private theorem mul_comm' (P Q : Assn V) : P * Q = Q * P := by
  have (P Q : Assn V) (h : ℕ → Option V) (hPQ : (P * Q) h) : (Q * P) h := by
    obtain ⟨h₁, h₂, hs, hP, hQ⟩ := hPQ
    exact ⟨h₂, h₁, fun a => (hs a).symm, hQ, hP⟩
  exact funext fun h => propext ⟨this P Q h, this Q P h⟩

private theorem mul_assoc' (P Q R : Assn V) : P * Q * R = P * (Q * R) := by
  have (P Q R : Assn V) (h : ℕ → Option V) (hl : (P * Q * R) h) : (P * (Q * R)) h := by
    obtain ⟨g, h₃, hs, ⟨h₁, h₂, hs', hP, hQ⟩, hR⟩ := hl
    refine ⟨h₁, fun a => (h₂ a).or (h₃ a), fun a => ?_, hP, h₂, h₃, fun a => ?_, hQ, hR⟩
    · rcases hs a with ⟨h1, h2⟩ | ⟨h1, h2⟩ <;> rcases hs' a with ⟨h3, h4⟩ | ⟨h3, h4⟩ <;> simp_all
    · rcases hs a with ⟨h1, h2⟩ | ⟨h1, h2⟩ <;> rcases hs' a with ⟨h3, h4⟩ | ⟨h3, h4⟩ <;> simp_all
  refine funext fun h => propext ⟨this P Q R h, fun hr => ?_⟩
  rw [mul_comm', mul_comm' Q R] at hr
  rw [mul_comm', mul_comm' P Q]
  exact this R Q P h hr

private theorem one_mul' (P : Assn V) : 1 * P = P := by
  refine funext fun h => propext ⟨?_, fun hP => ⟨fun _ => none, h, fun _ => .inl ⟨rfl, rfl⟩,
    fun _ => rfl, hP⟩⟩
  rintro ⟨h₁, h₂, hs, h1, hP⟩
  have : h = h₂ := funext fun a => by
    rcases hs a with ⟨-, h⟩ | ⟨h, h'⟩
    · exact h
    · rw [h, h', h1 a]
  exact this ▸ hP

instance : CommMonoid (Assn V) where
  mul_assoc := mul_assoc'
  one_mul := one_mul'
  mul_one P := by rw [mul_comm', one_mul']
  mul_comm := mul_comm'

variable {P P' Q Q' F : Assn V} {h : ℕ → Option V} {a b : ℕ} {v w : V}

/-- Reorder the parts of an assertion. -/
theorem reorder (hP : P h) (e : P = Q) : Q h := e ▸ hP

section Front

variable {Q₁ Q₂ Q₃ Q₄ : Assn V}

/-! The second, third, fourth or fifth part comes to the front. -/

theorem front₂ (hh : (Q₁ * (P * F)) h) : (P * (Q₁ * F)) h := reorder hh (mul_left_comm _ _ _)

theorem front₃ (hh : (Q₁ * (Q₂ * (P * F))) h) : (P * (Q₁ * (Q₂ * F))) h :=
  reorder hh (by rw [mul_left_comm Q₂, mul_left_comm Q₁])

theorem front₄ (hh : (Q₁ * (Q₂ * (Q₃ * (P * F)))) h) : (P * (Q₁ * (Q₂ * (Q₃ * F)))) h :=
  reorder hh (by rw [mul_left_comm Q₃, mul_left_comm Q₂, mul_left_comm Q₁])

theorem front₅ (hh : (Q₁ * (Q₂ * (Q₃ * (Q₄ * (P * F))))) h) : (P * (Q₁ * (Q₂ * (Q₃ * (Q₄ * F))))) h :=
  reorder hh (by rw [mul_left_comm Q₄, mul_left_comm Q₃, mul_left_comm Q₂, mul_left_comm Q₁])

end Front

theorem mul_mono (hP : ∀ h, P h → P' h) (hQ : ∀ h, Q h → Q' h) (hF : (P * Q) h) : (P' * Q') h := by
  obtain ⟨h₁, h₂, hs, h1, h2⟩ := hF
  exact ⟨h₁, h₂, hs, hP _ h1, hQ _ h2⟩

theorem mono (hP : ∀ h, P h → P' h) (hF : (P * F) h) : (P' * F) h :=
  mul_mono hP (fun _ h => h) hF

theorem ex_mul {ι : Sort*} {P : ι → Assn V} : (ex P * F) h ↔ ∃ i, (P i * F) h := by
  constructor
  · rintro ⟨h₁, h₂, hs, ⟨i, hP⟩, hF⟩
    exact ⟨i, h₁, h₂, hs, hP, hF⟩
  · rintro ⟨i, h₁, h₂, hs, hP, hF⟩
    exact ⟨h₁, h₂, hs, ⟨i, hP⟩, hF⟩

/-- A part of the heap is described by `P`. -/
def Has (P : Assn V) (h : ℕ → Option V) : Prop := ∃ F, (P * F) h

theorem Has.self (hP : P h) : Has P h := ⟨1, by rwa [mul_one]⟩

/-- The parts of a part. -/
theorem Has.split (hPQ : Has (P * Q) h) : Has P h ∧ Has Q h := by
  obtain ⟨F, hF⟩ := hPQ
  exact ⟨⟨Q * F, reorder hF (mul_assoc P Q F)⟩,
    ⟨P * F, reorder hF (by rw [mul_comm P Q, mul_assoc])⟩⟩

theorem Has.imp (hPQ : ∀ h, P h → Q h) (hP : Has P h) : Has Q h :=
  let ⟨F, hF⟩ := hP
  ⟨F, mono hPQ hF⟩

theorem Has.exists {ι : Sort*} {P : ι → Assn V} (hP : Has (ex P) h) : ∃ i, Has (P i) h := by
  obtain ⟨F, hF⟩ := hP
  obtain ⟨i, hi⟩ := ex_mul.mp hF
  exact ⟨i, F, hi⟩

/-- A cell is read from the whole heap. -/
theorem Has.get (hP : Has (pts a v) h) : h a = some v := by
  obtain ⟨F, h₁, h₂, hs, rfl, -⟩ := hP
  rcases hs a with ⟨hn, -⟩ | ⟨-, he⟩
  · simp at hn
  · rw [he, Function.update_self]

/-- A write changes the value of its cell. -/
theorem pts_set (w : V) (hF : (pts a v * F) h) : (pts a w * F) (Function.update h a (some w)) := by
  obtain ⟨h₁, h₂, hs, rfl, h2⟩ := hF
  refine ⟨_, h₂, fun b => ?_, rfl, h2⟩
  have hb := hs b
  by_cases hab : b = a
  · subst hab
    simp only [Function.update_self] at hb ⊢
    simp_all
  · simpa only [Function.update_of_ne hab] using hb

/-- Freeing a cell leaves the rest. -/
theorem pts_free (hF : (pts a v * F) h) : F (Function.update h a none) := by
  obtain ⟨h₁, h₂, hs, rfl, h2⟩ := hF
  have : Function.update h a none = h₂ := funext fun b => by
    have hb := hs b
    by_cases hab : b = a
    · subst hab
      simp only [Function.update_self] at hb ⊢
      simp_all
    · simp only [Function.update_of_ne hab] at hb ⊢
      rcases hb with ⟨-, he⟩ | ⟨hn, he⟩
      · exact he
      · rw [he, hn]
  exact this ▸ h2

/-- A new cell joins the heap. -/
theorem pts_alloc (v : V) (hF : F h) (ha : h a = none) : (pts a v * F) (Function.update h a (some v)) := by
  refine ⟨_, h, fun b => ?_, rfl, hF⟩
  by_cases hab : b = a
  · subst hab; exact .inr ⟨ha, by simp⟩
  · exact .inl (by simp [Function.update_of_ne hab])

/-! ## Addresses -/

/-- A heap with the property has values at exactly the addresses of the list, and they differ. -/
def Owns (P : Assn V) (l : List ℕ) : Prop := ∀ h, P h → l.Nodup ∧ ∀ a, a ∈ l ↔ h a ≠ none

theorem owns_one : Owns (1 : Assn V) [] := fun h hh => ⟨List.nodup_nil, fun a => by simp [hh a]⟩

/-- A single cell owns its address. -/
theorem owns_pts (a : ℕ) (v : V) : Owns (pts a v) [a] := by
  rintro h rfl
  refine ⟨List.nodup_singleton a, fun b => ?_⟩
  rw [List.mem_singleton]
  by_cases hb : b = a
  · rw [hb, Function.update_self]
    simp
  · rw [Function.update_of_ne hb]
    simp [hb]

theorem owns_ex {ι : Sort*} {P : ι → Assn V} {l : List ℕ} (hP : ∀ i, Owns (P i) l) :
    Owns (ex P) l := fun h ⟨i, hi⟩ => hP i h hi

/-- Two parts own the addresses of both, which are different since the parts are apart. -/
theorem Owns.mul {l m : List ℕ} (hP : Owns P l) (hQ : Owns Q m) : Owns (P * Q) (l ++ m) := by
  rintro h ⟨h₁, h₂, hs, h1, h2⟩
  obtain ⟨hl, hl'⟩ := hP h₁ h1
  obtain ⟨hm, hm'⟩ := hQ h₂ h2
  refine ⟨List.nodup_append.mpr ⟨hl, hm, ?_⟩, fun a => ?_⟩
  · rintro a ha b hb rfl
    rcases hs a with ⟨hn, -⟩ | ⟨hn, -⟩
    · exact (hl' a).mp ha hn
    · exact (hm' a).mp hb hn
  · rw [List.mem_append, hl', hm']
    rcases hs a with ⟨hn, he⟩ | ⟨hn, he⟩ <;> simp [hn, he]

theorem Owns.perm {l m : List ℕ} (hP : Owns P l) (hlm : l.Perm m) : Owns P m := fun h hh =>
  ⟨hlm.nodup_iff.mp (hP h hh).1, fun a => by rw [← hlm.mem_iff, (hP h hh).2]⟩

theorem Owns.nodup {l : List ℕ} (hP : Owns P l) (hh : Has P h) : l.Nodup := by
  obtain ⟨F, h₁, h₂, -, h1, -⟩ := hh
  exact (hP h₁ h1).1

end Assn

end Zcp.Lib
