import Zcp.Lib.ByteReader

/-!
# What a reader does to its object

`Keeps` says what a reader never changes, and `Raises` counts what it adds. Both also speak about the object that a
reader leaves where it stops.
-/

namespace Zcp.Lib

open ByteReader

variable {ε σ τ α β : Type} {f : σ → τ} {g : σ → ℕ} {p : ByteReader ε σ α} {q : α → ByteReader ε σ β} {m n : ℕ}

/-! ## Keeping -/

/-- The reader leaves `f` of the object as it is. -/
def Keeps (f : σ → τ) (p : ByteReader ε σ α) : Prop := ∀ bytes s, f (p bytes s).2.2 = f s

theorem Keeps.pure (f : σ → τ) (a : α) : Keeps f (Pure.pure a : ByteReader ε σ α) := fun _ _ => rfl

theorem Keeps.get (f : σ → τ) : Keeps f (ByteReader.get : ByteReader ε σ σ) := fun _ _ => rfl

theorem Keeps.left (f : σ → τ) : Keeps f (ByteReader.left : ByteReader ε σ ℕ) := fun _ _ => rfl

theorem Keeps.take (f : σ → τ) (n : ℕ) : Keeps f (ByteReader.take n : ByteReader ε σ (List UInt8)) := fun _ _ => rfl

theorem Keeps.stop (f : σ → τ) (e : ε) : Keeps f (ByteReader.stop e : ByteReader ε σ α) := fun _ _ => rfl

theorem Keeps.modify {h : σ → σ} (hf : ∀ s, f (h s) = f s) : Keeps f (ByteReader.modify h : ByteReader ε σ Unit) :=
  fun _ s => hf s

theorem Keeps.bind (hp : Keeps f p) (hq : ∀ a, Keeps f (q a)) : Keeps f (p >>= q) := by
  intro bytes s
  have hfirst := hp bytes s
  rcases hrun : p bytes s with ⟨e | a, bytes', s'⟩
  · rw [hrun] at hfirst
    rw [bind_error hrun]
    exact hfirst
  · rw [hrun] at hfirst
    rw [bind_ok hrun]
    exact (hq a bytes' s').trans hfirst

theorem Keeps.ite {c : Prop} [Decidable c] {p p' : ByteReader ε σ α} (hp : Keeps f p) (hp' : Keeps f p') :
    Keeps f (if c then p else p') := by
  by_cases hc : c
  · rwa [if_pos hc]
  · rwa [if_neg hc]

theorem Keeps.times {p : ByteReader ε σ Unit} (hp : Keeps f p) (n : ℕ) : Keeps f (ByteReader.times p n) := by
  induction n with
  | zero => exact Keeps.pure f ()
  | succ n ih => exact hp.bind fun _ => ih

theorem Keeps.each {p : β → ByteReader ε σ Unit} (hp : ∀ b, Keeps f (p b)) (l : List β) :
    Keeps f (ByteReader.each p l) := by
  induction l with
  | nil => exact Keeps.pure f ()
  | cons b l ih => exact (hp b).bind fun _ => ih

/-- A reader that leaves the object as it is keeps everything of it. -/
theorem Keeps.of_id (h : Keeps id p) (f : σ → τ) : Keeps f p := fun bytes s => congrArg f (h bytes s)

theorem Keeps.ok (h : Keeps f p) {bytes rest : List UInt8} {s s' : σ} {a : α} (hrun : p bytes s = (.ok a, rest, s')) :
    f s' = f s := by
  have hkeeps := h bytes s
  rwa [hrun] at hkeeps

theorem Keeps.error (h : Keeps f p) {bytes rest : List UInt8} {s s' : σ} {e : ε}
    (hrun : p bytes s = (.error e, rest, s')) : f s' = f s := by
  have hkeeps := h bytes s
  rwa [hrun] at hkeeps

/-! ## Counting -/

/-- The reader raises `g` of the object by `n` and leaves `f` of it as it is. Where it stops, it has not come to
that. -/
structure Raises (f : σ → τ) (g : σ → ℕ) (p : ByteReader ε σ α) (n : ℕ) : Prop where
  keeps : Keeps f p
  ok : ∀ {bytes s a rest s'}, p bytes s = (.ok a, rest, s') → g s' = g s + n
  error : ∀ {bytes s e rest s'}, p bytes s = (.error e, rest, s') → g s' < g s + n

theorem Raises.modify {h : σ → σ} (hf : ∀ s, f (h s) = f s) (hg : ∀ s, g (h s) = g s + n) :
    Raises f g (ByteReader.modify h : ByteReader ε σ Unit) n where
  keeps := Keeps.modify hf
  ok := by
    intro bytes s a rest s' hrun
    cases hrun
    exact hg s
  error := by
    intro bytes s e rest s' hrun
    cases hrun

theorem Raises.pure (f : σ → τ) (g : σ → ℕ) (a : α) : Raises f g (Pure.pure a : ByteReader ε σ α) 0 where
  keeps := Keeps.pure f a
  ok := by
    intro bytes s b rest s' hrun
    cases hrun
    rfl
  error := by
    intro bytes s e rest s' hrun
    cases hrun

theorem Raises.bind (hp : Raises f g p m) (hq : ∀ a, Raises f g (q a) n) : Raises f g (p >>= q) (m + n) where
  keeps := hp.keeps.bind fun a => (hq a).keeps
  ok := by
    intro bytes s b rest s' hrun
    rcases hfirst : p bytes s with ⟨e | a, bytes', s₁⟩
    · cases (bind_error hfirst).symm.trans hrun
    · rw [(hq a).ok ((bind_ok hfirst).symm.trans hrun), hp.ok hfirst, add_assoc]
  error := by
    intro bytes s e rest s' hrun
    rcases hfirst : p bytes s with ⟨e' | a, bytes', s₁⟩
    · cases (bind_error hfirst).symm.trans hrun
      have hless := hp.error hfirst
      omega
    · have hless := (hq a).error ((bind_ok hfirst).symm.trans hrun)
      rw [hp.ok hfirst] at hless
      omega

/-- The last part of a reader raises, and the parts in front leave the object as it is. -/
theorem Raises.after (hp : Keeps id p) (hq : ∀ a, Raises f g (q a) (n + 1)) : Raises f g (p >>= q) (n + 1) where
  keeps := (hp.of_id f).bind fun a => (hq a).keeps
  ok := by
    intro bytes s b rest s' hrun
    rcases hfirst : p bytes s with ⟨e | a, bytes', s₁⟩
    · cases (bind_error hfirst).symm.trans hrun
    · rw [(hq a).ok ((bind_ok hfirst).symm.trans hrun), (hp.of_id g).ok hfirst]
  error := by
    intro bytes s e rest s' hrun
    rcases hfirst : p bytes s with ⟨e' | a, bytes', s₁⟩
    · cases (bind_error hfirst).symm.trans hrun
      rw [(hp.of_id g).error hfirst]
      omega
    · have hless := (hq a).error ((bind_ok hfirst).symm.trans hrun)
      rwa [(hp.of_id g).ok hfirst] at hless

/-- Doing the same some times raises as often. -/
theorem Raises.times {p : ByteReader ε σ Unit} (hp : Raises f g p 1) (n : ℕ) : Raises f g (ByteReader.times p n) n := by
  induction n with
  | zero => exact Raises.pure f g ()
  | succ n ih =>
    have hboth : Raises f g (ByteReader.times p (n + 1)) (1 + n) := hp.bind fun _ => ih
    rwa [add_comm 1 n] at hboth

theorem Raises.each {p : β → ByteReader ε σ Unit} (hp : ∀ b, Raises f g (p b) 1) (l : List β) :
    Raises f g (ByteReader.each p l) l.length := by
  induction l with
  | nil => exact Raises.pure f g ()
  | cons b l ih =>
    rw [List.length_cons, add_comm]
    exact (hp b).bind fun _ => ih

end Zcp.Lib
