import Mathlib.Data.List.Basic

/-!
# Calls that a device may refuse

A `Caller` calls a device, which answers or refuses, and keeps whether it was refused. It is `Honest` when it ends well
only if it never was. What calls once more only after an answer is honest: the rules below follow the parts of such a
computation. `attempt` goes on all the same, and is not.
-/

namespace Zcp.Lib

/-- How a computation ends; `undefined` is an access outside of memory. -/
inductive Ended (ε α : Type) where
  | ok (a : α)
  | error (e : ε)
  | undefined

/-- The end of a computation, the device after it, and whether a call was refused. -/
structure Outcome (σ ε α : Type) where
  ended : Ended ε α
  device : σ
  refused : Bool

/-- A computation that calls a device. -/
def Caller (σ ε α : Type) := σ → Outcome σ ε α

namespace Caller

variable {σ ε α β : Type}

instance : Monad (Caller σ ε) where
  pure a := fun s => ⟨.ok a, s, false⟩
  bind p q := fun s =>
    match p s with
    | ⟨.ok a, device, refused⟩ =>
      let rest := q a device
      ⟨rest.ended, rest.device, refused || rest.refused⟩
    | ⟨.error e, device, refused⟩ => ⟨.error e, device, refused⟩
    | ⟨.undefined, device, refused⟩ => ⟨.undefined, device, refused⟩

/-- Stop. -/
def fail (e : ε) : Caller σ ε α := fun s => ⟨.error e, s, false⟩

/-- Access memory that is not there. -/
def undefined : Caller σ ε α := fun s => ⟨.undefined, s, false⟩

/-- One call. -/
def call (request : σ → Except ε α × σ) : Caller σ ε α := fun s =>
  match request s with
  | (.ok a, device) => ⟨.ok a, device, false⟩
  | (.error e, device) => ⟨.error e, device, true⟩

/-- Go on whether there was an answer or not. -/
def attempt (p : Caller σ ε α) : Caller σ ε (Except ε α) := fun s =>
  match p s with
  | ⟨.ok a, device, refused⟩ => ⟨.ok (.ok a), device, refused⟩
  | ⟨.error e, device, refused⟩ => ⟨.ok (.error e), device, refused⟩
  | ⟨.undefined, device, refused⟩ => ⟨.undefined, device, refused⟩

/-- Do something for every entry of a list. -/
def each (p : β → Caller σ ε Unit) : List β → Caller σ ε Unit
  | [] => pure ()
  | b :: l => p b >>= fun _ => each p l

/-- Take some results, one after another. -/
def collect (p : Caller σ ε α) : ℕ → Caller σ ε (List α)
  | 0 => pure []
  | n + 1 => p >>= fun a => collect p n >>= fun l => pure (a :: l)

/-- If it ends well, no call was refused. -/
def Honest (p : Caller σ ε α) : Prop := ∀ s a, (p s).ended = .ok a → (p s).refused = false

variable {p : Caller σ ε α} {q : α → Caller σ ε β} {s : σ} {a : α} {b : β}

/-! ## Steps -/

theorem bind_of_ok (h : (p s).ended = .ok a) : (p >>= q) s = ⟨(q a (p s).device).ended, (q a (p s).device).device,
      (p s).refused || (q a (p s).device).refused⟩ := by
  rcases hp : p s with ⟨ended, device, refused⟩
  rw [hp] at h
  obtain rfl : ended = .ok a := h
  show (match p s with
    | ⟨.ok a, device, refused⟩ => _
    | ⟨.error e, device, refused⟩ => _
    | ⟨.undefined, device, refused⟩ => _) = _
  rw [hp]

theorem bind_of_error {e : ε} (h : (p s).ended = .error e) :
    (p >>= q) s = ⟨.error e, (p s).device, (p s).refused⟩ := by
  rcases hp : p s with ⟨ended, device, refused⟩
  rw [hp] at h
  obtain rfl : ended = .error e := h
  show (match p s with
    | ⟨.ok a, device, refused⟩ => _
    | ⟨.error e, device, refused⟩ => _
    | ⟨.undefined, device, refused⟩ => _) = _
  rw [hp]

/-- A first part that is refused at once. -/
theorem bind_refused {e : ε} {s' : σ} (h : p s = ⟨.error e, s', true⟩) : (p >>= q) s = ⟨.error e, s', true⟩ := by
  rw [bind_of_error (congrArg Outcome.ended h), h]

/-- Both parts end well. -/
theorem ok_of_bind (h : ((p >>= q) s).ended = .ok b) :
    ∃ a, (p s).ended = .ok a ∧ (q a (p s).device).ended = .ok b := by
  rcases hp : p s with ⟨_ | _ | _, device, refused⟩
  · rename_i a
    have hok : (p s).ended = .ok a := by rw [hp]
    rw [bind_of_ok hok, hp] at h
    exact ⟨a, rfl, h⟩
  · rename_i e
    have herror : (p s).ended = .error e := by rw [hp]
    rw [bind_of_error herror] at h
    cases h
  · have hundefined : ((p >>= q) s).ended = .undefined := by
      show (match p s with
        | ⟨.ok a, device, refused⟩ => _
        | ⟨.error e, device, refused⟩ => _
        | ⟨.undefined, device, refused⟩ => _ : Outcome σ ε β).ended = _
      rw [hp]
    rw [hundefined] at h
    cases h

theorem ok_bind (hp : (p s).ended = .ok a) (hq : (q a (p s).device).ended = .ok b) : ((p >>= q) s).ended = .ok b := by
  rw [bind_of_ok hp, hq]

theorem attempt_of_error {e : ε} (h : (p s).ended = .error e) :
    (attempt p) s = ⟨.ok (.error e), (p s).device, (p s).refused⟩ := by
  rcases hp : p s with ⟨ended, device, refused⟩
  rw [hp] at h
  obtain rfl : ended = .error e := h
  rw [attempt, hp]

/-- What was refused is left behind. -/
theorem attempt_refused {q : Except ε α → Caller σ ε β} {e : ε} {s' : σ} (h : p s = ⟨.error e, s', true⟩) :
    (attempt p >>= q) s = ⟨(q (.error e) s').ended, (q (.error e) s').device, true⟩ := by
  have hattempt := attempt_of_error (congrArg Outcome.ended h)
  rw [bind_of_ok (congrArg Outcome.ended hattempt), hattempt, h]
  rfl

/-- A refused call in the middle is not noticed at the end. -/
theorem ok_of_attempt_refused {γ : Type} (first : Caller σ ε γ) {c : γ} {q : Except ε α → Caller σ ε β} {e : ε} {s' : σ}
    (hfirst : (first s).ended = .ok c) (hp : p (first s).device = ⟨.error e, s', true⟩)
    (hq : (q (.error e) s').ended = .ok b) : ((first >>= fun _ => attempt p >>= q) s).ended = .ok b ∧
      ((first >>= fun _ => attempt p >>= q) s).refused = true := by
  rw [bind_of_ok hfirst, attempt_refused hp]
  exact ⟨hq, Bool.or_true _⟩

/-! ## Rules -/

theorem Honest.pure (a : α) : Honest (Pure.pure a : Caller σ ε α) := fun _ _ _ => rfl

theorem Honest.fail (e : ε) : Honest (Caller.fail e : Caller σ ε α) := fun _ _ _ => rfl

theorem Honest.undefined : Honest (Caller.undefined : Caller σ ε α) := fun _ _ _ => rfl

theorem Honest.call (request : σ → Except ε α × σ) : Honest (Caller.call request) := by
  intro s a h
  unfold Caller.call at h ⊢
  split at h
  · rfl
  · cases h

/-- One part after another. -/
theorem Honest.bind (hp : Honest p) (hq : ∀ a, Honest (q a)) : Honest (p >>= q) := by
  intro s b h
  obtain ⟨a, hpa, hqb⟩ := ok_of_bind h
  rw [bind_of_ok hpa, hp s a hpa, hq a _ b hqb]
  rfl

theorem Honest.ite {c : Prop} [Decidable c] {p' : Caller σ ε α} (hp : Honest p) (hp' : Honest p') :
    Honest (if c then p else p') := by
  split
  · exact hp
  · exact hp'

theorem Honest.each {p : β → Caller σ ε Unit} (hp : ∀ b, Honest (p b)) : ∀ l, Honest (Caller.each p l)
  | [] => .pure ()
  | b :: l => (hp b).bind fun _ => Honest.each hp l

theorem Honest.collect (hp : Honest p) : ∀ n, Honest (Caller.collect p n)
  | 0 => .pure []
  | n + 1 => hp.bind fun _ => (Honest.collect hp n).bind fun _ => .pure _

end Caller

end Zcp.Lib
