import Mathlib.Data.UInt
import Mathlib.Data.List.Basic

/-!
# Reading bytes into an object

A `ByteReader` takes bytes from the front and changes an object on the way; when it stops early, the
object keeps what was changed until then. `Reads` says what a reader does with bytes that a writer made:
it reads exactly these, or it stops. The rules below put the readers of parts together.
-/

namespace Zcp.Lib

variable {ε σ α β : Type}

/-- A reader that can stop with an `ε`, with the bytes and the object it leaves. -/
def ByteReader (ε σ α : Type) := List UInt8 → σ → Except ε α × List UInt8 × σ

namespace ByteReader

instance : Monad (ByteReader ε σ) where
  pure a := fun bytes s => (.ok a, bytes, s)
  bind p q := fun bytes s =>
    match p bytes s with
    | (.ok a, bytes, s) => q a bytes s
    | (.error e, bytes, s) => (.error e, bytes, s)

/-- Stop. -/
def stop (e : ε) : ByteReader ε σ α := fun bytes s => (.error e, bytes, s)

/-- Look at the object. -/
def get : ByteReader ε σ σ := fun bytes s => (.ok s, bytes, s)

/-- Change the object. -/
def modify (f : σ → σ) : ByteReader ε σ Unit := fun bytes s => (.ok (), bytes, f s)

/-- The number of bytes that are left. -/
def left : ByteReader ε σ ℕ := fun bytes s => (.ok bytes.length, bytes, s)

/-- Take the next bytes, or all when there are fewer. -/
def take (n : ℕ) : ByteReader ε σ (List UInt8) := fun bytes s => (.ok (bytes.take n), bytes.drop n, s)

/-- Do the same some times. -/
def times (p : ByteReader ε σ Unit) : ℕ → ByteReader ε σ Unit
  | 0 => pure ()
  | n + 1 => p >>= fun _ => times p n

/-- Take some results, one after another. -/
def collect (p : ByteReader ε σ α) : ℕ → ByteReader ε σ (List α)
  | 0 => pure []
  | n + 1 => p >>= fun a => collect p n >>= fun l => pure (a :: l)

/-- Do something for every entry of a list. -/
def each (p : β → ByteReader ε σ Unit) : List β → ByteReader ε σ Unit
  | [] => pure ()
  | b :: l => p b >>= fun _ => each p l

end ByteReader

open ByteReader

/-- In front of any other bytes, the reader reads these bytes and makes `s'` of `s` when they are good;
otherwise it stops. -/
def Reads (p : ByteReader ε σ α) (bytes : List UInt8) (good : Prop) (s : σ) (a : α) (s' : σ) : Prop :=
  ∀ rest, (good → p (bytes ++ rest) s = (.ok a, rest, s')) ∧
    (¬ good → ∃ e bs s'', p (bytes ++ rest) s = (.error e, bs, s''))

variable {p : ByteReader ε σ α} {q : α → ByteReader ε σ β} {bytes bytes' : List UInt8}
  {good good' : Prop} {s s' s'' : σ} {a : α} {b : β}

theorem Reads.of_eq (h : ∀ rest, p (bytes ++ rest) s = (.ok a, rest, s')) : Reads p bytes True s a s' :=
  fun rest => ⟨fun _ => h rest, fun hn => absurd trivial hn⟩

theorem Reads.pure (a : α) : Reads (Pure.pure a : ByteReader ε σ α) [] True s a s :=
  .of_eq fun _ => rfl

theorem Reads.modify (f : σ → σ) : Reads (ByteReader.modify f : ByteReader ε σ Unit) [] True s () (f s) :=
  .of_eq fun _ => rfl

theorem Reads.get : Reads (ByteReader.get : ByteReader ε σ σ) [] True s s s := .of_eq fun _ => rfl

theorem Reads.congr (h : Reads p bytes good s a s') (hgood : good ↔ good') : Reads p bytes good' s a s' := by
  rwa [show good' = good from propext hgood.symm]

theorem bind_ok {bs bs' : List UInt8} (h : p bs s = (.ok a, bs', s')) : (p >>= q) bs s = q a bs' s' := by
  show (match p bs s with
    | (.ok a, bytes, s) => q a bytes s
    | (.error e, bytes, s) => (.error e, bytes, s)) = _
  rw [h]

theorem bind_error {bs bs' : List UInt8} {e : ε} (h : p bs s = (.error e, bs', s')) :
    (p >>= q) bs s = (.error e, bs', s') := by
  show (match p bs s with
    | (.ok a, bytes, s) => q a bytes s
    | (.error e, bytes, s) => (.error e, bytes, s)) = _
  rw [h]

theorem ByteReader.bind_assoc (p : ByteReader ε σ α) (q : α → ByteReader ε σ β)
    {γ : Type} (r : β → ByteReader ε σ γ) : p >>= q >>= r = p >>= fun a => q a >>= r := by
  funext bs t
  rcases hp : p bs t with ⟨e | a, bs', t'⟩
  · rw [bind_error hp, bind_error (bind_error hp)]
  · rw [bind_ok hp]
    show (match (p >>= q) bs t with
      | (.ok b, bytes, s) => r b bytes s
      | (.error e, bytes, s) => (.error e, bytes, s)) = _
    rw [bind_ok hp]
    rfl

theorem Reads.to (h : Reads p bytes good s a s') (hs : s' = s'') : Reads p bytes good s a s'' := by
  rwa [← hs]

/-- One part after another: both have to be good. -/
theorem Reads.bind (hp : Reads p bytes good s a s') (hq : Reads (q a) bytes' good' s' b s'') :
    Reads (p >>= q) (bytes ++ bytes') (good ∧ good') s b s'' := by
  intro rest
  obtain ⟨hok, herr⟩ := hp (bytes' ++ rest)
  rw [List.append_assoc]
  constructor
  · rintro ⟨hg, hg'⟩
    rw [bind_ok (hok hg)]
    exact (hq rest).1 hg'
  · intro hn
    by_cases hg : good
    · rw [bind_ok (hok hg)]
      exact (hq rest).2 fun hg' => hn ⟨hg, hg'⟩
    · obtain ⟨e, bs, s₁, he⟩ := herr hg
      exact ⟨e, bs, s₁, bind_error he⟩

/-- A first part that is always good. -/
theorem Reads.seq (hp : Reads p bytes True s a s') (hq : Reads (q a) bytes' good s' b s'') :
    Reads (p >>= q) (bytes ++ bytes') good s b s'' :=
  (hp.bind hq).congr (and_iff_right trivial)

/-- A last part that is always good. -/
theorem Reads.last (hp : Reads p bytes good s a s') (hq : Reads (q a) bytes' True s' b s'') :
    Reads (p >>= q) (bytes ++ bytes') good s b s'' :=
  (hp.bind hq).congr (and_iff_left trivial)

/-- A last part that takes no bytes. -/
theorem Reads.done (hp : Reads p bytes good s a s') (hq : Reads (q a) [] True s' b s'') :
    Reads (p >>= q) bytes good s b s'' := by
  have h := hp.last hq
  rwa [List.append_nil] at h

/-- Looking at the object takes no bytes. -/
theorem Reads.get_seq {q : σ → ByteReader ε σ β} (hq : Reads (q s) bytes good s b s') :
    Reads (ByteReader.get >>= q) bytes good s b s' :=
  Reads.get.seq hq

/-- Changing the object takes no bytes. -/
theorem Reads.modify_seq {f : σ → σ} {q : Unit → ByteReader ε σ β}
    (hq : Reads (q ()) bytes good (f s) b s') : Reads (ByteReader.modify f >>= q) bytes good s b s' :=
  (Reads.modify f).seq hq

/-- As many readings as a list has entries. -/
theorem Reads.times {p : ByteReader ε σ Unit} {w : β → List UInt8} {f : σ → β → σ} {l : List β}
    (h : ∀ b ∈ l, ∀ s, Reads p (w b) True s () (f s b)) (s : σ) :
    Reads (ByteReader.times p l.length) (l.flatMap w) True s () (l.foldl f s) := by
  induction l generalizing s with
  | nil => exact Reads.pure ()
  | cons b l ih =>
    obtain ⟨hb, hl⟩ := List.forall_mem_cons.mp h
    exact (hb s).seq (ih hl (f s b))

/-- As many results as a list has entries; all have to be good. -/
theorem Reads.collect {p : ByteReader ε σ α} {w : β → List UInt8} {f : β → α} {good : β → Prop}
    {l : List β} (h : ∀ b ∈ l, Reads p (w b) (good b) s (f b) s) :
    Reads (ByteReader.collect p l.length) (l.flatMap w) (∀ b ∈ l, good b) s (l.map f) s := by
  induction l with
  | nil => exact (Reads.pure []).congr ⟨fun _ => List.forall_mem_nil _, fun _ => trivial⟩
  | cons b l ih =>
    obtain ⟨hb, hl⟩ := List.forall_mem_cons.mp h
    have hrest : Reads (ByteReader.collect p l.length >>= fun l' => Pure.pure (f b :: l'))
        (l.flatMap w) (∀ c ∈ l, good c) s (f b :: l.map f) s :=
      (ih hl).done (Reads.pure _)
    exact (hb.bind hrest).congr List.forall_mem_cons.symm

/-! ## Readers that never succeed -/

/-- The reader stops, whatever it reads. -/
def Stops (p : ByteReader ε σ α) : Prop := ∀ bytes s, ∃ e bs s', p bytes s = (.error e, bs, s')

theorem Stops.bind (h : Stops p) (q : α → ByteReader ε σ β) : Stops (p >>= q) := by
  intro bs t
  obtain ⟨e, bs', t', he⟩ := h bs t
  exact ⟨e, bs', t', bind_error he⟩

theorem Stops.after (p : ByteReader ε σ α) (h : ∀ a, Stops (q a)) : Stops (p >>= q) := by
  intro bs t
  rcases hp : p bs t with ⟨e | a, bs', t'⟩
  · exact ⟨e, bs', t', bind_error hp⟩
  · obtain ⟨e, bs'', t'', he⟩ := h a bs' t'
    exact ⟨e, bs'', t'', (bind_ok hp).trans he⟩

/-- Nothing good is read by such a reader. -/
theorem Stops.reads (h : Stops p) (hgood : ¬ good) : Reads p bytes good s a s' :=
  fun rest => ⟨fun hg => absurd hg hgood, fun _ => h (bytes ++ rest) s⟩

end Zcp.Lib
