import Zcp.Lib.ByteReader

/-!
# Restoring a value from its bytes

`Restores` says when a reader gets back the value that some bytes were written for. When the bytes are not
good, the reader can still come upon the value, but only by reading on behind them. What a value costs at
least, wherever it is read, keeps this from being made good by the parts that follow.
-/

namespace Zcp.Lib

open ByteReader

variable {ε σ α β γ : Type} {p : ByteReader ε σ α} {q : α → ByteReader ε σ β} {s s' s'' : σ}
  {bytes bytes' : List UInt8} {good good' : Prop} {a : α} {b : β} {m n : ℕ}

theorem exists_of_bind_ok {bs rest : List UInt8} (h : (p >>= q) bs s = (.ok b, rest, s'')) :
    ∃ a bs' s', p bs s = (.ok a, bs', s') ∧ q a bs' s' = (.ok b, rest, s'') := by
  rcases hp : p bs s with ⟨e | a, bs', s'⟩
  · cases (bind_error hp).symm.trans h
  · exact ⟨a, bs', s', rfl, (bind_ok hp).symm.trans h⟩

/-! ## Costs -/

/-- The reader takes at least `n` bytes for `a`. -/
def Costs (p : ByteReader ε σ α) (a : α) (n : ℕ) : Prop :=
  ∀ bs s rest s', p bs s = (.ok a, rest, s') → rest.length + n ≤ bs.length

/-- The reader never gives `a`. -/
def Never (p : ByteReader ε σ α) (a : α) : Prop := ∀ bs s rest s', p bs s ≠ (.ok a, rest, s')

theorem Never.costs (h : Never p a) (n : ℕ) : Costs p a n :=
  fun bs s rest s' hp => absurd hp (h bs s rest s')

theorem Stops.never (h : Stops p) (a : α) : Never p a := by
  intro bs s rest s' hp
  obtain ⟨e, bs', s'', he⟩ := h bs s
  cases he.symm.trans hp

theorem never_stop (e : ε) (a : α) : Never (stop e : ByteReader ε σ α) a :=
  fun _ _ _ _ hp => by cases hp

theorem Never.bind (h : ∀ a, Never p a ∨ Never (q a) b) : Never (p >>= q) b := by
  intro bs s rest s' hpq
  obtain ⟨a, bs', s₁, hp, hq⟩ := exists_of_bind_ok hpq
  exact (h a).elim (fun hn => hn _ _ _ _ hp) fun hn => hn _ _ _ _ hq

theorem never_pure {a b : α} (h : a ≠ b) : Never (pure a : ByteReader ε σ α) b := by
  intro bs s rest s' hp
  cases hp
  exact h rfl

theorem Costs.pure (a b : α) : Costs (Pure.pure a : ByteReader ε σ α) b 0 := by
  intro bs s rest s' hp
  cases hp
  exact le_rfl

theorem Costs.mono (h : Costs p a m) (hle : n ≤ m) : Costs p a n := by
  intro bs s rest s' hp
  have hcost := h bs s rest s' hp
  omega

/-- What the parts cost together. -/
theorem Costs.bind (h : ∀ a, Never p a ∨ Never (q a) b ∨
    ∃ m k, Costs p a m ∧ Costs (q a) b k ∧ n ≤ m + k) : Costs (p >>= q) b n := by
  intro bs s rest s' hpq
  obtain ⟨a, bs', s₁, hp, hq⟩ := exists_of_bind_ok hpq
  rcases h a with hn | hn | ⟨m, k, hm, hk, hle⟩
  · exact absurd hp (hn _ _ _ _)
  · exact absurd hq (hn _ _ _ _)
  · have hfirst := hm _ _ _ _ hp
    have hsecond := hk _ _ _ _ hq
    omega

/-- Two parts, each with its own costs. -/
theorem Costs.seq (hp : ∀ a, Costs p a m) (hq : ∀ a, Costs (q a) b n) : Costs (p >>= q) b (m + n) :=
  Costs.bind fun a => .inr (.inr ⟨m, n, hp a, hq a, le_rfl⟩)

/-- A reader that computes its result from what has been read. -/
theorem Costs.bind_pure {f : α → β} (h : ∀ a, f a = b → Costs p a n) :
    Costs (p >>= fun x => Pure.pure (f x)) b n := by
  refine Costs.bind fun a => ?_
  by_cases ha : f a = b
  · exact .inr (.inr ⟨n, 0, h a ha, Costs.pure _ _, le_rfl⟩)
  · exact .inr (.inl (never_pure ha))

/-- A reader whose last step keeps all that has been read. -/
theorem Costs.map {f : α → β} (hf : Function.Injective f) (h : Costs p a n) :
    Costs (p >>= fun x => Pure.pure (f x)) (f a) n :=
  Costs.bind_pure fun _ ha => hf ha ▸ h

theorem Costs.collect {w : γ → ℕ} {f : γ → α} {l : List γ} (h : ∀ c ∈ l, Costs p (f c) (w c))
    (k : ℕ) : Costs (ByteReader.collect p k) (l.map f) (l.map w).sum := by
  induction k generalizing l with
  | zero =>
    cases l with
    | nil => exact Costs.pure [] []
    | cons c l => exact (never_pure (List.cons_ne_nil (f c) (l.map f)).symm).costs _
  | succ k ih =>
    refine Costs.bind fun a => ?_
    cases l with
    | nil =>
      refine .inr (.inl (Never.bind fun l' => .inr (never_pure (List.cons_ne_nil a l'))))
    | cons c l =>
      obtain ⟨hc, hl⟩ := List.forall_mem_cons.mp h
      by_cases hac : a = f c
      · subst hac
        refine .inr (.inr ⟨w c, (l.map w).sum, hc, ?_, le_of_eq List.sum_cons⟩)
        exact (ih hl).map fun l₁ l₂ heq => (List.cons.inj heq).2
      · refine .inr (.inl (Never.bind fun l' => .inr (never_pure ?_)))
        exact fun heq => hac (List.cons.inj heq).1

/-- As many results as have been asked for. -/
theorem never_collect {l : List α} {k : ℕ} (h : l.length ≠ k) : Never (ByteReader.collect p k) l := by
  induction k generalizing l with
  | zero => exact never_pure fun heq => h (heq ▸ rfl)
  | succ k ih =>
    refine Never.bind fun a => .inr ?_
    cases l with
    | nil => exact Never.bind fun l' => .inr (never_pure (List.cons_ne_nil a l'))
    | cons b l =>
      refine Never.bind fun l' => ?_
      by_cases hl : l' = l
      · rw [List.length_cons] at h
        exact .inl (hl ▸ ih (by omega))
      · exact .inr (never_pure fun heq => hl (List.cons.inj heq).2)

/-! ## Values and their bytes -/

/-- The bytes are read for the value, wherever they stand, if they are good; otherwise the value is not
read without bytes behind them. -/
structure Restores (p : ByteReader ε σ α) (bytes : List UInt8) (good : Prop) (s : σ) (a : α) (s' : σ) :
    Prop where
  ok : good → ∀ rest, p (bytes ++ rest) s = (.ok a, rest, s')
  more : ¬ good → ∀ rest rest' s'', p (bytes ++ rest) s = (.ok a, rest', s'') →
    rest'.length < rest.length
  costs : Costs p a bytes.length

/-- A reader that reads the bytes or stops. -/
theorem Reads.restores (h : Reads p bytes good s a s') (hcosts : Costs p a bytes.length) :
    Restores p bytes good s a s' where
  ok hg rest := (h rest).1 hg
  more hg rest rest' s'' hp := by
    obtain ⟨e, bs, s₁, he⟩ := (h rest).2 hg
    cases he.symm.trans hp
  costs := hcosts

/-- A reader that reads the bytes for another value. -/
theorem Reads.restores_of_ne {c : α} (h : Reads p bytes good s a s') (hcosts : Costs p c bytes.length) :
    Restores p bytes (good ∧ a = c) s c s' where
  ok hg rest := hg.2 ▸ (h rest).1 hg.1
  more hg rest rest' s'' hp := by
    by_cases hgood : good
    · cases ((h rest).1 hgood).symm.trans hp
      exact absurd ⟨hgood, rfl⟩ hg
    · obtain ⟨e, bs, s₁, he⟩ := (h rest).2 hgood
      cases he.symm.trans hp
  costs := hcosts

theorem Restores.congr (h : Restores p bytes good s a s') (hgood : good ↔ good') : Restores p bytes good' s a s' := by
  rwa [show good' = good from propext hgood.symm]

theorem Restores.pure (a : α) : Restores (Pure.pure a : ByteReader ε σ α) [] True s a s where
  ok _ _ := rfl
  more hg := absurd trivial hg
  costs := Costs.pure a a

/-- One part after another, where the whole tells what the first part is. -/
theorem Restores.bind (hp : Restores p bytes good s a s')
    (hq : Restores (q a) bytes' good' s' b s'') (hfirst : ∀ x, x ≠ a → Never (q x) b) :
    Restores (p >>= q) (bytes ++ bytes') (good ∧ good') s b s'' where
  ok hg rest := by
    rw [List.append_assoc, bind_ok (hp.ok hg.1 _)]
    exact hq.ok hg.2 rest
  more hg rest rest' t hpq := by
    rw [List.append_assoc] at hpq
    obtain ⟨x, bs, s₁, hx, hb⟩ := exists_of_bind_ok hpq
    by_cases hxa : x = a
    · subst hxa
      by_cases hgood : good
      · cases (hp.ok hgood _).symm.trans hx
        exact hq.more (fun hg' => hg ⟨hgood, hg'⟩) rest rest' t hb
      · have hless := hp.more hgood _ _ _ hx
        have hcost := hq.costs _ _ _ _ hb
        rw [List.length_append] at hless
        omega
    · exact absurd hb (hfirst x hxa _ _ _ _)
  costs := by
    rw [List.length_append]
    refine Costs.bind fun x => ?_
    by_cases hxa : x = a
    · subst hxa
      exact .inr (.inr ⟨_, _, hp.costs, hq.costs, le_rfl⟩)
    · exact .inr (.inl (hfirst x hxa))

/-- A last step that keeps all that has been read. -/
theorem Restores.map (hp : Restores p bytes good s a s') {f : α → β} (hf : Function.Injective f) :
    Restores (p >>= fun x => Pure.pure (f x)) bytes good s (f a) s' := by
  have h := hp.bind (q := fun x => Pure.pure (f x)) (Restores.pure (f a))
    fun x hx => never_pure fun hfx => hx (hf hfx)
  rw [List.append_nil] at h
  exact h.congr (and_iff_left trivial)

/-- A first part of which nothing is kept. -/
theorem Restores.skip (hp : Reads p bytes True s a s') (hcosts : ∀ x, Costs p x bytes.length)
    (hq : ∀ x, Restores (q x) bytes' good s' b s'') : Restores (p >>= q) (bytes ++ bytes') good s b s'' where
  ok hg rest := by
    rw [List.append_assoc, bind_ok ((hp _).1 trivial)]
    exact (hq a).ok hg rest
  more hg rest rest' t hpq := by
    rw [List.append_assoc, bind_ok ((hp _).1 trivial)] at hpq
    exact (hq a).more hg rest rest' t hpq
  costs := by
    rw [List.length_append]
    exact Costs.seq hcosts fun x => (hq x).costs

/-- A value that takes more bytes than have been written. -/
theorem Restores.of_costs (h : Costs p a n) (hlt : bytes.length < n) : Restores p bytes False s a s' where
  ok hg := hg.elim
  more _ rest rest' s'' hp := by
    have hcost := h _ _ _ _ hp
    rw [List.length_append] at hcost
    omega
  costs := h.mono hlt.le

/-- One more result. -/
theorem Restores.collect_cons {l : List α} (hp : Restores p bytes good s a s)
    (hl : Restores (ByteReader.collect p n) bytes' good' s l s) :
    Restores (ByteReader.collect p (n + 1)) (bytes ++ bytes') (good ∧ good') s (a :: l) s := by
  refine hp.bind (hl.map fun l₁ l₂ heq => (List.cons.inj heq).2) fun x hx => ?_
  exact Never.bind fun l' => .inr (never_pure fun heq => hx (List.cons.inj heq).1)

/-- As many results as a list has entries. -/
theorem Restores.collect {w : γ → List UInt8} {f : γ → α} {good : γ → Prop} {l : List γ}
    (h : ∀ c ∈ l, Restores p (w c) (good c) s (f c) s) :
    Restores (ByteReader.collect p l.length) (l.flatMap w) (∀ c ∈ l, good c) s (l.map f) s := by
  induction l with
  | nil => exact (Restores.pure []).congr ⟨fun _ => List.forall_mem_nil _, fun _ => trivial⟩
  | cons c l ih =>
    obtain ⟨hc, hl⟩ := List.forall_mem_cons.mp h
    exact (hc.collect_cons (ih hl)).congr List.forall_mem_cons.symm

/-- Some results are only read when as many are asked for. -/
theorem Costs.collect_any {l : List α} (h : Costs (ByteReader.collect p l.length) l n) (k : ℕ) :
    Costs (ByteReader.collect p k) l n := by
  by_cases hk : l.length = k
  · exact hk ▸ h
  · exact (never_collect hk).costs n

end Zcp.Lib
