import Mathlib.Data.List.Pairwise
import Mathlib.Order.Basic
import Mathlib.Order.Lattice

/-!
# Ordered maps

A map whose entries are listed in the order of their keys. An entry carries its own key.
-/

namespace Zcp.Lib.OrderedMap

variable {α κ : Type*} [LinearOrder κ] (key : α → κ)

/-- The entries are in the order of their keys, and no two have the same key. -/
def Sorted (l : List α) : Prop := l.Pairwise fun a b => key a < key b

/-- Put an entry in the place of its key; an entry with that key is replaced. -/
def set (a : α) : List α → List α
  | [] => [a]
  | b :: l =>
    if key a < key b then a :: b :: l
    else if key a = key b then a :: l
    else b :: set a l

/-- The entry with a key. -/
def get (k : κ) (l : List α) : Option α := l.find? (key · = k)

variable {key}

theorem key_of_get {k : κ} {l : List α} {a : α} (h : get key k l = some a) : key a = k :=
  by simpa using List.find?_some (p := (key · = k)) h

theorem mem_of_get {k : κ} {l : List α} {a : α} (h : get key k l = some a) : a ∈ l :=
  List.mem_of_find?_eq_some h

/-- A key has at most one entry. -/
theorem get_eq_some {l : List α} (hs : Sorted key l) {k : κ} {a : α} : get key k l = some a ↔ a ∈ l ∧ key a = k := by
  constructor
  · exact fun h => ⟨mem_of_get h, key_of_get h⟩
  · rintro ⟨ha, rfl⟩
    obtain ⟨xs, ys, rfl⟩ := List.append_of_mem ha
    have hne : ∀ x ∈ xs, ¬ decide (key x = key a) = true := by
      intro x hx
      simpa using ((List.pairwise_append.mp hs).2.2 x hx a List.mem_cons_self).ne
    rw [get, List.find?_append, List.find?_eq_none.mpr hne, List.find?_cons_of_pos (by simp)]
    rfl

theorem get_eq_none {l : List α} {k : κ} : get key k l = none ↔ ∀ a ∈ l, key a ≠ k := by
  rw [get, List.find?_eq_none]
  simp only [decide_eq_true_eq]

theorem mem_set {l : List α} (hs : Sorted key l) {a x : α} : x ∈ set key a l ↔ x = a ∨ x ∈ l ∧ key x ≠ key a := by
  induction l with
  | nil => simp [set]
  | cons b l ih =>
    obtain ⟨hb, hs⟩ := List.pairwise_cons.mp hs
    rw [set]
    split_ifs with hlt heq
    · -- the new entry comes first, and all keys are greater
      have hne : ∀ y ∈ b :: l, key y ≠ key a := by
        intro y hy
        rcases List.mem_cons.mp hy with rfl | hy
        · exact hlt.ne'
        · exact (hlt.trans (hb y hy)).ne'
      rw [List.mem_cons]
      constructor
      · rintro (hx | hx)
        · exact .inl hx
        · exact .inr ⟨hx, hne x hx⟩
      · rintro (hx | ⟨hx, -⟩)
        · exact .inl hx
        · exact .inr hx
    · have hne : ∀ y ∈ l, key y ≠ key a := fun y hy => heq ▸ (hb y hy).ne'
      rw [List.mem_cons, List.mem_cons]
      constructor
      · rintro (hx | hx)
        · exact .inl hx
        · exact .inr ⟨.inr hx, hne x hx⟩
      · rintro (hx | ⟨rfl | hx, hxa⟩)
        · exact .inl hx
        · exact absurd heq.symm hxa
        · exact .inr hx
    · rw [List.mem_cons, ih hs, List.mem_cons]
      constructor
      · rintro (rfl | hx | ⟨hx, hxa⟩)
        · exact .inr ⟨.inl rfl, fun h => heq h.symm⟩
        · exact .inl hx
        · exact .inr ⟨.inr hx, hxa⟩
      · rintro (hx | ⟨hx | hx, hxa⟩)
        · exact .inr (.inl hx)
        · exact .inl hx
        · exact .inr (.inr ⟨hx, hxa⟩)

theorem Sorted.set {l : List α} (hs : Sorted key l) (a : α) : Sorted key (set key a l) := by
  induction l with
  | nil => exact List.pairwise_singleton _ _
  | cons b l ih =>
    obtain ⟨hb, hl⟩ := List.pairwise_cons.mp hs
    rw [OrderedMap.set]
    split_ifs with hlt heq
    · refine List.pairwise_cons.mpr ⟨fun y hy => ?_, hs⟩
      rcases List.mem_cons.mp hy with rfl | hy
      · exact hlt
      · exact hlt.trans (hb y hy)
    · exact List.pairwise_cons.mpr ⟨fun y hy => heq ▸ hb y hy, hl⟩
    · refine List.pairwise_cons.mpr ⟨fun y hy => ?_, ih hl⟩
      rcases (mem_set hl).mp hy with rfl | ⟨hy, -⟩
      · exact lt_of_le_of_ne (not_lt.mp hlt) fun h => heq h.symm
      · exact hb y hy

/-- Setting an entry changes what is found under its key only. -/
theorem get_set {l : List α} (hs : Sorted key l) (a : α) (k : κ) :
    get key k (OrderedMap.set key a l) = if key a = k then some a else get key k l := by
  split_ifs with hk
  · exact (get_eq_some (hs.set a)).mpr ⟨(mem_set hs).mpr (.inl rfl), hk⟩
  · cases hget : get key k l with
    | none =>
      refine get_eq_none.mpr fun b hb hbk => ?_
      rcases (mem_set hs).mp hb with rfl | ⟨hb, -⟩
      · exact hk hbk
      · exact get_eq_none.mp hget b hb hbk
    | some b =>
      obtain ⟨hb, rfl⟩ := (get_eq_some hs).mp hget
      exact (get_eq_some (hs.set a)).mpr ⟨(mem_set hs).mpr (.inr ⟨hb, fun h => hk h.symm⟩), rfl⟩

theorem Sorted.filter {l : List α} (hs : Sorted key l) (p : α → Bool) : Sorted key (l.filter p) :=
  List.Pairwise.filter p hs

/-- The entries before a place, found from the front. -/
theorem Sorted.takeWhile_lt {l : List α} (hs : Sorted key l) (k : κ) :
    l.takeWhile (key · < k) = l.filter (key · < k) := by
  induction l with
  | nil => rfl
  | cons b l ih =>
    obtain ⟨hb, hl⟩ := List.pairwise_cons.mp hs
    by_cases hk : key b < k
    · rw [List.takeWhile_cons_of_pos (by simpa using hk), List.filter_cons_of_pos (by simpa using hk), ih hl]
    · have hnone : ∀ y ∈ b :: l, ¬ decide (key y < k) = true := by
        intro y hy
        rcases List.mem_cons.mp hy with rfl | hy
        · simpa using hk
        · simpa using (not_lt.mp hk).trans (hb y hy).le
      rw [List.takeWhile_cons_of_neg (by simpa using hk), List.filter_eq_nil_iff.mpr hnone]

/-- The entries behind a place. -/
theorem Sorted.dropWhile_le {l : List α} (hs : Sorted key l) (k : κ) :
    l.dropWhile (key · ≤ k) = l.filter (k < key ·) := by
  induction l with
  | nil => rfl
  | cons b l ih =>
    obtain ⟨hb, hl⟩ := List.pairwise_cons.mp hs
    by_cases hk : key b ≤ k
    · rw [List.dropWhile_cons_of_pos (by simpa using hk), List.filter_cons_of_neg (by simpa using hk), ih hl]
    · have hall : ∀ y ∈ b :: l, decide (k < key y) = true := by
        intro y hy
        rcases List.mem_cons.mp hy with rfl | hy
        · simpa using hk
        · simpa using (not_le.mp hk).trans (hb y hy)
      rw [List.dropWhile_cons_of_neg (by simpa using hk), List.filter_eq_self.mpr hall]

/-- All entries but the last `n` are those with at least `n` entries behind them. -/
theorem Sorted.mem_take_length_sub {l : List α} (hs : Sorted key l) (n : ℕ) (a : α) :
    a ∈ l.take (l.length - n) ↔ a ∈ l ∧ n ≤ (l.filter (key a < key ·)).length := by
  induction l with
  | nil => simp
  | cons b l ih =>
    obtain ⟨hb, hl⟩ := List.pairwise_cons.mp hs
    have hlen : (l.filter (key a < key ·)).length ≤ l.length := List.length_filter_le _ l
    have hbehind : a ∈ l → (b :: l).filter (key a < key ·) = l.filter (key a < key ·) := by
      intro ha
      exact List.filter_cons_of_neg (by simpa using (hb a ha).le)
    have hfirst : (b :: l).filter (key b < key ·) = l := by
      rw [List.filter_cons_of_neg (by simp), List.filter_eq_self]
      intro y hy
      simpa using hb y hy
    by_cases hn : n ≤ l.length
    · rw [List.length_cons, Nat.sub_add_comm hn, List.take_succ_cons, List.mem_cons, ih hl, List.mem_cons]
      constructor
      · rintro (rfl | ⟨ha, hle⟩)
        · exact ⟨.inl rfl, hn.trans_eq (congrArg List.length hfirst.symm)⟩
        · exact ⟨.inr ha, hle.trans_eq (congrArg List.length (hbehind ha).symm)⟩
      · rintro ⟨rfl | ha, hle⟩
        · exact .inl rfl
        · exact .inr ⟨ha, hle.trans_eq (congrArg List.length (hbehind ha))⟩
    · have hzero : (b :: l).length - n = 0 := by
        rw [List.length_cons]
        omega
      rw [hzero, List.take_zero]
      refine iff_of_false List.not_mem_nil ?_
      rintro ⟨ha, hle⟩
      rcases List.mem_cons.mp ha with rfl | ha
      · exact hn (hle.trans_eq (congrArg List.length hfirst))
      · exact hn (Nat.le_trans (hle.trans_eq (congrArg List.length (hbehind ha))) hlen)

/-- Changing entries but not their keys keeps the order. -/
theorem Sorted.map {l : List α} (hs : Sorted key l) {f : α → α} (hf : ∀ a, key (f a) = key a) :
    Sorted key (l.map f) := by
  refine List.pairwise_map.mpr (hs.imp fun h => ?_)
  rw [hf, hf]
  exact h

end Zcp.Lib.OrderedMap
