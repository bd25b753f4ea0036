import Mathlib.Algebra.BigOperators.Group.List.Basic
import Mathlib.Algebra.GroupWithZero.Nat
import Mathlib.Data.List.Nodup

/-!
# Sums over the rows of a table

A table whose rows have distinct keys, and entries that stand for some of its rows. Sums over the table change by
sums over the entries when these rows are removed or updated.
-/

namespace Zcp.Lib

variable {α β κ : Type*} [DecidableEq κ]

/-- Entries with distinct keys, each for a row of the table. -/
structure Refers (key : α → κ) (key' : β → κ) (row : β → α) (table : List α) (entries : List β) :
    Prop where
  nodup : (table.map key).Nodup
  entries_nodup : (entries.map key').Nodup
  row_mem : ∀ e ∈ entries, row e ∈ table
  row_key : ∀ e ∈ entries, key (row e) = key' e

theorem countP_eq_sum (p : α → Prop) [DecidablePred p] (l : List α) :
    l.countP p = (l.map fun a => if p a then 1 else 0).sum := by
  induction l with
  | nil => rfl
  | cons a l ih =>
    rw [List.countP_cons, ih, List.map_cons, List.sum_cons, Nat.add_comm]
    simp only [decide_eq_true_eq]

/-- What does not count may be left out. -/
theorem sum_filter {M : Type*} [AddCommMonoid M] {p : α → Prop} [DecidablePred p] {f : α → M}
    {l : List α} (hzero : ∀ a ∈ l, ¬ p a → f a = 0) : ((l.filter p).map f).sum = (l.map f).sum := by
  have hrest : ((l.filter fun a => ¬ p a).map f).sum = 0 := by
    refine List.sum_eq_zero fun b hb => ?_
    obtain ⟨a, ha, rfl⟩ := List.mem_map.mp hb
    rw [List.mem_filter, decide_eq_true_eq] at ha
    exact hzero a ha.1 ha.2
  rw [← List.sum_map_filter_add_sum_map_filter_not p f l, hrest, add_zero]

namespace Refers

variable {key : α → κ} {key' : β → κ} {row : β → α} {table : List α} {entries : List β}

omit [DecidableEq κ] in
theorem sublist (h : Refers key key' row table entries) {entries' : List β}
    (hsub : entries'.Sublist entries) : Refers key key' row table entries' where
  nodup := h.nodup
  entries_nodup := h.entries_nodup.sublist (hsub.map key')
  row_mem e he := h.row_mem e (hsub.subset he)
  row_key e he := h.row_key e (hsub.subset he)

/-- The rows that are referred to are those of the entries, in some order. -/
theorem perm (h : Refers key key' row table entries) :
    (table.filter fun a => key a ∈ entries.map key').Perm (entries.map row) := by
  have hkeys : (entries.map row).map key = entries.map key' := by
    rw [List.map_map]
    exact List.map_congr_left h.row_key
  have htable : table.Nodup := List.Nodup.of_map _ h.nodup
  have hrows : (entries.map row).Nodup := List.Nodup.of_map key (hkeys ▸ h.entries_nodup)
  refine (List.perm_ext_iff_of_nodup (htable.filter _) hrows).mpr fun a => ?_
  rw [List.mem_filter, decide_eq_true_eq]
  constructor
  · rintro ⟨ha, hkey⟩
    obtain ⟨e, he, hekey⟩ := List.mem_map.mp hkey
    have heq : row e = a :=
      List.inj_on_of_nodup_map h.nodup (h.row_mem e he) ha ((h.row_key e he).trans hekey)
    exact heq ▸ List.mem_map_of_mem he
  · intro ha
    obtain ⟨e, he, rfl⟩ := List.mem_map.mp ha
    exact ⟨h.row_mem e he, h.row_key e he ▸ List.mem_map_of_mem he⟩

theorem sum_referred {M : Type*} [AddCommMonoid M] (h : Refers key key' row table entries) (g : α → M) :
    ((table.filter fun a => key a ∈ entries.map key').map g).sum = (entries.map fun e => g (row e)).sum := by
  rw [(h.perm.map g).sum_eq, List.map_map]
  rfl

/-- When the rows are removed. -/
theorem sum_removed {M : Type*} [AddCommMonoid M] (h : Refers key key' row table entries) (g : α → M) :
    ((table.filter fun a => key a ∉ entries.map key').map g).sum +
      (entries.map fun e => g (row e)).sum = (table.map g).sum := by
  rw [← h.sum_referred, add_comm]
  simpa using List.sum_map_filter_add_sum_map_filter_not (fun a => key a ∈ entries.map key') g table

/-- When the rows are updated. -/
theorem sum_updated {M : Type*} [AddCommMonoid M] (h : Refers key key' row table entries) (u : α → α) (g : α → M) :
    ((table.map fun a => if key a ∈ entries.map key' then u a else a).map g).sum +
        (entries.map fun e => g (row e)).sum = (table.map g).sum + (entries.map fun e => g (u (row e))).sum := by
  have hsplit : ∀ f : α → M, (table.map f).sum =
      (entries.map fun e => f (row e)).sum +
        ((table.filter fun a => key a ∉ entries.map key').map f).sum := fun f => by
    rw [← h.sum_removed f, add_comm]
  have hrest : ((table.filter fun a => key a ∉ entries.map key').map fun a =>
      g (if key a ∈ entries.map key' then u a else a)) =
        (table.filter fun a => key a ∉ entries.map key').map g := by
    refine List.map_congr_left fun a ha => ?_
    rw [List.mem_filter, decide_eq_true_eq] at ha
    rw [if_neg ha.2]
  have hentries : (entries.map fun e => g (if key (row e) ∈ entries.map key' then u (row e) else row e)) =
      entries.map fun e => g (u (row e)) := by
    refine List.map_congr_left fun e he => ?_
    rw [if_pos (h.row_key e he ▸ List.mem_map_of_mem he)]
  rw [List.map_map, hsplit, hsplit g]
  simp only [Function.comp_def, hrest, hentries]
  ac_rfl

end Refers

end Zcp.Lib
