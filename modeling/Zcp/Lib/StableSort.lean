import Mathlib.Data.List.Induction
import Mathlib.Data.List.Sort

/-!
# Stable sorts and last writers

Operations that write a cell or leave it end with what the last writer has written (`written_eq`). When they are
sorted by a key first, and those with the same key keep their order, the last writer is that of the greatest key that
a writer has (`getLast?_filter_stableSort`). So sorting leaves the cell as it is without exactly when these two write
the same (`written_stableSort_eq_iff`).
-/

namespace Zcp.Lib

section Keys

variable {α ν : Type*} [LinearOrder ν] {key : α → ν}

/-- `std::list::sort` by a key. Elements with the same key stay in their order. -/
def stableSort (key : α → ν) (l : List α) : List α := l.insertionSort fun a b => key a ≤ key b

theorem perm_stableSort (l : List α) : (stableSort key l).Perm l := List.perm_insertionSort _ l

theorem mem_stableSort {a : α} {l : List α} : a ∈ stableSort key l ↔ a ∈ l := (perm_stableSort l).mem_iff

theorem pairwise_stableSort (l : List α) : (stableSort key l).Pairwise fun a b => key a ≤ key b :=
  haveI : Std.Total fun a b : α => key a ≤ key b := ⟨fun a b => le_total (key a) (key b)⟩
  haveI : IsTrans α fun a b => key a ≤ key b := ⟨fun _ _ _ hab hbc => hab.trans hbc⟩
  List.pairwise_insertionSort _ l

theorem filter_stableSort (k : ν) (l : List α) :
    (stableSort key l).filter (fun a => key a = k) = l.filter fun a => key a = k := by
  have hkey : ∀ a ∈ l.filter fun a => key a = k, key a = k := fun a ha => by simpa using (List.mem_filter.mp ha).2
  have hpairwise : (l.filter fun a => key a = k).Pairwise fun a b => key a ≤ key b :=
    List.pairwise_of_forall_mem_list fun a ha b hb => ((hkey a ha).trans (hkey b hb).symm).le
  have hsub : (l.filter fun a => key a = k).Sublist (stableSort key l) :=
    List.sublist_insertionSort hpairwise List.filter_sublist
  have hfilter := hsub.filter fun a => key a = k
  simp only [List.filter_filter, Bool.and_self] at hfilter
  exact (hfilter.eq_of_length ((perm_stableSort l).filter _).length_eq.symm).symm

/-- The elements with the greatest key. -/
def greatest (key : α → ν) (l : List α) : List α := l.filter fun a => ∀ b ∈ l, key b ≤ key a

/-- In a sorted list the last element that passes a test is the last one of those with the greatest key. -/
theorem getLast?_filter_stableSort (p : α → Bool) (l : List α) :
    ((stableSort key l).filter p).getLast? = (greatest key (l.filter p)).getLast? := by
  have hmem : ∀ a, a ∈ (stableSort key l).filter p ↔ a ∈ l.filter p := fun a =>
    ((perm_stableSort l).filter p).mem_iff
  cases h : ((stableSort key l).filter p).getLast? with
  | none =>
    have hnil : l.filter p = [] := by
      rw [List.eq_nil_iff_forall_not_mem]
      intro a ha
      rw [← hmem, List.getLast?_eq_none_iff.mp h] at ha
      cases ha
    rw [hnil]
    rfl
  | some a =>
    obtain ⟨before, hsorted⟩ := List.getLast?_eq_some_iff.mp h
    have hmax : ∀ b ∈ l.filter p, key b ≤ key a := by
      have hpairwise : ((stableSort key l).filter p).Pairwise fun a b => key a ≤ key b :=
        (pairwise_stableSort l).filter p
      rw [hsorted, List.pairwise_append] at hpairwise
      intro b hb
      rw [← hmem, hsorted, List.mem_append, List.mem_singleton] at hb
      rcases hb with hb | rfl
      · exact hpairwise.2.2 b hb a List.mem_cons_self
      · exact le_refl _
    have ha : a ∈ l.filter p := by
      rw [← hmem, hsorted]
      exact List.mem_append_right _ List.mem_cons_self
    have hgreatest : greatest key (l.filter p) = (l.filter p).filter fun b => key b = key a := by
      refine List.filter_congr fun b hb => ?_
      rw [decide_eq_decide]
      exact ⟨fun hb' => le_antisymm (hmax b hb) (hb' a ha), fun heq c hc => heq ▸ hmax c hc⟩
    rw [hgreatest, List.filter_comm, ← filter_stableSort, List.filter_comm, hsorted, List.filter_append,
      List.filter_cons_of_pos (by simp), List.filter_nil, List.getLast?_append, List.getLast?_singleton]
    rfl

end Keys

section Cell

variable {α β ν : Type*} {write : α → Option β}

/-- A cell after operations that each write it or leave it. -/
def written (write : α → Option β) (l : List α) (b : β) : β := l.foldl (fun b a => (write a).getD b) b

/-- The operations that write. -/
def writers (write : α → Option β) (l : List α) : List α := l.filter fun a => (write a).isSome

theorem written_append (l l' : List α) (b : β) : written write (l ++ l') b = written write l' (written write l b) :=
  List.foldl_append

theorem written_eq (l : List α) (b : β) : written write l b = ((writers write l).getLast?.bind write).getD b := by
  induction l using List.reverseRecOn with
  | nil => rfl
  | append_singleton l a ih =>
    rw [written_append, writers, List.filter_append]
    cases ha : write a with
    | none =>
      rw [List.filter_cons_of_neg (by simp [ha]), List.filter_nil, List.append_nil]
      exact (congrArg (fun v => Option.getD v _) ha).trans ih
    | some v =>
      rw [List.filter_cons_of_pos (by rw [ha]; rfl), List.filter_nil, List.getLast?_append, List.getLast?_singleton]
      exact (congrArg (fun v => Option.getD v _) ha).trans (congrArg (fun v => Option.getD v b) ha.symm)

theorem exists_write_of_getLast? {l : List α} {a : α} (h : (writers write l).getLast? = some a) :
    ∃ v, write a = some v :=
  Option.isSome_iff_exists.mp (List.mem_filter.mp (List.mem_of_getLast? h)).2

/-- Sorting the operations first leaves the cell as it is without exactly when the last writer writes what the last
one with the greatest key of a writer does. -/
theorem written_stableSort_eq_iff [LinearOrder ν] (key : α → ν) (l : List α) (b : β) :
    written write (stableSort key l) b = written write l b ↔
      (greatest key (writers write l)).getLast?.bind write = (writers write l).getLast?.bind write := by
  have hlast : (writers write (stableSort key l)).getLast? = (greatest key (writers write l)).getLast? :=
    getLast?_filter_stableSort _ l
  have hperm : (writers write (stableSort key l)).Perm (writers write l) := (perm_stableSort l).filter _
  rw [written_eq, written_eq, ← hlast]
  cases hsorted : (writers write (stableSort key l)).getLast? with
  | none =>
    rw [List.getLast?_eq_none_iff] at hsorted
    rw [hsorted] at hperm
    rw [← hperm.nil_eq]
    exact iff_of_true rfl rfl
  | some a' =>
    cases hwriters : (writers write l).getLast? with
    | none =>
      rw [List.getLast?_eq_none_iff] at hwriters
      rw [hwriters] at hperm
      rw [hperm.eq_nil] at hsorted
      cases hsorted
    | some a =>
      obtain ⟨v', hv'⟩ := exists_write_of_getLast? hsorted
      obtain ⟨v, hv⟩ := exists_write_of_getLast? hwriters
      rw [Option.bind_some, Option.bind_some, hv, hv', Option.getD_some, Option.getD_some, Option.some_inj]

end Cell

end Zcp.Lib
