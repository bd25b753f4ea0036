import Mathlib.Data.List.Basic
import Mathlib.Data.List.TakeDrop

/-!
# Padded arrays

A growable array that is filled with a value where it grows, and the memory that holds it: the array with
more of this value behind it.
-/

namespace Zcp.Lib.PaddedArray

variable {α : Type*} (z : α)

/-- Store items at a position. The array grows when they reach behind its end. -/
def overwrite (l : List α) (pos : ℕ) (items : List α) : List α :=
  l.takeD pos z ++ items ++ l.drop (pos + items.length)

variable {z}

theorem takeD_eq (n : ℕ) (l : List α) : l.takeD n z = l.take n ++ List.replicate (n - l.length) z := by
  induction n generalizing l with
  | zero => rw [List.takeD_zero, List.take_zero, Nat.zero_sub, List.replicate_zero, List.append_nil]
  | succ n ih =>
    cases l with
    | nil => rw [List.takeD_nil, List.take_nil, List.nil_append, List.length_nil, Nat.sub_zero]
    | cons a l =>
      rw [List.takeD, List.headD_cons, List.tail_cons, ih, List.take_succ_cons, List.length_cons,
        Nat.succ_sub_succ, List.cons_append]

/-- What is read from the memory at its start. -/
theorem take_pad {l : List α} {k n : ℕ} (hn : n ≤ l.length + k) : (l ++ List.replicate k z).take n = l.takeD n z := by
  rw [takeD_eq, List.take_append, List.take_replicate, Nat.min_eq_left (by omega)]

theorem drop_pad (l : List α) (k n : ℕ) :
    (l ++ List.replicate k z).drop n = l.drop n ++ List.replicate (k - (n - l.length)) z := by
  rw [List.drop_append, List.drop_replicate]

theorem length_overwrite (l : List α) (pos : ℕ) (items : List α) :
    (overwrite z l pos items).length = max l.length (pos + items.length) := by
  rw [overwrite, List.length_append, List.length_append, List.takeD_length, List.length_drop]
  omega

/-- Storing items in the memory stores them in the array. -/
theorem overwrite_pad {l : List α} {k pos : ℕ} {items : List α} (hfits : pos + items.length ≤ l.length + k) :
    (l ++ List.replicate k z).take pos ++ items ++ (l ++ List.replicate k z).drop (pos + items.length) =
      overwrite z l pos items ++ List.replicate (k - (pos + items.length - l.length)) z := by
  rw [take_pad (by omega), drop_pad, overwrite, List.append_assoc, List.append_assoc,
    List.append_assoc]

end Zcp.Lib.PaddedArray
