import Mathlib.Tactic.Ring
import Zcp.Common.ECKeyTable.Balance

/-!
# Walking the rows

What the functions that only read the tree compute, in terms of the list of the rows: `nextRow` and
`prevRow` step to the neighbours in the list, `currentRowLoop` counts the visible rows before a row,
and `seekRowLoop` finds a row with a given number of visible rows before it. A hidden row and the
visible row after it have the same number of rows before them, so the row `seekRowLoop` finds may be
hidden.
-/

namespace Zcp.Common

open Zcp.Lib Zcp.Lib.Assn

/-- The number of visible rows of a list. -/
def visibleRows (xs : List RowAt) : ℕ := (xs.map RowAt.visible).sum

@[simp] theorem visibleRows_nil : visibleRows [] = 0 := rfl

@[simp] theorem visibleRows_cons (r : RowAt) (xs : List RowAt) :
    visibleRows (r :: xs) = r.visible + visibleRows xs := by
  simp [visibleRows]

@[simp] theorem visibleRows_append (xs ys : List RowAt) :
    visibleRows (xs ++ ys) = visibleRows xs + visibleRows ys := by
  simp [visibleRows]

theorem count_eq_visibleRows (t : AvlTree RowAt) : count t = visibleRows t.toList :=
  AvlTree.weight_eq_sum _ t

/-- The address of the last row of a list, and of the sentinel when there is none. -/
def lastAddr (lpRoot : Addr) (xs : List RowAt) : Addr := (xs.getLast?.map RowAt.addr).getD lpRoot

/-- The key of the last row of a list, and of the sentinel when there is none. -/
def lastKey (xs : List RowAt) : SObjectTableKey := (xs.getLast?.map RowAt.sKey).getD .zero

variable {lpRoot : Addr} {h : Heap} {n : ℕ}

/-! ## Down the tree -/

variable {p : Addr} {left : Bool} {t : AvlTree RowAt} {a : RowAt}

theorem leftmost_spec (ha : t.root? = some a) (hn : t.height ≤ n) (hh : Has (treeAt p left t) h) :
    leftmost h n a.addr = t.toList.head?.map RowAt.addr := by
  induction t generalizing p left a n with
  | nil => cases ha
  | node l b r ihl _ =>
    obtain rfl : b = a := Option.some.inj ha
    obtain ⟨n, rfl⟩ : ∃ m, n = m + 1 := ⟨n - 1, by rw [AvlTree.height_node] at hn; omega⟩
    rw [AvlTree.height_node] at hn
    obtain ⟨hcell, hsub⟩ := hh.split
    rw [leftmost, hcell.get]
    cases l with
    | nil => rfl
    | node l' x r' =>
      have hleft := ihl (a := x) (n := n) rfl (by omega) hsub.split.1
      simp only [RowAt.cell, addr?_node, Option.bind_eq_bind, Option.bind_some, hleft]
      simp

theorem rightmost_spec (ha : t.root? = some a) (hn : t.height ≤ n) (hh : Has (treeAt p left t) h) :
    rightmost h n a.addr = t.toList.getLast?.map RowAt.addr := by
  induction t generalizing p left a n with
  | nil => cases ha
  | node l b r _ ihr =>
    obtain rfl : b = a := Option.some.inj ha
    obtain ⟨n, rfl⟩ : ∃ m, n = m + 1 := ⟨n - 1, by rw [AvlTree.height_node] at hn; omega⟩
    rw [AvlTree.height_node] at hn
    obtain ⟨hcell, hsub⟩ := hh.split
    rw [rightmost, hcell.get]
    cases r with
    | nil => simp [RowAt.cell]
    | node l' x r' =>
      have hright := ihr (a := x) (n := n) rfl (by omega) hsub.split.2
      simp only [RowAt.cell, addr?_node, Option.bind_eq_bind, Option.bind_some, hright]
      simp [List.getLast?_append, List.getLast?_cons]

/-! ## Up the tree -/

/-- A row whose links up are those of the root of the tree in a hole. -/
def LinkedUp (lpRoot : Addr) (h : Heap) (a : Addr) (c : Ctx RowAt) : Prop :=
  ∃ row, h a = some row ∧ row.fLeft = holeLeft c ∧ row.lpParent = some (holeParent lpRoot c)

variable {c : Ctx RowAt} {l r : AvlTree RowAt}

theorem linkedUp_root (hh : Has (fillAt lpRoot c (.node l a r)) h) : LinkedUp lpRoot h a.addr c :=
  ⟨_, hh.split.1.get, rfl, rfl⟩

theorem linkedUp_cons {f : Frame RowAt} (hh : Has (pathAt lpRoot (f :: c) t) h) : LinkedUp lpRoot h f.val.addr c :=
  ⟨_, hh.split.1.get, rfl, rfl⟩

/-- Going up over left children ends below the row before the subtree. -/
theorem climbOver_true {a : Addr} (hn : c.length < n) (ha : LinkedUp lpRoot h a c) (hh : Has (pathAt lpRoot c t) h) :
    climbOver h n true a = some (some (lastAddr lpRoot c.before)) := by
  rw [lastAddr, Ctx.getLast?_before, climbOver]
  induction c generalizing a t n with
  | nil =>
    obtain ⟨n, rfl⟩ : ∃ m, n = m + 1 := ⟨n - 1, by simp at hn; omega⟩
    obtain ⟨row, hrow, hleft, hparent⟩ := ha
    simp [climb, hrow, hleft, hparent, holeLeft, holeParent]
  | cons f c ih =>
    rw [List.length_cons] at hn
    obtain ⟨n, rfl⟩ : ∃ m, n = m + 1 := ⟨n - 1, by omega⟩
    obtain ⟨row, hrow, hleft, hparent⟩ := ha
    cases hf : f.left
    · simp [climb, hrow, hleft, hparent, holeLeft, holeParent, hf]
    · have hup := ih (n := n) (by omega) (linkedUp_cons hh) hh.split.2.split.2
      rw [climb, hrow]
      simp only [Option.bind_eq_bind, Option.bind_some, hleft, holeLeft, hf, if_true, hparent,
        holeParent]
      rw [List.dropWhile_cons_of_pos hf]
      exact hup

/-- Going up over right children ends below the row after the subtree, or at the sentinel. -/
theorem climbOver_false {a : Addr} (hn : c.length + 2 < n)
    (ha : LinkedUp lpRoot h a c) (hh : Has (pathAt lpRoot c t) h) :
    climbOver h n false a = some (c.after.head?.map RowAt.addr) := by
  rw [Ctx.head?_after, climbOver]
  induction c generalizing a t n with
  | nil =>
    obtain ⟨n, rfl⟩ : ∃ m, n = m + 3 := ⟨n - 3, by simp at hn; omega⟩
    obtain ⟨row, hrow, hleft, hparent⟩ := ha
    obtain ⟨k, hroot⟩ := hh.exists
    simp [climb, hrow, hleft, hparent, holeLeft, holeParent, hroot.get, rootCell]
  | cons f c ih =>
    rw [List.length_cons] at hn
    obtain ⟨n, rfl⟩ : ∃ m, n = m + 1 := ⟨n - 1, by omega⟩
    obtain ⟨row, hrow, hleft, hparent⟩ := ha
    cases hf : f.left
    · have hup := ih (n := n) (by omega) (linkedUp_cons hh) hh.split.2.split.2
      rw [climb, hrow]
      simp only [Option.bind_eq_bind, Option.bind_some, hleft, holeLeft, hf, if_true, hparent,
        holeParent]
      rw [List.dropWhile_cons_of_pos (by simp [hf])]
      exact hup
    · simp [climb, hrow, hleft, hparent, holeLeft, holeParent, hf]

/-! ## Neighbours -/

variable {T : AvlTree RowAt}

/-- `Next` from a row goes to the row after it in the list. -/
theorem nextRow_spec (hT : Ctx.plug c (.node l a r) = T) (hn : T.toList.length + 2 ≤ n)
    (hh : Has (tableAt lpRoot T) h) : nextRow h n a.addr = some ((r.toList ++ c.after).head?.map RowAt.addr) := by
  obtain ⟨F, hh⟩ := hh
  obtain ⟨hpath, hrest⟩ := (Has.self (tableAt_focus hT hh)).split
  obtain ⟨hcell, hsub⟩ := hrest.split.1.split
  have hlen := Ctx.length_le_length_plug c (.node l a r)
  rw [hT] at hlen
  rw [AvlTree.toList_node, List.length_append, List.length_cons] at hlen
  rw [nextRow, hcell.get]
  cases r with
  | nil => exact climbOver_false (by omega) (linkedUp_root hrest.split.1) hpath
  | node l' x r' =>
    have hheight := AvlTree.height_le_length (.node l' x r')
    have hleft := leftmost_spec (a := x) (n := n) rfl (by omega) hsub.split.2
    simp only [RowAt.cell, addr?_node, Option.bind_eq_bind, Option.bind_some, hleft]
    simp

/-- `Prev` from a row goes to the row before it in the list, and from the first row to the
sentinel. -/
theorem prevRow_spec (hT : Ctx.plug c (.node l a r) = T) (hn : T.toList.length + 2 ≤ n)
    (hh : Has (tableAt lpRoot T) h) : prevRow h n a.addr = some (some (lastAddr lpRoot (c.before ++ l.toList))) := by
  obtain ⟨F, hh⟩ := hh
  obtain ⟨hpath, hrest⟩ := (Has.self (tableAt_focus hT hh)).split
  obtain ⟨hcell, hsub⟩ := hrest.split.1.split
  have hlen := Ctx.length_le_length_plug c (.node l a r)
  rw [hT] at hlen
  rw [AvlTree.toList_node, List.length_append, List.length_cons] at hlen
  rw [prevRow, hcell.get]
  cases l with
  | nil =>
    rw [AvlTree.toList_nil, List.append_nil]
    exact climbOver_true (by omega) (linkedUp_root hrest.split.1) hpath
  | node l' x r' =>
    have hheight := AvlTree.height_le_length (.node l' x r')
    have hright := rightmost_spec (a := x) (n := n) rfl (by omega) hsub.split.1
    simp only [RowAt.cell, addr?_node, Option.bind_eq_bind, Option.bind_some, hright]
    simp [lastAddr, List.getLast?_append, List.getLast?_cons]

/-! ## Row numbers -/

variable {k : ℤ}

/-- The loop of `CurrentRow` adds the visible rows before a subtree. -/
theorem currentRowLoop_spec (hT : Ctx.plug c (.node l a r) = T) (hn : c.length < n) (hh : Has (tableAt lpRoot T) h) :
    currentRowLoop h lpRoot n a.addr k = some (k + visibleRows c.before) := by
  obtain ⟨F, hF⟩ := hh
  induction c generalizing l r a n k with
  | nil =>
    obtain ⟨n, rfl⟩ : ∃ m, n = m + 1 := ⟨n - 1, by simp at hn; omega⟩
    rw [currentRowLoop, (tableAt_has hT hF).split.1.get]
    simp [RowAt.cell, holeParent, Ctx.before]
  | cons f c ih =>
    rw [List.length_cons] at hn
    obtain ⟨n, rfl⟩ : ∃ m, n = m + 1 := ⟨n - 1, by omega⟩
    have hcell := (tableAt_has hT hF).split.1.get
    obtain ⟨l', r', hnode⟩ := Ctx.frame_plug_eq_node f (.node l a r)
    rw [Ctx.plug_cons, hnode] at hT
    have hparent := (tableAt_has hT hF).split.1.get
    have hne : f.val.addr ≠ lpRoot := addr_ne_root hT hF
    have hcount := count_plug f (.node l a r)
    rw [hnode] at hcount
    rw [currentRowLoop, hcell]
    simp only [RowAt.cell, holeParent, holeLeft, Option.bind_eq_bind, Option.bind_some, hne,
      if_false, hparent, hcount]
    rw [ih hT (by omega)]
    cases hf : f.left
    · simp [Ctx.before, hf, count_eq_visibleRows]
      ring
    · simp [Ctx.before, hf]

/-- What `SeekRow` finds in a tree: a row with `k` visible rows before it, or the end. -/
def Sought (t : AvlTree RowAt) (k : ℤ) (res : Option Addr) : Prop :=
  (∃ xs a ys, t.toList = xs ++ a :: ys ∧ (visibleRows xs : ℤ) = k ∧ res = some a.addr) ∨
    (res = none ∧ k = count t)

variable {b : RowAt}

theorem Sought.in_left {res : Option Addr}
    (hlt : k < count l) (hs : Sought l k res) : Sought (.node l b r) k res := by
  rcases hs with ⟨xs, a, ys, hl, hk, hres⟩ | ⟨-, hk⟩
  · exact .inl ⟨xs, a, ys ++ b :: r.toList, by simp [hl], hk, hres⟩
  · omega

theorem Sought.in_right {res : Option Addr}
    (hs : Sought r (k - (count l + b.visible)) res) : Sought (.node l b r) k res := by
  rcases hs with ⟨xs, a, ys, hr, hk, hres⟩ | ⟨hres, hk⟩
  · refine .inl ⟨l.toList ++ b :: xs, a, ys, by simp [hr], ?_, hres⟩
    rw [visibleRows_append, visibleRows_cons, ← count_eq_visibleRows]
    push_cast
    omega
  · refine .inr ⟨hres, ?_⟩
    rw [count_node]
    push_cast
    omega

/-- A search that looks for the end below a leaf ends there. -/
theorem seekRowLoop_leaf (hk : 0 < k) (hn : 0 < n)
    (hh : Has (treeAt p left (.node .nil b .nil)) h) : seekRowLoop h n b.addr k = some none := by
  obtain ⟨n, rfl⟩ : ∃ m, n = m + 1 := ⟨n - 1, by omega⟩
  have hne : ¬ ((0 : ℕ) : ℤ) = k := by omega
  rw [seekRowLoop, hh.split.1.get]
  simp only [RowAt.cell, addr?_nil, Option.bind_eq_bind, Option.bind_some, Heap.branchCount_none]
  rw [if_neg hne]

/-- The search finds its row. Where a row has only a left child, the search goes there without
comparing counts; since the tree is balanced this child is a leaf, and the search ends right below
it. -/
theorem seekRowLoop_spec
    (ha : t.root? = some a) (hb : t.Balanced) (hk : 0 ≤ k) (hkt : k ≤ count t) (hn : t.height ≤ n)
    (hh : Has (treeAt p left t) h) : Yields (seekRowLoop h n a.addr k) (Sought t k) := by
  induction t generalizing p left a k n with
  | nil => cases ha
  | node l b r ihl ihr =>
    obtain rfl : b = a := Option.some.inj ha
    obtain ⟨n, rfl⟩ : ∃ m, n = m + 1 := ⟨n - 1, by rw [AvlTree.height_node] at hn; omega⟩
    obtain ⟨h1, h2, hbl, hbr⟩ := AvlTree.balanced_node.mp hb
    rw [AvlTree.height_node] at hn
    rw [count_node] at hkt
    push_cast at hkt
    obtain ⟨hcell, hsub⟩ := hh.split
    obtain ⟨hl, hr⟩ := hsub.split
    have hvis : ((if b.fHidden then 0 else 1 : ℤ)) = b.visible := by
      rw [RowAt.visible]
      split_ifs <;> rfl
    rw [seekRowLoop, hcell.get]
    simp only [RowAt.cell, Option.bind_eq_bind, Option.bind_some, branchCount_treeAt hl, hvis]
    -- as many visible rows on the left as the walk has to skip
    by_cases hfound : (count l : ℤ) = k
    · rw [if_pos hfound]
      refine yields_some.mpr (.inl ⟨l.toList, b, r.toList, rfl, ?_, rfl⟩)
      rw [← hfound, count_eq_visibleRows]
    · rw [if_neg hfound]
      have hle : b.visible ≤ 1 := by rw [RowAt.visible]; split_ifs <;> omega
      rcases l with - | ⟨l₁, x, l₂⟩ <;> rcases r with - | ⟨r₁, y, r₂⟩
      · refine yields_some.mpr (.inr ⟨rfl, ?_⟩)
        simp only [count_nil, count_node] at hkt hfound ⊢
        push_cast at hkt hfound ⊢
        omega
      · have hs := ihr (a := y) (k := k - b.visible) (n := n) rfl hbr
          (by rw [count_nil] at hfound; push_cast at hfound; omega)
          (by rw [count_nil] at hkt; push_cast at hkt; omega) (by omega) hr
        refine hs.imp fun res hres => Sought.in_right ?_
        simpa using hres
      · rw [count_nil] at hkt
        push_cast at hkt
        by_cases hlt : k < count (.node l₁ x l₂)
        · exact (ihl (a := x) rfl hbl hk (le_of_lt hlt) (by omega) hl).imp fun res hres =>
            hres.in_left hlt
        · -- the row is past the left child, which has no children
          rw [AvlTree.height_node, AvlTree.height_nil] at h1
          obtain rfl : l₁ = .nil := AvlTree.height_eq_zero.mp (by omega)
          obtain rfl : l₂ = .nil := AvlTree.height_eq_zero.mp (by omega)
          rw [addr?_node, addr?_nil]
          refine ⟨none, seekRowLoop_leaf (by omega) ?_ hl, .inr ⟨rfl, ?_⟩⟩
          · rw [AvlTree.height_node] at hn
            omega
          · rw [count_node (.node _ _ _), count_nil]
            push_cast
            omega
      · simp only [addr?_node]
        split_ifs with hlt
        · exact (ihr (a := y) (n := n) rfl hbr (by omega) (by omega) (by omega) hr).imp
            fun res hres => hres.in_right
        · exact (ihl (a := x) (n := n) rfl hbl hk (by omega) (by omega) hl).imp fun res hres =>
            hres.in_left (by omega)

/-! ## The place of a new row -/

theorem searchParent_treeAt [CollationKeys] {new : ECTableRow} (hnew : new.fRoot = false)
    (c : Ctx RowAt) (ha : t.root? = some a) (hn : t.height ≤ n) (hh : Has (treeAt p left t) h) :
    searchParent h new n a.addr = some (holeParent lpRoot
          (t.descend (fun r => rowcompareCols false new.sortCols r.sortCols) c),
        holeLeft (t.descend (fun r => rowcompareCols false new.sortCols r.sortCols) c)) := by
  induction t generalizing p left a n c with
  | nil => cases ha
  | node l b r ihl ihr =>
    obtain rfl : b = a := Option.some.inj ha
    obtain ⟨n, rfl⟩ : ∃ m, n = m + 1 := ⟨n - 1, by rw [AvlTree.height_node] at hn; omega⟩
    rw [AvlTree.height_node] at hn
    obtain ⟨hcell, hsub⟩ := hh.split
    obtain ⟨hl, hr⟩ := hsub.split
    rw [searchParent, hcell.get, AvlTree.descend]
    simp only [ECTableRow.rowcompare, RowAt.cell, hnew, Option.bind_eq_bind, Option.bind_some,
      Bool.false_and, Bool.false_eq_true, if_false]
    split_ifs with hlt
    · cases l with
      | nil => rfl
      | node l₁ x l₂ => exact ihl (a := x) _ rfl (by omega) hl
    · cases r with
      | nil => rfl
      | node r₁ x r₂ => exact ihr (a := x) _ rfl (by omega) hr

/-- The search for the place of a new row follows `AvlTree.descend`. -/
theorem searchParent_spec [CollationKeys] {new : ECTableRow} (hnew : new.fRoot = false)
    (hn : T.height < n) (hh : Has (tableAt lpRoot T) h) : searchParent h new n lpRoot = some (holeParent lpRoot
          (T.descend (fun r => rowcompareCols false new.sortCols r.sortCols) []),
        holeLeft (T.descend (fun r => rowcompareCols false new.sortCols r.sortCols) [])) := by
  obtain ⟨n, rfl⟩ : ∃ m, n = m + 1 := ⟨n - 1, by omega⟩
  obtain ⟨hpath, hfill⟩ := hh.split
  obtain ⟨k, hroot⟩ := hpath.exists
  rw [searchParent, hroot.get]
  simp only [ECTableRow.rowcompare, rootCell, Option.bind_eq_bind, Option.bind_some]
  cases T with
  | nil => simp [AvlTree.descend, holeParent, holeLeft, hnew]
  | node l a r => simpa [hnew] using searchParent_treeAt hnew [] rfl (by omega) hfill

end Zcp.Common
