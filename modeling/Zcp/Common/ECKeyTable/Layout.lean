import Zcp.Common.ECKeyTable
import Zcp.Lib.AvlTree
import Zcp.Lib.Separation

/-!
# The layout of the key table in memory

`treeAt` describes the cells of a tree of rows: the links to the parent and the children, which child
a row is, and the exact counts and heights. A tree with a hole is described twice: by `linksAt`,
which says nothing about the counts on the path to the root, and by `pathAt`, where they are exact.
`UpdateCounts` turns the first into the second (`updateCounts_spec`), so an operation that moves
pointers around below a row and then counts from there has only its links to explain.

`tableAt` is the whole memory of a table: the sentinel and the tree of its rows.
-/

namespace Zcp.Common

open Zcp.Lib Zcp.Lib.Assn

/-- A row of the table at its address, apart from its links and counts. -/
structure RowAt where
  addr : Addr
  sKey : SObjectTableKey
  sortCols : List SortCol
  fHidden : Bool
deriving DecidableEq, Repr

namespace RowAt

/-- What a row adds to the number of visible rows. -/
def visible (r : RowAt) : ℕ := if r.fHidden then 0 else 1

theorem visible_le_one (r : RowAt) : r.visible ≤ 1 := by
  rw [visible]
  split_ifs <;> omega

/-- The cell of a row with its links and counts. -/
def cell (r : RowAt) (lpParent : Addr) (fLeft : Bool) (lpLeft lpRight : Option Addr)
    (ulBranchCount ulHeight : ℕ) : ECTableRow where
  sKey := r.sKey
  sortCols := r.sortCols
  lpParent := some lpParent
  lpLeft := lpLeft
  lpRight := lpRight
  ulBranchCount := ulBranchCount
  ulHeight := ulHeight
  fLeft := fLeft
  fRoot := false
  fHidden := r.fHidden

end RowAt

/-- The cell of the sentinel. -/
def rootCell (lpRight : Option Addr) (ulBranchCount ulHeight : ℕ) : ECTableRow where
  sKey := .zero
  sortCols := []
  lpParent := none
  lpLeft := none
  lpRight := lpRight
  ulBranchCount := ulBranchCount
  ulHeight := ulHeight
  fLeft := false
  fRoot := true
  fHidden := false

/-- The number of visible rows of a tree. -/
def count (t : AvlTree RowAt) : ℕ := t.weight RowAt.visible

/-- The address of the root of a tree, `NULL` for no tree. -/
def addr? (t : AvlTree RowAt) : Option Addr := t.root?.map RowAt.addr

@[simp] theorem count_nil : count .nil = 0 := rfl

@[simp] theorem count_node (l : AvlTree RowAt) (r : RowAt) (rt : AvlTree RowAt) :
    count (.node l r rt) = count l + r.visible + count rt := rfl

@[simp] theorem addr?_nil : addr? .nil = none := rfl

@[simp] theorem addr?_node (l : AvlTree RowAt) (r : RowAt) (rt : AvlTree RowAt) :
    addr? (.node l r rt) = some r.addr := rfl

@[simp] theorem addr?_plug (f : Frame RowAt) (t : AvlTree RowAt) : addr? (f.plug t) = some f.val.addr := by
  rw [Frame.plug]
  split_ifs <;> rfl

theorem count_plug (f : Frame RowAt) (t : AvlTree RowAt) : count (f.plug t) = count t + f.val.visible + count f.sib :=
  Ctx.weight_frame_plug _ f t

/-- The cells of a tree, whose root is the left or right child of `lpParent`. -/
def treeAt (lpParent : Addr) (fLeft : Bool) : AvlTree RowAt → Assn ECTableRow
  | .nil => 1
  | .node l r rt =>
    pts r.addr (r.cell lpParent fLeft (addr? l) (addr? rt) (count (.node l r rt))
      (AvlTree.height (.node l r rt))) * (treeAt r.addr true l * treeAt r.addr false rt)

/-- The cell of a row above a hole, when `hole` is the address in the hole. -/
def frameCell (f : Frame RowAt) (lpParent : Addr) (fLeft : Bool) (hole : Option Addr)
    (ulBranchCount ulHeight : ℕ) : ECTableRow :=
  f.val.cell lpParent fLeft (if f.left then hole else addr? f.sib)
    (if f.left then addr? f.sib else hole) ulBranchCount ulHeight

theorem treeAt_plug (lpParent : Addr) (fLeft : Bool) (f : Frame RowAt) (t : AvlTree RowAt) :
    treeAt lpParent fLeft (f.plug t) =
      pts f.val.addr (frameCell f lpParent fLeft (addr? t) (count (f.plug t)) (f.plug t).height) *
        (treeAt f.val.addr (!f.left) f.sib * treeAt f.val.addr f.left t) := by
  obtain ⟨left, r, s⟩ := f
  cases left
  · rfl
  · simp only [Frame.plug, if_true, treeAt, frameCell, Bool.not_true]
    rw [mul_comm (treeAt r.addr false s)]

section Path

variable (lpRoot : Addr)

/-- The parent of the hole. -/
def holeParent : Ctx RowAt → Addr
  | [] => lpRoot
  | f :: _ => f.val.addr

/-- Whether the hole is a left child. -/
def holeLeft : Ctx RowAt → Bool
  | [] => false
  | f :: _ => f.left

/-- The cells around a hole, with no word about the counts on the path to the root. -/
def linksAt : Ctx RowAt → Option Addr → Assn ECTableRow
  | [], hole => ex fun n => ex fun k => pts lpRoot (rootCell hole n k)
  | f :: c, hole =>
    (ex fun n => ex fun k => pts f.val.addr (frameCell f (holeParent lpRoot c) (holeLeft c) hole n k)) *
      (treeAt f.val.addr (!f.left) f.sib * linksAt c (some f.val.addr))

/-- The cells around a hole filled with `t`. -/
def pathAt : Ctx RowAt → AvlTree RowAt → Assn ECTableRow
  | [], t => ex fun k => pts lpRoot (rootCell (addr? t) (count t) k)
  | f :: c, t =>
    pts f.val.addr (frameCell f (holeParent lpRoot c) (holeLeft c) (addr? t) (count (f.plug t))
        (f.plug t).height) *
      (treeAt f.val.addr (!f.left) f.sib * pathAt c (f.plug t))

/-- The tree that fills a hole. -/
def fillAt (c : Ctx RowAt) (t : AvlTree RowAt) : Assn ECTableRow :=
  treeAt (holeParent lpRoot c) (holeLeft c) t

/-- The memory of a table with the rows of `t`. -/
def tableAt (t : AvlTree RowAt) : Assn ECTableRow := pathAt lpRoot [] t * fillAt lpRoot [] t

variable {lpRoot} {F : Assn ECTableRow} {h : Heap}

/-- A filled hole is a tree. -/
theorem pathAt_fillAt (c : Ctx RowAt) (t : AvlTree RowAt) :
    pathAt lpRoot c t * fillAt lpRoot c t = tableAt lpRoot (c.plug t) := by
  induction c generalizing t with
  | nil => rfl
  | cons f c ih =>
    rw [Ctx.plug_cons, ← ih, fillAt, fillAt, treeAt_plug, pathAt, holeParent, holeLeft]
    ac_rfl

variable {c : Ctx RowAt} {t : AvlTree RowAt}

/-- A table with the focus on a subtree. -/
theorem tableAt_focus {T : AvlTree RowAt} (hT : c.plug t = T)
    (hh : (tableAt lpRoot T * F) h) : (pathAt lpRoot c t * (fillAt lpRoot c t * F)) h :=
  reorder hh (by rw [← hT, ← pathAt_fillAt, mul_assoc])

theorem tableAt_of_focus (hh : (pathAt lpRoot c t * (fillAt lpRoot c t * F)) h) : (tableAt lpRoot (c.plug t) * F) h :=
  reorder hh (by rw [← pathAt_fillAt, mul_assoc])

theorem linksAt_of_pathAt {h : Heap} (hh : pathAt lpRoot c t h) : linksAt lpRoot c (addr? t) h := by
  induction c generalizing t h with
  | nil => exact ⟨count t, hh⟩
  | cons f c ih =>
    refine mul_mono (fun g hg => ⟨_, _, hg⟩) (fun g hg => ?_) hh
    refine mul_mono (fun g hg => hg) (fun g hg => ?_) hg
    have := ih hg
    rwa [addr?_plug] at this

/-- The links around a subtree of a table. -/
theorem linksAt_of_tableAt {T : AvlTree RowAt} (hT : c.plug t = T) (hh : (tableAt lpRoot T * F) h) :
    (linksAt lpRoot c (addr? t) * (fillAt lpRoot c t * F)) h :=
  mul_mono (show ∀ g, pathAt lpRoot c t g → linksAt lpRoot c (addr? t) g from
    fun _ => linksAt_of_pathAt) (fun _ hF => hF) (tableAt_focus hT hh)

/-! ## Reading -/

variable {p : Addr} {left : Bool}

theorem branchCount_treeAt (hh : Has (treeAt p left t) h) : h.branchCount (addr? t) = some (count t) := by
  cases t with
  | nil => rfl
  | node l r rt =>
    rw [addr?_node, Heap.branchCount, hh.split.1.get]
    rfl

theorem height_treeAt (hh : Has (treeAt p left t) h) : h.height (addr? t) = some t.height := by
  cases t with
  | nil => rfl
  | node l r rt =>
    rw [addr?_node, Heap.height, hh.split.1.get]
    rfl

variable {hole : Option Addr}

/-- The cell of the sentinel. -/
theorem linksAt_nil : (linksAt lpRoot [] hole * F) h ↔ ∃ n k, (pts lpRoot (rootCell hole n k) * F) h := by
  rw [linksAt, ex_mul]
  exact exists_congr fun n => ex_mul

/-- The cell of a row above a hole, and the rest. -/
theorem linksAt_cons {f : Frame RowAt} : (linksAt lpRoot (f :: c) hole * F) h ↔
      ∃ n k, (pts f.val.addr (frameCell f (holeParent lpRoot c) (holeLeft c) hole n k) *
        (treeAt f.val.addr (!f.left) f.sib * (linksAt lpRoot c (some f.val.addr) * F))) h := by
  rw [linksAt, mul_assoc, mul_assoc, ex_mul]
  exact exists_congr fun n => ex_mul

/-- From a tree in a hole to its left part in the hole below the root. -/
theorem linksAt_left {l r : AvlTree RowAt} {a : RowAt}
    (hh : (linksAt lpRoot c (addr? (.node l a r)) * (fillAt lpRoot c (.node l a r) * F)) h) :
    (linksAt lpRoot (⟨true, a, r⟩ :: c) (addr? l) * (fillAt lpRoot (⟨true, a, r⟩ :: c) l * F)) h := by
  rw [fillAt, treeAt, mul_assoc] at hh
  have hcell : (pts a.addr (frameCell ⟨true, a, r⟩ (holeParent lpRoot c) (holeLeft c) (addr? l)
      (count (.node l a r)) (AvlTree.height (.node l a r))) *
        (linksAt lpRoot c (some a.addr) *
          (treeAt a.addr true l * treeAt a.addr false r * F))) h := front₂ hh
  refine linksAt_cons.mpr ⟨count (.node l a r), AvlTree.height (.node l a r), reorder hcell ?_⟩
  rw [fillAt, holeParent, holeLeft]
  simp only [Bool.not_true]
  ac_rfl

/-- The sentinel is among the cells around a hole. -/
theorem linksAt_root (hh : Has (linksAt lpRoot c hole) h) : ∃ hole n k, Has (pts lpRoot (rootCell hole n k)) h := by
  induction c generalizing hole with
  | nil =>
    obtain ⟨n, hh⟩ := hh.exists
    obtain ⟨k, hh⟩ := hh.exists
    exact ⟨hole, n, k, hh⟩
  | cons f c ih => exact ih hh.split.2.split.2

/-- A row is not the sentinel. -/
theorem ne_root_of_cell {a : Addr} {row : ECTableRow}
    (hc : Has (linksAt lpRoot c hole) h) (ha : Has (pts a row) h) (hrow : row.fRoot = false) : a ≠ lpRoot := by
  rintro rfl
  obtain ⟨hole', n, k, hroot⟩ := linksAt_root hc
  have hsame := hroot.get
  rw [ha.get, Option.some.injEq] at hsame
  rw [hsame] at hrow
  cases hrow

/-! ## Counting -/

variable {n : ℕ}

/-- The loop body of `UpdateCounts` at a row whose two children are counted. -/
theorem countRow_frame {f : Frame RowAt} {q q' : Addr} {b b' : Bool} {k : ℕ}
    (hne : f.val.addr ≠ lpRoot) (ht : Has (treeAt q b t) h) (hs : Has (treeAt q' b' f.sib) h) :
    countRow lpRoot h f.val.addr (frameCell f p left (addr? t) n k) =
      some (frameCell f p left (addr? t) (count (f.plug t)) (f.plug t).height) := by
  have hct := branchCount_treeAt ht
  have hht := height_treeAt ht
  have hcs := branchCount_treeAt hs
  have hhs := height_treeAt hs
  rw [count_plug, Ctx.height_frame_plug]
  obtain ⟨fl, r, s⟩ := f
  cases fl <;>
    simp [countRow, frameCell, RowAt.cell, hct, hht, hcs, hhs, hne, RowAt.visible] <;> omega

/-- The loop body of `UpdateCounts` at the sentinel. -/
theorem countRow_root {k : ℕ} (ht : Has (treeAt lpRoot left t) h) :
    countRow lpRoot h lpRoot (rootCell (addr? t) n k) = some (rootCell (addr? t) (count t) t.height) := by
  simp [countRow, rootCell, branchCount_treeAt ht, height_treeAt ht]

@[simp] theorem updateCountsLoop_none (n : ℕ) (h : Heap) : updateCountsLoop lpRoot n h none = some h := by
  cases n <;> rfl

theorem updateCountsLoop_some {a : Addr} {row row' : ECTableRow} (hrow : h a = some row)
    (hcount : countRow lpRoot h a row = some row') : updateCountsLoop lpRoot (n + 1) h (some a) =
      updateCountsLoop lpRoot n (Function.update h a (some row')) row.lpParent := by
  rw [updateCountsLoop, hrow]
  simp only [Option.bind_eq_bind, Option.bind_some, hcount]

/-- The loop of `UpdateCounts` from the parent of a hole makes the counts on the path exact. -/
theorem updateCountsLoop_spec (hn : c.length < n) (hh : (linksAt lpRoot c (addr? t) * (fillAt lpRoot c t * F)) h) :
    Yields (updateCountsLoop lpRoot n h (some (holeParent lpRoot c)))
      (pathAt lpRoot c t * (fillAt lpRoot c t * F)) := by
  induction c generalizing t n h F with
  | nil =>
    obtain ⟨n, rfl⟩ : ∃ m, n = m + 1 := ⟨n - 1, by simp at hn; omega⟩
    obtain ⟨m, k, hh⟩ := linksAt_nil.mp hh
    obtain ⟨hroot, hrest⟩ := (Has.self hh).split
    rw [holeParent, updateCountsLoop_some hroot.get (countRow_root hrest.split.1)]
    refine (updateCountsLoop_none n _).symm ▸ yields_some.mpr ?_
    exact mono (fun g hg => ⟨_, hg⟩) (pts_set _ hh)
  | cons f c ih =>
    obtain ⟨n, rfl⟩ : ∃ m, n = m + 1 := ⟨n - 1, by simp at hn; omega⟩
    obtain ⟨m, k, hh⟩ := linksAt_cons.mp hh
    obtain ⟨hcell, hrest⟩ := (Has.self hh).split
    obtain ⟨hsib, hrest⟩ := hrest.split
    obtain ⟨hlinks, hrest⟩ := hrest.split
    have hne : f.val.addr ≠ lpRoot := ne_root_of_cell hlinks hcell rfl
    rw [holeParent, updateCountsLoop_some hcell.get (countRow_frame hne hrest.split.1 hsib)]
    have hset := pts_set (frameCell f (holeParent lpRoot c) (holeLeft c) (addr? t)
      (count (f.plug t)) (f.plug t).height) hh
    have hstep := ih (t := f.plug t) (F := F) (by simpa using hn) (reorder hset (by
      rw [addr?_plug, fillAt, fillAt, holeParent, holeLeft, treeAt_plug]; ac_rfl))
    refine hstep.imp fun g hg => reorder hg ?_
    rw [pathAt, fillAt, fillAt, holeParent, holeLeft, treeAt_plug]
    ac_rfl

end Path

end Zcp.Common
