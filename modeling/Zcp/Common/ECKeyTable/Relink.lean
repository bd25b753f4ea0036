import Zcp.Common.ECKeyTable.Walk

/-!
# Linking and unlinking rows

Putting a new row into a hole (`linkRow_spec`) and taking a row out of the tree (`unlinkRow_unlinks`).

A row with two children is replaced by the last row of its left subtree. The way down to that row is
a segment of the path below the replaced row; `segAt` describes it apart from the rest of the path, so
that the replaced row can be exchanged at its upper end. When the predecessor is the left child
itself, the segment is empty, and the first `UpdateCounts` starts at the row that was just unlinked:
it then counts from outdated numbers, which the second `UpdateCounts` puts right
(`updateCountsLoop_linksAt`).

The two calls of `RestructureRecursive` start at the replaced row and then at the place below it where
the tree lost a row. Either the left subtree is still balanced and the first call does all the work,
or its height did not change and the first call finds nothing to do (`Ctx.plug_shrunk`).
-/

namespace Zcp.Common

open Zcp.Lib Zcp.Lib.Assn

variable {fuel : ℕ} {lpRoot : Addr} {F : Assn ECTableRow} {h : Heap}

/-! ## Counting and balancing -/

variable {T t : AvlTree RowAt}

theorem restructureRecursive_spec {c : Ctx RowAt} {k : ℕ} (hT : c.plug t = T)
    (ht : t.Balanced) (hc : Ctx.Balanced c k) (hhi : t.height ≤ k + 1) (hlo : k ≤ t.height + 1)
    (hf : T.toList.length < fuel) (hh : (tableAt lpRoot T * F) h) :
    Yields (restructureRecursive fuel lpRoot h (some (holeParent lpRoot c))) (tableAt lpRoot (c.up t) * F) := by
  have hlen := Ctx.length_le_length_plug c t
  rw [hT] at hlen
  exact restructureLoop_spec hT ht hc hhi hlo (by omega) hf hh

theorem restructureRecursive_noop {c : Ctx RowAt} (hT : c.plug t = T)
    (hc : Ctx.Balanced c t.height) (hf : T.toList.length < fuel) (hh : (tableAt lpRoot T * F) h) :
    Yields (restructureRecursive fuel lpRoot h (some (holeParent lpRoot c))) (tableAt lpRoot T * F) := by
  have hlen := Ctx.length_le_length_plug c t
  rw [hT] at hlen
  exact restructureLoop_noop hT hc (by omega) hf hh

/-- In a balanced tree `RestructureRecursive` does nothing from any row. -/
theorem restructureRecursive_balanced {a : RowAt} (ha : a ∈ T.toList)
    (hb : T.Balanced) (hf : T.toList.length < fuel) (hh : (tableAt lpRoot T * F) h) :
    Yields (restructureRecursive fuel lpRoot h (some a.addr)) (tableAt lpRoot T * F) := by
  obtain ⟨c, l, r, hT⟩ := Ctx.exists_plug_of_mem ha
  have hfocus : Ctx.plug (⟨true, a, r⟩ :: c) l = T := hT
  rw [← hfocus, Ctx.balanced_plug] at hb
  exact restructureRecursive_noop hfocus hb.2 hf hh

theorem rebalanceFrom_spec {c : Ctx RowAt} {k : ℕ}
    (ht : t.Balanced) (hc : Ctx.Balanced c k) (hhi : t.height ≤ k + 1) (hlo : k ≤ t.height + 1)
    (hf : (c.plug t).toList.length < fuel) (hh : (linksAt lpRoot c (addr? t) * (fillAt lpRoot c t * F)) h) :
    Yields (rebalanceFrom fuel lpRoot h (some (holeParent lpRoot c))) (tableAt lpRoot (c.up t) * F) :=
  (updateCounts_spec hf hh).bind fun _ hh => restructureRecursive_spec rfl ht hc hhi hlo hf hh

/-! ## Linking -/

/-- The cell `new` makes of a row. -/
def RowAt.new (r : RowAt) : ECTableRow := ECTableRow.new r.sKey r.sortCols r.fHidden

/-- Put a new row into an empty hole and repair the tree. -/
theorem linkRow_spec {c : Ctx RowAt} {r : RowAt} (hT : c.plug .nil = T)
    (hc : Ctx.Balanced c 0) (hf : T.toList.length + 1 < fuel) (hh : (tableAt lpRoot T * (pts r.addr r.new * F)) h) :
    Yields (linkRow fuel lpRoot h (holeParent lpRoot c) (holeLeft c) r.addr)
      (tableAt lpRoot (c.up (.node .nil r .nil)) * F) := by
  have hf' : (Ctx.plug (⟨true, r, .nil⟩ :: c) .nil).toList.length < fuel := by
    rw [← hT, Ctx.toList_plug] at hf
    rw [Ctx.plug_cons, Ctx.toList_plug, Ctx.toList_frame_plug]
    simp at hf ⊢
    omega
  have hh := linksAt_of_tableAt hT hh
  refine (setChild_linksAt _ hh).bind fun h hh => ?_
  refine (modify_pts _ (front₃ hh)).bind fun h hh => ?_
  have hlinks : (linksAt lpRoot (⟨true, r, .nil⟩ :: c) (addr? .nil) *
      (fillAt lpRoot (⟨true, r, .nil⟩ :: c) .nil * F)) h := by
    refine linksAt_cons.mpr ⟨0, 0, reorder hh ?_⟩
    simp only [fillAt, treeAt, one_mul]
    rfl
  refine (updateCounts_spec hf' hlinks).bind fun h hh => ?_
  -- nothing to do at the new row itself
  have hlen := Ctx.length_le_length_plug (⟨true, r, .nil⟩ :: c) .nil
  rw [List.length_cons, AvlTree.toList_nil, List.length_nil] at hlen
  obtain ⟨m, hm⟩ : ∃ m, 2 * fuel = m + 1 := ⟨2 * fuel - 1, by omega⟩
  rw [restructureRecursive, hm]
  refine restructureLoop_balanced (c := c) (l := .nil) (r := .nil) rfl hf' rfl hh fun h hh => ?_
  exact restructureLoop_spec (k := 0) rfl (by simp [AvlTree.balanced_node]) hc (by simp) (by simp)
    (by omega) hf' hh

/-! ## Unlinking -/

variable {hole : Option Addr} {p : Addr} {left : Bool}

/-- Put a child of a row in the place of the row and repair the tree. -/
theorem replaceChild_spec {c : Ctx RowAt} (ht : t.Balanced) (hc : Ctx.Balanced c (t.height + 1))
    (hf : (c.plug t).toList.length < fuel) (hh : (linksAt lpRoot c hole * (treeAt p left t * F)) h) :
    Yields (do
        let h ← h.setChild (some (holeParent lpRoot c)) (holeLeft c) (addr? t)
        let h ← h.setParent (addr? t) (some (holeParent lpRoot c)) (holeLeft c)
        rebalanceFrom fuel lpRoot h (some (holeParent lpRoot c))) (tableAt lpRoot (c.up t) * F) := by
  refine (setChild_linksAt (addr? t) hh).bind fun h hh => ?_
  refine (setParent_treeAt (holeParent lpRoot c) (holeLeft c) (front₂ hh)).bind fun h hh => ?_
  exact rebalanceFrom_spec ht hc (by omega) (by omega) hf (front₂ hh)

/-- Which child the root of a hole below a segment is, when the segment hangs below a `b` child. -/
def segLeft (b : Bool) : Ctx RowAt → Bool
  | [] => b
  | f :: _ => f.left

/-- The address at the upper end of a segment. -/
def segHole : Ctx RowAt → Option Addr → Option Addr
  | [], hole => hole
  | f :: c, _ => segHole c (some f.val.addr)

/-- The cells of a segment of a path whose upper end is a child of `q`. -/
def segAt (q : Addr) (b : Bool) : Ctx RowAt → Option Addr → Assn ECTableRow
  | [], _ => 1
  | f :: c, hole =>
    (ex fun n => ex fun k => pts f.val.addr (frameCell f (holeParent q c) (segLeft b c) hole n k)) *
      (treeAt f.val.addr (!f.left) f.sib * segAt q b c (some f.val.addr))

theorem holeParent_append (c d : Ctx RowAt) : holeParent lpRoot (c ++ d) = holeParent (holeParent lpRoot d) c := by
  cases c <;> rfl

theorem holeLeft_append (c d : Ctx RowAt) : holeLeft (c ++ d) = segLeft (holeLeft d) c := by
  cases c <;> rfl

/-- A path is cut at any row. -/
theorem linksAt_append (c d : Ctx RowAt) (hole : Option Addr) : linksAt lpRoot (c ++ d) hole =
      segAt (holeParent lpRoot d) (holeLeft d) c hole * linksAt lpRoot d (segHole c hole) := by
  induction c generalizing hole with
  | nil => exact (one_mul _).symm
  | cons f c ih =>
    rw [List.cons_append, linksAt, ih, holeParent_append, holeLeft_append, segAt, segHole]
    ac_rfl

theorem moveParent_treeAt (q : Addr) (hh : (treeAt p left t * F) h) :
    Yields (h.moveParent (addr? t) q) (treeAt q left t * F) := by
  cases t with
  | nil => exact ⟨h, rfl, hh⟩
  | node l r rt =>
    rw [treeAt, mul_assoc] at hh
    refine (modify_pts _ hh).imp fun g hg => ?_
    rw [treeAt, mul_assoc]
    exact hg

private theorem moveParent_segAt_cons {q : Addr} {b : Bool} {f : Frame RowAt} {c : Ctx RowAt}
    (q' : Addr) (hh : (segAt q b (f :: c) hole * F) h) :
    Yields (h.moveParent (segHole (f :: c) hole) q') (segAt q' b (f :: c) hole * F) := by
  induction c generalizing f hole F with
  | nil =>
    rw [segAt, mul_assoc] at hh
    obtain ⟨n, hh⟩ := ex_mul.mp hh
    obtain ⟨k, hh⟩ := ex_mul.mp hh
    refine (modify_pts _ hh).imp fun g hg => ?_
    rw [segAt, mul_assoc]
    exact ex_mul.mpr ⟨n, ex_mul.mpr ⟨k, hg⟩⟩
  | cons g c ih =>
    rw [segAt] at hh
    have hh : (segAt q b (g :: c) (some f.val.addr) *
        ((ex fun n => ex fun k => pts f.val.addr
          (frameCell f (holeParent q (g :: c)) (segLeft b (g :: c)) hole n k)) *
          (treeAt f.val.addr (!f.left) f.sib * F))) h := reorder hh (by ac_rfl)
    refine (ih hh).imp fun g' hg => ?_
    rw [segAt]
    exact reorder hg (by rw [holeParent, holeParent, segLeft]; ac_rfl)

/-- Hang a segment with the tree in its hole below another row. -/
theorem moveParent_segAt {q : Addr} {b : Bool} {c : Ctx RowAt} (q' : Addr)
    (hh : (segAt q b c (addr? t) * (treeAt (holeParent q c) (segLeft b c) t * F)) h) :
    Yields (h.moveParent (segHole c (addr? t)) q')
      (segAt q' b c (addr? t) * (treeAt (holeParent q' c) (segLeft b c) t * F)) := by
  cases c with
  | nil =>
    rw [segAt, one_mul] at hh ⊢
    exact moveParent_treeAt q' hh
  | cons f c => exact moveParent_segAt_cons q' hh

/-- The predecessor takes the place of the row: the tree is now that of the path with the predecessor
in it, only the counts are not right yet. The row keeps its links. -/
theorem replaceRow_spec {cp c : Ctx RowAt} {a m : RowAt} {lp r : AvlTree RowAt} {n k : ℕ}
    (hh : (linksAt lpRoot (cp ++ ⟨true, a, r⟩ :: c) (some m.addr) *
      (pts m.addr (m.cell (holeParent lpRoot (cp ++ ⟨true, a, r⟩ :: c))
          (holeLeft (cp ++ ⟨true, a, r⟩ :: c)) (addr? lp) none n k) * (treeAt m.addr true lp * F))) h) :
    Yields (replaceRow h a.addr m.addr) fun h => ∃ n k, (linksAt lpRoot (cp ++ ⟨true, m, r⟩ :: c) (addr? lp) *
        (fillAt lpRoot (cp ++ ⟨true, m, r⟩ :: c) lp *
          (pts a.addr (frameCell ⟨true, a, r⟩ (holeParent lpRoot c) (holeLeft c)
            (segHole cp (addr? lp)) n k) * F))) h := by
  rw [replaceRow, (Has.self (front₂ hh)).split.1.get]
  simp only [RowAt.cell, Option.bind_eq_bind, Option.bind_some]
  refine (setChild_linksAt (addr? lp) hh).bind fun h hh => ?_
  refine (setParent_treeAt _ _ (front₃ hh)).bind fun h hh => ?_
  have hh := front₂ hh
  rw [linksAt_append, mul_assoc] at hh
  obtain ⟨n', k', hh⟩ := linksAt_cons.mp (front₂ hh)
  rw [(Has.self hh).split.1.get]
  simp only [frameCell, RowAt.cell, if_true, Option.bind_some]
  refine (setChild_linksAt (some m.addr) (front₃ hh)).bind fun h hh => ?_
  rw [holeParent_append, holeLeft_append, holeParent, holeLeft] at hh
  have hh : (pts m.addr (m.cell (holeParent a.addr cp) (segLeft true cp) (addr? lp) none n k) *
      (linksAt lpRoot c (some m.addr) * (treeAt a.addr false r *
        (segAt a.addr true cp (addr? lp) * (treeAt (holeParent a.addr cp) (segLeft true cp) lp *
          (pts a.addr (frameCell ⟨true, a, r⟩ (holeParent lpRoot c) (holeLeft c)
            (segHole cp (addr? lp)) n' k') * F)))))) h :=
    reorder hh (by dsimp only [Bool.not_true]; ac_rfl)
  refine (modify_pts _ hh).bind fun h hh => ?_
  refine (moveParent_segAt m.addr (front₅ (front₅ hh))).bind fun h hh => ?_
  refine (moveParent_treeAt m.addr (front₅ hh)).imp fun h hh => ⟨n', k', ?_⟩
  have hrow : (linksAt lpRoot (⟨true, m, r⟩ :: c) (segHole cp (addr? lp)) *
      (segAt m.addr true cp (addr? lp) * (treeAt (holeParent m.addr cp) (segLeft true cp) lp *
        (pts a.addr (frameCell ⟨true, a, r⟩ (holeParent lpRoot c) (holeLeft c)
          (segHole cp (addr? lp)) n' k') * F)))) h :=
    linksAt_cons.mpr ⟨n, k, reorder hh (by
      dsimp only [Bool.not_true, frameCell, RowAt.cell, if_true]; ac_rfl)⟩
  rw [linksAt_append, fillAt, holeParent_append, holeLeft_append]
  exact reorder hrow (by dsimp only [holeParent, holeLeft]; ac_rfl)

variable {h' : Heap}

/-- Links can be changed without changing a count. -/
theorem branchCount_modify {a : Addr} {f : ECTableRow → ECTableRow}
    (hm : h.modify a f = some h') (hf : ∀ row, (f row).ulBranchCount = row.ulBranchCount) :
    h'.branchCount = h.branchCount := by
  obtain ⟨row, hrow, hm⟩ := Option.bind_eq_some_iff.mp hm
  obtain rfl := Option.some.inj hm
  funext x
  cases x with
  | none => rfl
  | some x =>
    rw [Heap.branchCount, Heap.branchCount]
    by_cases hx : x = a
    · rw [hx, Function.update_self, hrow, Option.map_some, Option.map_some, hf]
    · rw [Function.update_of_ne hx]

theorem branchCount_setChild {p : Option Addr} (hm : h.setChild p left hole = some h') :
    h'.branchCount = h.branchCount := by
  obtain ⟨a, -, hm⟩ := Option.bind_eq_some_iff.mp hm
  apply branchCount_modify hm
  intro row
  cases left <;> rfl

theorem branchCount_setParent {x p : Option Addr} (hm : h.setParent x p left = some h') :
    h'.branchCount = h.branchCount := by
  cases x with
  | none => rw [Option.some.inj hm]
  | some a => exact branchCount_modify hm fun _ => rfl

theorem branchCount_moveParent {x : Option Addr} (hm : h.moveParent x p = some h') :
    h'.branchCount = h.branchCount := by
  cases x with
  | none => rw [Option.some.inj hm]
  | some a => exact branchCount_modify hm fun _ => rfl

theorem branchCount_replaceRow {a m : Addr} (hm : replaceRow h a m = some h') : h'.branchCount = h.branchCount := by
  obtain ⟨predecessor, -, hm⟩ := Option.bind_eq_some_iff.mp hm
  obtain ⟨h₁, h1, hm⟩ := Option.bind_eq_some_iff.mp hm
  obtain ⟨h₂, h2, hm⟩ := Option.bind_eq_some_iff.mp hm
  obtain ⟨row, -, hm⟩ := Option.bind_eq_some_iff.mp hm
  obtain ⟨h₃, h3, hm⟩ := Option.bind_eq_some_iff.mp hm
  obtain ⟨h₄, h4, hm⟩ := Option.bind_eq_some_iff.mp hm
  obtain ⟨h₅, h5, hm⟩ := Option.bind_eq_some_iff.mp hm
  rw [branchCount_moveParent hm, branchCount_moveParent h5, branchCount_modify h4 fun _ => rfl,
    branchCount_setChild h3, branchCount_setParent h2, branchCount_setChild h1]

/-- Counting always works where the children can be read. -/
theorem countRow_exists (lpRoot a : Addr) (row : ECTableRow) {x y x' y' : ℕ}
    (hl : h.branchCount row.lpLeft = some x) (hr : h.branchCount row.lpRight = some y)
    (hl' : h.height row.lpLeft = some x') (hr' : h.height row.lpRight = some y') :
    ∃ n k, countRow lpRoot h a row = some { row with ulBranchCount := n, ulHeight := k } :=
  ⟨_, _, by simp only [countRow, hl, hr, hl', hr', Option.bind_eq_bind, Option.bind_some]; rfl⟩

variable {row : ECTableRow}

theorem branchCount_pts {a : Addr} (hh : Has (pts a row) h) : h.branchCount (some a) = some row.ulBranchCount := by
  rw [Heap.branchCount, hh.get]
  rfl

theorem height_pts {a : Addr} (hh : Has (pts a row) h) : h.height (some a) = some row.ulHeight := by
  rw [Heap.height, hh.get]
  rfl

/-- `UpdateCounts` above a row whose own counts may be wrong changes nothing but counts. -/
theorem updateCountsLoop_linksAt {c : Ctx RowAt} {b : Addr} {n : ℕ}
    (hn : c.length < n) (hh : (linksAt lpRoot c (some b) * (pts b row * F)) h) :
    Yields (updateCountsLoop lpRoot n h (some (holeParent lpRoot c)))
      (linksAt lpRoot c (some b) * (pts b row * F)) := by
  induction c generalizing b row n h F with
  | nil =>
    obtain ⟨n, rfl⟩ : ∃ m, n = m + 1 := ⟨n - 1, by simp at hn; omega⟩
    obtain ⟨m, k, hh⟩ := linksAt_nil.mp hh
    obtain ⟨hroot, hrest⟩ := (Has.self hh).split
    obtain ⟨m', k', hcount⟩ := countRow_exists lpRoot lpRoot
      (rootCell (some b) m k) (Heap.branchCount_none h) (branchCount_pts hrest.split.1)
      (Heap.height_none h) (height_pts hrest.split.1)
    rw [holeParent, updateCountsLoop_some hroot.get hcount]
    refine (updateCountsLoop_none n _).symm ▸ yields_some.mpr ?_
    exact linksAt_nil.mpr ⟨m', k', pts_set _ hh⟩
  | cons f c ih =>
    rw [List.length_cons] at hn
    obtain ⟨n, rfl⟩ : ∃ m, n = m + 1 := ⟨n - 1, by omega⟩
    obtain ⟨m, k, hh⟩ := linksAt_cons.mp hh
    obtain ⟨hcell, hrest⟩ := (Has.self hh).split
    obtain ⟨hsib, hrest⟩ := hrest.split
    have hb := hrest.split.2.split.1
    obtain ⟨m', k', hcount⟩ : ∃ m' k', countRow lpRoot h f.val.addr
        (frameCell f (holeParent lpRoot c) (holeLeft c) (some b) m k) =
          some (frameCell f (holeParent lpRoot c) (holeLeft c) (some b) m' k') := by
      obtain ⟨fl, r, s⟩ := f
      cases fl
      · exact countRow_exists _ _ _ (branchCount_treeAt hsib) (branchCount_pts hb) (height_treeAt hsib)
          (height_pts hb)
      · exact countRow_exists _ _ _ (branchCount_pts hb) (branchCount_treeAt hsib) (height_pts hb)
          (height_treeAt hsib)
    rw [holeParent, updateCountsLoop_some hcell.get hcount]
    exact Yields.imp (ih (by omega) (front₃ (pts_set _ hh))) fun g hg =>
      linksAt_cons.mpr ⟨m', k', front₃ (front₃ hg)⟩

/-- When the predecessor is the left child, the first `UpdateCounts` starts at the unlinked row. -/
theorem updateCounts_unlinked {c : Ctx RowAt} {a m : RowAt} {lp r : AvlTree RowAt} {n k : ℕ}
    (hn : c.length + 2 < fuel) (hh : (linksAt lpRoot (⟨true, m, r⟩ :: c) (addr? lp) *
      (fillAt lpRoot (⟨true, m, r⟩ :: c) lp *
        (pts a.addr (frameCell ⟨true, a, r⟩ (holeParent lpRoot c) (holeLeft c) (addr? lp) n k) * F))) h) :
    Yields (updateCounts fuel lpRoot h (some a.addr)) fun h => ∃ k, (linksAt lpRoot (⟨true, m, r⟩ :: c) (addr? lp) *
        (fillAt lpRoot (⟨true, m, r⟩ :: c) lp *
          (pts a.addr (frameCell ⟨true, a, r⟩ (holeParent lpRoot c) (holeLeft c) (addr? lp)
            (count (.node lp a r)) k) * F))) h := by
  obtain ⟨fuel, rfl⟩ : ∃ m, fuel = m + 1 := ⟨fuel - 1, by omega⟩
  obtain ⟨n', k', hh⟩ := linksAt_cons.mp hh
  obtain ⟨hm, hrest⟩ := (Has.self hh).split
  obtain ⟨hr, hrest⟩ := hrest.split
  obtain ⟨hlinks, hrest⟩ := hrest.split
  obtain ⟨hlp, hrest⟩ := hrest.split
  have hne : a.addr ≠ lpRoot := ne_root_of_cell hlinks hrest.split.1 rfl
  have hcount : countRow lpRoot h a.addr
      (frameCell ⟨true, a, r⟩ (holeParent lpRoot c) (holeLeft c) (addr? lp) n k) = some _ :=
    countRow_frame (f := ⟨true, a, r⟩) hne hlp hr
  rw [updateCounts, updateCountsLoop_some hrest.split.1.get hcount]
  have hset := pts_set (frameCell ⟨true, a, r⟩ (holeParent lpRoot c) (holeLeft c) (addr? lp)
    (count (.node lp a r)) (AvlTree.height (.node lp a r))) (front₅ hh)
  have hloop := updateCountsLoop_linksAt (c := c) (n := fuel) (by omega) (front₄ (front₂ hset))
  refine hloop.imp fun g hg => ⟨AvlTree.height (.node lp a r), linksAt_cons.mpr ⟨n', k', ?_⟩⟩
  exact reorder hg (by ac_rfl)

/-- The upper end of a segment is a row of the segment, or the tree in the hole. -/
theorem segHole_mem {c : Ctx RowAt} {x : Addr}
    (hx : segHole c (addr? t) = some x) : x ∈ (c.plug t).toList.map RowAt.addr := by
  induction c generalizing t with
  | nil =>
    cases t with
    | nil => simp [segHole] at hx
    | node l a r =>
      obtain rfl : a.addr = x := Option.some.inj hx
      simp
  | cons f c ih => exact ih (t := f.plug t) (by rw [addr?_plug]; exact hx)

/-- It is the root of the tree with the segment. -/
theorem segHole_eq (c : Ctx RowAt) (t : AvlTree RowAt) : segHole c (addr? t) = addr? (c.plug t) := by
  induction c generalizing t with
  | nil => rfl
  | cons f c ih =>
    rw [segHole, ← addr?_plug f t, ih]
    rfl

/-- What is known about a row that was unlinked but not yet freed. -/
structure Unlinked (lpRoot : Addr) (row : ECTableRow) (c : Ctx RowAt) (T : AvlTree RowAt) : Prop where
  lpParent : row.lpParent = some (holeParent lpRoot c)
  lpLeft : ∀ x, row.lpLeft = some x → x ∈ T.toList.map RowAt.addr

/-! ## Where the links of an unlinked row lead -/

/-- The links of a row that had one subtree or none lead to that subtree; those of a row with two lead into what is
left of the left one. -/
structure LeadsInto (a : RowAt) (l r s : AvlTree RowAt) (row : ECTableRow) : Prop where
  lpLeft : row.lpLeft = addr? s
  outer : l = .nil ∨ r = .nil → s = l ∧ row.ulBranchCount = count (.node l a r)
  inner : l ≠ .nil → r ≠ .nil → s.toList.length < l.toList.length ∧
    row.ulBranchCount ≤ count (.node l a r) ∧ count (.node l a r) ≤ row.ulBranchCount + 1

/-- Another tree is in the place of an unlinked row, below the same parent. -/
structure Replaced (c : Ctx RowAt) (a : RowAt) (l r : AvlTree RowAt) (row : ECTableRow) (T : AvlTree RowAt) :
    Prop where
  fLeft : row.fLeft = holeLeft c
  place : ∃ d t, Ctx.SameHole c d ∧ T = Ctx.plug d t ∧ t.toList = l.toList ++ r.toList
  leads : ∃ e s, T = Ctx.plug e s ∧ LeadsInto a l r s row

/-- What unlinking row `a` from above `l` and `r` leaves of a table. -/
def Unlinks (lpRoot : Addr) (c : Ctx RowAt) (a : RowAt) (l r : AvlTree RowAt) (F : Assn ECTableRow) (h : Heap) : Prop :=
  ∃ T row, T.Balanced ∧ T.toList = c.before ++ l.toList ++ (r.toList ++ c.after) ∧ Unlinked lpRoot row c T ∧
    Replaced c a l r row T ∧ (tableAt lpRoot T * (pts a.addr row * F)) h

/-- Some tree is empty at every place of a tree. -/
theorem exists_plug_nil (t : AvlTree RowAt) : ∃ e, t = Ctx.plug e .nil :=
  ⟨_, (AvlTree.plug_descend (fun _ => true) t []).symm⟩

variable {l : AvlTree RowAt}

/-- The tree in the place of a row that had one subtree or none. -/
theorem replaced_outer {c : Ctx RowAt} {a : RowAt} {r : AvlTree RowAt} {k : ℕ} (ht : t.Balanced)
    (hc : Ctx.Balanced c (t.height + 1)) (hchild : t = l ∧ r = .nil ∨ t = r ∧ l = .nil) :
    Replaced c a l r (a.cell p (holeLeft c) (addr? l) (addr? r) (count (.node l a r)) k) (c.up t) := by
  obtain ⟨d, hd, hup⟩ := Ctx.up_light ht hc (by omega) (by omega)
  rcases hchild with ⟨rfl, rfl⟩ | ⟨rfl, rfl⟩
  · refine ⟨rfl, ⟨d, t, hd, hup, (List.append_nil _).symm⟩, d, t, hup, rfl, fun _ => ⟨rfl, rfl⟩, ?_⟩
    exact fun _ hr => absurd rfl hr
  · obtain ⟨e, he⟩ := exists_plug_nil (c.up t)
    refine ⟨rfl, ⟨d, t, hd, hup, rfl⟩, e, .nil, he, rfl, fun _ => ⟨rfl, rfl⟩, ?_⟩
    exact fun hl => absurd rfl hl

/-- The tree in the place of a row with two subtrees: the predecessor is above what is left of the left subtree. -/
theorem replaced_inner {c : Ctx RowAt} {a m : RowAt} {r s x : AvlTree RowAt} {k n : ℕ}
    (hs : s.Balanced) (hc : Ctx.Balanced (⟨true, m, r⟩ :: c) k) (hhi : s.height ≤ k) (hlo : k ≤ s.height + 1)
    (hl : l.toList = s.toList ++ [m]) (hfLeft : row.fLeft = holeLeft c) (hx : ∃ e, s = Ctx.plug e x)
    (hlpLeft : row.lpLeft = addr? x) (hr : r ≠ .nil) (hcount : row.ulBranchCount = n)
    (hle : n ≤ count (.node l a r)) (hge : count (.node l a r) ≤ n + 1) :
    Replaced c a l r row (Ctx.up (⟨true, m, r⟩ :: c) s) := by
  obtain ⟨e, -, hup'⟩ := Ctx.up_light hs hc hhi hlo
  obtain ⟨h1, h2, hrb, hc'⟩ := hc
  have hnear := Ctx.nearBalanced_frame_plug (f := ⟨true, m, r⟩) hs hrb h1 h2 (by omega) hlo
  obtain ⟨hbal, hle', -⟩ := AvlTree.rebalance_spec hnear
  obtain ⟨-, hge'⟩ := Ctx.rebalance_frame_height (f := ⟨true, m, r⟩) hs hrb h1 h2 (by omega) hlo
  rw [Ctx.height_frame_plug] at hle'
  obtain ⟨d, hd, hup⟩ := Ctx.up_light hbal hc' (by omega) hge'
  obtain ⟨e', rfl⟩ := hx
  have hlength := Ctx.length_le_length_plug e' x
  refine ⟨hfLeft, ⟨d, _, hd, hup, ?_⟩, e' ++ e, x, by rw [hup', Ctx.plug_append], hlpLeft, ?_, ?_⟩
  · rw [AvlTree.toList_rebalance, hl, Ctx.toList_frame_plug]
    simp
  · rintro (rfl | rfl)
    · cases List.append_ne_nil_of_right_ne_nil _ (List.cons_ne_nil _ _) hl.symm
    · exact absurd rfl hr
  · intro _ _
    rw [hcount, hl, List.length_append, List.length_singleton]
    exact ⟨by omega, hle, hge⟩

section Inner

variable {cp c : Ctx RowAt} {a m : RowAt} {lp r : AvlTree RowAt} {n k : ℕ}

/-- The rows when the predecessor took the place of the row. -/
theorem toList_replaced (hcp : ∀ f ∈ cp, f.left = false) : (Ctx.plug (cp ++ ⟨true, m, r⟩ :: c) lp).toList =
      c.before ++ (Ctx.plug cp (.node lp m .nil)).toList ++ (r.toList ++ c.after) := by
  rw [Ctx.plug_append, Ctx.toList_plug, Ctx.toList_plug, Ctx.toList_plug, Ctx.after_eq_nil hcp]
  simp [Ctx.before, Ctx.after]

/-- The predecessor is the left child of the row. -/
theorem unlinkInner_child (hlp : lp.Balanced) (hr : r ≠ .nil) (hc : Ctx.Balanced (⟨true, a, r⟩ :: c) (lp.height + 1))
    (hf : (Ctx.plug (⟨true, m, r⟩ :: c) lp).toList.length + 1 < fuel)
    (hh : (linksAt lpRoot (⟨true, m, r⟩ :: c) (addr? lp) * (fillAt lpRoot (⟨true, m, r⟩ :: c) lp *
        (pts a.addr (frameCell ⟨true, a, r⟩ (holeParent lpRoot c) (holeLeft c) (addr? lp) n k) * F))) h) :
    Yields (do
        let h ← updateCounts fuel lpRoot h (some a.addr)
        let h ← updateCounts fuel lpRoot h (some m.addr)
        let h ← restructureRecursive fuel lpRoot h (some m.addr)
        let predecessorParent ← h a.addr
        if predecessorParent.sKey ≠ a.sKey then
          restructureRecursive fuel lpRoot h (some a.addr)
        else some h)
      (Unlinks lpRoot c a (.node lp m .nil) r F) := by
  have hlen := Ctx.length_le_length_plug (⟨true, m, r⟩ :: c) lp
  rw [List.length_cons] at hlen
  refine (updateCounts_unlinked (by omega) hh).bind fun h hh => ?_
  obtain ⟨k, hh⟩ := hh
  refine (updateCounts_spec (c := ⟨true, m, r⟩ :: c) (by omega) hh).bind fun h hh => ?_
  have hc' : Ctx.Balanced (⟨true, m, r⟩ :: c) (lp.height + 1) := hc
  refine (restructureRecursive_spec (c := ⟨true, m, r⟩ :: c) rfl hlp hc' (by omega) (by omega)
    (by omega) hh).bind fun h hh => ?_
  rw [(Has.self (front₂ hh)).split.1.get]
  simp only [Option.bind_eq_bind, Option.bind_some, frameCell, RowAt.cell, ne_eq, not_true,
    if_false]
  have hrow : Unlinked lpRoot (frameCell ⟨true, a, r⟩ (holeParent lpRoot c) (holeLeft c) (addr? lp)
      (count (.node lp a r)) k) c (Ctx.up (⟨true, m, r⟩ :: c) lp) := by
    refine ⟨rfl, fun x hx => ?_⟩
    rw [Ctx.toList_up, Ctx.toList_plug, List.map_append, List.map_append]
    have := segHole_mem (c := []) (t := lp) hx
    exact List.mem_append_left _ (List.mem_append_right _ this)
  have hvisible : m.visible ≤ 1 := m.visible_le_one
  have hreplaced : Replaced c a (.node lp m .nil) r (frameCell ⟨true, a, r⟩ (holeParent lpRoot c) (holeLeft c)
      (addr? lp) (count (.node lp a r)) k) (Ctx.up (⟨true, m, r⟩ :: c) lp) := by
    refine replaced_inner hlp hc' (by omega) (by omega) rfl rfl ⟨[], rfl⟩ rfl hr
      (show _ = count (.node lp a r) from rfl) ?_ ?_
    · simp only [count_node, count_nil]
      omega
    · simp only [count_node, count_nil]
      omega
  have hlist : (Ctx.up (⟨true, m, r⟩ :: c) lp).toList =
      c.before ++ (AvlTree.node lp m .nil).toList ++ (r.toList ++ c.after) := by
    rw [Ctx.toList_up]
    have hnil : ∀ f ∈ ([] : List (Frame RowAt)), f.left = false := by simp
    exact toList_replaced hnil
  exact yields_some.mpr ⟨_, _, (Ctx.up_spec hlp hc' (by omega) (by omega)).1, hlist, hrow, hreplaced, hh⟩

/-- The predecessor is further down. -/
theorem unlinkInner_below {f : Frame RowAt} (hlp : lp.Balanced) (hr : r ≠ .nil)
    (hcp : ∀ g ∈ f :: cp, g.left = false) (hl : Ctx.plug (f :: cp) (.node lp m .nil) = l)
    (hn : n = count (.node l a r))
    (hc : Ctx.Balanced ((f :: cp) ++ ⟨true, a, r⟩ :: c) (lp.height + 1)) (hne : f.val.sKey ≠ a.sKey)
    (hf : (Ctx.plug ((f :: cp) ++ ⟨true, m, r⟩ :: c) lp).toList.length + 1 < fuel)
    (hh : (linksAt lpRoot ((f :: cp) ++ ⟨true, m, r⟩ :: c) (addr? lp) *
      (fillAt lpRoot ((f :: cp) ++ ⟨true, m, r⟩ :: c) lp *
        (pts a.addr (frameCell ⟨true, a, r⟩ (holeParent lpRoot c) (holeLeft c)
          (segHole (f :: cp) (addr? lp)) n k) * F))) h) :
    Yields (do
        let h ← updateCounts fuel lpRoot h (some f.val.addr)
        let h ← updateCounts fuel lpRoot h (some m.addr)
        let h ← restructureRecursive fuel lpRoot h (some m.addr)
        let predecessorParent ← h f.val.addr
        if predecessorParent.sKey ≠ a.sKey then
          restructureRecursive fuel lpRoot h (some f.val.addr)
        else some h)
      (Unlinks lpRoot c a l r F) := by
  obtain ⟨hbelow, hcr⟩ := Ctx.balanced_append.mp hc
  have hc' : Ctx.Balanced ((f :: cp) ++ ⟨true, m, r⟩ :: c) (lp.height + 1) :=
    Ctx.balanced_append.mpr ⟨hbelow, hcr⟩
  have hrows : (Ctx.plug ((f :: cp) ++ ⟨true, m, r⟩ :: c) lp).toList =
      c.before ++ l.toList ++ (r.toList ++ c.after) := by
    rw [toList_replaced hcp, hl]
  have hlast : l.toList = (Ctx.plug (f :: cp) lp).toList ++ [m] := by
    rw [← hl, Ctx.toList_plug, Ctx.toList_plug, Ctx.after_eq_nil hcp]
    simp
  have hsplit : Ctx.plug (⟨true, m, r⟩ :: c) (Ctx.plug (f :: cp) lp) =
      Ctx.plug ((f :: cp) ++ ⟨true, m, r⟩ :: c) lp := (Ctx.plug_append _ _ _).symm
  have hrow (T : AvlTree RowAt) (hT : T.toList = (Ctx.plug ((f :: cp) ++ ⟨true, m, r⟩ :: c) lp).toList) :
      Unlinked lpRoot (frameCell ⟨true, a, r⟩ (holeParent lpRoot c) (holeLeft c)
        (segHole (f :: cp) (addr? lp)) n k) c T := by
    refine ⟨rfl, fun x hx => ?_⟩
    rw [hT, ← hsplit, Ctx.toList_plug, List.map_append, List.map_append]
    exact List.mem_append_left _ (List.mem_append_right _ (segHole_mem hx))
  refine (updateCounts_spec (c := (f :: cp) ++ ⟨true, m, r⟩ :: c) (by omega) hh).bind fun h hh => ?_
  refine (updateCounts_tableAt (c := ⟨true, m, r⟩ :: c) hsplit (by omega) hh).bind fun h hh => ?_
  have hreplaced (s x : AvlTree RowAt) (hs : s.Balanced) (hhi : s.height ≤ Ctx.height (f :: cp) (lp.height + 1))
      (hlo : Ctx.height (f :: cp) (lp.height + 1) ≤ s.height + 1) (hlist : s.toList = (Ctx.plug (f :: cp) lp).toList)
      (hx : ∃ e, s = Ctx.plug e x) (hroot : addr? (Ctx.plug (f :: cp) lp) = addr? x) :
      Replaced c a l r (frameCell ⟨true, a, r⟩ (holeParent lpRoot c) (holeLeft c) (segHole (f :: cp) (addr? lp)) n k)
        (Ctx.up (⟨true, m, r⟩ :: c) s) :=
    replaced_inner hs hcr hhi hlo (by rw [hlast, hlist]) rfl hx ((segHole_eq _ _).trans hroot) hr
      (show _ = count (.node l a r) from hn) le_rfl (Nat.le_succ _)
  rcases Ctx.plug_shrunk hlp hbelow rfl with ⟨hbal, hhi, hlo⟩ | hheight
  · -- the left tree is balanced: the first pass repairs the tree
    have hup := Ctx.up_spec (c := ⟨true, m, r⟩ :: c) hbal hcr (by omega) (by omega)
    have hlist : (Ctx.up (⟨true, m, r⟩ :: c) (Ctx.plug (f :: cp) lp)).toList =
        (Ctx.plug ((f :: cp) ++ ⟨true, m, r⟩ :: c) lp).toList := by
      rw [Ctx.toList_up, hsplit]
    have hmem : f.val ∈ (Ctx.up (⟨true, m, r⟩ :: c) (Ctx.plug (f :: cp) lp)).toList := by
      rw [hlist]
      exact Ctx.val_mem_plug (by simp) lp
    refine (restructureRecursive_spec (c := ⟨true, m, r⟩ :: c) hsplit hbal hcr (by omega) (by omega)
      (by omega) hh).bind fun h hh => ?_
    obtain ⟨d, x, y, hd⟩ := Ctx.exists_plug_of_mem hmem
    rw [(tableAt_has hd hh).split.1.get]
    simp only [Option.bind_eq_bind, Option.bind_some, RowAt.cell, ne_eq, hne, not_false_eq_true,
      if_true]
    refine (restructureRecursive_balanced hmem hup.1 (by rw [hlist]; omega) hh).imp fun h hh => ?_
    exact ⟨_, _, hup.1, hlist.trans hrows, hrow _ hlist, hreplaced _ _ hbal hlo hhi rfl ⟨[], rfl⟩ rfl, hh⟩
  · -- the left tree is as high as before: the first pass finds nothing to do
    have hup := Ctx.up_spec (c := (f :: cp) ++ ⟨true, m, r⟩ :: c) hlp hc' (by omega) (by omega)
    have hbelow' := Ctx.up_spec (c := f :: cp) hlp hbelow (by omega) (by omega)
    have hlow := Ctx.height_up_le (c := f :: cp) hlp hbelow (by omega) (by omega)
    -- the old root of the left tree is somewhere in what is left of it
    obtain ⟨lw, w, rw', hw⟩ : ∃ lw w rw', Ctx.plug (f :: cp) lp = .node lw w rw' := by
      cases htree : Ctx.plug (f :: cp) lp with
      | nil => exact absurd (Ctx.val_mem_plug (f := f) (c := f :: cp) (by simp) lp) (by simp [htree])
      | node lw w rw' => exact ⟨lw, w, rw', rfl⟩
    obtain ⟨e, lx, rx, he⟩ : ∃ e lx rx, Ctx.plug e (.node lx w rx) = Ctx.up (f :: cp) lp := by
      apply Ctx.exists_plug_of_mem
      rw [Ctx.toList_up, hw]
      simp
    have hrep := hreplaced (Ctx.up (f :: cp) lp) (.node lx w rx) hbelow'.1 hlow hbelow'.2.2 (Ctx.toList_up _ _)
      ⟨e, he.symm⟩ (by rw [hw]; rfl)
    rw [← Ctx.up_append] at hrep
    rw [← hheight] at hcr
    refine (restructureRecursive_noop (c := ⟨true, m, r⟩ :: c) hsplit hcr (by omega) hh).bind
      fun h hh => ?_
    obtain ⟨d, x, y, hd⟩ := Ctx.exists_plug_of_mem
      (Ctx.val_mem_plug (f := f) (c := (f :: cp) ++ ⟨true, m, r⟩ :: c) (by simp) lp)
    rw [(tableAt_has hd hh).split.1.get]
    simp only [Option.bind_eq_bind, Option.bind_some, RowAt.cell, ne_eq, hne, not_false_eq_true,
      if_true]
    refine (restructureRecursive_spec (c := (f :: cp) ++ ⟨true, m, r⟩ :: c) rfl hlp hc' (by omega)
      (by omega) (by omega) hh).imp fun h hh => ?_
    exact ⟨_, _, hup.1, (Ctx.toList_up _ _).trans hrows, hrow _ (Ctx.toList_up _ _), hrep, hh⟩

/-- `UpdateRow` unlinks a row with two children. -/
theorem unlinkInnerRow_spec {l₁ l₂ : AvlTree RowAt} {x : RowAt} (hr : r ≠ .nil)
    (hT : Ctx.plug c (.node (.node l₁ x l₂) a r) = T) (hb : T.Balanced)
    (hkeys : (T.toList.map RowAt.sKey).Nodup) (hf : T.toList.length + 1 < fuel) (hh : (tableAt lpRoot T * F) h) :
    Yields (unlinkInnerRow fuel lpRoot h a.sKey a.addr x.addr) (Unlinks lpRoot c a (.node l₁ x l₂) r F) := by
  have hcount := branchCount_treeAt (tableAt_has hT hh)
  obtain ⟨cp, lp, m, hl, hcp⟩ := Ctx.exists_last l₁ x l₂
  have hfocus : Ctx.plug (cp ++ ⟨true, a, r⟩ :: c) (.node lp m .nil) = T := by
    rw [Ctx.plug_append, hl]
    exact hT
  have hbal := hb
  rw [← hfocus, Ctx.balanced_plug, AvlTree.height_node, AvlTree.height_nil, Nat.max_zero] at hbal
  obtain ⟨-, -, hlp, -⟩ := AvlTree.balanced_node.mp hbal.1
  -- the predecessor is the last row of the left tree
  have hlast : (AvlTree.node l₁ x l₂).toList.getLast? = some m := by
    rw [← hl, Ctx.toList_plug, Ctx.after_eq_nil hcp]
    simp
  have htree : Has (treeAt a.addr true (.node l₁ x l₂)) h :=
    (tableAt_has hT hh).split.2.split.1
  have hheight := AvlTree.height_le_length (.node l₁ x l₂)
  have hlen := Ctx.length_le_length_plug c (.node (.node l₁ x l₂) a r)
  rw [hT, AvlTree.toList_node, List.length_append] at hlen
  rw [unlinkInnerRow, rightmost_spec (a := x) rfl (by omega) htree, hlast]
  have hh := linksAt_of_tableAt hfocus hh
  rw [fillAt, treeAt, treeAt, mul_one, mul_assoc] at hh
  have hm := (Has.self hh).split.2.split.1
  simp only [Option.map_some, Option.bind_eq_bind, Option.bind_some, hm.get, RowAt.cell]
  obtain ⟨h', hrep, n, k, hh⟩ := replaceRow_spec hh
  have hn : n = count (.node (.node l₁ x l₂) a r) := by
    have hsame := branchCount_pts (Has.self (front₃ hh)).split.1
    rw [branchCount_replaceRow hrep] at hsame
    exact Option.some.inj (hsame.symm.trans hcount)
  rw [hrep, Option.bind_some]
  have hlist : (Ctx.plug (cp ++ ⟨true, m, r⟩ :: c) lp).toList =
      c.before ++ (AvlTree.node l₁ x l₂).toList ++ (r.toList ++ c.after) := by
    rw [toList_replaced hcp, hl]
  have hsize : (Ctx.plug (cp ++ ⟨true, m, r⟩ :: c) lp).toList.length + 1 < fuel := by
    have hTlist := congrArg (fun t => t.toList.length) hT
    simp only [Ctx.toList_plug, AvlTree.toList_node, List.length_append, List.length_cons] at hTlist
    rw [hlist]
    simp only [AvlTree.toList_node, List.length_append, List.length_cons]
    omega
  cases cp with
  | nil =>
    rw [← hl]
    exact unlinkInner_child hlp hr hbal.2 hsize hh
  | cons f cp =>
    have hne : f.val.sKey ≠ a.sKey := by
      have hf : f.val ∈ (AvlTree.node l₁ x l₂).toList := hl ▸ Ctx.val_mem_plug (by simp) _
      rw [← hT, Ctx.toList_plug, AvlTree.toList_node, List.map_append, List.map_append, List.map_append,
        List.map_cons, List.nodup_append, List.nodup_append, List.nodup_append] at hkeys
      exact hkeys.1.2.1.2.2 _ (List.mem_map_of_mem hf) _ (by simp)
    exact unlinkInner_below hlp hr hcp hl hn hbal.2 hne hsize hh

end Inner

/-- `UpdateRow` takes a row out of the tree, and puts a child or the predecessor in its place. -/
theorem unlinkRow_unlinks {c : Ctx RowAt} {r : AvlTree RowAt} {a : RowAt}
    (hT : Ctx.plug c (.node l a r) = T) (hb : T.Balanced) (hkeys : (T.toList.map RowAt.sKey).Nodup)
    (hf : T.toList.length + 1 < fuel) (hh : (tableAt lpRoot T * F) h) :
    Yields (unlinkRow fuel lpRoot h a.sKey a.addr) (Unlinks lpRoot c a l r F) := by
  have hbal := hb
  rw [← hT, Ctx.balanced_plug, AvlTree.height_node] at hbal
  obtain ⟨hnode, hc⟩ := hbal
  obtain ⟨-, -, hl, hr⟩ := AvlTree.balanced_node.mp hnode
  have hlinks := linksAt_of_tableAt hT hh
  rw [fillAt, treeAt, mul_assoc, mul_assoc, addr?_node] at hlinks
  obtain ⟨row, hrow⟩ : ∃ row, row = a.cell (holeParent lpRoot c) (holeLeft c) (addr? l) (addr? r)
    (count (.node l a r)) (AvlTree.height (.node l a r)) := ⟨_, rfl⟩
  rw [← hrow] at hlinks
  -- a tree that takes the place of the row
  have hchild (t : AvlTree RowAt) (ht : t.Balanced) (honly : t = l ∧ r = .nil ∨ t = r ∧ l = .nil)
      (hk : Ctx.Balanced c (t.height + 1)) (p : Addr) (left : Bool)
      (hg : (linksAt lpRoot c (some a.addr) * (treeAt p left t * (pts a.addr row * F))) h) :
      Yields (do
          let h ← h.setChild row.lpParent row.fLeft (addr? t)
          let h ← h.setParent (addr? t) row.lpParent row.fLeft
          rebalanceFrom fuel lpRoot h row.lpParent)
        (Unlinks lpRoot c a l r F) := by
    have hlist : t.toList = l.toList ++ r.toList := by
      rcases honly with ⟨rfl, rfl⟩ | ⟨rfl, rfl⟩ <;> simp
    have hsub : ∀ x, addr? l = some x → x ∈ t.toList.map RowAt.addr := by
      intro x hx
      rcases honly with ⟨rfl, rfl⟩ | ⟨rfl, rfl⟩
      · exact segHole_mem (c := []) (t := t) hx
      · cases hx
    have hup : (c.up t).toList = c.before ++ l.toList ++ (r.toList ++ c.after) := by
      rw [Ctx.toList_up, Ctx.toList_plug, hlist]
      simp
    have hsize : (c.plug t).toList.length < fuel := by
      rw [← Ctx.toList_up, hup]
      rw [← hT, Ctx.toList_plug] at hf
      simp only [AvlTree.toList_node, List.length_append, List.length_cons] at hf ⊢
      omega
    rw [hrow] at hg ⊢
    refine (replaceChild_spec ht hk hsize hg).imp fun g hg => ?_
    refine ⟨c.up t, _, (Ctx.up_spec ht hk (by omega) (by omega)).1, hup, ⟨rfl, fun x hx => ?_⟩,
      replaced_outer ht hk honly, hg⟩
    rw [Ctx.toList_up, Ctx.toList_plug, List.map_append, List.map_append]
    exact List.mem_append_left _ (List.mem_append_right _ (hsub x hx))
  rw [unlinkRow, (Has.self (front₂ hlinks)).split.1.get]
  simp only [Option.bind_eq_bind, Option.bind_some]
  rcases l with - | ⟨l₁, x, l₂⟩ <;> rcases r with - | ⟨r₁, y, r₂⟩
  · have hh := hchild .nil trivial (.inl ⟨rfl, rfl⟩) (by simpa using hc) a.addr true
      (reorder hlinks (by simp only [treeAt, one_mul]))
    simpa [hrow, RowAt.cell, Heap.setParent] using hh
  · have hh := hchild _ hr (.inr ⟨rfl, rfl⟩) (by simpa using hc) a.addr false
      (reorder hlinks (by simp only [treeAt.eq_1, one_mul]; ac_rfl))
    simpa [hrow, RowAt.cell] using hh
  · have hh := hchild _ hl (.inl ⟨rfl, rfl⟩) (by simpa using hc) a.addr true
      (reorder hlinks (by simp only [treeAt.eq_1, one_mul]; ac_rfl))
    simpa [hrow, RowAt.cell] using hh
  · have hh := unlinkInnerRow_spec (by simp) hT hb hkeys hf hh
    simpa [hrow, RowAt.cell] using hh

end Zcp.Common
