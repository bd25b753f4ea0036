import Zcp.Common.ECKeyTable.Layout

/-!
# Rotations

A rotation exchanges the two innermost steps of a path (`rotate_spec`), so `Restructure` computes
`AvlTree.rebalance` at its row (`restructure_spec`), and `RestructureRecursive` from the parent of a hole
computes `Ctx.up` (`restructureLoop_spec`). After a rotation the loop visits the new root of the
subtree as well; that subtree is balanced by then, so nothing happens there.
-/

namespace Zcp.Common

open Zcp.Lib Zcp.Lib.Assn

variable {fuel : ℕ} {lpRoot : Addr} {F : Assn ECTableRow} {h : Heap}

/-! ## Writing links -/

theorem modify_pts {a : Addr} {row : ECTableRow} (f : ECTableRow → ECTableRow)
    (hh : (pts a row * F) h) : Yields (h.modify a f) (pts a (f row) * F) := by
  rw [Heap.modify, (Has.self hh).split.1.get]
  exact ⟨_, rfl, pts_set _ hh⟩

@[simp] theorem frameCell_child (f : Frame RowAt) (p : Addr) (left : Bool) (hole : Option Addr)
    (n k : ℕ) : (frameCell f p left hole n k).child f.left = hole := by
  obtain ⟨fl, r, s⟩ := f
  cases fl <;> rfl

variable {f : Frame RowAt} {p : Addr} {left : Bool} {hole : Option Addr} {k n : ℕ}

/-- Change what is in the hole below a row. -/
theorem setChild_frame (hole' : Option Addr) (hh : (pts f.val.addr (frameCell f p left hole n k) * F) h) :
    Yields (h.setChild (some f.val.addr) f.left hole') (pts f.val.addr (frameCell f p left hole' n k) * F) := by
  refine (modify_pts _ hh).imp fun g hg => reorder hg ?_
  obtain ⟨fl, r, s⟩ := f
  cases fl <;> rfl

theorem setParent_frame (p' : Addr) (left' : Bool) (hh : (pts f.val.addr (frameCell f p left hole n k) * F) h) :
    Yields (h.setParent (some f.val.addr) (some p') left') (pts f.val.addr (frameCell f p' left' hole n k) * F) :=
  modify_pts _ hh

variable {t : AvlTree RowAt}

/-- Hang a tree below another row. -/
theorem setParent_treeAt (p' : Addr) (left' : Bool) (hh : (treeAt p left t * F) h) :
    Yields (h.setParent (addr? t) (some p') left') (treeAt p' left' t * F) := by
  cases t with
  | nil => exact ⟨h, rfl, hh⟩
  | node l r rt =>
    rw [treeAt, mul_assoc] at hh
    refine (modify_pts _ hh).imp fun g hg => ?_
    rw [treeAt, mul_assoc]
    exact hg

variable {c : Ctx RowAt}

/-- Change what is in a hole. -/
theorem setChild_linksAt (hole' : Option Addr) (hh : (linksAt lpRoot c hole * F) h) :
    Yields (h.setChild (some (holeParent lpRoot c)) (holeLeft c) hole') (linksAt lpRoot c hole' * F) := by
  cases c with
  | nil =>
    obtain ⟨n, k, hh⟩ := linksAt_nil.mp hh
    exact (modify_pts _ hh).imp fun g hg => linksAt_nil.mpr ⟨n, k, hg⟩
  | cons f c =>
    obtain ⟨n, k, hh⟩ := linksAt_cons.mp hh
    exact (setChild_frame hole' hh).imp fun g hg => linksAt_cons.mpr ⟨n, k, hg⟩

/-! ## Rotations -/

/-- `UpdateCounts` from the parent of a hole, where only the counts on the path may be wrong. -/
theorem updateCounts_spec (hf : (c.plug t).toList.length < fuel)
    (hh : (linksAt lpRoot c (addr? t) * (fillAt lpRoot c t * F)) h) :
    Yields (updateCounts fuel lpRoot h (some (holeParent lpRoot c))) (tableAt lpRoot (c.plug t) * F) := by
  have hlen := Ctx.length_le_length_plug c t
  exact (updateCountsLoop_spec (by omega) hh).imp fun g hg => tableAt_of_focus hg

variable {T : AvlTree RowAt}

/-- Where the counts are right, `UpdateCounts` keeps them. -/
theorem updateCounts_tableAt (hT : c.plug t = T) (hf : T.toList.length < fuel) (hh : (tableAt lpRoot T * F) h) :
    Yields (updateCounts fuel lpRoot h (some (holeParent lpRoot c))) (tableAt lpRoot T * F) := by
  subst hT
  exact updateCounts_spec hf (linksAt_of_tableAt rfl hh)

/-- A rotation exchanges the two innermost steps of a path. -/
theorem rotate_spec {g : Frame RowAt} {b : AvlTree RowAt}
    (hg : g.left = !f.left) (hT : Ctx.plug (g :: f :: c) b = T) (hf : T.toList.length < fuel)
    (hh : (tableAt lpRoot T * F) h) : Yields (rotate fuel lpRoot f.left h f.val.addr)
      (tableAt lpRoot (Ctx.plug (f :: g :: c) b) * F) := by
  have hlen : (Ctx.plug (f :: g :: c) b).toList.length < fuel := by
    rwa [Ctx.toList_plug_swap hg, hT]
  have hh := linksAt_of_tableAt hT hh
  obtain ⟨n, k, hh⟩ := linksAt_cons.mp hh
  obtain ⟨m, j, hh⟩ := linksAt_cons.mp (front₃ hh)
  -- the pivot, the path above it, the leg, the inner leg; the outer legs stay as they are
  have hh : (pts f.val.addr (frameCell f (holeParent lpRoot c) (holeLeft c) (some g.val.addr) m j) *
      (linksAt lpRoot c (some f.val.addr) *
        (pts g.val.addr (frameCell g f.val.addr f.left (addr? b) n k) *
          (treeAt g.val.addr g.left b * (treeAt f.val.addr (!f.left) f.sib *
            (treeAt g.val.addr (!g.left) g.sib * F)))))) h :=
    reorder hh (by rw [fillAt, holeParent, holeLeft, holeParent, holeLeft]; ac_rfl)
  rw [rotate, (Has.self hh).split.1.get]
  simp only [Option.bind_eq_bind, Option.bind_some, frameCell_child]
  refine (setParent_frame _ _ (front₃ hh)).bind fun h hh => ?_
  refine (setChild_linksAt _ (front₃ hh)).bind fun h hh => ?_
  rw [(Has.self (front₂ hh)).split.1.get]
  simp only [Option.bind_some, ← hg, frameCell_child]
  refine (setChild_frame _ (front₃ hh)).bind fun h hh => ?_
  refine (setParent_treeAt _ _ (front₄ hh)).bind fun h hh => ?_
  refine (setChild_frame _ (front₄ hh)).bind fun h hh => ?_
  refine (setParent_frame _ _ (front₃ hh)).bind fun h hh => ?_
  have hlinks : (linksAt lpRoot (f :: g :: c) (addr? b) *
      (fillAt lpRoot (f :: g :: c) b * F)) h := by
    have hleg : (linksAt lpRoot (g :: c) (some f.val.addr) *
        (pts f.val.addr (frameCell f g.val.addr g.left (addr? b) m j) *
          (treeAt f.val.addr f.left b * (treeAt f.val.addr (!f.left) f.sib * F)))) h :=
      linksAt_cons.mpr ⟨n, k, reorder hh (by ac_rfl)⟩
    refine linksAt_cons.mpr ⟨m, j, reorder hleg ?_⟩
    rw [fillAt, holeParent, holeLeft, holeParent, holeLeft]
    ac_rfl
  refine (updateCounts_spec hlen hlinks).bind fun h hh => ?_
  exact updateCounts_tableAt (c := g :: c) (t := f.plug b) rfl hlen hh

/-! ## Restructuring -/

theorem getBalance_treeAt (hh : Has (treeAt p left t) h) : getBalance h (addr? t) = some t.balance := by
  cases t with
  | nil => rfl
  | node l r rt =>
    obtain ⟨hcell, hsub⟩ := hh.split
    rw [addr?_node, getBalance, hcell.get]
    simp [RowAt.cell, height_treeAt hsub.split.1, height_treeAt hsub.split.2, AvlTree.balance]

/-- Focus on a subtree for reading. -/
theorem tableAt_has (hT : c.plug t = T)
    (hh : (tableAt lpRoot T * F) h) : Has (treeAt (holeParent lpRoot c) (holeLeft c) t) h :=
  (Has.self (tableAt_focus hT hh)).split.2.split.1

variable {l r : AvlTree RowAt}

/-- `Restructure` computes `rebalance`. -/
theorem restructure_spec {p : RowAt} (hT : Ctx.plug c (.node l p r) = T) (hf : T.toList.length < fuel)
    (hh : (tableAt lpRoot T * F) h) : Yields (restructure fuel lpRoot h p.addr)
      (tableAt lpRoot (Ctx.plug c (AvlTree.rebalance (.node l p r))) * F) := by
  have hfocus := tableAt_has hT hh
  have hbal := getBalance_treeAt hfocus
  obtain ⟨hcell, hsub⟩ := hfocus.split
  have hbl := getBalance_treeAt hsub.split.1
  have hbr := getBalance_treeAt hsub.split.2
  rw [addr?_node] at hbal
  rw [restructure, hbal, hcell.get]
  simp only [Option.bind_eq_bind, Option.bind_some, RowAt.cell, hbl, hbr]
  rw [AvlTree.balance, AvlTree.rebalance]
  split_ifs with h1 h2 h3 h4
  · -- the left leg is higher, on its left side
    obtain ⟨a, x, b, rfl⟩ : ∃ a x b, l = .node a x b := by
      cases l with
      | nil => simp at h1; omega
      | node a x b => exact ⟨a, x, b, rfl⟩
    exact rotate_spec (f := ⟨true, p, r⟩) (g := ⟨false, x, a⟩) (b := b) rfl hT hf hh
  · -- the left leg is higher, on its right side
    obtain ⟨a, x, b₁, y, b₂, rfl⟩ : ∃ a x b₁ y b₂, l = .node a x (.node b₁ y b₂) := by
      rcases l with - | ⟨a, x, - | ⟨b₁, y, b₂⟩⟩
      · simp at h1; omega
      · simp [AvlTree.balance] at h2
      · exact ⟨a, x, b₁, y, b₂, rfl⟩
    simp only [addr?_node, Option.bind_some, rotateLR, Option.bind_eq_bind]
    rw [hsub.split.1.split.1.get]
    refine (rotate_spec (f := ⟨false, x, a⟩) (g := ⟨true, y, b₂⟩) (c := ⟨true, p, r⟩ :: c) (b := b₁)
      rfl hT hf hh).bind fun h hh => ?_
    exact rotate_spec (f := ⟨true, p, r⟩) (g := ⟨false, y, .node a x b₁⟩) (b := b₂) rfl rfl
      (by simpa [← hT, Ctx.toList_plug, Ctx.toList_frame_plug] using hf) hh
  · -- the right leg is higher, on its right side
    obtain ⟨b, x, d, rfl⟩ : ∃ b x d, r = .node b x d := by
      cases r with
      | nil => simp at h3; omega
      | node b x d => exact ⟨b, x, d, rfl⟩
    exact rotate_spec (f := ⟨false, p, l⟩) (g := ⟨true, x, d⟩) (b := b) rfl hT hf hh
  · -- the right leg is higher, on its left side
    obtain ⟨b₁, y, b₂, x, d, rfl⟩ : ∃ b₁ y b₂ x d, r = .node (.node b₁ y b₂) x d := by
      rcases r with - | ⟨- | ⟨b₁, y, b₂⟩, x, d⟩
      · simp at h3; omega
      · simp [AvlTree.balance] at h4
      · exact ⟨b₁, y, b₂, x, d, rfl⟩
    simp only [addr?_node, Option.bind_some, rotateRL, Option.bind_eq_bind]
    rw [hsub.split.2.split.1.get]
    refine (rotate_spec (f := ⟨true, x, d⟩) (g := ⟨false, y, b₁⟩) (c := ⟨false, p, l⟩ :: c) (b := b₂)
      rfl hT hf hh).bind fun h hh => ?_
    exact rotate_spec (f := ⟨false, p, l⟩) (g := ⟨true, y, .node b₂ x d⟩) (b := b₁) rfl rfl
      (by simpa [← hT, Ctx.toList_plug, Ctx.toList_frame_plug] using hf) hh
  · subst hT
    exact yields_some.mpr hh

/-! ## The way up -/

/-- A row of the table is not the sentinel. -/
theorem addr_ne_root {p : RowAt}
    (hT : Ctx.plug c (.node l p r) = T) (hh : (tableAt lpRoot T * F) h) : p.addr ≠ lpRoot := by
  obtain ⟨hpath, hfill⟩ := (Has.self (tableAt_focus hT hh)).split
  exact ne_root_of_cell (hpath.imp fun _ => linksAt_of_pathAt) hfill.split.1.split.1 rfl

theorem parent_of_root? {a : RowAt} (ha : t.root? = some a) (hh : Has (treeAt p left t) h) :
    ∃ row, h a.addr = some row ∧ row.lpParent = some p := by
  cases t with
  | nil => cases ha
  | node l b r =>
    obtain rfl : b = a := Option.some.inj ha
    exact ⟨_, hh.split.1.get, rfl⟩

/-- A step of the loop of `RestructureRecursive`. -/
theorem restructureLoop_node {p : RowAt}
    {Q : Heap → Prop} (hT : Ctx.plug c (.node l p r) = T) (hf : T.toList.length < fuel)
    (hh : (tableAt lpRoot T * F) h)
    (hnext : ∀ h, (tableAt lpRoot (Ctx.plug c (AvlTree.rebalance (.node l p r))) * F) h →
      ∃ row, h p.addr = some row ∧ Yields (restructureLoop fuel lpRoot n h row.lpParent) Q) :
    Yields (restructureLoop fuel lpRoot (n + 1) h (some p.addr)) Q := by
  rw [restructureLoop, if_neg (addr_ne_root hT hh)]
  refine (restructure_spec hT hf hh).bind fun h hh => ?_
  obtain ⟨row, hrow, hnext⟩ := hnext h hh
  rw [hrow]
  exact hnext

/-- At a balanced subtree the loop goes on to the parent. -/
theorem restructureLoop_balanced {p : RowAt}
    {Q : Heap → Prop} (hT : Ctx.plug c (.node l p r) = T) (hf : T.toList.length < fuel)
    (hb : AvlTree.rebalance (.node l p r) = .node l p r) (hh : (tableAt lpRoot T * F) h)
    (hnext : ∀ h, (tableAt lpRoot T * F) h →
      Yields (restructureLoop fuel lpRoot n h (some (holeParent lpRoot c))) Q) :
    Yields (restructureLoop fuel lpRoot (n + 1) h (some p.addr)) Q := by
  refine restructureLoop_node hT hf hh fun h hh => ?_
  rw [hb, hT] at hh
  exact ⟨_, (tableAt_has hT hh).split.1.get, hnext h hh⟩

/-- `RestructureRecursive` from the parent of a hole, when the tree in the hole is at most one level
off the height the path was balanced for. -/
theorem restructureLoop_spec (hT : c.plug t = T)
    (ht : t.Balanced) (hc : Ctx.Balanced c k) (hhi : t.height ≤ k + 1) (hlo : k ≤ t.height + 1)
    (hn : 2 * c.length < n) (hf : T.toList.length < fuel) (hh : (tableAt lpRoot T * F) h) :
    Yields (restructureLoop fuel lpRoot n h (some (holeParent lpRoot c))) (tableAt lpRoot (c.up t) * F) := by
  induction c generalizing t T k n h with
  | nil =>
    obtain ⟨n, rfl⟩ : ∃ m, n = m + 1 := ⟨n - 1, by omega⟩
    subst hT
    rw [holeParent, restructureLoop, if_pos rfl]
    exact yields_some.mpr hh
  | cons f c ih =>
    rw [List.length_cons] at hn
    obtain ⟨n, rfl⟩ : ∃ m, n = m + 2 := ⟨n - 2, by omega⟩
    obtain ⟨h1, h2, hs, hc⟩ := hc
    obtain ⟨hhi', hlo'⟩ := Ctx.rebalance_frame_height ht hs h1 h2 hhi hlo
    obtain ⟨hu, -, -⟩ := AvlTree.rebalance_spec (Ctx.nearBalanced_frame_plug ht hs h1 h2 hhi hlo)
    obtain ⟨l, r, hnode⟩ : ∃ l r, f.plug t = .node l f.val r := Ctx.frame_plug_eq_node f t
    rw [Ctx.plug_cons, hnode] at hT
    rw [Ctx.up_cons]
    rw [hnode] at hu hhi' hlo' ⊢
    have hlen : (Ctx.plug c (AvlTree.rebalance (.node l f.val r))).toList.length < fuel := by
      rw [Ctx.toList_plug, AvlTree.toList_rebalance, ← Ctx.toList_plug, hT]
      exact hf
    refine restructureLoop_node hT hf hh fun h hh => ?_
    have hfocus := tableAt_has rfl hh
    rcases AvlTree.rebalance_root (.node l f.val r) with hsame | ⟨l', x, r', hnew, hroot⟩
    · rw [hsame] at hfocus
      exact ⟨_, hfocus.split.1.get, ih rfl hu hc hhi' hlo' (by omega) hlen hh⟩
    · -- the row went below `x`; the loop visits `x` before it goes on
      rw [hnew] at hfocus hu hhi' hlo' hlen hh ⊢
      obtain ⟨row, hrow, hparent⟩ : ∃ row, h f.val.addr = some row ∧ row.lpParent = some x.addr := by
        rcases hroot with hroot | hroot
        · exact parent_of_root? hroot hfocus.split.2.split.1
        · exact parent_of_root? hroot hfocus.split.2.split.2
      refine ⟨row, hrow, ?_⟩
      rw [hparent]
      exact restructureLoop_balanced rfl hlen (AvlTree.rebalance_eq_self hu) hh fun h hh =>
        ih rfl hu hc hhi' hlo' (by omega) hlen hh

/-- `RestructureRecursive` does nothing along a path that is balanced already. -/
theorem restructureLoop_noop (hT : c.plug t = T)
    (hc : Ctx.Balanced c t.height) (hn : c.length < n) (hf : T.toList.length < fuel) (hh : (tableAt lpRoot T * F) h) :
    Yields (restructureLoop fuel lpRoot n h (some (holeParent lpRoot c))) (tableAt lpRoot T * F) := by
  induction c generalizing t n h with
  | nil =>
    obtain ⟨n, rfl⟩ : ∃ m, n = m + 1 := ⟨n - 1, by simp at hn; omega⟩
    rw [holeParent, restructureLoop, if_pos rfl]
    exact yields_some.mpr hh
  | cons f c ih =>
    rw [List.length_cons] at hn
    obtain ⟨n, rfl⟩ : ∃ m, n = m + 1 := ⟨n - 1, by omega⟩
    obtain ⟨h1, h2, hs, hc⟩ := hc
    obtain ⟨l, r, hnode⟩ : ∃ l r, f.plug t = .node l f.val r := Ctx.frame_plug_eq_node f t
    have hreb : AvlTree.rebalance (f.plug t) = f.plug t := Ctx.rebalance_frame_eq_self h1 h2
    rw [Ctx.plug_cons] at hT
    have hstep := fun h hh => ih (t := f.plug t) (n := n) (h := h) hT
      (by rwa [Ctx.height_frame_plug]) (by omega) hh
    rw [hnode] at hT hreb
    exact restructureLoop_balanced hT hf hreb hh hstep

end Zcp.Common
