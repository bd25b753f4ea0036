import Mathlib.Data.List.Basic
import Mathlib.Tactic.Ring

/-!
# Height-balanced trees with a focus

Binary trees, their in-order list, and the one-hole contexts that a parent-linked tree is walked
with. A structure that edits its tree at a node and then repairs the balance on the way to the root
is described here by two functions: `Ctx.plug` puts a subtree back where the context was cut out,
and `Ctx.up` does the same but rebalances every node it passes.

`Ctx.up_spec` is the repair theorem: when the subtree in the hole changed its height by at most one,
walking up restores the balance of the whole tree and keeps its in-order list.
-/

namespace Zcp.Lib

variable {α : Type*}

/-- A binary tree with a value in every inner node. -/
inductive AvlTree (α : Type*) where
  | nil : AvlTree α
  | node (l : AvlTree α) (a : α) (r : AvlTree α) : AvlTree α
deriving DecidableEq, Repr

namespace AvlTree

/-- The values from left to right. -/
def toList : AvlTree α → List α
  | nil => []
  | node l a r => l.toList ++ a :: r.toList

/-- The number of nodes on the longest path to a leaf. -/
def height : AvlTree α → ℕ
  | nil => 0
  | node l _ r => max l.height r.height + 1

/-- The sum of a weight over all nodes. -/
def weight (w : α → ℕ) : AvlTree α → ℕ
  | nil => 0
  | node l a r => l.weight w + w a + r.weight w

/-- The value at the root. -/
def root? : AvlTree α → Option α
  | nil => none
  | node _ a _ => some a

/-- The two subtrees of every node differ in height by at most one. -/
def Balanced : AvlTree α → Prop
  | nil => True
  | node l _ r => l.height ≤ r.height + 1 ∧ r.height ≤ l.height + 1 ∧ l.Balanced ∧ r.Balanced

@[simp] theorem toList_nil : (nil : AvlTree α).toList = [] := rfl

@[simp] theorem toList_node (l : AvlTree α) (a : α) (r : AvlTree α) :
    (node l a r).toList = l.toList ++ a :: r.toList := rfl

@[simp] theorem height_nil : (nil : AvlTree α).height = 0 := rfl

@[simp] theorem height_node (l : AvlTree α) (a : α) (r : AvlTree α) :
    (node l a r).height = max l.height r.height + 1 := rfl

@[simp] theorem weight_nil (w : α → ℕ) : (nil : AvlTree α).weight w = 0 := rfl

@[simp] theorem weight_node (w : α → ℕ) (l : AvlTree α) (a : α) (r : AvlTree α) :
    (node l a r).weight w = l.weight w + w a + r.weight w := rfl

@[simp] theorem root?_nil : (nil : AvlTree α).root? = none := rfl

@[simp] theorem root?_node (l : AvlTree α) (a : α) (r : AvlTree α) : (node l a r).root? = some a := rfl

@[simp] theorem balanced_nil : (nil : AvlTree α).Balanced := trivial

theorem balanced_node {l : AvlTree α} {a : α} {r : AvlTree α} : (node l a r).Balanced ↔
      l.height ≤ r.height + 1 ∧ r.height ≤ l.height + 1 ∧ l.Balanced ∧ r.Balanced := Iff.rfl

theorem weight_eq_sum (w : α → ℕ) (t : AvlTree α) : t.weight w = (t.toList.map w).sum := by
  induction t with
  | nil => rfl
  | node l a r ihl ihr =>
    simp only [weight_node, ihl, ihr, toList_node, List.map_append, List.map_cons, List.sum_append,
      List.sum_cons]
    ring

theorem height_eq_zero {t : AvlTree α} : t.height = 0 ↔ t = nil := by
  cases t <;> simp

theorem height_le_length (t : AvlTree α) : t.height ≤ t.toList.length := by
  induction t with
  | nil => exact Nat.le_refl 0
  | node l a r ihl ihr =>
    simp only [height_node, toList_node, List.length_append, List.length_cons]
    omega

/-- Lift the left child above the root. -/
def liftLeft : AvlTree α → AvlTree α
  | node (node a x b) p d => node a x (node b p d)
  | t => t

/-- Lift the right child above the root. -/
def liftRight : AvlTree α → AvlTree α
  | node a p (node b x d) => node (node a p b) x d
  | t => t

/-- The left height minus the right height. -/
def balance : AvlTree α → ℤ
  | nil => 0
  | node l _ r => (l.height : ℤ) - r.height

/-- Repair the balance at the root, when the subtrees are balanced and differ by at most two. -/
def rebalance : AvlTree α → AvlTree α
  | nil => nil
  | node l p r =>
    if (l.height : ℤ) - r.height > 1 then
      if l.balance ≥ 0 then liftLeft (node l p r) else liftLeft (node (liftRight l) p r)
    else if (l.height : ℤ) - r.height < -1 then
      if r.balance ≤ 0 then liftRight (node l p r) else liftRight (node l p (liftLeft r))
    else node l p r

@[simp] theorem toList_liftLeft (t : AvlTree α) : (liftLeft t).toList = t.toList := by
  match t with
  | nil => rfl
  | node nil p d => rfl
  | node (node a x b) p d => simp [liftLeft]

@[simp] theorem toList_liftRight (t : AvlTree α) : (liftRight t).toList = t.toList := by
  match t with
  | nil => rfl
  | node a p nil => rfl
  | node a p (node b x d) => simp [liftRight]

@[simp] theorem toList_rebalance (t : AvlTree α) : (rebalance t).toList = t.toList := by
  cases t with
  | nil => rfl
  | node l p r =>
    simp only [rebalance]
    split_ifs <;> simp

theorem rebalance_eq_self {t : AvlTree α} (h : t.Balanced) : rebalance t = t := by
  cases t with
  | nil => rfl
  | node l p r =>
    obtain ⟨h1, h2, -, -⟩ := balanced_node.mp h
    rw [rebalance, if_neg (by omega), if_neg (by omega)]

/-- When a repair changes the tree, the old root becomes a child of the new root. -/
theorem rebalance_root (t : AvlTree α) : rebalance t = t ∨
      ∃ l x r, rebalance t = node l x r ∧ (l.root? = t.root? ∨ r.root? = t.root?) := by
  match t with
  | nil => exact .inl rfl
  | node l p r =>
    rw [rebalance]
    split_ifs
    · match l with
      | nil => exact .inl rfl
      | node a x b => exact .inr ⟨a, x, node b p r, rfl, .inr rfl⟩
    · match l with
      | nil => exact .inl rfl
      | node a x nil => exact .inr ⟨a, x, node nil p r, rfl, .inr rfl⟩
      | node a x (node b y d) => exact .inr ⟨node a x b, y, node d p r, rfl, .inr rfl⟩
    · match r with
      | nil => exact .inl rfl
      | node b x d => exact .inr ⟨node l p b, x, d, rfl, .inl rfl⟩
    · match r with
      | nil => exact .inl rfl
      | node nil x d => exact .inr ⟨node l p nil, x, d, rfl, .inl rfl⟩
      | node (node b y d) x e => exact .inr ⟨node l p b, y, node d x e, rfl, .inl rfl⟩
    · exact .inl rfl

/-- The subtrees are balanced and their heights are at most two apart. -/
def NearBalanced : AvlTree α → Prop
  | nil => True
  | node l _ r => l.height ≤ r.height + 2 ∧ r.height ≤ l.height + 2 ∧ l.Balanced ∧ r.Balanced

/-- Repairing a left subtree that is two higher. -/
private theorem rebalance_left {l r : AvlTree α} {p : α} (hh : l.height = r.height + 2)
    (hl : l.Balanced) (hr : r.Balanced) :
    (rebalance (node l p r)).Balanced ∧ (rebalance (node l p r)).height ≤ r.height + 3 ∧
      r.height + 2 ≤ (rebalance (node l p r)).height := by
  match l, hl, hh with
  | nil, _, hh => simp at hh
  | node a x b, hl, hh =>
    obtain ⟨h1, h2, ha, hb⟩ := balanced_node.mp hl
    rw [height_node] at hh
    rw [rebalance, if_pos (by simp only [height_node]; omega)]
    by_cases hbal : (node a x b).balance ≥ 0
    · rw [if_pos hbal]
      rw [balance] at hbal
      simp only [liftLeft, balanced_node, height_node]
      exact ⟨⟨by omega, by omega, ha, by omega, by omega, hb, hr⟩, by omega, by omega⟩
    · rw [if_neg hbal]
      rw [balance] at hbal
      match b, hb, h1, h2, hh, hbal with
      | nil, _, h1, h2, hh, hbal => simp at hbal
      | node b1 y b2, hb, h1, h2, hh, hbal =>
        obtain ⟨h3, h4, hb1, hb2⟩ := balanced_node.mp hb
        simp only [height_node] at h1 h2 hh hbal
        simp only [liftRight, liftLeft, balanced_node, height_node]
        exact ⟨⟨by omega, by omega, ⟨by omega, by omega, ha, hb1⟩, by omega, by omega, hb2, hr⟩,
          by omega, by omega⟩

/-- Repairing a right subtree that is two higher. -/
private theorem rebalance_right {l r : AvlTree α} {p : α} (hh : r.height = l.height + 2)
    (hl : l.Balanced) (hr : r.Balanced) :
    (rebalance (node l p r)).Balanced ∧ (rebalance (node l p r)).height ≤ l.height + 3 ∧
      l.height + 2 ≤ (rebalance (node l p r)).height := by
  match r, hr, hh with
  | nil, _, hh => simp at hh
  | node b x d, hr, hh =>
    obtain ⟨h1, h2, hb, hd⟩ := balanced_node.mp hr
    rw [height_node] at hh
    rw [rebalance, if_neg (by simp only [height_node]; omega),
      if_pos (by simp only [height_node]; omega)]
    by_cases hbal : (node b x d).balance ≤ 0
    · rw [if_pos hbal]
      rw [balance] at hbal
      simp only [liftRight, balanced_node, height_node]
      exact ⟨⟨by omega, by omega, ⟨by omega, by omega, hl, hb⟩, hd⟩, by omega, by omega⟩
    · rw [if_neg hbal]
      rw [balance] at hbal
      match b, hb, h1, h2, hh, hbal with
      | nil, _, h1, h2, hh, hbal => simp at hbal
      | node b1 y b2, hb, h1, h2, hh, hbal =>
        obtain ⟨h3, h4, hb1, hb2⟩ := balanced_node.mp hb
        simp only [height_node] at h1 h2 hh hbal
        simp only [liftRight, liftLeft, balanced_node, height_node]
        exact ⟨⟨by omega, by omega, ⟨by omega, by omega, hl, hb1⟩, by omega, by omega, hb2, hd⟩,
          by omega, by omega⟩

/-- One repair step: the result is balanced, and its height is the height of the unrepaired node or
one less. -/
theorem rebalance_spec {t : AvlTree α} (h : t.NearBalanced) :
    (rebalance t).Balanced ∧ (rebalance t).height ≤ t.height ∧ t.height ≤ (rebalance t).height + 1 := by
  cases t with
  | nil => exact ⟨trivial, Nat.le_refl _, by simp⟩
  | node l p r =>
    obtain ⟨h1, h2, hl, hr⟩ := h
    by_cases hle : l.height = r.height + 2
    · obtain ⟨hb, hlo, hhi⟩ := rebalance_left (p := p) hle hl hr
      exact ⟨hb, by rw [height_node]; omega, by rw [height_node]; omega⟩
    · by_cases hri : r.height = l.height + 2
      · obtain ⟨hb, hlo, hhi⟩ := rebalance_right (p := p) hri hl hr
        exact ⟨hb, by rw [height_node]; omega, by rw [height_node]; omega⟩
      · have hb : (node l p r).Balanced := balanced_node.mpr ⟨by omega, by omega, hl, hr⟩
        rw [rebalance_eq_self hb]
        exact ⟨hb, Nat.le_refl _, Nat.le_succ _⟩

end AvlTree

/-! ## Contexts -/

/-- One step of a path from a hole towards the root: the side the hole is on, the value of the
parent, and the other subtree of the parent. -/
structure Frame (α : Type*) where
  left : Bool
  val : α
  sib : AvlTree α

/-- Put a subtree back under its parent. -/
def Frame.plug (f : Frame α) (t : AvlTree α) : AvlTree α :=
  if f.left then .node t f.val f.sib else .node f.sib f.val t

/-- A tree with a hole: the path from the hole to the root. -/
abbrev Ctx (α : Type*) := List (Frame α)

namespace Ctx

open AvlTree

/-- Fill the hole. -/
def plug : Ctx α → AvlTree α → AvlTree α
  | [], t => t
  | f :: c, t => plug c (f.plug t)

/-- Fill the hole and rebalance every node on the way to the root. -/
def up : Ctx α → AvlTree α → AvlTree α
  | [], t => t
  | f :: c, t => up c (f.plug t).rebalance

/-- The values to the left of the hole. -/
def before : Ctx α → List α
  | [] => []
  | f :: c => before c ++ (if f.left then [] else f.sib.toList ++ [f.val])

/-- The values to the right of the hole. -/
def after : Ctx α → List α
  | [] => []
  | f :: c => (if f.left then f.val :: f.sib.toList else []) ++ after c

/-- The height of the whole tree when the hole is filled with height `h`. -/
def height : Ctx α → ℕ → ℕ
  | [], h => h
  | f :: c, h => height c (max h f.sib.height + 1)

/-- Every node on the path is balanced when the hole is filled with height `h`. -/
def Balanced : Ctx α → ℕ → Prop
  | [], _ => True
  | f :: c, h => h ≤ f.sib.height + 1 ∧ f.sib.height ≤ h + 1 ∧ f.sib.Balanced ∧
      Balanced c (max h f.sib.height + 1)

@[simp] theorem plug_nil (t : AvlTree α) : plug [] t = t := rfl

@[simp] theorem plug_cons (f : Frame α) (c : Ctx α) (t : AvlTree α) :
    plug (f :: c) t = plug c (f.plug t) := rfl

@[simp] theorem up_nil (t : AvlTree α) : up [] t = t := rfl

@[simp] theorem up_cons (f : Frame α) (c : Ctx α) (t : AvlTree α) :
    up (f :: c) t = up c (f.plug t).rebalance := rfl

theorem plug_append (c d : Ctx α) (t : AvlTree α) : plug (c ++ d) t = plug d (plug c t) := by
  induction c generalizing t with
  | nil => rfl
  | cons f c ih => exact ih _

theorem toList_frame_plug (f : Frame α) (t : AvlTree α) : (f.plug t).toList =
      (if f.left then [] else f.sib.toList ++ [f.val]) ++ t.toList ++
        (if f.left then f.val :: f.sib.toList else []) := by
  rw [Frame.plug]
  split_ifs <;> simp

theorem toList_plug (c : Ctx α) (t : AvlTree α) : (plug c t).toList = before c ++ t.toList ++ after c := by
  induction c generalizing t with
  | nil => simp [before, after]
  | cons f c ih => simp [ih, toList_frame_plug, before, after]

/-- Exchanging two steps in opposite directions is a rotation: it keeps the order of the values. -/
theorem toList_plug_swap {f g : Frame α} (h : g.left = !f.left) (c : Ctx α) (t : AvlTree α) :
    (plug (f :: g :: c) t).toList = (plug (g :: f :: c) t).toList := by
  obtain ⟨l, a, s⟩ := f
  obtain ⟨l', b, s'⟩ := g
  subst h
  cases l <;> simp [toList_plug, toList_frame_plug]

theorem height_frame_plug (f : Frame α) (t : AvlTree α) : (f.plug t).height = max t.height f.sib.height + 1 := by
  rw [Frame.plug]
  split_ifs
  · rfl
  · rw [AvlTree.height_node, Nat.max_comm]

theorem height_plug (c : Ctx α) (t : AvlTree α) : (plug c t).height = height c t.height := by
  induction c generalizing t with
  | nil => rfl
  | cons f c ih => rw [plug_cons, ih, height_frame_plug, height]

theorem balanced_frame_plug {f : Frame α} {t : AvlTree α} :
    (f.plug t).Balanced ↔ t.Balanced ∧ t.height ≤ f.sib.height + 1 ∧
      f.sib.height ≤ t.height + 1 ∧ f.sib.Balanced := by
  rw [Frame.plug]
  split_ifs <;> rw [balanced_node] <;> tauto

theorem balanced_plug {c : Ctx α} {t : AvlTree α} : (plug c t).Balanced ↔ t.Balanced ∧ Balanced c t.height := by
  induction c generalizing t with
  | nil => exact ⟨fun h => ⟨h, trivial⟩, fun h => h.1⟩
  | cons f c ih =>
    rw [plug_cons, ih, balanced_frame_plug, height_frame_plug, Balanced]
    tauto

@[simp] theorem toList_up (c : Ctx α) (t : AvlTree α) : (up c t).toList = (plug c t).toList := by
  induction c generalizing t with
  | nil => rfl
  | cons f c ih => rw [up_cons, ih, toList_plug, toList_rebalance, plug_cons, toList_plug]

theorem nearBalanced_frame_plug {f : Frame α} {t : AvlTree α} {h : ℕ} (ht : t.Balanced)
    (hf : f.sib.Balanced) (h1 : h ≤ f.sib.height + 1) (h2 : f.sib.height ≤ h + 1)
    (h3 : t.height ≤ h + 1) (h4 : h ≤ t.height + 1) : (f.plug t).NearBalanced := by
  rw [Frame.plug]
  split_ifs
  · exact ⟨by omega, by omega, ht, hf⟩
  · exact ⟨by omega, by omega, hf, ht⟩

theorem frame_plug_eq_node (f : Frame α) (t : AvlTree α) : ∃ l r, f.plug t = .node l f.val r := by
  rw [Frame.plug]
  split_ifs
  · exact ⟨t, f.sib, rfl⟩
  · exact ⟨f.sib, t, rfl⟩

/-- A parent whose subtrees are at most one apart needs no repair, whatever they look like inside. -/
theorem rebalance_frame_eq_self {f : Frame α} {t : AvlTree α} (h1 : t.height ≤ f.sib.height + 1)
    (h2 : f.sib.height ≤ t.height + 1) : (f.plug t).rebalance = f.plug t := by
  rw [Frame.plug]
  split_ifs <;> rw [rebalance, if_neg (by omega), if_neg (by omega)]

/-- A repaired parent is again at most one off its old height. -/
theorem rebalance_frame_height {f : Frame α} {t : AvlTree α} {h : ℕ} (ht : t.Balanced)
    (hf : f.sib.Balanced) (h1 : h ≤ f.sib.height + 1) (h2 : f.sib.height ≤ h + 1)
    (h3 : t.height ≤ h + 1) (h4 : h ≤ t.height + 1) : (f.plug t).rebalance.height ≤ max h f.sib.height + 1 + 1 ∧
      max h f.sib.height + 1 ≤ (f.plug t).rebalance.height + 1 := by
  have hnear := nearBalanced_frame_plug ht hf h1 h2 h3 h4
  obtain ⟨-, hle, hge⟩ := rebalance_spec hnear
  rw [height_frame_plug] at hle hge
  by_cases hb : (f.plug t).Balanced
  · rw [rebalance_eq_self hb, height_frame_plug]
    omega
  · -- out of balance, the hole is two off its sibling, so the sibling decides the old height
    have hoff : ¬ (t.height ≤ f.sib.height + 1 ∧ f.sib.height ≤ t.height + 1) := fun hh =>
      hb (balanced_frame_plug.mpr ⟨ht, hh.1, hh.2, hf⟩)
    omega

/-- **Repair on the way up.** When the subtree in the hole is balanced and its height is at most one
off the height the context was balanced for, `up` gives a balanced tree. -/
theorem up_spec {c : Ctx α} {t : AvlTree α} {h : ℕ} (ht : t.Balanced) (hc : Balanced c h)
    (h3 : t.height ≤ h + 1) (h4 : h ≤ t.height + 1) :
    (up c t).Balanced ∧ (up c t).height ≤ height c h + 1 ∧ height c h ≤ (up c t).height + 1 := by
  induction c generalizing t h with
  | nil => exact ⟨ht, h3, h4⟩
  | cons f c ih =>
    obtain ⟨h1, h2, hf, hc⟩ := hc
    have hnear := nearBalanced_frame_plug ht hf h1 h2 h3 h4
    obtain ⟨hlo, hhi⟩ := rebalance_frame_height ht hf h1 h2 h3 h4
    exact ih (rebalance_spec hnear).1 hc hlo hhi

/-- A hole that lost one level leaves the tree balanced, or leaves its height as it was: the lowest
node that goes out of balance keeps its height, and so do all nodes above it. -/
theorem plug_shrunk {c : Ctx α} {t : AvlTree α} {h : ℕ} (ht : t.Balanced) (hc : Balanced c h)
    (hh : t.height + 1 = h) :
    ((plug c t).Balanced ∧ height c h ≤ (plug c t).height + 1 ∧ (plug c t).height ≤ height c h) ∨
      (plug c t).height = height c h := by
  induction c generalizing t h with
  | nil => exact Or.inl ⟨ht, by simp [height]; omega, by simp [height]; omega⟩
  | cons f c ih =>
    obtain ⟨h1, h2, hf, hc⟩ := hc
    by_cases hb : f.sib.height ≤ t.height + 1
    · have hbal : (f.plug t).Balanced := balanced_frame_plug.mpr ⟨ht, by omega, hb, hf⟩
      by_cases hkeep : max t.height f.sib.height = max h f.sib.height
      · have hp : (f.plug t).height = max h f.sib.height + 1 := by
          rw [height_frame_plug, hkeep]
        have hbc : (plug c (f.plug t)).Balanced :=
          balanced_plug.mpr ⟨hbal, by rw [hp]; exact hc⟩
        have hheight : (plug c (f.plug t)).height = height (f :: c) h := by
          rw [height_plug, hp, height]
        exact Or.inl ⟨hbc, by rw [plug_cons, hheight]; omega, by rw [plug_cons, hheight]⟩
      · exact ih hbal hc (by rw [height_frame_plug]; omega)
    · refine Or.inr ?_
      rw [height_plug, height, height]
      congr 1
      omega

theorem weight_frame_plug (w : α → ℕ) (f : Frame α) (t : AvlTree α) :
    (f.plug t).weight w = t.weight w + w f.val + f.sib.weight w := by
  rw [Frame.plug]
  split_ifs
  · rfl
  · rw [AvlTree.weight_node]; omega

/-- Every value sits at the root of a subtree. -/
theorem exists_plug_of_mem {t : AvlTree α} {a : α} (h : a ∈ t.toList) :
    ∃ (c : Ctx α) (l r : AvlTree α), plug c (.node l a r) = t := by
  induction t with
  | nil => simp at h
  | node l b r ihl ihr =>
    rw [toList_node, List.mem_append, List.mem_cons] at h
    rcases h with h | rfl | h
    · obtain ⟨c, l', r', rfl⟩ := ihl h
      exact ⟨c ++ [⟨true, b, r⟩], l', r', by rw [plug_append]; rfl⟩
    · exact ⟨[], l, r, rfl⟩
    · obtain ⟨c, l', r', rfl⟩ := ihr h
      exact ⟨c ++ [⟨false, b, l⟩], l', r', by rw [plug_append]; rfl⟩

theorem val_mem_plug {f : Frame α} {c : Ctx α} (hf : f ∈ c) (t : AvlTree α) : f.val ∈ (plug c t).toList := by
  induction c generalizing t with
  | nil => simp at hf
  | cons g c ih =>
    rcases List.mem_cons.mp hf with rfl | hf
    · rw [plug_cons, toList_plug, toList_frame_plug]
      split_ifs <;> simp
    · exact ih hf _

theorem balanced_append {c d : Ctx α} {h : ℕ} : Balanced (c ++ d) h ↔ Balanced c h ∧ Balanced d (height c h) := by
  induction c generalizing h with
  | nil => exact ⟨fun h => ⟨trivial, h⟩, fun h => h.2⟩
  | cons f c ih =>
    rw [List.cons_append, Balanced, Balanced, ih, height]
    tauto

/-- Nothing is right of a hole that every step of the path reaches by a right turn. -/
theorem after_eq_nil {c : Ctx α} (hc : ∀ f ∈ c, f.left = false) : after c = [] := by
  induction c with
  | nil => rfl
  | cons f c ih =>
    rw [after, ih fun g hg => hc g (List.mem_cons_of_mem f hg), hc f (by simp)]
    rfl

/-- The way to the last value of a tree. -/
theorem exists_last (l : AvlTree α) (x : α) (r : AvlTree α) : ∃ (c : Ctx α) (t : AvlTree α) (m : α),
      plug c (.node t m .nil) = .node l x r ∧ ∀ f ∈ c, f.left = false := by
  induction r generalizing l x with
  | nil => exact ⟨[], l, x, rfl, by simp⟩
  | node r₁ y r₂ _ ih =>
    obtain ⟨c, t, m, hc, hleft⟩ := ih r₁ y
    refine ⟨c ++ [⟨false, x, l⟩], t, m, by rw [plug_append, hc]; rfl, fun f hf => ?_⟩
    rcases List.mem_append.mp hf with hf | hf
    · exact hleft f hf
    · rw [List.mem_singleton.mp hf]

/-- A path is not longer than the tree has values besides those in the hole. -/
theorem length_le_length_plug (c : Ctx α) (t : AvlTree α) :
    c.length + t.toList.length ≤ (plug c t).toList.length := by
  induction c generalizing t with
  | nil => simp
  | cons f c ih =>
    have h := ih (f.plug t)
    rw [toList_frame_plug] at h
    rw [plug_cons, List.length_cons]
    split_ifs at h <;> simp only [List.length_append, List.length_cons, List.length_nil] at h <;>
      omega

/-- The value right before the hole is the lowest one on the path that the hole is right of. -/
theorem getLast?_before (c : Ctx α) : (before c).getLast? = (c.dropWhile Frame.left).head?.map Frame.val := by
  induction c with
  | nil => rfl
  | cons f c ih =>
    cases hf : f.left
    · simp [before, hf, List.dropWhile_cons_of_neg]
    · simp [before, hf, ih, List.dropWhile_cons_of_pos]

/-- The value right after the hole is the lowest one on the path that the hole is left of. -/
theorem head?_after (c : Ctx α) : (after c).head? = (c.dropWhile fun f => !f.left).head?.map Frame.val := by
  induction c with
  | nil => rfl
  | cons f c ih =>
    cases hf : f.left
    · simp [after, hf, ih, List.dropWhile_cons_of_pos]
    · simp [after, hf, List.dropWhile_cons_of_neg]

/-! ### Holes that are not the higher side

A hole whose subtree lost height is never the side that a repair takes apart. -/

theorem before_append (c d : Ctx α) : before (c ++ d) = before d ++ before c := by
  induction c with
  | nil => rw [List.nil_append, before, List.append_nil]
  | cons f c ih => rw [List.cons_append, before, ih, before, List.append_assoc]

theorem after_append (c d : Ctx α) : after (c ++ d) = after c ++ after d := by
  induction c with
  | nil => rfl
  | cons f c ih => rw [List.cons_append, after, ih, after, List.append_assoc]

theorem up_append (c d : Ctx α) (t : AvlTree α) : up (c ++ d) t = up d (up c t) := by
  induction c generalizing t with
  | nil => rfl
  | cons f c ih => exact ih _

/-- The hole of `d` is below the same parent as that of `c`, on the same side, and between the same values. -/
structure SameHole (c d : Ctx α) : Prop where
  head : d.head?.map (fun f => (f.left, f.val)) = c.head?.map fun f => (f.left, f.val)
  before : d.before = c.before
  after : d.after = c.after

theorem SameHole.refl (c : Ctx α) : SameHole c c := ⟨rfl, rfl, rfl⟩

/-- Repairing a parent keeps the hole when it is not the higher side. -/
theorem rebalance_light (f : Frame α) {t : AvlTree α} (hle : t.height ≤ f.sib.height + 1) :
    ∃ d, SameHole [f] d ∧ (f.plug t).rebalance = plug d t := by
  obtain ⟨left, p, s⟩ := f
  have hle : t.height ≤ s.height + 1 := hle
  cases left with
  | true =>
    show ∃ d, _ ∧ AvlTree.rebalance (.node t p s) = plug d t
    rw [rebalance, if_neg (by omega)]
    split_ifs with hhigh hside
    · match s with
      | nil => exact ⟨[⟨true, p, nil⟩], .refl _, rfl⟩
      | node b x e => exact ⟨[⟨true, p, b⟩, ⟨true, x, e⟩], ⟨rfl, rfl, by simp [after]⟩, rfl⟩
    · match s with
      | nil => exact ⟨[⟨true, p, nil⟩], .refl _, rfl⟩
      | node nil x e => exact ⟨[⟨true, p, nil⟩, ⟨true, x, e⟩], ⟨rfl, rfl, by simp [after]⟩, rfl⟩
      | node (node b y e) x z =>
        exact ⟨[⟨true, p, b⟩, ⟨true, y, node e x z⟩], ⟨rfl, rfl, by simp [after]⟩, rfl⟩
    · exact ⟨[⟨true, p, s⟩], .refl _, rfl⟩
  | false =>
    show ∃ d, _ ∧ AvlTree.rebalance (.node s p t) = plug d t
    rw [rebalance]
    split_ifs with hhigh hside hlow hside'
    · match s with
      | nil => exact ⟨[⟨false, p, nil⟩], .refl _, rfl⟩
      | node a x b => exact ⟨[⟨false, p, b⟩, ⟨false, x, a⟩], ⟨rfl, by simp [before], rfl⟩, rfl⟩
    · match s with
      | nil => exact ⟨[⟨false, p, nil⟩], .refl _, rfl⟩
      | node a x nil => exact ⟨[⟨false, p, nil⟩, ⟨false, x, a⟩], ⟨rfl, by simp [before], rfl⟩, rfl⟩
      | node a x (node b y e) =>
        exact ⟨[⟨false, p, e⟩, ⟨false, y, node a x b⟩], ⟨rfl, by simp [before], rfl⟩, rfl⟩
    · omega
    · omega
    · exact ⟨[⟨false, p, s⟩], .refl _, rfl⟩

/-- A subtree that is not higher than the one that was in the hole stays where it is on the way up. -/
theorem up_light {c : Ctx α} {t : AvlTree α} {h : ℕ} (ht : t.Balanced) (hc : Balanced c h) (hhi : t.height ≤ h)
    (hlo : h ≤ t.height + 1) : ∃ d, SameHole c d ∧ up c t = plug d t := by
  induction c generalizing t h with
  | nil => exact ⟨[], .refl _, rfl⟩
  | cons f c ih =>
    obtain ⟨h1, h2, hf, hc⟩ := hc
    obtain ⟨d, hd, hreb⟩ := rebalance_light f (hhi.trans h1)
    obtain ⟨hbal, hle, -⟩ := rebalance_spec (nearBalanced_frame_plug ht hf h1 h2 (by omega) hlo)
    obtain ⟨-, hge⟩ := rebalance_frame_height ht hf h1 h2 (by omega) hlo
    rw [height_frame_plug] at hle
    obtain ⟨d', hd', hup⟩ := ih hbal hc (by omega) hge
    refine ⟨d ++ d', ⟨?_, ?_, ?_⟩, ?_⟩
    · cases d with
      | nil => cases hd.head
      | cons g d => exact hd.head
    · rw [before_append, hd'.before, hd.before]
      rfl
    · rw [after_append, hd'.after, hd.after]
      exact congrArg (· ++ after c) (List.append_nil _)
    · rw [up_cons, hup, hreb, plug_append]

/-- Where a subtree did not grow by more than it may, rebalancing on the way up leaves the tree no higher than
before. -/
theorem height_up_le {c : Ctx α} {t : AvlTree α} {h : ℕ} (ht : t.Balanced) (hc : Balanced c h) (hhi : t.height ≤ h)
    (hlo : h ≤ t.height + 1) : (up c t).height ≤ height c h := by
  induction c generalizing t h with
  | nil => exact hhi
  | cons f c ih =>
    obtain ⟨h1, h2, hf, hc⟩ := hc
    obtain ⟨hbal, hle, -⟩ := rebalance_spec (nearBalanced_frame_plug ht hf h1 h2 (by omega) hlo)
    obtain ⟨-, hge⟩ := rebalance_frame_height ht hf h1 h2 (by omega) hlo
    rw [height_frame_plug] at hle
    exact ih hbal hc (by omega) hge

end Ctx

/-! ## Search paths -/

/-- The path of a binary search that goes left at the values satisfying `p`, down to the empty
subtree it ends in. -/
def AvlTree.descend (p : α → Bool) : AvlTree α → Ctx α → Ctx α
  | .nil, c => c
  | .node l a r, c => if p a then l.descend p (⟨true, a, r⟩ :: c) else r.descend p (⟨false, a, l⟩ :: c)

/-- The way down to the place of a new value, with nothing put into its end, is the tree it went through. -/
theorem AvlTree.plug_descend (p : α → Bool) (t : AvlTree α) (c : Ctx α) :
    Ctx.plug (t.descend p c) .nil = Ctx.plug c t := by
  induction t generalizing c with
  | nil => rfl
  | node l a r ihl ihr =>
    rw [descend]
    split_ifs
    · rw [ihl]; rfl
    · rw [ihr]; rfl

/-- The values left of the place a search ends, when no value left of a left turn was one to turn
left at. -/
theorem AvlTree.before_descend (p : α → Bool) (t : AvlTree α) (c : Ctx α)
    (hs : t.toList.Pairwise fun a b => p a → p b) :
    (t.descend p c).before = c.before ++ t.toList.takeWhile (fun a => !p a) := by
  induction t generalizing c with
  | nil => simp [descend]
  | node l a r ihl ihr =>
    rw [toList_node, List.pairwise_append, List.pairwise_cons] at hs
    obtain ⟨hl, ⟨har, hr⟩, hlr⟩ := hs
    rw [descend]
    by_cases hp : p a
    · rw [if_pos hp, ihl _ hl, toList_node, List.takeWhile_append]
      split_ifs with hlen
      · have hwhole : l.toList.takeWhile (fun x => !p x) = l.toList :=
          (List.takeWhile_prefix _).eq_of_length hlen
        simp [Ctx.before, hp, hwhole]
      · simp [Ctx.before]
    · have hall : ∀ x ∈ l.toList, (!p x) = true := by
        intro x hx
        have := hlr x hx a (by simp)
        simp only [Bool.not_eq_true', Bool.eq_false_iff]
        exact fun h => hp (this h)
      rw [if_neg hp, ihr _ hr, toList_node, List.takeWhile_append_of_pos hall]
      simp [Ctx.before, hp, List.append_assoc]

/-- The values right of that place are the others. -/
theorem AvlTree.after_descend (p : α → Bool) (t : AvlTree α) (c : Ctx α)
    (hs : t.toList.Pairwise fun a b => p a → p b) :
    (t.descend p c).after = t.toList.dropWhile (fun a => !p a) ++ c.after := by
  have hlist := congrArg AvlTree.toList (plug_descend p t c)
  rw [Ctx.toList_plug, Ctx.toList_plug, toList_nil, List.append_nil, before_descend p t c hs, List.append_assoc,
    List.append_assoc] at hlist
  refine List.append_cancel_left ((List.append_cancel_left hlist).trans ?_)
  rw [← List.append_assoc, List.takeWhile_append_dropWhile]

end Zcp.Lib
