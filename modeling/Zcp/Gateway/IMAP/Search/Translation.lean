import Zcp.Gateway.IMAP.Search.Bounds

/-!
# Keys in prefix form

`NOT` is about the next key, `OR` about the next two, and keys side by side are all meant. The tree that `HrSearch` builds
for such keys, with its stack of open nodes, holds of a message just when they do (`search_translates`). An open node
stands for a key that has not been read yet: the one opened last for the next key, and the end of the chain for all keys
behind those of the others.
-/

namespace Zcp.Gateway

open Zcp.Common
open Libserver.ECGenericObjectTable.RowState (RestrictTable)

/-! ## Meanings -/

section Meaning

variable (atom : SRestriction → Bool)

mutual

/-- A restriction on a message, of which `atom` says what it is like. -/
def holds : SRestriction → Bool
  | .RES_COMMENT lpResTable => holds lpResTable
  | .RES_AND lpAnd => holdsAll lpAnd
  | .RES_OR lpOr => holdsAny lpOr
  | .RES_NOT lpNot => !holds lpNot
  | restriction => atom restriction

def holdsAll : List SRestriction → Bool
  | [] => true
  | lpRes :: rest => holds lpRes && holdsAll rest

def holdsAny : List SRestriction → Bool
  | [] => false
  | lpRes :: rest => holds lpRes || holdsAny rest

end

end Meaning

/-- Search keys, with the restrictions of those that are not made of others. -/
inductive SearchExpr where
  | key (restriction : SRestriction)
  | not (expr : SearchExpr)
  | or (expr expr' : SearchExpr)

/-- What a key says of a message. -/
def SearchExpr.eval (atom : SRestriction → Bool) : SearchExpr → Bool
  | .key restriction => holds atom restriction
  | .not expr => !expr.eval atom
  | .or expr expr' => expr.eval atom || expr'.eval atom

section Grammar

variable (calls : SearchCalls) (lstFolderMailEIDs : List SMail)

/-- A list of criteria is one search key in prefix form. -/
inductive IsKey : List Str → SearchExpr → Prop where
  | key (token : Str) (arguments : List Str) (hgroup : ¬ IsGroup token) (key : SearchKey)
      (hkey : searchKey (ToUpper token) = some key) (restriction : SRestriction)
      (hread : readKey calls lstFolderMailEIDs (token :: arguments) (ToUpper token) key =
        .ok (.fill restriction, arguments.length + 1)) :
    IsKey (token :: arguments) (.key restriction)
  | not (token : Str) (hgroup : ¬ IsGroup token) (hkey : searchKey (ToUpper token) = some .NOT)
      (lst : List Str) (expr : SearchExpr) (h : IsKey lst expr) : IsKey (token :: lst) (.not expr)
  | or (token : Str) (hgroup : ¬ IsGroup token) (hkey : searchKey (ToUpper token) = some .OR)
      (lst lst' : List Str) (expr expr' : SearchExpr) (h : IsKey lst expr) (h' : IsKey lst' expr') :
    IsKey (token :: (lst ++ lst')) (.or expr expr')

/-- A list of criteria is some search keys side by side. -/
inductive AreKeys : List Str → List SearchExpr → Prop where
  | nil : AreKeys [] []
  | cons (lst lst' : List Str) (expr : SearchExpr) (exprs : List SearchExpr) (h : IsKey calls lstFolderMailEIDs lst expr)
      (h' : AreKeys lst' exprs) : AreKeys (lst ++ lst') (expr :: exprs)

end Grammar

/-! ## Trees in memory -/

/-- The node at an address is written. -/
def Tree.IsNode (tree : Tree) (lpRestriction : ℕ) (node : Node) : Prop :=
  tree.heap[lpRestriction]? = some (some node)

/-- The node at an address has been allocated, and nothing is in it yet. -/
def Tree.IsOpen (tree : Tree) (lpRestriction : ℕ) : Prop := tree.heap[lpRestriction]? = some none

/-- The restriction that is in memory at an address; the children of a node are behind it. -/
inductive Tree.Stores (tree : Tree) : ℕ → SRestriction → Prop where
  | leaf {a : ℕ} {restriction : SRestriction} (h : tree.IsNode a (.leaf restriction)) : Stores tree a restriction
  | and {a lpRes : ℕ} {left right : SRestriction} (h : tree.IsNode a (.and lpRes)) (hbehind : a < lpRes)
      (hleft : Stores tree lpRes left) (hright : Stores tree (lpRes + 1) right) : Stores tree a (.RES_AND [left, right])
  | or {a lpRes : ℕ} {left right : SRestriction} (h : tree.IsNode a (.or lpRes)) (hbehind : a < lpRes)
      (hleft : Stores tree lpRes left) (hright : Stores tree (lpRes + 1) right) : Stores tree a (.RES_OR [left, right])
  | not {a lpRes : ℕ} {child : SRestriction} (h : tree.IsNode a (.not lpRes)) (hbehind : a < lpRes)
      (hchild : Stores tree lpRes child) : Stores tree a (.RES_NOT child)

/-- A tree keeps the nodes of another. -/
def Tree.Extends (tree tree' : Tree) : Prop := ∀ a node, tree.IsNode a node → tree'.IsNode a node

/-- The open nodes of a tree: the addresses in `lstRestrictions`, each of them once. -/
structure Tree.WellFormed (tree : Tree) : Prop where
  distinct : (tree.chainEnd :: tree.pending).Nodup
  isOpen : ∀ a ∈ tree.chainEnd :: tree.pending, tree.IsOpen a

namespace Tree

variable {tree tree' tree'' : Tree} {a b : ℕ}

theorem IsNode.lt {node : Node} (h : tree.IsNode a node) : a < tree.heap.length :=
  (List.getElem?_eq_some_iff.mp h).1

theorem IsOpen.lt (h : tree.IsOpen a) : a < tree.heap.length :=
  (List.getElem?_eq_some_iff.mp h).1

theorem Extends.trans (h : tree.Extends tree') (h' : tree'.Extends tree'') : tree.Extends tree'' :=
  fun a node hnode => h' a node (h a node hnode)

theorem Stores.extends {restriction : SRestriction} (h : tree.Stores a restriction) (hextends : tree.Extends tree') :
    tree'.Stores a restriction := by
  induction h with
  | leaf hnode => exact .leaf (hextends _ _ hnode)
  | and hnode hbehind _ _ ihleft ihright => exact .and (hextends _ _ hnode) hbehind ihleft ihright
  | or hnode hbehind _ _ ihleft ihright => exact .or (hextends _ _ hnode) hbehind ihleft ihright
  | not hnode hbehind _ ih => exact .not (hextends _ _ hnode) hbehind ih

/-- What is stored is read back. -/
theorem Stores.restriction_eq {restriction : SRestriction} (h : tree.Stores a restriction) {fuel : ℕ}
    (hfuel : tree.heap.length - a ≤ fuel) : tree.restriction fuel a = some restriction := by
  induction h generalizing fuel with
  | leaf hnode =>
    have hlt := hnode.lt
    obtain ⟨n, rfl⟩ := Nat.exists_eq_succ_of_ne_zero (show fuel ≠ 0 by omega)
    rw [Tree.restriction, hnode]
  | and hnode hbehind _ _ ihleft ihright =>
    have hlt := hnode.lt
    obtain ⟨n, rfl⟩ := Nat.exists_eq_succ_of_ne_zero (show fuel ≠ 0 by omega)
    rw [Tree.restriction, hnode]
    simp only [ihleft (show _ ≤ n by omega), ihright (show _ ≤ n by omega)]
    rfl
  | or hnode hbehind _ _ ihleft ihright =>
    have hlt := hnode.lt
    obtain ⟨n, rfl⟩ := Nat.exists_eq_succ_of_ne_zero (show fuel ≠ 0 by omega)
    rw [Tree.restriction, hnode]
    simp only [ihleft (show _ ≤ n by omega), ihright (show _ ≤ n by omega)]
    rfl
  | not hnode hbehind _ ih =>
    have hlt := hnode.lt
    obtain ⟨n, rfl⟩ := Nat.exists_eq_succ_of_ne_zero (show fuel ≠ 0 by omega)
    rw [Tree.restriction, hnode]
    simp only [ih (show _ ≤ n by omega)]
    rfl

/-! ### Writing and allocating -/

theorem write_isNode (hlt : a < tree.heap.length) (node : Node) : (tree.write a node).IsNode a node := by
  rw [IsNode, write]
  exact List.getElem?_set_self hlt

theorem write_isOpen (hopen : tree.IsOpen b) (hne : b ≠ a) (node : Node) : (tree.write a node).IsOpen b := by
  rw [IsOpen, write]
  exact (List.getElem?_set_ne hne.symm).trans hopen

/-- Writing an open node keeps the others. -/
theorem write_extends (hopen : tree.IsOpen a) (node : Node) : tree.Extends (tree.write a node) := by
  intro b node' hnode
  have hne : a ≠ b := by
    rintro rfl
    cases hopen.symm.trans hnode
  rw [IsNode, write]
  exact (List.getElem?_set_ne hne).trans hnode

theorem allocate_extends (n : ℕ) : tree.Extends (tree.allocate n).2 := by
  intro b node hnode
  exact (List.getElem?_append_left hnode.lt).trans hnode

theorem allocate_isOpen_of (hopen : tree.IsOpen b) (n : ℕ) : (tree.allocate n).2.IsOpen b :=
  (List.getElem?_append_left hopen.lt).trans hopen

/-- The new nodes are open. -/
theorem allocate_isOpen {n i : ℕ} (hi : i < n) : (tree.allocate n).2.IsOpen (tree.heap.length + i) := by
  rw [IsOpen, allocate]
  show (tree.heap ++ List.replicate n none)[tree.heap.length + i]? = some none
  rw [List.getElem?_append_right (by omega), Nat.add_sub_cancel_left, List.getElem?_replicate_of_lt hi]

/-! ### The open nodes -/

/-- A node has been taken from the open ones, for a key. -/
structure Ready (tree : Tree) (a : ℕ) : Prop where
  distinct : (a :: tree.chainEnd :: tree.pending).Nodup
  isOpen : ∀ b ∈ a :: tree.chainEnd :: tree.pending, tree.IsOpen b

theorem Ready.lt (h : tree.Ready a) : a < tree.heap.length := (h.isOpen a List.mem_cons_self).lt

/-- Behind the writing of the node that was taken, the others are open. -/
theorem Ready.write (h : tree.Ready a) (node : Node) : (tree.write a node).WellFormed := by
  obtain ⟨hfresh, hrest⟩ := List.nodup_cons.mp h.distinct
  refine ⟨hrest, fun b hb => ?_⟩
  have hne : b ≠ a := by
    rintro rfl
    exact hfresh hb
  exact write_isOpen (h.isOpen b (List.mem_cons_of_mem _ hb)) hne node

theorem Ready.allocate (h : tree.Ready a) (n : ℕ) : (tree.allocate n).2.Ready a :=
  ⟨h.distinct, fun b hb => allocate_isOpen_of (h.isOpen b hb) n⟩

/-- A new open node. -/
theorem WellFormed.push (h : tree.WellFormed) (hopen : tree.IsOpen b)
    (hfresh : ∀ c ∈ tree.chainEnd :: tree.pending, c ≠ b) :
    ({ tree with pending := b :: tree.pending } : Tree).WellFormed := by
  obtain ⟨hend, hpending⟩ := List.nodup_cons.mp h.distinct
  have hnot : b ∉ tree.pending := fun hb => hfresh b (List.mem_cons_of_mem _ hb) rfl
  refine ⟨List.nodup_cons.mpr ⟨?_, List.nodup_cons.mpr ⟨hnot, hpending⟩⟩, fun c hc => ?_⟩
  · intro hmem
    rcases List.mem_cons.mp hmem with heq | hmem
    · exact hfresh _ List.mem_cons_self heq
    · exact hend hmem
  · rcases List.mem_cons.mp hc with rfl | hc
    · exact h.isOpen _ List.mem_cons_self
    · rcases List.mem_cons.mp hc with rfl | hc
      · exact hopen
      · exact h.isOpen c (List.mem_cons_of_mem _ hc)

/-- The node for the next key. -/
theorem WellFormed.next (h : tree.WellFormed) : tree.next.2.Ready tree.next.1 ∧ tree.Extends tree.next.2 := by
  match tree with
  | ⟨heap, chainEnd, b :: pending⟩ =>
    refine ⟨⟨?_, fun c hc => h.isOpen c ?_⟩, fun c node hnode => hnode⟩
    · exact (List.Perm.swap b chainEnd pending).nodup_iff.mp h.distinct
    · exact (List.Perm.swap b chainEnd pending).mem_iff.mpr hc
  | ⟨heap, chainEnd, []⟩ =>
    have hend : (Tree.mk heap chainEnd []).IsOpen chainEnd := h.isOpen chainEnd List.mem_cons_self
    have hlt : chainEnd < heap.length := hend.lt
    have hnew : ∀ i < 2, ((((Tree.mk heap chainEnd []).allocate 2).2).write chainEnd (.and heap.length)).IsOpen
        (heap.length + i) :=
      fun i hi => write_isOpen (allocate_isOpen hi) (Nat.ne_of_gt (Nat.lt_add_right i hlt)) _
    refine ⟨⟨?_, fun c hc => ?_⟩, (allocate_extends 2).trans (write_extends (allocate_isOpen_of hend 2) _)⟩
    · show [heap.length, heap.length + 1].Nodup
      simp
    · replace hc : c ∈ [heap.length, heap.length + 1] := hc
      have hc' : c = heap.length ∨ c = heap.length + 1 := by simpa using hc
      rcases hc' with rfl | rfl
      · exact hnew 0 (by decide)
      · exact hnew 1 (by decide)

/-- In an empty stack the next key takes the first place of a new link of the chain. -/
theorem next_chain (hpending : tree.pending = []) (hend : tree.IsOpen tree.chainEnd) :
    tree.next.2.pending = [] ∧ tree.next.2.chainEnd = tree.next.1 + 1 ∧ tree.chainEnd < tree.next.1 ∧
      tree.next.2.IsNode tree.chainEnd (.and tree.next.1) := by
  match tree with
  | ⟨heap, chainEnd, []⟩ =>
    exact ⟨rfl, rfl, hend.lt, write_isNode (allocate_isOpen_of hend 2).lt _⟩

theorem next_pending {pending : List ℕ} (hpending : tree.pending = b :: pending) :
    tree.next = (b, { tree with pending }) := by
  rw [next, hpending]

/-! ### Keys -/

theorem Ready.fill (h : tree.Ready a) (restriction : SRestriction) :
    (tree.apply a (.fill restriction)).WellFormed ∧ tree.Extends (tree.apply a (.fill restriction)) ∧
      (tree.apply a (.fill restriction)).Stores a restriction :=
  ⟨h.write _, write_extends (h.isOpen a List.mem_cons_self) _, .leaf (write_isNode h.lt _)⟩

/-- `NOT` opens a node, which becomes the node of the next key. -/
theorem Ready.not (h : tree.Ready a) : (tree.apply a .not).WellFormed ∧ tree.Extends (tree.apply a .not) ∧
      (tree.apply a .not).IsNode a (.not tree.heap.length) ∧
      (tree.apply a .not).pending = tree.heap.length :: tree.pending := by
  have hready := h.allocate 1
  refine ⟨(hready.write _).push ?_ fun c hc => ?_, ?_, write_isNode hready.lt _, rfl⟩
  · exact write_isOpen (allocate_isOpen (i := 0) Nat.zero_lt_one) (Nat.ne_of_gt h.lt) _
  · exact Nat.ne_of_lt (h.isOpen c (List.mem_cons_of_mem _ hc)).lt
  · exact (allocate_extends 1).trans (write_extends (hready.isOpen a List.mem_cons_self) _)

/-- `OR` opens two nodes, the first of which becomes the node of the next key. -/
theorem Ready.or (h : tree.Ready a) : (tree.apply a .or).WellFormed ∧ tree.Extends (tree.apply a .or) ∧
      (tree.apply a .or).IsNode a (.or tree.heap.length) ∧
      (tree.apply a .or).pending = tree.heap.length :: (tree.heap.length + 1) :: tree.pending := by
  have hready := h.allocate 2
  have hlt := h.lt
  have hopen : ∀ i < 2, ((tree.allocate 2).2.write a (.or tree.heap.length)).IsOpen (tree.heap.length + i) :=
    fun i hi => write_isOpen (allocate_isOpen hi) (by omega) _
  have hold : ∀ c ∈ tree.chainEnd :: tree.pending, c < tree.heap.length :=
    fun c hc => (h.isOpen c (List.mem_cons_of_mem _ hc)).lt
  have hsecond := (hready.write (.or tree.heap.length)).push (hopen 1 (by decide)) fun c hc => by
    have hlt' := hold c hc
    omega
  refine ⟨hsecond.push (hopen 0 (by decide)) fun c hc => ?_, ?_, write_isNode hready.lt _, rfl⟩
  · have hc' : c = tree.heap.length + 1 ∨ c ∈ tree.chainEnd :: tree.pending := by
      simp only [List.mem_cons] at hc ⊢
      tauto
    rcases hc' with rfl | hc'
    · omega
    · have hlt' := hold c hc'
      omega
  · exact (allocate_extends 2).trans (write_extends (hready.isOpen a List.mem_cons_self) _)

end Tree

/-! ## Reading keys -/

section Reading

variable {calls : SearchCalls} {lstFolderMailEIDs : List SMail}

theorem readKey_takes {lst : List Str} {strSearchCriterium : Str} {key : SearchKey} {action : KeyAction} {n : ℕ}
    (hne : lst ≠ []) (hread : readKey calls lstFolderMailEIDs lst strSearchCriterium key = .ok (action, n)) :
    n = key.takes := by
  by_cases hreads : key.reads ≤ lst.length
  · by_cases hset : key = .sequenceSet → (HrParseSeqSet lstFolderMailEIDs strSearchCriterium).isOk
    · have hcomplete : ∃ action, readKey calls lstFolderMailEIDs lst strSearchCriterium key = .ok (action, key.takes) ∧
        _ := readKey_complete key hreads hset
      obtain ⟨action', hread', -⟩ := hcomplete
      have heq := Except.ok.inj (hread.symm.trans hread')
      exact (Prod.mk.inj heq).2
    · obtain ⟨rfl, hwrong⟩ := Classical.not_imp.mp hset
      match hparsed : HrParseSeqSet lstFolderMailEIDs strSearchCriterium with
      | .ok lstMails =>
        rw [hparsed] at hwrong
        exact absurd rfl hwrong
      | .error hr =>
        rw [readKey_wrongSet hparsed] at hread
        cases hread
  · rw [readKey_truncated (Nat.lt_of_not_le hreads) hne] at hread
    cases hread

/-- What is behind a key and its arguments is not read with it. -/
theorem readKey_append {token : Str} {arguments : List Str} {key : SearchKey}
    (htakes : key.takes = arguments.length + 1) (strSearchCriterium : Str) (more : List Str) :
    readKey calls lstFolderMailEIDs (token :: (arguments ++ more)) strSearchCriterium key =
      readKey calls lstFolderMailEIDs (token :: arguments) strSearchCriterium key := by
  match arguments with
  | [] =>
    replace htakes : key.takes = 1 := htakes
    cases key <;> first | exact absurd htakes (by decide) | rfl
  | [_] =>
    replace htakes : key.takes = 2 := htakes
    cases key <;> first | exact absurd htakes (by decide) | rfl
  | [_, _] =>
    replace htakes : key.takes = 3 := htakes
    cases key <;> first | exact absurd htakes (by decide) | rfl
  | _ :: _ :: _ :: rest =>
    replace htakes : key.takes = rest.length + 4 := htakes
    have hle : key.takes ≤ 3 := by cases key <;> decide
    omega

/-- A turn of the loop on a key, with what it does. -/
theorem searchLoop_key {tree : Tree} {token : Str} {arguments : List Str} (hgroup : ¬ IsGroup token) {key : SearchKey}
    (hkey : searchKey (ToUpper token) = some key) {action : KeyAction}
    (hread : readKey calls lstFolderMailEIDs (token :: arguments) (ToUpper token) key =
      .ok (action, arguments.length + 1)) (fuel : ℕ) (more : List Str) :
    searchLoop calls lstFolderMailEIDs (fuel + 1) tree (token :: (arguments ++ more)) =
      searchLoop calls lstFolderMailEIDs fuel (tree.next.2.apply tree.next.1 action) more := by
  have htakes := readKey_takes (List.cons_ne_nil _ _) hread
  have hlst : expandGroup (token :: (arguments ++ more)) = token :: (arguments ++ more) := if_neg hgroup
  have hstep : searchStep calls lstFolderMailEIDs tree (token :: (arguments ++ more)) = _ := searchStep_key hlst hkey
  rw [readKey_append htakes.symm, hread] at hstep
  have hdrop : (token :: (arguments ++ more)).drop (arguments.length + 1) = more := by
    rw [List.drop_succ_cons, List.drop_left]
  rw [searchLoop_ok hstep, hdrop]

/-- The search reads a key: its turns leave its restriction behind, at the node that was next, and no other node open
that was not open before. -/
structure ReadsKey (calls : SearchCalls) (lstFolderMailEIDs : List SMail) (lst : List Str) (expr : SearchExpr)
    (tree tree' : Tree) : Prop where
  turns : ∃ n ≤ lst.length, ∀ fuel more, searchLoop calls lstFolderMailEIDs (fuel + n) tree (lst ++ more) =
    searchLoop calls lstFolderMailEIDs fuel tree' more
  wellFormed : tree'.WellFormed
  keeps : tree.next.2.Extends tree'
  pending : tree'.pending = tree.next.2.pending
  chainEnd : tree'.chainEnd = tree.next.2.chainEnd
  stores : ∃ restriction, tree'.Stores tree.next.1 restriction ∧ ∀ atom, holds atom restriction = expr.eval atom

theorem IsKey.readsKey {lst : List Str} {expr : SearchExpr} (h : IsKey calls lstFolderMailEIDs lst expr) (tree : Tree)
    (hwf : tree.WellFormed) : ∃ tree', ReadsKey calls lstFolderMailEIDs lst expr tree tree' := by
  induction h generalizing tree with
  | key token arguments hgroup key hkey restriction hread =>
    have hready := hwf.next.1
    obtain ⟨hwf', hextends, hstores⟩ := hready.fill restriction
    refine ⟨_, ⟨1, by simp, fun fuel more => searchLoop_key hgroup hkey hread fuel more⟩, hwf', hextends, rfl, rfl,
      restriction, hstores, fun atom => rfl⟩
  | not token hgroup hkey lst expr h ih =>
    have hready := hwf.next.1
    obtain ⟨hwf₁, hextends₁, hnode, hpending⟩ := hready.not
    obtain ⟨tree', hkey'⟩ := ih _ hwf₁
    obtain ⟨n, hn, hturns⟩ := hkey'.turns
    obtain ⟨restriction, hstores, hmeaning⟩ := hkey'.stores
    have hnext := Tree.next_pending hpending
    have hkeeps := hkey'.keeps
    rw [hnext] at hstores hkeeps
    refine ⟨tree', ⟨n + 1, by simpa using hn, fun fuel more => ?_⟩, hkey'.wellFormed, hextends₁.trans hkeeps, ?_, ?_,
      .RES_NOT restriction, ?_, fun atom => ?_⟩
    · have hread : readKey calls lstFolderMailEIDs [token] (ToUpper token) .NOT =
        .ok (.not, ([] : List Str).length + 1) := rfl
      exact (searchLoop_key hgroup hkey hread (fuel + n) (lst ++ more)).trans (hturns fuel more)
    · rw [hkey'.pending, hnext]
    · rw [hkey'.chainEnd, hnext]
      rfl
    · exact .not (hkeeps _ _ hnode) hready.lt hstores
    · rw [holds, hmeaning, SearchExpr.eval]
  | or token hgroup hkey lst lst' expr expr' h h' ih ih' =>
    have hready := hwf.next.1
    obtain ⟨hwf₁, hextends₁, hnode, hpending⟩ := hready.or
    -- the first operand
    obtain ⟨tree₂, hkey₂⟩ := ih _ hwf₁
    obtain ⟨n, hn, hturns⟩ := hkey₂.turns
    obtain ⟨left, hleft, hmeaningLeft⟩ := hkey₂.stores
    have hnext₁ := Tree.next_pending hpending
    have hkeeps₂ := hkey₂.keeps
    rw [hnext₁] at hleft hkeeps₂
    -- the second one
    have hpending₂ : tree₂.pending = (tree.next.2.heap.length + 1) :: tree.next.2.pending := by
      rw [hkey₂.pending, hnext₁]
    obtain ⟨tree', hkey'⟩ := ih' _ hkey₂.wellFormed
    obtain ⟨n', hn', hturns'⟩ := hkey'.turns
    obtain ⟨right, hright, hmeaningRight⟩ := hkey'.stores
    have hnext₂ := Tree.next_pending hpending₂
    have hkeeps' := hkey'.keeps
    rw [hnext₂] at hright hkeeps'
    refine ⟨tree', ⟨n' + n + 1, ?_, fun fuel more => ?_⟩, hkey'.wellFormed,
      (hextends₁.trans hkeeps₂).trans hkeeps', ?_, ?_, .RES_OR [left, right], ?_, fun atom => ?_⟩
    · simp only [List.length_cons, List.length_append]
      omega
    · have hread : readKey calls lstFolderMailEIDs [token] (ToUpper token) .OR =
        .ok (.or, ([] : List Str).length + 1) := rfl
      have hfirst := hturns (fuel + n') (lst' ++ more)
      have hsecond := hturns' fuel more
      rw [List.cons_append, List.append_assoc, ← Nat.add_assoc, ← Nat.add_assoc]
      exact (searchLoop_key hgroup hkey hread (fuel + n' + n) (lst ++ (lst' ++ more))).trans (hfirst.trans hsecond)
    · rw [hkey'.pending, hnext₂]
    · rw [hkey'.chainEnd, hnext₂]
      show tree₂.chainEnd = _
      rw [hkey₂.chainEnd, hnext₁]
      rfl
    · exact .or (hkeeps' _ _ (hkeeps₂ _ _ hnode)) hready.lt (hleft.extends hkeeps') hright
    · rw [holds, holdsAny, holdsAny, holdsAny, Bool.or_false, hmeaningLeft, hmeaningRight, SearchExpr.eval]

/-- The search reads keys side by side. What the end of the chain stores after all of them, once it is closed, is what
they say together. -/
theorem AreKeys.readsKeys {lst : List Str} {exprs : List SearchExpr} (h : AreKeys calls lstFolderMailEIDs lst exprs)
    (tree : Tree) (hwf : tree.WellFormed) (hpending : tree.pending = []) :
    ∃ tree' restriction, (∃ n ≤ lst.length, ∀ fuel,
        searchLoop calls lstFolderMailEIDs (fuel + n) tree lst = some (.ok (tree', []))) ∧
      tree'.pending = [] ∧ tree.Extends tree'.close ∧ tree'.close.Stores tree.chainEnd restriction ∧
      ∀ atom, atom everyMessage = true → holds atom restriction = exprs.all (·.eval atom) := by
  induction h generalizing tree with
  | nil =>
    have hend := hwf.isOpen tree.chainEnd List.mem_cons_self
    have hclose : tree.close = tree.write tree.chainEnd (.leaf everyMessage) := by
      rw [Tree.close, hpending]
      rfl
    refine ⟨tree, everyMessage, ⟨0, le_rfl, fun fuel => ?_⟩, hpending, ?_, ?_, fun atom hevery => ?_⟩
    · rw [searchLoop]
    · exact hclose ▸ Tree.write_extends hend _
    · exact hclose ▸ .leaf (Tree.write_isNode hend.lt _)
    · rw [List.all_nil, ← hevery]
      rfl
  | cons lst lst' expr exprs h h' ih =>
    have hend := hwf.isOpen tree.chainEnd List.mem_cons_self
    obtain ⟨hnextPending, hnextEnd, hbehind, hnode⟩ := Tree.next_chain hpending hend
    obtain ⟨tree₁, hkey⟩ := h.readsKey tree hwf
    obtain ⟨n, hn, hturns⟩ := hkey.turns
    obtain ⟨left, hleft, hmeaningLeft⟩ := hkey.stores
    obtain ⟨tree', right, ⟨n', hn', hturns'⟩, hpending', hextends, hright, hmeaningRight⟩ :=
      ih tree₁ hkey.wellFormed (hkey.pending.trans hnextPending)
    rw [hkey.chainEnd, hnextEnd] at hright
    refine ⟨tree', .RES_AND [left, right], ⟨n' + n, ?_, fun fuel => ?_⟩, hpending',
      (hwf.next.2.trans hkey.keeps).trans hextends, ?_, fun atom hevery => ?_⟩
    · rw [List.length_append]
      omega
    · have hfirst := hturns (fuel + n') lst'
      rw [← Nat.add_assoc, hfirst, hturns' fuel]
    · exact .and (hextends _ _ (hkey.keeps _ _ hnode)) hbehind (hleft.extends hextends) hright
    · rw [holds, holdsAll, holdsAll, holdsAll, Bool.and_true, hmeaningLeft, hmeaningRight atom hevery, List.all_cons]

theorem length_le_weight (lst : List Str) : lst.length ≤ weight lst := by
  induction lst with
  | nil => rfl
  | cons token rest ih =>
    rw [weight_cons, List.length_cons]
    omega

theorem length_heap_close (tree : Tree) (hpending : tree.pending = []) :
    tree.close.heap.length = tree.heap.length := by
  rw [Tree.close, hpending]
  exact List.length_set

theorem root_wellFormed : Tree.root.WellFormed where
  distinct := List.nodup_singleton 0
  isOpen a ha := by
    obtain rfl := List.mem_singleton.mp ha
    rfl

/-- The search takes all criteria of keys in prefix form, and the restriction that it builds holds of a message, of which
every one is in the table, if and only if all keys do. -/
theorem search_translates {lst : List Str} {exprs : List SearchExpr} (h : AreKeys calls lstFolderMailEIDs lst exprs) :
    ∃ tree lpRootRestrict, searchLoop calls lstFolderMailEIDs (weight lst) .root lst = some (.ok (tree, [])) ∧
      buildRestriction calls lstFolderMailEIDs lst =
        some (.ok (.RES_AND [.RES_EXIST PR_INSTANCE_KEY, lpRootRestrict])) ∧
      ∀ atom, atom everyMessage = true → holds atom lpRootRestrict = exprs.all (·.eval atom) := by
  obtain ⟨tree, restriction, ⟨n, hn, hturns⟩, hpending, -, hstores, hmeaning⟩ :=
    h.readsKeys .root root_wellFormed rfl
  have hweight := length_le_weight lst
  have hloop := hturns (weight lst - n)
  rw [Nat.sub_add_cancel (by omega)] at hloop
  have hrestriction : tree.close.restriction tree.heap.length 0 = some restriction :=
    hstores.restriction_eq (by rw [length_heap_close tree hpending]; exact Nat.sub_le _ _)
  refine ⟨tree, restriction, hloop, ?_, hmeaning⟩
  rw [buildRestriction, hloop]
  simp only [hrestriction]

end Reading

/-- `OR SEEN NOT FROM bob DELETED`: messages that have been read or are not from Bob, and that are marked as deleted. -/
theorem search_translates_mixed : ∃ lpRootRestrict, buildRestriction plainCalls threeMails
        [ascii "OR", ascii "SEEN", ascii "NOT", ascii "FROM", ascii "bob", ascii "DELETED"] =
          some (.ok (.RES_AND [.RES_EXIST PR_INSTANCE_KEY, lpRootRestrict])) ∧
      ∀ atom, atom everyMessage = true → holds atom lpRootRestrict =
        ((holds atom (flagSet PR_MESSAGE_FLAGS 1) || !holds atom (.RES_OR [
          contentCondition 0x10001 PR_SENT_REPRESENTING_NAME PR_SENT_REPRESENTING_NAME_A (ascii "bob"),
          contentCondition 0x10001 PR_SENT_REPRESENTING_EMAIL_ADDRESS PR_SENT_REPRESENTING_NAME_A (ascii "bob")])) &&
          holds atom (flagSet PR_MSG_STATUS 8)) := by
  have hseen : IsKey plainCalls threeMails [ascii "SEEN"] _ := .key (ascii "SEEN") [] (by decide) .SEEN rfl _ rfl
  have hfrom : IsKey plainCalls threeMails [ascii "FROM", ascii "bob"] _ :=
    .key (ascii "FROM") [ascii "bob"] (by decide) .FROM rfl _ rfl
  have hdeleted : IsKey plainCalls threeMails [ascii "DELETED"] _ := .key (ascii "DELETED") [] (by decide) .DELETED rfl _ rfl
  have hnot := IsKey.not (ascii "NOT") (by decide) rfl _ _ hfrom
  have hor := IsKey.or (ascii "OR") (by decide) rfl _ _ _ _ hseen hnot
  obtain ⟨tree, lpRootRestrict, -, hbuild, hmeaning⟩ :=
    search_translates (.cons _ _ _ _ hor (.cons _ _ _ _ hdeleted .nil))
  refine ⟨lpRootRestrict, hbuild, fun atom hevery => ?_⟩
  rw [hmeaning atom hevery, List.all_cons, List.all_cons, List.all_nil, Bool.and_true]
  rfl

end Zcp.Gateway
