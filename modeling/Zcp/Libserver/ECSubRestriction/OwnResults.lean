import Mathlib.Tactic.Common
import Mathlib.Data.List.Forall2
import Zcp.Libserver.ECSubRestriction

/-!
# The results of a subrestriction

The results are linked to the subrestrictions of a tree by their place in a list. The evaluation always looks at the first
place: it is right exactly where it reaches no other subrestriction than the first one.
-/

namespace Zcp.Libserver.ECSubRestriction

open Zcp.Common

section Numbering

variable {L S : Type}

mutual

/-- The subrestrictions in the order of their numbers. -/
def subs : RestrictTable L S → List S
  | .RES_AND lpAnd => allSubs lpAnd
  | .RES_OR lpOr => allSubs lpOr
  | .RES_NOT lpNot => subs lpNot
  | .RES_COMMENT _ => []
  | .RES_SUBRESTRICTION lpSub => [lpSub]
  | .other _ => []

def allSubs : List (RestrictTable L S) → List S
  | [] => []
  | lpRes :: rest => subs lpRes ++ allSubs rest

end

mutual

/-- Every subrestriction with its number, from `n` on; those in a comment have none. -/
def number (counted : Bool) : RestrictTable L S → ℕ → RestrictTable L (Option ℕ × S)
  | .RES_AND lpAnd, n => .RES_AND (numberAll counted lpAnd n)
  | .RES_OR lpOr, n => .RES_OR (numberAll counted lpOr n)
  | .RES_NOT lpNot, n => .RES_NOT (number counted lpNot n)
  | .RES_COMMENT lpResTable, n => .RES_COMMENT (number false lpResTable n)
  | .RES_SUBRESTRICTION lpSub, n => .RES_SUBRESTRICTION (if counted then some n else none, lpSub)
  | .other lpRes, _ => .other lpRes

def numberAll (counted : Bool) : List (RestrictTable L S) → ℕ → List (RestrictTable L (Option ℕ × S))
  | [], _ => []
  | lpRes :: rest, n => number counted lpRes n :: numberAll counted rest (n + (subs lpRes).length)

end

mutual

/-- All subrestrictions of a tree, those in comments too. -/
def nodes : RestrictTable L S → List S
  | .RES_AND lpAnd => allNodes lpAnd
  | .RES_OR lpOr => allNodes lpOr
  | .RES_NOT lpNot => nodes lpNot
  | .RES_COMMENT lpResTable => nodes lpResTable
  | .RES_SUBRESTRICTION lpSub => [lpSub]
  | .other _ => []

def allNodes : List (RestrictTable L S) → List S
  | [] => []
  | lpRes :: rest => nodes lpRes ++ allNodes rest

end

mutual

theorem nodes_number_false (t : RestrictTable L S) (n : ℕ) : ∀ p ∈ nodes (number false t n), p.1 = none := by
  match t with
  | .RES_AND lpAnd =>
    rw [number, nodes]
    exact allNodes_numberAll_false lpAnd n
  | .RES_OR lpOr =>
    rw [number, nodes]
    exact allNodes_numberAll_false lpOr n
  | .RES_NOT lpNot =>
    rw [number, nodes]
    exact nodes_number_false lpNot n
  | .RES_COMMENT lpResTable =>
    rw [number, nodes]
    exact nodes_number_false lpResTable n
  | .RES_SUBRESTRICTION lpSub =>
    rw [number, nodes]
    simp
  | .other lpRes =>
    rw [number, nodes]
    simp

theorem allNodes_numberAll_false (l : List (RestrictTable L S)) (n : ℕ) :
    ∀ p ∈ allNodes (numberAll false l n), p.1 = none := by
  match l with
  | [] =>
    rw [numberAll, allNodes]
    simp
  | t :: rest =>
    rw [numberAll, allNodes, List.forall_mem_append]
    exact ⟨nodes_number_false t n, allNodes_numberAll_false rest _⟩

end

mutual

/-- A subrestriction with a number is found under it. -/
theorem nodes_number (t : RestrictTable L S) (n : ℕ) :
    ∀ p ∈ nodes (number true t n), ∀ k, p.1 = some k → n ≤ k ∧ (subs t)[k - n]? = some p.2 := by
  match t with
  | .RES_AND lpAnd =>
    rw [number, nodes, subs]
    exact allNodes_numberAll lpAnd n
  | .RES_OR lpOr =>
    rw [number, nodes, subs]
    exact allNodes_numberAll lpOr n
  | .RES_NOT lpNot =>
    rw [number, nodes, subs]
    exact nodes_number lpNot n
  | .RES_COMMENT lpResTable =>
    rw [number, nodes]
    intro p hp k hk
    rw [nodes_number_false lpResTable n p hp] at hk
    cases hk
  | .RES_SUBRESTRICTION lpSub =>
    rw [number, nodes, subs]
    intro p hp k hk
    obtain rfl := List.mem_singleton.mp hp
    obtain rfl := Option.some.inj hk
    exact ⟨le_rfl, by simp⟩
  | .other lpRes =>
    rw [number, nodes]
    simp

theorem allNodes_numberAll (l : List (RestrictTable L S)) (n : ℕ) :
    ∀ p ∈ allNodes (numberAll true l n), ∀ k, p.1 = some k → n ≤ k ∧ (allSubs l)[k - n]? = some p.2 := by
  match l with
  | [] =>
    rw [numberAll, allNodes]
    simp
  | t :: rest =>
    rw [numberAll, allNodes, allSubs, List.forall_mem_append]
    refine ⟨fun p hp k hk => ?_, fun p hp k hk => ?_⟩
    · obtain ⟨hle, hget⟩ := nodes_number t n p hp k hk
      exact ⟨hle, List.getElem?_append_left (List.getElem?_eq_some_iff.mp hget).1 ▸ hget⟩
    · -- the numbers go on behind those of the first restriction
      obtain ⟨hle, hget⟩ := allNodes_numberAll rest (n + (subs t).length) p hp k hk
      refine ⟨by omega, ?_⟩
      rw [List.getElem?_append_right (by omega), show k - n - (subs t).length = k - (n + (subs t).length) by omega]
      exact hget

end

end Numbering

section Evaluation

variable {L S : Type} (leaf : L → Except Failure Bool) (sub : S → Except Failure Bool)

mutual

/-- The subrestrictions that an evaluation comes to, with the short circuits of `RES_AND` and `RES_OR`. -/
def reached : RestrictTable L S → List S
  | .RES_COMMENT lpResTable => reached lpResTable
  | .RES_OR lpOr => reachedOr lpOr
  | .RES_AND lpAnd => reachedAnd lpAnd
  | .RES_NOT lpNot => reached lpNot
  | .RES_SUBRESTRICTION lpSub => [lpSub]
  | .other _ => []

def reachedAnd : List (RestrictTable L S) → List S
  | [] => []
  | lpRes :: rest => reached lpRes ++ if matchTree leaf sub lpRes = .ok true then reachedAnd rest else []

def reachedOr : List (RestrictTable L S) → List S
  | [] => []
  | lpRes :: rest => reached lpRes ++ if matchTree leaf sub lpRes = .ok false then reachedOr rest else []

end

variable {leaf sub}

mutual

theorem reached_subset_nodes (t : RestrictTable L S) : reached leaf sub t ⊆ nodes t := by
  match t with
  | .RES_COMMENT lpResTable =>
    rw [reached, nodes]
    exact reached_subset_nodes lpResTable
  | .RES_OR lpOr =>
    rw [reached, nodes]
    exact reachedOr_subset_nodes lpOr
  | .RES_AND lpAnd =>
    rw [reached, nodes]
    exact reachedAnd_subset_nodes lpAnd
  | .RES_NOT lpNot =>
    rw [reached, nodes]
    exact reached_subset_nodes lpNot
  | .RES_SUBRESTRICTION lpSub =>
    rw [reached, nodes]
    exact List.Subset.refl _
  | .other lpRes =>
    rw [reached, nodes]
    exact List.Subset.refl _

theorem reachedAnd_subset_nodes (l : List (RestrictTable L S)) : reachedAnd leaf sub l ⊆ allNodes l := by
  match l with
  | [] =>
    rw [reachedAnd, allNodes]
    exact List.Subset.refl _
  | t :: rest =>
    rw [reachedAnd, allNodes, List.append_subset]
    refine ⟨List.subset_append_of_subset_left _ (reached_subset_nodes t), List.subset_append_of_subset_right _ ?_⟩
    split_ifs
    · exact reachedAnd_subset_nodes rest
    · exact List.nil_subset _

theorem reachedOr_subset_nodes (l : List (RestrictTable L S)) : reachedOr leaf sub l ⊆ allNodes l := by
  match l with
  | [] =>
    rw [reachedOr, allNodes]
    exact List.Subset.refl _
  | t :: rest =>
    rw [reachedOr, allNodes, List.append_subset]
    refine ⟨List.subset_append_of_subset_left _ (reached_subset_nodes t), List.subset_append_of_subset_right _ ?_⟩
    split_ifs
    · exact reachedOr_subset_nodes rest
    · exact List.nil_subset _

end

variable {v w : S → Except Failure Bool}

mutual

/-- What an evaluation gives, and what it comes to, depends on the subrestrictions it comes to. -/
theorem matchTree_congr (t : RestrictTable L S) (h : ∀ a ∈ reached leaf v t, v a = w a) :
    matchTree leaf w t = matchTree leaf v t ∧ reached leaf w t = reached leaf v t := by
  match t with
  | .RES_COMMENT lpResTable =>
    simp only [reached, matchTree] at h ⊢
    exact matchTree_congr lpResTable h
  | .RES_OR lpOr =>
    simp only [reached, matchTree] at h ⊢
    exact matchOr_congr lpOr h
  | .RES_AND lpAnd =>
    simp only [reached, matchTree] at h ⊢
    exact matchAnd_congr lpAnd h
  | .RES_NOT lpNot =>
    simp only [reached, matchTree] at h ⊢
    obtain ⟨hmatch, hreached⟩ := matchTree_congr lpNot h
    exact ⟨by rw [hmatch], hreached⟩
  | .RES_SUBRESTRICTION lpSub =>
    simp only [reached, matchTree] at h ⊢
    exact ⟨(h lpSub (List.mem_singleton_self _)).symm, trivial⟩
  | .other lpRes =>
    simp only [reached, matchTree]
    exact ⟨trivial, trivial⟩

theorem matchAnd_congr (l : List (RestrictTable L S)) (h : ∀ a ∈ reachedAnd leaf v l, v a = w a) :
    matchAnd leaf w l = matchAnd leaf v l ∧ reachedAnd leaf w l = reachedAnd leaf v l := by
  match l with
  | [] =>
    simp only [reachedAnd, matchAnd]
    exact ⟨trivial, trivial⟩
  | t :: rest =>
    simp only [reachedAnd, matchAnd, List.forall_mem_append] at h ⊢
    obtain ⟨hmatch, hreached⟩ := matchTree_congr t h.1
    rw [hmatch, hreached]
    -- the loop goes on only after a match
    by_cases htrue : matchTree leaf v t = .ok true
    · rw [htrue, if_pos rfl] at h ⊢
      obtain ⟨hmatch, hreached⟩ := matchAnd_congr rest h.2
      exact ⟨hmatch, by rw [if_pos rfl, hreached]⟩
    · rw [if_neg htrue, if_neg htrue]
      refine ⟨?_, rfl⟩
      match hresult : matchTree leaf v t with
      | .error er => rfl
      | .ok false => rfl
      | .ok true => exact absurd hresult htrue

theorem matchOr_congr (l : List (RestrictTable L S)) (h : ∀ a ∈ reachedOr leaf v l, v a = w a) :
    matchOr leaf w l = matchOr leaf v l ∧ reachedOr leaf w l = reachedOr leaf v l := by
  match l with
  | [] =>
    simp only [reachedOr, matchOr]
    exact ⟨trivial, trivial⟩
  | t :: rest =>
    simp only [reachedOr, matchOr, List.forall_mem_append] at h ⊢
    obtain ⟨hmatch, hreached⟩ := matchTree_congr t h.1
    rw [hmatch, hreached]
    by_cases hfalse : matchTree leaf v t = .ok false
    · rw [hfalse, if_pos rfl] at h ⊢
      obtain ⟨hmatch, hreached⟩ := matchOr_congr rest h.2
      exact ⟨hmatch, by rw [if_pos rfl, hreached]⟩
    · rw [if_neg hfalse, if_neg hfalse]
      refine ⟨?_, rfl⟩
      match hresult : matchTree leaf v t with
      | .error er => rfl
      | .ok true => rfl
      | .ok false => exact absurd hresult hfalse

end

mutual

/-- The numbers have no part in the evaluation. -/
theorem matchTree_number (counted : Bool) (t : RestrictTable L S) (n : ℕ) :
    matchTree leaf (fun p => sub p.2) (number counted t n) = matchTree leaf sub t := by
  match t with
  | .RES_COMMENT lpResTable =>
    rw [number, matchTree, matchTree, matchTree_number false lpResTable n]
  | .RES_OR lpOr => rw [number, matchTree, matchTree, matchOr_number counted lpOr n]
  | .RES_AND lpAnd => rw [number, matchTree, matchTree, matchAnd_number counted lpAnd n]
  | .RES_NOT lpNot => rw [number, matchTree, matchTree, matchTree_number counted lpNot n]
  | .RES_SUBRESTRICTION lpSub => rw [number, matchTree, matchTree]
  | .other lpRes => rw [number, matchTree, matchTree]

theorem matchAnd_number (counted : Bool) (l : List (RestrictTable L S)) (n : ℕ) :
    matchAnd leaf (fun p => sub p.2) (numberAll counted l n) = matchAnd leaf sub l := by
  match l with
  | [] => rw [numberAll, matchAnd, matchAnd]
  | t :: rest => rw [numberAll, matchAnd, matchAnd, matchTree_number counted t n, matchAnd_number counted rest _]

theorem matchOr_number (counted : Bool) (l : List (RestrictTable L S)) (n : ℕ) :
    matchOr leaf (fun p => sub p.2) (numberAll counted l n) = matchOr leaf sub l := by
  match l with
  | [] => rw [numberAll, matchOr, matchOr]
  | t :: rest => rw [numberAll, matchOr, matchOr, matchTree_number counted t n, matchOr_number counted rest _]

end

end Evaluation

section Running

variable {L S : Type}

/-- What `GetSubRestrictionRecursive` does at a subrestriction. -/
def countSub (ulSubRestriction : Option ℕ) (st : ℕ × Option S) (lpSub : S) : ℕ × Option S :=
  (st.1 + 1, if ulSubRestriction = some st.1 then some lpSub else st.2)

mutual

/-- A tree that is not too deep is counted through. -/
theorem getSubRestrictionRecursive_eq (look : Option ℕ) (t : RestrictTable L S) (maxdepth : ℕ) (st st' : ℕ × Option S)
    (h : GetSubRestrictionRecursive look t maxdepth st = .ok st') : st' = (subs t).foldl (countSub look) st := by
  match maxdepth, t with
  | 0, t => 
    rw [GetSubRestrictionRecursive] at h
    cases h
  | maxdepth + 1, .RES_AND lpAnd =>
    rw [GetSubRestrictionRecursive] at h
    rw [subs]
    exact getSubRestrictionAll_eq look lpAnd maxdepth st st' h
  | maxdepth + 1, .RES_OR lpOr =>
    rw [GetSubRestrictionRecursive] at h
    rw [subs]
    exact getSubRestrictionAll_eq look lpOr maxdepth st st' h
  | maxdepth + 1, .RES_NOT lpNot =>
    rw [GetSubRestrictionRecursive] at h
    rw [subs]
    exact getSubRestrictionRecursive_eq look lpNot maxdepth st st' h
  | maxdepth + 1, .RES_COMMENT lpResTable =>
    rw [GetSubRestrictionRecursive] at h
    rw [subs]
    exact (Except.ok.inj h).symm
  | maxdepth + 1, .other lpRes =>
    rw [GetSubRestrictionRecursive] at h
    rw [subs]
    exact (Except.ok.inj h).symm
  | maxdepth + 1, .RES_SUBRESTRICTION lpSub =>
    rw [GetSubRestrictionRecursive] at h
    rw [subs]
    exact (Except.ok.inj h).symm

theorem getSubRestrictionAll_eq (look : Option ℕ) (l : List (RestrictTable L S)) (maxdepth : ℕ) (st st' : ℕ × Option S)
    (h : GetSubRestrictionAll look l maxdepth st = .ok st') : st' = (allSubs l).foldl (countSub look) st := by
  match l with
  | [] =>
    rw [GetSubRestrictionAll] at h
    rw [allSubs]
    exact (Except.ok.inj h).symm
  | t :: rest =>
    rw [GetSubRestrictionAll] at h
    cases hfirst : GetSubRestrictionRecursive look t maxdepth st with
    | error er =>
      rw [hfirst] at h
      cases h
    | ok st₁ =>
      rw [hfirst] at h
      rw [allSubs, List.foldl_append, ← getSubRestrictionRecursive_eq look t maxdepth st st₁ hfirst]
      exact getSubRestrictionAll_eq look rest maxdepth st₁ st' h

end

/-- Counting through a list of subrestrictions. -/
theorem foldl_countSub (look : Option ℕ) (l : List S) : ∀ c old,
    l.foldl (countSub look) (c, old) =
      (c + l.length, match look with
        | none => old
        | some k => if c ≤ k ∧ k < c + l.length then l[k - c]? else old) := by
  induction l with
  | nil =>
    intro c old
    cases look with
    | none => rfl
    | some k =>
      have hk : ¬ (c ≤ k ∧ k < c + ([] : List S).length) := by simp
      simp only [hk, if_false]
      rfl
  | cons a l ih =>
    intro c old
    rw [List.foldl_cons, countSub, ih]
    refine Prod.ext (by simp only [List.length_cons]; omega) ?_
    cases look with
    | none => simp
    | some k =>
      simp only [Option.some.injEq, List.length_cons]
      by_cases hk : k = c
      · subst hk
        simp
      · rw [if_neg hk]
        by_cases hin : c + 1 ≤ k ∧ k < c + 1 + l.length
        · rw [if_pos hin, if_pos (by omega), show k - c = (k - (c + 1)) + 1 by omega, List.getElem?_cons_succ]
        · rw [if_neg hin, if_neg (by omega)]

/-- The results stand in the order of the subrestrictions. -/
theorem runLoop_forall₂ {run : S → Except Failure (List ℕ)} {t : RestrictTable L S} (n : ℕ) :
    ∀ {i old results}, runLoop run t i old n = .ok results → i + n ≤ (subs t).length →
      List.Forall₂ (fun lpSub lpResult => run lpSub = .ok lpResult) (((subs t).drop i).take n) results := by
  induction n with
  | zero =>
    intro i old results h _
    rw [runLoop] at h
    obtain rfl := Except.ok.inj h
    rw [List.take_zero]
    exact .nil
  | succ n ih =>
    intro i old results h hle
    rw [runLoop] at h
    cases hget : GetSubRestriction t i old with
    | error er =>
      rw [hget] at h
      cases h
    | ok found =>
      have hfound : found = (subs t)[i]? := by
        rw [GetSubRestriction] at hget
        cases hrec : GetSubRestrictionRecursive (some i) t SUBRESTRICTION_MAXDEPTH (0, old) with
        | error er =>
          rw [hrec] at hget
          cases hget
        | ok st =>
          rw [hrec] at hget
          rw [getSubRestrictionRecursive_eq _ _ _ _ _ hrec, foldl_countSub] at hget
          have hlt : i < (subs t).length := by omega
          simpa [Except.map, hlt] using hget.symm
      have hlt : i < (subs t).length := by omega
      rw [List.getElem?_eq_getElem hlt] at hfound
      rw [hget, hfound] at h
      simp only at h
      cases hrun : run (subs t)[i] with
      | error er =>
        rw [hrun] at h
        cases h
      | ok lpResult =>
        rw [hrun] at h
        simp only at h
        cases hrest : runLoop run t (i + 1) (some (subs t)[i]) n with
        | error er =>
          rw [hrest] at h
          cases h
        | ok rest =>
          rw [hrest] at h
          obtain rfl := Except.ok.inj h
          rw [List.drop_eq_getElem_cons hlt, List.take_succ_cons]
          exact .cons hrun (ih hrest (by omega))

theorem runSubRestrictions_forall₂ {run : S → Except Failure (List ℕ)} {t : RestrictTable L S} {results : List (List ℕ)}
    (h : RunSubRestrictions run t = .ok results) :
    List.Forall₂ (fun lpSub lpResult => run lpSub = .ok lpResult) (subs t) results := by
  rw [RunSubRestrictions] at h
  cases hcount : GetSubRestrictionCount t with
  | error er =>
    rw [hcount] at h
    cases h
  | ok ulCount =>
    have hlen : ulCount = (subs t).length := by
      rw [GetSubRestrictionCount] at hcount
      cases hrec : GetSubRestrictionRecursive (S := S) none t SUBRESTRICTION_MAXDEPTH (0, none) with
      | error er =>
        rw [hrec] at hcount
        cases hcount
      | ok st =>
        rw [hrec] at hcount
        rw [getSubRestrictionRecursive_eq _ _ _ _ _ hrec, foldl_countSub] at hcount
        simpa [Except.map] using hcount.symm
    rw [hcount] at h
    have hall := runLoop_forall₂ _ h (by omega)
    rwa [List.drop_zero, hlen, List.take_length] at hall

end Running

/-! ## Rows -/

section Rows

variable {T : Type} (data : SearchData T) (row : List (Property T))

/-- The object of the row is known. -/
def ObjectFound : Prop := ∃ sEntryId, entryIdOf row = some sEntryId ∧ (data.GetObjectFromEntryId sEntryId).isSome = true

/-- A subrestriction by itself: whether the object of the row is in its results. -/
def ownMatch (lpSub : RestrictSub T) : Except Failure Bool :=
  match entryIdOf row with
  | none => .error .ZARAFA_E_INVALID_TYPE
  | some sEntryId =>
    match data.GetObjectFromEntryId sEntryId with
    | none => .ok false
    | some ulResId => (RunSubRestriction data lpSub).map fun lpResult => ulResId ∈ lpResult

/-- The evaluation of a tree finds the results of each subrestriction that it comes to, those at 0, under the number of
that subrestriction, and gives what the evaluation with each subrestriction by itself gives. -/
structure EvaluatesOwn (tree : RestrictTable (Leaf T) (RestrictSub T)) (results : List (List ℕ)) : Prop where
  own : ObjectFound data row → ∀ p ∈ reached (leafMatch data.strings row)
    (fun _ => subMatch data.GetObjectFromEntryId row (some results) 0) (number true tree 0), p.1 = some 0
  value : MatchRowRestrict data.strings data.GetObjectFromEntryId row (some results) tree =
    matchTree (leafMatch data.strings row) (ownMatch data row) tree

/-- With each subrestriction by itself, the evaluation comes to no other one than the first outside of comments. -/
def OnlyFirstReached (tree : RestrictTable (Leaf T) (RestrictSub T)) : Prop :=
  ∀ p ∈ reached (leafMatch data.strings row) (fun p => ownMatch data row p.2) (number true tree 0), p.1 = some 0

variable {data row}

theorem subMatch_eq_ownMatch_of_not_found (h : ¬ ObjectFound data row) (results : List (List ℕ)) (lpSub : RestrictSub T) :
    subMatch data.GetObjectFromEntryId row (some results) 0 = ownMatch data row lpSub := by
  rw [subMatch, ownMatch]
  cases hentry : entryIdOf row with
  | none => rfl
  | some sEntryId =>
    have hnone : data.GetObjectFromEntryId sEntryId = none := by
      by_contra hsome
      exact h ⟨sEntryId, hentry, Option.isSome_iff_ne_none.mpr hsome⟩
    simp only [hnone]
    cases results[0]? <;> rfl

/-- The results at 0 are those of the first subrestriction. -/
theorem subMatch_eq_ownMatch {lpSub : RestrictSub T} {results : List (List ℕ)} {lpResult : List ℕ}
    (hresults : results[0]? = some lpResult) (hrun : RunSubRestriction data lpSub = .ok lpResult) :
    subMatch data.GetObjectFromEntryId row (some results) 0 = ownMatch data row lpSub := by
  rw [subMatch, ownMatch, hrun]
  cases entryIdOf row with
  | none => rfl
  | some sEntryId =>
    simp only [hresults]
    cases data.GetObjectFromEntryId sEntryId <;> rfl

theorem subMatch_eq_of_first {tree : RestrictTable (Leaf T) (RestrictSub T)} {results : List (List ℕ)}
    (hrun : RunSubRestrictions (RunSubRestriction data) tree = .ok results) {p : Option ℕ × RestrictSub T}
    (hp : p ∈ nodes (number true tree 0)) (hfirst : p.1 = some 0) :
    subMatch data.GetObjectFromEntryId row (some results) 0 = ownMatch data row p.2 := by
  have hsub := (nodes_number tree 0 p hp 0 hfirst).2
  have hall := runSubRestrictions_forall₂ hrun
  obtain ⟨hlt, hget⟩ := List.getElem?_eq_some_iff.mp hsub
  have hlt' : 0 < results.length := hall.length_eq ▸ hlt
  have hresult := List.Forall₂.get hall hlt hlt'
  rw [List.get_eq_getElem, List.get_eq_getElem] at hresult
  exact subMatch_eq_ownMatch (List.getElem?_eq_getElem hlt') (hget ▸ hresult)

end Rows

/-- The tree is evaluated with the results of each subrestriction exactly if only the first one is reached, or the object of
the row is not known. -/
theorem evaluatesOwn_iff {T : Type} (data : SearchData T) (row : List (Property T))
    (tree : RestrictTable (Leaf T) (RestrictSub T)) (results : List (List ℕ))
    (hrun : RunSubRestrictions (RunSubRestriction data) tree = .ok results) :
    EvaluatesOwn data row tree results ↔ (ObjectFound data row → OnlyFirstReached data row tree) := by
  constructor
  · intro h hfound
    have hown := h.own hfound
    have hcongr := matchTree_congr (w := fun p => ownMatch data row p.2) (number true tree 0) fun p hp =>
      subMatch_eq_of_first hrun (reached_subset_nodes _ hp) (hown p hp)
    rw [OnlyFirstReached, hcongr.2]
    exact hown
  · intro h
    have hagree : ∀ p ∈ reached (leafMatch data.strings row) (fun p => ownMatch data row p.2) (number true tree 0),
        ownMatch data row p.2 = subMatch data.GetObjectFromEntryId row (some results) 0 := by
      intro p hp
      by_cases hfound : ObjectFound data row
      · exact (subMatch_eq_of_first hrun (reached_subset_nodes _ hp) (h hfound p hp)).symm
      · exact (subMatch_eq_ownMatch_of_not_found hfound results p.2).symm
    obtain ⟨hvalue, hreached⟩ := matchTree_congr
      (w := fun _ => subMatch data.GetObjectFromEntryId row (some results) 0) (number true tree 0) hagree
    refine ⟨fun hfound => ?_, ?_⟩
    · rw [hreached]
      exact h hfound
    · rw [matchTree_number] at hvalue
      exact (matchTree_number true tree 0).symm.trans hvalue

/-! ## A message with an attachment and no recipient -/

/-- The message 1 has the attachment 10. -/
def oneAttachment : SearchData Unit where
  strings :=
    { wide := fun _ => []
      ansi := fun _ => []
      utf8 := fun _ => []
      client := M4lcommon.Util.clientUnits
      server := M4lcommon.Util.serverBytes
      wcs := fun _ _ _ _ => false
      str := fun _ _ _ _ => false
      u8 := fun _ _ _ _ => false }
  GetObjectFromEntryId := fun _ => some 1
  hierarchy := [⟨1, 10, .PR_MESSAGE_ATTACHMENTS⟩]
  rowData := fun _ => []
  lpObjects := [1]

def messageRow : List (Property Unit) := [⟨0x0FFF, .PT_BINARY ⟨[7], by decide⟩, PR_ENTRYID.notANR⟩]

/-- Has any recipient, and has any attachment. -/
def anyRecipient : RestrictTable (Leaf Unit) (RestrictSub Unit) :=
  .RES_SUBRESTRICTION (.mk .PR_MESSAGE_RECIPIENTS (.RES_AND []))

def anyAttachment : RestrictTable (Leaf Unit) (RestrictSub Unit) :=
  .RES_SUBRESTRICTION (.mk .PR_MESSAGE_ATTACHMENTS (.RES_AND []))

/-- The node that stands first decides, and the other one is not reached; the other way round both are. -/
theorem evaluatesOwn_either :
    (EvaluatesOwn oneAttachment messageRow (.RES_OR [anyAttachment, anyRecipient]) [[1], []] ↔
      (ObjectFound oneAttachment messageRow →
        OnlyFirstReached oneAttachment messageRow (.RES_OR [anyAttachment, anyRecipient]))) ∧
    (EvaluatesOwn oneAttachment messageRow (.RES_OR [anyRecipient, anyAttachment]) [[], [1]] ↔
      (ObjectFound oneAttachment messageRow →
        OnlyFirstReached oneAttachment messageRow (.RES_OR [anyRecipient, anyAttachment]))) :=
  ⟨evaluatesOwn_iff _ _ _ _ rfl, evaluatesOwn_iff _ _ _ _ rfl⟩

/-- The attachment is looked for among the messages with a recipient. -/
theorem recipient_or_attachment : ¬ ∀ (data : SearchData Unit) row tree results,
    RunSubRestrictions (RunSubRestriction data) tree = .ok results → EvaluatesOwn data row tree results := by
  intro h
  have hvalue := (h oneAttachment messageRow (.RES_OR [anyRecipient, anyAttachment]) [[], [1]] rfl).value
  exact absurd (Except.ok.inj hvalue) Bool.false_ne_true

end Zcp.Libserver.ECSubRestriction
