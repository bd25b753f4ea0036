import Mathlib.Data.List.Destutter
import Mathlib.Data.List.Sort
import Zcp.Libserver.ECGenericObjectTable.Retags

/-!
# The properties that a restriction needs

`ECGenericObjectTable::GetRestrictPropTags` collects the tags of the properties for the evaluation.
`sufficient_of_unseen`: they are enough for two rows, unless `RELOP_RE` is asked about `PR_ANR` itself or a later search
notices a tag that was written into the row.
-/

namespace Zcp.Libserver.ECGenericObjectTable.RowState

open Zcp.Lib

variable {U : Type}

/-! ## Collecting tags -/

def RESTRICT_MAX_DEPTH : ℕ := 16

/-- `nullPointer` is a structure that is looked into without a check. -/
inductive CollectFailure where
  | ZARAFA_E_TOO_COMPLEX
  | nullPointer
deriving DecidableEq, Repr

mutual

/-- `GetRestrictPropTagsRecursive`, with the tags before and after. -/
def getRestrictPropTagsRecursive (lpsRestrict : RestrictTable U) (lpPropTags : List (BitVec 32)) (ulLevel : ℕ) :
    Except CollectFailure (List (BitVec 32)) :=
  if RESTRICT_MAX_DEPTH < ulLevel then .error .ZARAFA_E_TOO_COMPLEX
  else
    match lpsRestrict with
    | .RES_COMMENT lpResTable => getRestrictPropTagsRecursive lpResTable lpPropTags (ulLevel + 1)
    | .RES_OR lpOr => getRestrictPropTagsAll lpOr lpPropTags (ulLevel + 1)
    | .RES_AND lpAnd => getRestrictPropTagsAll lpAnd lpPropTags (ulLevel + 1)
    | .RES_NOT lpNot => getRestrictPropTagsRecursive lpNot lpPropTags (ulLevel + 1)
    | .RES_CONTENT _ ulPropTag _ => .ok (lpPropTags ++ [ulPropTag])
    | .RES_PROPERTY _ ulPropTag lpProp =>
      if IsAnr ulPropTag then .ok (lpPropTags ++ sANRProps)
      else
        match lpProp with
        | none => .error .nullPointer
        | some lpProp => .ok (lpPropTags ++ [lpProp.ulPropTag, ulPropTag])
    | .RES_COMPAREPROPS _ ulPropTag1 ulPropTag2 => .ok (lpPropTags ++ [ulPropTag1, ulPropTag2])
    | .RES_BITMASK _ _ ulPropTag => .ok (lpPropTags ++ [ulPropTag])
    | .RES_SIZE _ ulPropTag _ => .ok (lpPropTags ++ [ulPropTag])
    | .RES_EXIST ulPropTag => .ok (lpPropTags ++ [ulPropTag])
    -- we need the entryid in subrestriction searches
    | .RES_SUBRESTRICTION => .ok (lpPropTags ++ [PR_ENTRYID])
    | .null => .error .nullPointer
    | .other _ => .ok lpPropTags

/-- The loops of `RES_OR` and `RES_AND`. -/
def getRestrictPropTagsAll (children : List (RestrictTable U)) (lpPropTags : List (BitVec 32)) (ulLevel : ℕ) :
    Except CollectFailure (List (BitVec 32)) :=
  match children with
  | [] => .ok lpPropTags
  | lpRes :: rest =>
    match getRestrictPropTagsRecursive lpRes lpPropTags ulLevel with
    | .error er => .error er
    | .ok lpPropTags => getRestrictPropTagsAll rest lpPropTags ulLevel

end

/-- `sort` and `unique`. -/
def sortUnique (lstPropTags : List (BitVec 32)) : List (BitVec 32) :=
  (lstPropTags.insertionSort (· ≤ ·)).destutter (· ≠ ·)

/-- `GetRestrictPropTags`. -/
def getRestrictPropTags (lpsRestrict : RestrictTable U) (lstPrefix : Option (List (BitVec 32))) :
    Except CollectFailure (List (BitVec 32)) :=
  match getRestrictPropTagsRecursive lpsRestrict [] 0 with
  | .error er => .error er
  | .ok lstPropTags => .ok (lstPrefix.getD [] ++ sortUnique lstPropTags)

mutual

/-- The number of levels below a restriction. -/
def depth : RestrictTable U → ℕ
  | .RES_COMMENT lpResTable => depth lpResTable + 1
  | .RES_OR lpOr => depthAll lpOr
  | .RES_AND lpAnd => depthAll lpAnd
  | .RES_NOT lpNot => depth lpNot + 1
  | _ => 0

def depthAll : List (RestrictTable U) → ℕ
  | [] => 0
  | lpRes :: rest => max (depth lpRes + 1) (depthAll rest)

end

/-- A restriction that is looked into has its structure. -/
def HasStructure : RestrictTable U → Prop
  | .null => False
  | .RES_PROPERTY _ ulPropTag none => IsAnr ulPropTag
  | _ => True

mutual

/-- Trees of at most `RESTRICT_MAX_DEPTH` levels are not too complex. -/
theorem exists_getRestrictPropTagsRecursive : ∀ (lpsRestrict : RestrictTable U) (lpPropTags : List (BitVec 32))
    (ulLevel : ℕ), (∀ lpRes, Within lpRes lpsRestrict → HasStructure lpRes) →
      ulLevel + depth lpsRestrict ≤ RESTRICT_MAX_DEPTH →
        ∃ tags, getRestrictPropTagsRecursive lpsRestrict lpPropTags ulLevel = .ok tags
  | lpsRestrict, lpPropTags, ulLevel, hstructure, hdepth => by
    have hlevel : ¬ RESTRICT_MAX_DEPTH < ulLevel := by omega
    unfold getRestrictPropTagsRecursive
    rw [if_neg hlevel]
    match lpsRestrict with
    | .RES_COMMENT lpResTable =>
      rw [depth] at hdepth
      exact exists_getRestrictPropTagsRecursive lpResTable _ _ (fun lpRes h => hstructure lpRes (.comment h)) (by omega)
    | .RES_NOT lpNot =>
      rw [depth] at hdepth
      exact exists_getRestrictPropTagsRecursive lpNot _ _ (fun lpRes h => hstructure lpRes (.not h)) (by omega)
    | .RES_OR lpOr =>
      rw [depth] at hdepth
      exact exists_getRestrictPropTagsAll lpOr _ _ (fun _ hmem lpRes h => hstructure lpRes (.or hmem h)) hdepth
    | .RES_AND lpAnd =>
      rw [depth] at hdepth
      exact exists_getRestrictPropTagsAll lpAnd _ _ (fun _ hmem lpRes h => hstructure lpRes (.and hmem h)) hdepth
    | .RES_PROPERTY ulType ulPropTag none => exact ⟨_, if_pos (hstructure _ (.self _))⟩
    | .RES_PROPERTY ulType ulPropTag (some lpProp) =>
      by_cases hanr : IsAnr ulPropTag
      · exact ⟨_, if_pos hanr⟩
      · exact ⟨_, if_neg hanr⟩
    | .null => exact absurd (hstructure _ (.self _)) not_false
    | .RES_CONTENT .. | .RES_COMPAREPROPS .. | .RES_BITMASK .. | .RES_SIZE .. | .RES_EXIST _ | .RES_SUBRESTRICTION |
      .other _ => exact ⟨_, rfl⟩

theorem exists_getRestrictPropTagsAll : ∀ (children : List (RestrictTable U)) (lpPropTags : List (BitVec 32))
    (ulLevel : ℕ), (∀ child ∈ children, ∀ lpRes, Within lpRes child → HasStructure lpRes) →
      ulLevel + depthAll children ≤ RESTRICT_MAX_DEPTH →
        ∃ tags, getRestrictPropTagsAll children lpPropTags (ulLevel + 1) = .ok tags
  | [], _, _, _, _ => by
    unfold getRestrictPropTagsAll
    exact ⟨_, rfl⟩
  | lpRes :: rest, lpPropTags, ulLevel, hstructure, hdepth => by
    rw [depthAll] at hdepth
    obtain ⟨tags, htags⟩ := exists_getRestrictPropTagsRecursive lpRes lpPropTags (ulLevel + 1)
      (hstructure lpRes List.mem_cons_self) (by omega)
    unfold getRestrictPropTagsAll
    rw [htags]
    exact exists_getRestrictPropTagsAll rest tags ulLevel
      (fun child hmem => hstructure child (List.mem_cons_of_mem _ hmem)) (by omega)

end

/-! ## The tags that are looked up -/

mutual

/-- The tags that the evaluation looks up in the row, but for the one of `RELOP_RE` with `PR_ANR`. -/
def lookupTags : RestrictTable U → List (BitVec 32)
  | .RES_COMMENT lpResTable => lookupTags lpResTable
  | .RES_OR lpOr => lookupTagsAll lpOr
  | .RES_AND lpAnd => lookupTagsAll lpAnd
  | .RES_NOT lpNot => lookupTags lpNot
  | .RES_CONTENT _ ulPropTag _ => [ulPropTag]
  | .RES_PROPERTY _ ulPropTag _ => if IsAnr ulPropTag then sANRProps else [ulPropTag]
  | .RES_COMPAREPROPS _ ulPropTag1 ulPropTag2 => [ulPropTag1, ulPropTag2]
  | .RES_BITMASK _ _ ulPropTag => [ulPropTag]
  | .RES_SIZE _ ulPropTag _ => [ulPropTag]
  | .RES_EXIST ulPropTag => [ulPropTag]
  | .RES_SUBRESTRICTION => [PR_ENTRYID]
  | .null => []
  | .other _ => []

def lookupTagsAll : List (RestrictTable U) → List (BitVec 32)
  | [] => []
  | lpRes :: rest => lookupTags lpRes ++ lookupTagsAll rest

end

mutual

/-- The tags that are looked up are collected. -/
theorem subset_getRestrictPropTagsRecursive : ∀ (lpsRestrict : RestrictTable U) (lpPropTags : List (BitVec 32))
    (ulLevel : ℕ) (tags : List (BitVec 32)),
      getRestrictPropTagsRecursive lpsRestrict lpPropTags ulLevel = .ok tags →
        lpPropTags ++ lookupTags lpsRestrict ⊆ tags
  | lpsRestrict, lpPropTags, ulLevel, tags, htags => by
    unfold getRestrictPropTagsRecursive at htags
    split_ifs at htags
    match lpsRestrict with
    | .RES_COMMENT lpResTable =>
      rw [lookupTags]
      exact subset_getRestrictPropTagsRecursive lpResTable _ _ _ htags
    | .RES_NOT lpNot =>
      rw [lookupTags]
      exact subset_getRestrictPropTagsRecursive lpNot _ _ _ htags
    | .RES_OR lpOr =>
      rw [lookupTags]
      exact subset_getRestrictPropTagsAll lpOr _ _ _ htags
    | .RES_AND lpAnd =>
      rw [lookupTags]
      exact subset_getRestrictPropTagsAll lpAnd _ _ _ htags
    | .RES_PROPERTY ulType ulPropTag lpProp =>
      rw [lookupTags]
      by_cases hanr : IsAnr ulPropTag
      · have htags : Except.ok (lpPropTags ++ sANRProps) = Except.ok tags := (if_pos hanr).symm.trans htags
        rw [if_pos hanr, Except.ok.inj htags]
        exact List.Subset.refl _
      · rw [if_neg hanr]
        cases lpProp with
        | none => cases (if_neg hanr).symm.trans htags
        | some lpProp =>
          have htags : Except.ok (lpPropTags ++ [lpProp.ulPropTag, ulPropTag]) = Except.ok tags :=
            (if_neg hanr).symm.trans htags
          rw [← Except.ok.inj htags]
          intro tag htag
          simp only [List.mem_append, List.mem_cons] at htag ⊢
          tauto
    | .null => cases htags
    | .RES_CONTENT .. | .RES_COMPAREPROPS .. | .RES_BITMASK .. | .RES_SIZE .. | .RES_EXIST _ | .RES_SUBRESTRICTION =>
      rw [lookupTags, Except.ok.inj htags]
      exact List.Subset.refl _
    | .other _ =>
      rw [lookupTags, List.append_nil, Except.ok.inj htags]
      exact List.Subset.refl _

theorem subset_getRestrictPropTagsAll : ∀ (children : List (RestrictTable U)) (lpPropTags : List (BitVec 32))
    (ulLevel : ℕ) (tags : List (BitVec 32)),
      getRestrictPropTagsAll children lpPropTags ulLevel = .ok tags → lpPropTags ++ lookupTagsAll children ⊆ tags
  | [], lpPropTags, _, tags, htags => by
    unfold getRestrictPropTagsAll at htags
    rw [lookupTagsAll, List.append_nil, Except.ok.inj htags]
    exact List.Subset.refl _
  | lpRes :: rest, lpPropTags, ulLevel, tags, htags => by
    unfold getRestrictPropTagsAll at htags
    cases hfirst : getRestrictPropTagsRecursive lpRes lpPropTags ulLevel with
    | error er =>
      rw [hfirst] at htags
      cases htags
    | ok first =>
      rw [hfirst] at htags
      have hlpRes := subset_getRestrictPropTagsRecursive lpRes _ _ _ hfirst
      have hrest := subset_getRestrictPropTagsAll rest _ _ _ htags
      rw [lookupTagsAll, ← List.append_assoc]
      intro tag htag
      refine hrest (List.mem_append.mpr ?_)
      exact (List.mem_append.mp htag).imp_left fun h => hlpRes h

end

theorem mem_destutter'_ne {tag : BitVec 32} {l : List (BitVec 32)} :
    ∀ {first : BitVec 32}, tag ∈ first :: l → tag ∈ l.destutter' (· ≠ ·) first := by
  induction l with
  | nil => exact fun h => h
  | cons next rest ih =>
    intro first hmem
    rw [List.destutter']
    split_ifs with hne
    · exact (List.mem_cons.mp hmem).elim (fun h => h ▸ List.mem_cons_self) fun h => List.mem_cons_of_mem _ (ih h)
    · rw [not_not] at hne
      refine ih ?_
      rcases List.mem_cons.mp hmem with rfl | h
      · exact List.mem_cons_self
      · exact hne ▸ h

/-- The sorted list has all of the tags. -/
theorem subset_sortUnique (lstPropTags : List (BitVec 32)) : lstPropTags ⊆ sortUnique lstPropTags := by
  intro tag hmem
  have hsorted : tag ∈ lstPropTags.insertionSort (· ≤ ·) := (List.mem_insertionSort _).mpr hmem
  unfold sortUnique
  cases hl : lstPropTags.insertionSort (· ≤ ·) with
  | nil => exact absurd (hl ▸ hsorted) List.not_mem_nil
  | cons first rest => exact mem_destutter'_ne (hl ▸ hsorted)

/-- What is looked up is in the array that is returned. -/
theorem lookupTags_subset {lpsRestrict : RestrictTable U} {lstPrefix : Option (List (BitVec 32))}
    {tags : List (BitVec 32)} (htags : getRestrictPropTags lpsRestrict lstPrefix = .ok tags) :
    lookupTags lpsRestrict ⊆ tags := by
  unfold getRestrictPropTags at htags
  cases hrecursive : getRestrictPropTagsRecursive lpsRestrict [] 0 with
  | error er =>
    rw [hrecursive] at htags
    cases htags
  | ok lstPropTags =>
    rw [hrecursive] at htags
    have hsubset := subset_getRestrictPropTagsRecursive lpsRestrict [] 0 lstPropTags hrecursive
    rw [← Except.ok.inj htags]
    intro tag htag
    exact List.mem_append_right _ (subset_sortUnique _ (hsubset htag))

/-! ## Rows that agree -/

/-- Two rows agree on the presence and the value of what is found for some tags. -/
def Agree (tags : List (BitVec 32)) (lpPropVals lpPropVals' : Row U) : Prop :=
  ∀ tag ∈ tags, findProp lpPropVals tag = findProp lpPropVals' tag

/-- No search for one of the tags notices that a property is retagged: the new tag is none of them, and there is no
second property for the old one. -/
def StepUnseen (tags : List (BitVec 32)) (ulPropTag newTag : BitVec 32) (lpPropVals : Row U) : Prop :=
  ulPropTag = newTag ∨ ∀ tag ∈ tags, ¬ Answers tag newTag ∧
    (Answers tag ulPropTag → (lpPropVals.filter fun lpProp => Answers tag lpProp.ulPropTag).length ≤ 1)

section Retagged

variable {lpPropVals lpPropVals' : Row U} {ulPropTag newTag tag : BitVec 32}
  (htyped : PROP_TYPE ulPropTag ≠ PT_UNSPECIFIED)
include htyped

/-- Other tags are found as before. -/
theorem findProp_retag (hold : ¬ Answers tag ulPropTag) (hnew : ¬ Answers tag newTag) :
    findProp (retag lpPropVals ulPropTag newTag) tag = findProp lpPropVals tag := by
  refine find?_replaceF fun lpProp lpProp' h => ?_
  split_ifs at h with hanswers
  rw [← Option.some.inj h, (answers_iff htyped).mp hanswers]
  exact ⟨decide_eq_false hold, decide_eq_false hnew⟩

/-- The old tag is not found any more. -/
theorem findProp_retag_eq_none {found : PropVal U} (hfound : findProp lpPropVals ulPropTag = some found)
    (hold : Answers tag ulPropTag) (hnew : ¬ Answers tag newTag)
    (hone : (lpPropVals.filter fun lpProp => Answers tag lpProp.ulPropTag).length ≤ 1) :
    findProp (retag lpPropVals ulPropTag newTag) tag = none := by
  refine find?_replaceF_eq_none (fun lpProp lpProp' h => ?_) (exists_isSome_of_findProp hfound) hone
  split_ifs at h with hanswers
  rw [← Option.some.inj h, (answers_iff htyped).mp hanswers]
  exact ⟨decide_eq_true hold, decide_eq_false hnew⟩

/-- Rows agree when both are retagged and no search notices it. -/
theorem Agree.retag {tags : List (BitVec 32)} (hagree : Agree tags lpPropVals lpPropVals') {found : PropVal U}
    (hfound : findProp lpPropVals ulPropTag = some found) (hfound' : findProp lpPropVals' ulPropTag = some found)
    (hunseen : StepUnseen tags ulPropTag newTag lpPropVals)
    (hunseen' : StepUnseen tags ulPropTag newTag lpPropVals') :
    Agree tags (RowState.retag lpPropVals ulPropTag newTag) (RowState.retag lpPropVals' ulPropTag newTag) := by
  by_cases hsame : ulPropTag = newTag
  · rw [← hsame, retag_self htyped, retag_self htyped]
    exact hagree
  · intro tag hmem
    obtain ⟨hnew, hone⟩ := hunseen.resolve_left hsame tag hmem
    obtain ⟨-, hone'⟩ := hunseen'.resolve_left hsame tag hmem
    by_cases hold : Answers tag ulPropTag
    · rw [findProp_retag_eq_none htyped hfound hold hnew (hone hold),
        findProp_retag_eq_none htyped hfound' hold hnew (hone' hold)]
    · rw [findProp_retag htyped hold hnew, findProp_retag htyped hold hnew]
      exact hagree tag hmem

end Retagged

/-! ## Evaluations that agree -/

section Evaluation

variable (c : Calls U) (lpSubResults : Option (List (List ℕ))) (tags : List (BitVec 32))

/-- No search notices what the loop over the ANR properties writes. -/
def LoopUnseen (ulType : BitVec 32) (lpProp : PropVal U) : List (BitVec 32) → Row U → ℤ → Prop
  | [], _, _ => True
  | tag :: rest, lpPropVals, lCompare =>
    match findProp lpPropVals tag with
    | none => LoopUnseen ulType lpProp rest lpPropVals lCompare
    | some found =>
      StepUnseen tags tag lpProp.ulPropTag lpPropVals ∧
        (relopMatch ulType (anrCompare c found lpProp lCompare) = false →
          LoopUnseen ulType lpProp rest (retag lpPropVals tag lpProp.ulPropTag) (anrCompare c found lpProp lCompare))

mutual

/-- In the evaluation `RELOP_RE` is asked about `PR_ANR` only if its tag is one of the tags, and no search notices what
is written into the row. -/
def Unseen : RestrictTable U → Row U → Prop
  | .RES_COMMENT lpResTable, lpPropVals => Unseen lpResTable lpPropVals
  | .RES_OR lpOr, lpPropVals => UnseenOr lpOr lpPropVals
  | .RES_AND lpAnd, lpPropVals => UnseenAnd lpAnd lpPropVals
  | .RES_NOT lpNot, lpPropVals => Unseen lpNot lpPropVals
  | .RES_PROPERTY ulType ulPropTag (some lpProp), lpPropVals =>
    SameTypes ulPropTag lpProp → IsAnr (sameStringTag ulPropTag) →
      (ulType = RELOP_RE → ulPropTag ∈ tags) ∧
      (ulType ≠ RELOP_RE → LoopUnseen c tags ulType lpProp sANRProps lpPropVals 0)
  | _, _ => True

/-- The restrictions that the loop of `RES_OR` comes to. -/
def UnseenOr : List (RestrictTable U) → Row U → Prop
  | [], _ => True
  | lpRes :: rest, lpPropVals =>
    Unseen lpRes lpPropVals ∧
      ((matchRowRestrict c lpSubResults lpRes lpPropVals).1 = .ok false →
        UnseenOr rest (matchRowRestrict c lpSubResults lpRes lpPropVals).2)

/-- The restrictions that the loop of `RES_AND` comes to. -/
def UnseenAnd : List (RestrictTable U) → Row U → Prop
  | [], _ => True
  | lpRes :: rest, lpPropVals =>
    Unseen lpRes lpPropVals ∧
      ((matchRowRestrict c lpSubResults lpRes lpPropVals).1 = .ok true →
        UnseenAnd rest (matchRowRestrict c lpSubResults lpRes lpPropVals).2)

end

end Evaluation

/-- The same result and error code, and rows that still agree. -/
def Alike {α : Type} (tags : List (BitVec 32)) (left right : α × Row U) : Prop :=
  left.1 = right.1 ∧ Agree tags left.2 right.2

section Simulation

variable {c : Calls U} {lpSubResults : Option (List (List ℕ))} {tags : List (BitVec 32)}

theorem anrLoop_alike {ulType : BitVec 32} {lpProp : PropVal U} {props : List (BitVec 32)} (hprops : props ⊆ tags)
    (htyped : ∀ tag ∈ props, PROP_TYPE tag ≠ PT_UNSPECIFIED) {lpPropVals lpPropVals' : Row U} (lCompare : ℤ)
    (hagree : Agree tags lpPropVals lpPropVals') (hunseen : LoopUnseen c tags ulType lpProp props lpPropVals lCompare)
    (hunseen' : LoopUnseen c tags ulType lpProp props lpPropVals' lCompare) :
    Alike tags (anrLoop c ulType lpProp props lpPropVals lCompare)
      (anrLoop c ulType lpProp props lpPropVals' lCompare) := by
  induction props generalizing lpPropVals lpPropVals' lCompare with
  | nil => exact ⟨rfl, hagree⟩
  | cons tag rest ih =>
    obtain ⟨htag, hrest⟩ := List.cons_subset.mp hprops
    have ih := @ih hrest fun tag' hmem => htyped tag' (List.mem_cons_of_mem _ hmem)
    have hfind := hagree tag htag
    unfold LoopUnseen at hunseen hunseen'
    unfold anrLoop
    cases hfound' : findProp lpPropVals' tag with
    | none =>
      rw [hfound'] at hunseen' hfind
      rw [hfind] at hunseen ⊢
      exact ih lCompare hagree hunseen hunseen'
    | some found =>
      rw [hfound'] at hunseen' hfind
      rw [hfind] at hunseen ⊢
      have hretag := hagree.retag (htyped tag List.mem_cons_self) hfind hfound' hunseen.1 hunseen'.1
      dsimp only
      split_ifs with hmatch
      · exact ⟨rfl, hretag⟩
      · rw [Bool.not_eq_true] at hmatch
        exact ih _ hretag (hunseen.2 hmatch) (hunseen'.2 hmatch)

/-- The same string type does not change the id. -/
theorem PROP_ID_CHANGE_PROP_TYPE {ulPropTag ulPropType : BitVec 32} (htype : ulPropType >>> 16 = 0) :
    PROP_ID (CHANGE_PROP_TYPE ulPropTag ulPropType) = PROP_ID ulPropTag := by
  unfold PROP_ID CHANGE_PROP_TYPE
  rw [BitVec.ushiftRight_or_distrib, BitVec.ushiftRight_and_distrib, htype]
  apply BitVec.eq_of_toNat_eq
  rw [BitVec.toNat_or, BitVec.toNat_and, BitVec.toNat_ushiftRight, Nat.and_comm]
  have hmask : (0xFFFF0000 : BitVec 32).toNat >>> 16 = 2 ^ 16 - 1 := by decide
  have hzero : (0 : BitVec 32).toNat = 0 := rfl
  rw [hmask, hzero, Nat.or_zero, Nat.and_two_pow_sub_one_eq_mod, BitVec.toNat_ushiftRight, Nat.shiftRight_eq_div_pow]
  exact Nat.mod_eq_of_lt (by omega)

theorem isAnr_sameStringTag (ulPropTag : BitVec 32) : IsAnr (sameStringTag ulPropTag) ↔ IsAnr ulPropTag := by
  unfold IsAnr sameStringTag
  split_ifs
  · rw [PROP_ID_CHANGE_PROP_TYPE (by decide)]
  · rw [PROP_ID_CHANGE_PROP_TYPE (by decide)]
  · rfl

theorem matchProperty_alike {ulType ulPropTag : BitVec 32} {lpProp : PropVal U}
    (hlookup : lookupTags (.RES_PROPERTY ulType ulPropTag (some lpProp)) ⊆ tags) {lpPropVals lpPropVals' : Row U}
    (hagree : Agree tags lpPropVals lpPropVals')
    (hunseen : Unseen c lpSubResults tags (.RES_PROPERTY ulType ulPropTag (some lpProp)) lpPropVals)
    (hunseen' : Unseen c lpSubResults tags (.RES_PROPERTY ulType ulPropTag (some lpProp)) lpPropVals') :
    Alike tags (matchProperty c ulType ulPropTag lpProp lpPropVals)
      (matchProperty c ulType ulPropTag lpProp lpPropVals') := by
  rw [lookupTags] at hlookup
  unfold Unseen at hunseen hunseen'
  unfold matchProperty
  by_cases htypes : SameTypes ulPropTag lpProp
  · rw [if_neg (not_not.mpr htypes), if_neg (not_not.mpr htypes)]
    by_cases hre : ulType = RELOP_RE
    · rw [if_pos hre, if_pos hre]
      have hmem : ulPropTag ∈ tags := by
        by_cases hanr : IsAnr ulPropTag
        · exact (hunseen htypes ((isAnr_sameStringTag ulPropTag).mpr hanr)).1 hre
        · rw [if_neg hanr] at hlookup
          exact hlookup List.mem_cons_self
      exact ⟨congrArg (matchRegularExpression c ulPropTag lpProp) (hagree ulPropTag hmem), hagree⟩
    · rw [if_neg hre, if_neg hre]
      by_cases hanr : IsAnr (sameStringTag ulPropTag)
      · rw [if_pos hanr, if_pos hanr]
        rw [if_pos ((isAnr_sameStringTag ulPropTag).mp hanr)] at hlookup
        obtain ⟨hmatch, hrows⟩ := anrLoop_alike hlookup sANRProps_typed 0 hagree ((hunseen htypes hanr).2 hre)
          ((hunseen' htypes hanr).2 hre)
        exact ⟨congrArg Except.ok hmatch, hrows⟩
      · rw [if_neg hanr, if_neg hanr]
        rw [if_neg fun h => hanr ((isAnr_sameStringTag ulPropTag).mpr h)] at hlookup
        rw [hagree ulPropTag (hlookup List.mem_cons_self)]
        exact ⟨rfl, hagree⟩
  · rw [if_pos htypes, if_pos htypes]
    exact ⟨rfl, hagree⟩

mutual

/-- Rows that agree on what is looked up are evaluated alike. -/
theorem matchRowRestrict_alike : ∀ (lpsRestrict : RestrictTable U), lookupTags lpsRestrict ⊆ tags →
    ∀ lpPropVals lpPropVals' : Row U, Agree tags lpPropVals lpPropVals' →
      Unseen c lpSubResults tags lpsRestrict lpPropVals → Unseen c lpSubResults tags lpsRestrict lpPropVals' →
        Alike tags (matchRowRestrict c lpSubResults lpsRestrict lpPropVals)
          (matchRowRestrict c lpSubResults lpsRestrict lpPropVals')
  | .RES_COMMENT lpResTable, hlookup, lpPropVals, lpPropVals', hagree, hunseen, hunseen' => by
    rw [lookupTags] at hlookup
    unfold Unseen at hunseen hunseen'
    unfold matchRowRestrict
    exact matchRowRestrict_alike lpResTable hlookup _ _ hagree hunseen hunseen'
  | .RES_OR lpOr, hlookup, lpPropVals, lpPropVals', hagree, hunseen, hunseen' => by
    rw [lookupTags] at hlookup
    unfold Unseen at hunseen hunseen'
    unfold matchRowRestrict
    exact matchOr_alike lpOr hlookup _ _ hagree hunseen hunseen'
  | .RES_AND lpAnd, hlookup, lpPropVals, lpPropVals', hagree, hunseen, hunseen' => by
    rw [lookupTags] at hlookup
    unfold Unseen at hunseen hunseen'
    unfold matchRowRestrict
    exact matchAnd_alike lpAnd hlookup _ _ hagree hunseen hunseen'
  | .RES_NOT lpNot, hlookup, lpPropVals, lpPropVals', hagree, hunseen, hunseen' => by
    rw [lookupTags] at hlookup
    unfold Unseen at hunseen hunseen'
    unfold matchRowRestrict
    obtain ⟨hresult, hrows⟩ := matchRowRestrict_alike lpNot hlookup _ _ hagree hunseen hunseen'
    exact ⟨congrArg (Except.map not) hresult, hrows⟩
  | .RES_CONTENT ulFuzzyLevel ulPropTag lpProp, hlookup, lpPropVals, lpPropVals', hagree, _, _ => by
    rw [lookupTags] at hlookup
    unfold matchRowRestrict
    rw [hagree ulPropTag (hlookup List.mem_cons_self)]
    cases lpProp <;> exact ⟨rfl, hagree⟩
  | .RES_PROPERTY ulType ulPropTag none, _, lpPropVals, lpPropVals', hagree, _, _ => by
    unfold matchRowRestrict
    exact ⟨rfl, hagree⟩
  | .RES_PROPERTY ulType ulPropTag (some lpProp), hlookup, lpPropVals, lpPropVals', hagree, hunseen, hunseen' => by
    unfold matchRowRestrict
    exact matchProperty_alike hlookup hagree hunseen hunseen'
  | .RES_COMPAREPROPS ulType ulPropTag1 ulPropTag2, hlookup, lpPropVals, lpPropVals', hagree, _, _ => by
    rw [lookupTags] at hlookup
    unfold matchRowRestrict
    rw [hagree ulPropTag1 (hlookup List.mem_cons_self),
      hagree ulPropTag2 (hlookup (List.mem_cons_of_mem _ List.mem_cons_self))]
    exact ⟨rfl, hagree⟩
  | .RES_BITMASK _ _ ulPropTag, hlookup, lpPropVals, lpPropVals', hagree, _, _
  | .RES_SIZE _ ulPropTag _, hlookup, lpPropVals, lpPropVals', hagree, _, _
  | .RES_EXIST ulPropTag, hlookup, lpPropVals, lpPropVals', hagree, _, _ => by
    rw [lookupTags] at hlookup
    unfold matchRowRestrict
    rw [hagree ulPropTag (hlookup List.mem_cons_self)]
    exact ⟨rfl, hagree⟩
  | .RES_SUBRESTRICTION, hlookup, lpPropVals, lpPropVals', hagree, _, _ => by
    rw [lookupTags] at hlookup
    unfold matchRowRestrict
    rw [hagree PR_ENTRYID (hlookup List.mem_cons_self)]
    exact ⟨rfl, hagree⟩
  | .null, _, lpPropVals, lpPropVals', hagree, _, _ | .other _, _, lpPropVals, lpPropVals', hagree, _, _ => by
    unfold matchRowRestrict
    exact ⟨rfl, hagree⟩

theorem matchOr_alike : ∀ (lpOr : List (RestrictTable U)), lookupTagsAll lpOr ⊆ tags →
    ∀ lpPropVals lpPropVals' : Row U, Agree tags lpPropVals lpPropVals' →
      UnseenOr c lpSubResults tags lpOr lpPropVals → UnseenOr c lpSubResults tags lpOr lpPropVals' →
        Alike tags (matchOr c lpSubResults lpOr lpPropVals) (matchOr c lpSubResults lpOr lpPropVals')
  | [], _, lpPropVals, lpPropVals', hagree, _, _ => by
    unfold matchOr
    exact ⟨rfl, hagree⟩
  | lpRes :: rest, hlookup, lpPropVals, lpPropVals', hagree, hunseen, hunseen' => by
    rw [lookupTagsAll, List.append_subset] at hlookup
    unfold UnseenOr at hunseen hunseen'
    have hfirst := matchRowRestrict_alike lpRes hlookup.1 _ _ hagree hunseen.1 hunseen'.1
    have hrest := matchOr_alike rest hlookup.2
    unfold matchOr
    generalize matchRowRestrict c lpSubResults lpRes lpPropVals = first at hfirst hunseen ⊢
    generalize matchRowRestrict c lpSubResults lpRes lpPropVals' = first' at hfirst hunseen' ⊢
    obtain ⟨result, row⟩ := first
    obtain ⟨result', row'⟩ := first'
    obtain ⟨hresult, hrows⟩ := hfirst
    cases hresult
    match result with
    | .error er => exact ⟨rfl, hrows⟩
    | .ok true => exact ⟨rfl, hrows⟩
    | .ok false => exact hrest _ _ hrows (hunseen.2 rfl) (hunseen'.2 rfl)

theorem matchAnd_alike : ∀ (lpAnd : List (RestrictTable U)), lookupTagsAll lpAnd ⊆ tags →
    ∀ lpPropVals lpPropVals' : Row U, Agree tags lpPropVals lpPropVals' →
      UnseenAnd c lpSubResults tags lpAnd lpPropVals → UnseenAnd c lpSubResults tags lpAnd lpPropVals' →
        Alike tags (matchAnd c lpSubResults lpAnd lpPropVals) (matchAnd c lpSubResults lpAnd lpPropVals')
  | [], _, lpPropVals, lpPropVals', hagree, _, _ => by
    unfold matchAnd
    exact ⟨rfl, hagree⟩
  | lpRes :: rest, hlookup, lpPropVals, lpPropVals', hagree, hunseen, hunseen' => by
    rw [lookupTagsAll, List.append_subset] at hlookup
    unfold UnseenAnd at hunseen hunseen'
    have hfirst := matchRowRestrict_alike lpRes hlookup.1 _ _ hagree hunseen.1 hunseen'.1
    have hrest := matchAnd_alike rest hlookup.2
    unfold matchAnd
    generalize matchRowRestrict c lpSubResults lpRes lpPropVals = first at hfirst hunseen ⊢
    generalize matchRowRestrict c lpSubResults lpRes lpPropVals' = first' at hfirst hunseen' ⊢
    obtain ⟨result, row⟩ := first
    obtain ⟨result', row'⟩ := first'
    obtain ⟨hresult, hrows⟩ := hfirst
    cases hresult
    match result with
    | .error er => exact ⟨rfl, hrows⟩
    | .ok false => exact ⟨rfl, hrows⟩
    | .ok true => exact hrest _ _ hrows (hunseen.2 rfl) (hunseen'.2 rfl)

end

end Simulation

/-! ## Enough properties -/

/-- The tags are returned for trees that are not too deep, and rows that agree on them are evaluated alike. -/
structure Sufficient (c : Calls U) (lpSubResults : Option (List (List ℕ))) (lpsRestrict : RestrictTable U)
    (lstPrefix : Option (List (BitVec 32))) (lpPropVals lpPropVals' : Row U) : Prop where
  returned : depth lpsRestrict ≤ RESTRICT_MAX_DEPTH → (∀ lpRes, Within lpRes lpsRestrict → HasStructure lpRes) →
    ∃ tags, getRestrictPropTags lpsRestrict lstPrefix = .ok tags
  enough : ∀ tags, getRestrictPropTags lpsRestrict lstPrefix = .ok tags → Agree tags lpPropVals lpPropVals' →
    (matchRowRestrict c lpSubResults lpsRestrict lpPropVals).1 =
      (matchRowRestrict c lpSubResults lpsRestrict lpPropVals').1

/-- The tags are enough when the evaluation of neither row asks for `PR_ANR` itself or notices what it writes. -/
theorem sufficient_of_unseen {c : Calls U} {lpSubResults : Option (List (List ℕ))} {lpsRestrict : RestrictTable U}
    {lpPropVals lpPropVals' : Row U} (lstPrefix : Option (List (BitVec 32)))
    (hunseen : Unseen c lpSubResults (lookupTags lpsRestrict) lpsRestrict lpPropVals)
    (hunseen' : Unseen c lpSubResults (lookupTags lpsRestrict) lpsRestrict lpPropVals') :
    Sufficient c lpSubResults lpsRestrict lstPrefix lpPropVals lpPropVals' := by
  constructor
  · intro hdepth hstructure
    obtain ⟨lstPropTags, htags⟩ := exists_getRestrictPropTagsRecursive lpsRestrict [] 0 hstructure
      ((Nat.zero_add _).symm ▸ hdepth)
    unfold getRestrictPropTags
    rw [htags]
    exact ⟨_, rfl⟩
  · intro tags htags hagree
    have hlookup : Agree (lookupTags lpsRestrict) lpPropVals lpPropVals' :=
      fun tag hmem => hagree tag (lookupTags_subset htags hmem)
    exact (matchRowRestrict_alike lpsRestrict (List.Subset.refl _) _ _ hlookup hunseen hunseen').1

instance [DecidableEq U] (tags : List (BitVec 32)) (lpPropVals lpPropVals' : Row U) :
    Decidable (Agree tags lpPropVals lpPropVals') := inferInstanceAs (Decidable (∀ _ ∈ _, _))

instance (tags : List (BitVec 32)) (ulPropTag newTag : BitVec 32) (lpPropVals : Row U) :
    Decidable (StepUnseen tags ulPropTag newTag lpPropVals) := inferInstanceAs (Decidable (_ ∨ _))

/-- The row with the name and a subject. -/
def bobSubjectRow : Row (List UInt8) := ⟨0x0037001F, [104, 105]⟩ :: bobRow

/-- The condition on the name, and an entry id. -/
def bobEntryCondition : RestrictTable (List UInt8) := .RES_AND [bobCondition, .RES_EXIST PR_ENTRYID]

theorem bobEntryCondition_unseen {lpPropVals : Row (List UInt8)}
    (hloop : LoopUnseen asciiTexts (lookupTags bobEntryCondition) RELOP_EQ ⟨PR_ANR, [98, 111, 98]⟩ sANRProps
      lpPropVals 0) : Unseen asciiTexts none (lookupTags bobEntryCondition) bobEntryCondition lpPropVals := by
  unfold bobEntryCondition Unseen UnseenAnd
  refine ⟨?_, fun _ => ?_⟩
  · unfold bobCondition Unseen
    exact fun _ _ => ⟨fun hre => absurd hre (by decide), fun _ => hloop⟩
  · unfold UnseenAnd UnseenAnd Unseen
    exact ⟨trivial, fun _ => trivial⟩

/-- The subject does not matter. -/
theorem sufficient_of_unseen_subject : (matchRowRestrict asciiTexts none bobEntryCondition bobRow).1 =
      (matchRowRestrict asciiTexts none bobEntryCondition bobSubjectRow).1 := by
  have hloop : LoopUnseen asciiTexts (lookupTags bobEntryCondition) RELOP_EQ ⟨PR_ANR, [98, 111, 98]⟩ sANRProps bobRow 0 :=
    ⟨by decide, fun h => absurd h (by decide)⟩
  have hloop' : LoopUnseen asciiTexts (lookupTags bobEntryCondition) RELOP_EQ ⟨PR_ANR, [98, 111, 98]⟩ sANRProps
      bobSubjectRow 0 := ⟨by decide, fun h => absurd h (by decide)⟩
  exact (sufficient_of_unseen none (bobEntryCondition_unseen hloop) (bobEntryCondition_unseen hloop')).enough _ rfl
    (by decide)

/-- A regular expression is asked about `PR_ANR` itself, which is not collected. -/
theorem not_sufficient :
    ¬ Sufficient asciiTexts none (.RES_PROPERTY RELOP_RE PR_ANR (some ⟨PR_ANR, [98, 111, 98]⟩)) none []
      [⟨PR_ANR, [98, 111, 98]⟩] := by
  intro h
  have hsame := h.enough _ rfl (by decide)
  exact absurd hsame (by decide)

/-- A name that gets the tag of the address is found in its place or not, by the order of the row. -/
example :
    let lpsRestrict := RestrictTable.RES_PROPERTY RELOP_EQ PR_ANR (some ⟨PR_SMTP_ADDRESS, [98, 111, 98]⟩)
    let name : PropVal (List UInt8) := ⟨PR_DISPLAY_NAME, [98, 111, 98]⟩
    let address : PropVal (List UInt8) := ⟨PR_SMTP_ADDRESS, [97]⟩
    Agree sANRProps [name, address] [address, name] ∧
      (matchRowRestrict asciiTexts none lpsRestrict [name, address]).1 = .ok false ∧
      (matchRowRestrict asciiTexts none lpsRestrict [address, name]).1 = .ok true := by
  decide

end Zcp.Libserver.ECGenericObjectTable.RowState
