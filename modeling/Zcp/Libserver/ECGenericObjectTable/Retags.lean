import Zcp.Lib.BoundedQuantifiers
import Zcp.Lib.FirstMatch
import Zcp.Libserver.ECGenericObjectTable.MatchRowRestrict

/-!
# What the evaluation writes into a row

`rowKept_iff`: the row is left as it was, the order of the restrictions below an `RES_AND` or `RES_OR` does not matter
and a second evaluation gives the same, if and only if no condition on `PR_ANR` in the tree finds a property with
another tag than its value has.
-/

namespace Zcp.Libserver.ECGenericObjectTable.RowState

open Zcp.Lib

variable {U : Type}

/-! ## New tags -/

theorem answers_iff {ulPropTag tag : BitVec 32} (htyped : PROP_TYPE ulPropTag ≠ PT_UNSPECIFIED) :
    Answers ulPropTag tag ↔ tag = ulPropTag := or_iff_left fun h => htyped h.1

/-- The assignment of the tag that the property has. -/
theorem retag_self {tag : BitVec 32} (htyped : PROP_TYPE tag ≠ PT_UNSPECIFIED) (lpPropVals : Row U) :
    retag lpPropVals tag tag = lpPropVals := by
  refine replaceF_eq_self fun lpProp lpProp' h => ?_
  split_ifs at h with hanswers
  rw [← Option.some.inj h, ← (answers_iff htyped).mp hanswers]

/-- The number of properties with a tag. -/
def tagCount (tag : BitVec 32) (lpPropVals : Row U) : ℕ := lpPropVals.countP fun lpProp => lpProp.ulPropTag = tag

theorem tagCount_le_retag (tag newTag : BitVec 32) (lpPropVals : Row U) :
    tagCount newTag lpPropVals ≤ tagCount newTag (retag lpPropVals tag newTag) := by
  refine countP_le_countP_replaceF fun lpProp lpProp' h => ?_
  split_ifs at h
  rw [← Option.some.inj h]
  exact decide_eq_true rfl

theorem exists_isSome_of_findProp {lpPropVals : Row U} {tag newTag : BitVec 32} {found : PropVal U}
    (hfound : findProp lpPropVals tag = some found) : ∃ lpProp ∈ lpPropVals,
      (if Answers tag lpProp.ulPropTag then some { lpProp with ulPropTag := newTag } else none).isSome := by
  refine ⟨found, List.mem_of_find?_eq_some hfound, ?_⟩
  rw [if_pos (of_decide_eq_true (List.find?_some hfound :))]
  rfl

theorem tagCount_lt_retag {tag newTag : BitVec 32} (htyped : PROP_TYPE tag ≠ PT_UNSPECIFIED) (hne : tag ≠ newTag)
    {lpPropVals : Row U} {found : PropVal U} (hfound : findProp lpPropVals tag = some found) :
    tagCount newTag lpPropVals < tagCount newTag (retag lpPropVals tag newTag) := by
  refine countP_lt_countP_replaceF (fun lpProp lpProp' h => ?_) (exists_isSome_of_findProp hfound)
  split_ifs at h with hanswers
  rw [← Option.some.inj h]
  exact ⟨decide_eq_false ((answers_iff htyped).mp hanswers ▸ hne), decide_eq_true rfl⟩

/-! ## The loop over the ANR properties -/

section Loop

variable (c : Calls U) (ulType : BitVec 32) (lpProp : PropVal U)

/-- The properties of the loop that the row has. -/
def anrPresent (tags : List (BitVec 32)) (lpPropVals : Row U) : List (BitVec 32) :=
  tags.filter fun tag => (findProp lpPropVals tag).isSome

/-- The first property that the row has carries the tag of the value, and there is no other one or it matches. -/
def LoopLeavesRow (tags : List (BitVec 32)) (lpPropVals : Row U) (lCompare : ℤ) : Prop :=
  ∀ tag rest, anrPresent tags lpPropVals = tag :: rest → tag = lpProp.ulPropTag ∧
    (rest = [] ∨ ∀ found, findProp lpPropVals tag = some found →
      relopMatch ulType (anrCompare c found lpProp lCompare) = true)

theorem tagCount_le_anrLoop (tags : List (BitVec 32)) (lpPropVals : Row U) (lCompare : ℤ) :
    tagCount lpProp.ulPropTag lpPropVals ≤
      tagCount lpProp.ulPropTag (anrLoop c ulType lpProp tags lpPropVals lCompare).2 := by
  induction tags generalizing lpPropVals lCompare with
  | nil => exact le_rfl
  | cons tag rest ih =>
    unfold anrLoop
    cases findProp lpPropVals tag with
    | none => exact ih lpPropVals lCompare
    | some found =>
      have hretag := tagCount_le_retag tag lpProp.ulPropTag lpPropVals
      dsimp only
      split_ifs
      · exact hretag
      · exact hretag.trans (ih _ _)

/-- A row with none of the properties. -/
theorem anrLoop_of_anrPresent_nil {tags : List (BitVec 32)} {lpPropVals : Row U} (lCompare : ℤ)
    (hnone : anrPresent tags lpPropVals = []) :
    anrLoop c ulType lpProp tags lpPropVals lCompare = (false, lpPropVals) := by
  induction tags with
  | nil => rfl
  | cons tag rest ih =>
    rw [anrPresent, List.filter_eq_nil_iff] at hnone
    have htag : findProp lpPropVals tag = none :=
      Option.not_isSome_iff_eq_none.mp (hnone tag List.mem_cons_self)
    have hrest : anrPresent rest lpPropVals = [] :=
      List.filter_eq_nil_iff.mpr fun tag' hmem => hnone tag' (List.mem_cons_of_mem _ hmem)
    unfold anrLoop
    rw [htag]
    exact ih hrest

/-- The loop leaves the row as it was when it has nothing to write. -/
theorem anrLoop_leaves_iff {tags : List (BitVec 32)} (hnodup : tags.Nodup)
    (htyped : ∀ tag ∈ tags, PROP_TYPE tag ≠ PT_UNSPECIFIED) (lpPropVals : Row U) (lCompare : ℤ) :
    (anrLoop c ulType lpProp tags lpPropVals lCompare).2 = lpPropVals ↔
      LoopLeavesRow c ulType lpProp tags lpPropVals lCompare := by
  induction tags generalizing lCompare with
  | nil => exact iff_of_true rfl fun tag rest h => nomatch h
  | cons tag rest ih =>
    obtain ⟨hnotMem, hnodup⟩ := List.nodup_cons.mp hnodup
    have htag := htyped tag List.mem_cons_self
    have ih := ih hnodup (fun tag' hmem => htyped tag' (List.mem_cons_of_mem _ hmem))
    cases hfound : findProp lpPropVals tag with
    | none =>
      have hpresent : anrPresent (tag :: rest) lpPropVals = anrPresent rest lpPropVals :=
        List.filter_cons_of_neg (by rw [hfound]; exact Bool.false_ne_true)
      have hloop : anrLoop c ulType lpProp (tag :: rest) lpPropVals lCompare =
          anrLoop c ulType lpProp rest lpPropVals lCompare := by
        conv_lhs => unfold anrLoop
        rw [hfound]
      rw [hloop, ih lCompare, LoopLeavesRow, LoopLeavesRow, hpresent]
    | some found =>
      have hpresent : anrPresent (tag :: rest) lpPropVals = tag :: anrPresent rest lpPropVals :=
        List.filter_cons_of_pos (by rw [hfound]; rfl)
      have hloop : anrLoop c ulType lpProp (tag :: rest) lpPropVals lCompare =
          if relopMatch ulType (anrCompare c found lpProp lCompare) then (true, retag lpPropVals tag lpProp.ulPropTag)
          else anrLoop c ulType lpProp rest (retag lpPropVals tag lpProp.ulPropTag)
            (anrCompare c found lpProp lCompare) := by
        conv_lhs => unfold anrLoop
        rw [hfound]
      rw [hloop]
      constructor
      · intro hleaves
        -- a new tag would be there once more
        have hsame : tag = lpProp.ulPropTag := by
          by_contra hne
          have hlt := tagCount_lt_retag htag hne hfound
          have hle : tagCount lpProp.ulPropTag (retag lpPropVals tag lpProp.ulPropTag) ≤
              tagCount lpProp.ulPropTag lpPropVals := by
            conv_rhs => rw [← hleaves]
            split_ifs
            · exact le_rfl
            · exact tagCount_le_anrLoop c ulType lpProp rest _ _
          exact absurd hlt (not_lt.mpr hle)
        intro tag' rest' hcons
        rw [hpresent, List.cons.injEq] at hcons
        obtain ⟨rfl, rfl⟩ := hcons
        refine ⟨hsame, ?_⟩
        rw [← hsame, retag_self htag] at hleaves
        by_cases hmatch : relopMatch ulType (anrCompare c found lpProp lCompare) = true
        · exact .inr fun found' hfound' => Option.some.inj (hfound.symm.trans hfound') ▸ hmatch
        · rw [if_neg hmatch, ih] at hleaves
          left
          cases hrest : anrPresent rest lpPropVals with
          | nil => rfl
          | cons tag'' rest'' =>
            -- the next property would carry the tag of the value, too
            have hmem : tag'' ∈ anrPresent rest lpPropVals := hrest ▸ List.mem_cons_self
            have hmem : tag'' ∈ rest := List.mem_of_mem_filter hmem
            exact absurd (hsame ▸ (hleaves tag'' rest'' hrest).1 ▸ hmem) hnotMem
      · intro hloopLeaves
        obtain ⟨hsame, hrest⟩ := hloopLeaves tag _ hpresent
        rw [← hsame, retag_self htag]
        split_ifs with hmatch
        · rfl
        · rcases hrest with hrest | hrest
          · rw [anrLoop_of_anrPresent_nil c ulType lpProp _ hrest]
          · exact absurd (hrest found hfound) hmatch

end Loop

theorem sANRProps_nodup : sANRProps.Nodup := by decide

theorem sANRProps_typed : ∀ tag ∈ sANRProps, PROP_TYPE tag ≠ PT_UNSPECIFIED := by decide

/-! ## Trees -/

/-- A restriction in a tree. -/
inductive Within : RestrictTable U → RestrictTable U → Prop
  | self (lpRes : RestrictTable U) : Within lpRes lpRes
  | comment {lpRes lpResTable : RestrictTable U} : Within lpRes lpResTable → Within lpRes (.RES_COMMENT lpResTable)
  | not {lpRes lpNot : RestrictTable U} : Within lpRes lpNot → Within lpRes (.RES_NOT lpNot)
  | or {lpRes child : RestrictTable U} {lpOr : List (RestrictTable U)} :
    child ∈ lpOr → Within lpRes child → Within lpRes (.RES_OR lpOr)
  | and {lpRes child : RestrictTable U} {lpAnd : List (RestrictTable U)} :
    child ∈ lpAnd → Within lpRes child → Within lpRes (.RES_AND lpAnd)

section Trees

variable (c : Calls U) (lpSubResults : Option (List (List ℕ))) (lpPropVals : Row U)

/-- What a condition on `PR_ANR` finds in the row has the tag of its value, as far as the loop looks. -/
def LeavesRow : RestrictTable U → Prop
  | .RES_PROPERTY ulType ulPropTag (some lpProp) =>
    SameTypes ulPropTag lpProp → ulType ≠ RELOP_RE → IsAnr (sameStringTag ulPropTag) →
      LoopLeavesRow c ulType lpProp sANRProps lpPropVals 0
  | _ => True

/-- Evaluating a tree only reads the row. -/
structure RowKept (lpsRestrict : RestrictTable U) : Prop where
  kept : ∀ lpRes, Within lpRes lpsRestrict → (matchRowRestrict c lpSubResults lpRes lpPropVals).2 = lpPropVals
  order_and : ∀ children children', Within (.RES_AND children) lpsRestrict → children.Perm children' →
    (∀ child ∈ children, (matchRowRestrict c lpSubResults child lpPropVals).1.isOk) →
    (matchRowRestrict c lpSubResults (.RES_AND children') lpPropVals).1 =
      (matchRowRestrict c lpSubResults (.RES_AND children) lpPropVals).1
  order_or : ∀ children children', Within (.RES_OR children) lpsRestrict → children.Perm children' →
    (∀ child ∈ children, (matchRowRestrict c lpSubResults child lpPropVals).1.isOk) →
    (matchRowRestrict c lpSubResults (.RES_OR children') lpPropVals).1 =
      (matchRowRestrict c lpSubResults (.RES_OR children) lpPropVals).1
  twice : ∀ lpRes, Within lpRes lpsRestrict →
    (matchRowRestrict c lpSubResults lpRes (matchRowRestrict c lpSubResults lpRes lpPropVals).2).1 =
      (matchRowRestrict c lpSubResults lpRes lpPropVals).1

variable {c lpSubResults lpPropVals}

theorem matchProperty_leaves_iff {ulType ulPropTag : BitVec 32} {lpProp : PropVal U} :
    (matchProperty c ulType ulPropTag lpProp lpPropVals).2 = lpPropVals ↔
      LeavesRow c lpPropVals (.RES_PROPERTY ulType ulPropTag (some lpProp)) := by
  unfold matchProperty LeavesRow
  by_cases htypes : SameTypes ulPropTag lpProp
  · rw [if_neg (not_not.mpr htypes)]
    by_cases hre : ulType = RELOP_RE
    · rw [if_pos hre]
      exact iff_of_true rfl fun _ h => absurd hre h
    · rw [if_neg hre]
      by_cases hanr : IsAnr (sameStringTag ulPropTag)
      · rw [if_pos hanr]
        refine (anrLoop_leaves_iff c ulType lpProp sANRProps_nodup sANRProps_typed lpPropVals 0).trans ?_
        exact ⟨fun h _ _ _ => h, fun h => h htypes hre hanr⟩
      · rw [if_neg hanr]
        exact iff_of_true rfl fun _ _ h => absurd h hanr
  · rw [if_pos htypes]
    exact iff_of_true rfl fun h => absurd h htypes

mutual

/-- A tree whose conditions leave the row as it was does so. -/
theorem matchRowRestrict_leaves : ∀ lpsRestrict : RestrictTable U,
    (∀ lpRes, Within lpRes lpsRestrict → LeavesRow c lpPropVals lpRes) →
      (matchRowRestrict c lpSubResults lpsRestrict lpPropVals).2 = lpPropVals
  | .RES_COMMENT lpResTable, h => by
    unfold matchRowRestrict
    exact matchRowRestrict_leaves lpResTable fun lpRes hw => h lpRes (.comment hw)
  | .RES_OR lpOr, h => by
    unfold matchRowRestrict
    exact matchOr_leaves lpOr fun child hmem lpRes hw => h lpRes (.or hmem hw)
  | .RES_AND lpAnd, h => by
    unfold matchRowRestrict
    exact matchAnd_leaves lpAnd fun child hmem lpRes hw => h lpRes (.and hmem hw)
  | .RES_NOT lpNot, h => by
    unfold matchRowRestrict
    exact matchRowRestrict_leaves lpNot fun lpRes hw => h lpRes (.not hw)
  | .RES_PROPERTY ulType ulPropTag lpProp, h => by
    unfold matchRowRestrict
    cases lpProp with
    | none => rfl
    | some lpProp => exact matchProperty_leaves_iff.mpr (h _ (.self _))
  | .RES_CONTENT ulFuzzyLevel ulPropTag lpProp, _ => by
    unfold matchRowRestrict
    cases lpProp <;> rfl
  | .RES_COMPAREPROPS .., _ | .RES_BITMASK .., _ | .RES_SIZE .., _ | .RES_EXIST .., _ | .RES_SUBRESTRICTION, _
  | .null, _ | .other _, _ => by
    unfold matchRowRestrict
    rfl

theorem matchOr_leaves : ∀ lpOr : List (RestrictTable U),
    (∀ child ∈ lpOr, ∀ lpRes, Within lpRes child → LeavesRow c lpPropVals lpRes) →
      (matchOr c lpSubResults lpOr lpPropVals).2 = lpPropVals
  | [], _ => by
    unfold matchOr
    rfl
  | lpRes :: rest, h => by
    have hfirst := matchRowRestrict_leaves lpRes (h lpRes List.mem_cons_self)
    have hrest := matchOr_leaves rest fun child hmem => h child (List.mem_cons_of_mem _ hmem)
    unfold matchOr
    generalize matchRowRestrict c lpSubResults lpRes lpPropVals = first at hfirst ⊢
    match first with
    | (.error er, _) => exact hfirst
    | (.ok true, _) => exact hfirst
    | (.ok false, _) =>
      cases hfirst
      exact hrest

theorem matchAnd_leaves : ∀ lpAnd : List (RestrictTable U),
    (∀ child ∈ lpAnd, ∀ lpRes, Within lpRes child → LeavesRow c lpPropVals lpRes) →
      (matchAnd c lpSubResults lpAnd lpPropVals).2 = lpPropVals
  | [], _ => by
    unfold matchAnd
    rfl
  | lpRes :: rest, h => by
    have hfirst := matchRowRestrict_leaves lpRes (h lpRes List.mem_cons_self)
    have hrest := matchAnd_leaves rest fun child hmem => h child (List.mem_cons_of_mem _ hmem)
    unfold matchAnd
    generalize matchRowRestrict c lpSubResults lpRes lpPropVals = first at hfirst ⊢
    match first with
    | (.error er, _) => exact hfirst
    | (.ok false, _) => exact hfirst
    | (.ok true, _) =>
      cases hfirst
      exact hrest

end

/-- The flag that a call sets when it succeeds. -/
def flagOf : Except Failure Bool → Bool
  | .ok fMatch => fMatch
  | .error _ => false

theorem eq_ok_flagOf {result : Except Failure Bool} (hok : result.isOk) : result = .ok (flagOf result) := by
  cases result with
  | error er => cases hok
  | ok fMatch => rfl

section Children

variable {children children' : List (RestrictTable U)}
  (hleaves : ∀ child ∈ children, (matchRowRestrict c lpSubResults child lpPropVals).2 = lpPropVals)
  (hok : ∀ child ∈ children, (matchRowRestrict c lpSubResults child lpPropVals).1.isOk)
include hleaves hok

theorem matchAnd_eq_all : (matchAnd c lpSubResults children lpPropVals).1 =
      .ok (children.all fun child => flagOf (matchRowRestrict c lpSubResults child lpPropVals).1) := by
  induction children with
  | nil =>
    unfold matchAnd
    rfl
  | cons child rest ih =>
    have hfirst := eq_ok_flagOf (hok child List.mem_cons_self)
    have hrow := hleaves child List.mem_cons_self
    have ih := ih (fun child' hmem => hleaves child' (List.mem_cons_of_mem _ hmem))
      fun child' hmem => hok child' (List.mem_cons_of_mem _ hmem)
    rw [List.all_cons]
    unfold matchAnd
    generalize matchRowRestrict c lpSubResults child lpPropVals = first at hfirst hrow ⊢
    match first with
    | (.error er, _) => cases hfirst
    | (.ok false, _) => rfl
    | (.ok true, _) =>
      cases hrow
      exact ih

theorem matchOr_eq_any : (matchOr c lpSubResults children lpPropVals).1 =
      .ok (children.any fun child => flagOf (matchRowRestrict c lpSubResults child lpPropVals).1) := by
  induction children with
  | nil =>
    unfold matchOr
    rfl
  | cons child rest ih =>
    have hfirst := eq_ok_flagOf (hok child List.mem_cons_self)
    have hrow := hleaves child List.mem_cons_self
    have ih := ih (fun child' hmem => hleaves child' (List.mem_cons_of_mem _ hmem))
      fun child' hmem => hok child' (List.mem_cons_of_mem _ hmem)
    rw [List.any_cons]
    unfold matchOr
    generalize matchRowRestrict c lpSubResults child lpPropVals = first at hfirst hrow ⊢
    match first with
    | (.error er, _) => cases hfirst
    | (.ok true, _) => rfl
    | (.ok false, _) =>
      cases hrow
      exact ih

/-- The order of the restrictions below `RES_AND`. -/
theorem matchAnd_perm (hperm : children.Perm children') :
    (matchAnd c lpSubResults children' lpPropVals).1 = (matchAnd c lpSubResults children lpPropVals).1 := by
  rw [matchAnd_eq_all hleaves hok, matchAnd_eq_all (fun child hmem => hleaves child (hperm.mem_iff.mpr hmem))
    fun child hmem => hok child (hperm.mem_iff.mpr hmem)]
  congr 1
  rw [Bool.eq_iff_iff, List.all_eq_true, List.all_eq_true]
  simp only [hperm.mem_iff]

/-- The order of the restrictions below `RES_OR`. -/
theorem matchOr_perm (hperm : children.Perm children') :
    (matchOr c lpSubResults children' lpPropVals).1 = (matchOr c lpSubResults children lpPropVals).1 := by
  rw [matchOr_eq_any hleaves hok, matchOr_eq_any (fun child hmem => hleaves child (hperm.mem_iff.mpr hmem))
    fun child hmem => hok child (hperm.mem_iff.mpr hmem)]
  congr 1
  rw [Bool.eq_iff_iff, List.any_eq_true, List.any_eq_true]
  simp only [hperm.mem_iff]

end Children

theorem Within.trans {lpRes lpRes' lpsRestrict : RestrictTable U} (h : Within lpRes lpRes')
    (h' : Within lpRes' lpsRestrict) : Within lpRes lpsRestrict := by
  induction h' with
  | self => exact h
  | comment _ ih => exact .comment ih
  | not _ ih => exact .not ih
  | or hmem _ ih => exact .or hmem ih
  | and hmem _ ih => exact .and hmem ih

end Trees

/-- The row is kept in a tree whose conditions on `PR_ANR` find nothing with another tag, and only there. -/
theorem rowKept_iff (c : Calls U) (lpSubResults : Option (List (List ℕ))) (lpPropVals : Row U)
    (lpsRestrict : RestrictTable U) : RowKept c lpSubResults lpPropVals lpsRestrict ↔
      ∀ lpRes, Within lpRes lpsRestrict → LeavesRow c lpPropVals lpRes := by
  constructor
  · intro h lpRes hwithin
    have hkept := h.kept lpRes hwithin
    match lpRes with
    | .RES_PROPERTY ulType ulPropTag (some lpProp) =>
      unfold matchRowRestrict at hkept
      exact matchProperty_leaves_iff.mp hkept
    | .RES_PROPERTY _ _ none | .RES_COMMENT _ | .RES_OR _ | .RES_AND _ | .RES_NOT _ | .RES_CONTENT .. |
      .RES_COMPAREPROPS .. | .RES_BITMASK .. | .RES_SIZE .. | .RES_EXIST _ | .RES_SUBRESTRICTION | .null |
      .other _ => trivial
  · intro h
    have hkept : ∀ lpRes, Within lpRes lpsRestrict →
        (matchRowRestrict c lpSubResults lpRes lpPropVals).2 = lpPropVals :=
      fun lpRes hwithin => matchRowRestrict_leaves lpRes fun u hu => h u (hu.trans hwithin)
    refine ⟨hkept, ?_, ?_, fun lpRes hwithin => by rw [hkept lpRes hwithin]⟩
    · intro children children' hwithin hperm hok
      unfold matchRowRestrict
      exact matchAnd_perm (fun child hmem => hkept child ((Within.and hmem (.self child)).trans hwithin)) hok hperm
    · intro children children' hwithin hperm hok
      unfold matchRowRestrict
      exact matchOr_perm (fun child hmem => hkept child ((Within.or hmem (.self child)).trans hwithin)) hok hperm

/-! ## A row with a name -/

/-- The calls on rows of lower-case texts without special characters. -/
def asciiTexts : Calls (List UInt8) where
  compareProp lpProp1 lpProp2 :=
    if PROP_TYPE (valueTag lpProp1.ulPropTag) ≠ PT_TSTRING ∨ PROP_TYPE (valueTag lpProp2.ulPropTag) ≠ PT_TSTRING then none
    else if PROP_ID lpProp2.ulPropTag = PROP_ID PR_ANR then some (if lpProp2.Value <+: lpProp1.Value then 1 else 0)
    else some (if lpProp1.Value = lpProp2.Value then 0 else if lpProp1.Value < lpProp2.Value then -1 else 1)
  compareMVPropWithProp _ _ _ := none
  contentMatches _ _ _ _ _ := false
  regularExpression lpszA text := lpszA <:+: text
  propSize lpProp := BitVec.ofNat 32 lpProp.Value.length
  ul _ := 0
  GetObjectFromEntryId _ := none

/-- The condition that the name begins with "bob", as a client asks for it. -/
def bobCondition : RestrictTable (List UInt8) := .RES_PROPERTY RELOP_EQ PR_ANR (some ⟨PR_ANR, [98, 111, 98]⟩)

/-- A row with the name "bob". -/
def bobRow : Row (List UInt8) := [⟨PR_DISPLAY_NAME, [98, 111, 98]⟩]

/-- The name is found and loses its tag: a condition on it holds before and not after, and so does the same one. -/
theorem not_rowKept : ¬ RowKept asciiTexts none bobRow (.RES_AND [bobCondition, .RES_EXIST PR_DISPLAY_NAME]) ∧
    (matchRowRestrict asciiTexts none bobCondition bobRow).2 = [⟨PR_ANR, [98, 111, 98]⟩] ∧
    (matchRowRestrict asciiTexts none (.RES_AND [.RES_EXIST PR_DISPLAY_NAME, bobCondition]) bobRow).1 = .ok true ∧
    (matchRowRestrict asciiTexts none (.RES_AND [bobCondition, .RES_EXIST PR_DISPLAY_NAME]) bobRow).1 = .ok false ∧
    (matchRowRestrict asciiTexts none bobCondition bobRow).1 = .ok true ∧
    (matchRowRestrict asciiTexts none bobCondition (matchRowRestrict asciiTexts none bobCondition bobRow).2).1 =
      .ok false := by
  have hrow : (matchRowRestrict asciiTexts none bobCondition bobRow).2 = [⟨PR_ANR, [98, 111, 98]⟩] := by decide
  refine ⟨fun h => ?_, hrow, by decide, by decide, by decide, by decide⟩
  have hkept := h.kept bobCondition (.and List.mem_cons_self (.self _))
  rw [hrow] at hkept
  exact absurd hkept (by decide)

end Zcp.Libserver.ECGenericObjectTable.RowState
