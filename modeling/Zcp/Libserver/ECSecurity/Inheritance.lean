import Mathlib.Data.Multiset.Fold
import Mathlib.Data.Multiset.Dedup
import Zcp.Libserver.ECSecurity

/-!
# Inherited rights

What `ECSecurity::GetObjectPermission` finds on its way up: the rights of the nearest object whose access list
has a grant for the user, the company or one of the groups. Three scans of the list make one set of entries, so
that neither their order nor repeated ids matter.
-/

namespace Zcp.Libserver.ECSecurity

variable (sec : ECSecurity)

/-! ## Entries and parents -/

/-- The ids that an access list is looked through for. -/
def ids : List UserId := sec.m_ulUserID :: sec.m_ulCompanyID :: sec.groups.getD []

/-- The grants of an object for one of the ids; none when the list cannot be read. -/
def grantEntries (i : ObjId) : List Rights :=
  match sec.GetACLs i with
  | .ok rights => rights.filter fun r => r.ulType = ACCESS_TYPE_GRANT ∧ r.ulUserid ∈ sec.ids
  | .error _ => []

/-- The object `n` levels above. -/
def parentAt (x : ObjId) : ℕ → Option ObjId
  | 0 => some x
  | n + 1 => (parentAt x n).bind fun i => (sec.GetParent i).toOption

/-- The nearest object with a grant, not more than 64 levels up. -/
def Nearest (x i : ObjId) : Prop :=
  ∃ n ≤ MAX_PARENT_LIMIT, sec.parentAt x n = some i ∧ sec.grantEntries i ≠ [] ∧
    ∀ m < n, ∀ j ∈ sec.parentAt x m, sec.grantEntries j = []

/-- The bitwise or of rights. -/
def orOf (rights : List UInt32) : UInt32 := rights.foldl (· ||| ·) 0

/-- The same rights, users and groups in another order. -/
structure SameUpToOrder (sec sec' : ECSecurity) : Prop where
  user : sec'.m_ulUserID = sec.m_ulUserID
  company : sec'.m_ulCompanyID = sec.m_ulCompanyID
  object : sec'.GetObject = sec.GetObject
  groups : sec'.groups = none ∧ sec.groups = none ∨
    ∃ g g', sec'.groups = some g' ∧ sec.groups = some g ∧ g'.Perm g
  acls : ∀ i, (∃ er er', sec'.GetACLs i = .error er' ∧ sec.GetACLs i = .error er) ∨
    ∃ r r', sec'.GetACLs i = .ok r' ∧ sec.GetACLs i = .ok r ∧ r'.Perm r

/-! ## Sets of rights -/

/-- Only the set of the rights counts. -/
theorem orOf_congr {l l' : List UInt32} (h : ∀ r, r ∈ l ↔ r ∈ l') : orOf l = orOf l' := by
  have hdedup : (l : Multiset UInt32).dedup = (l' : Multiset UInt32).dedup :=
    Multiset.dedup_ext.mpr fun r => by rw [Multiset.mem_coe, Multiset.mem_coe, h]
  have hfold : ∀ l : List UInt32, orOf l =
      (l : Multiset UInt32).fold (fun a b : UInt32 => a ||| b) 0 := fun l =>
    (Multiset.coe_fold_l _ _ _).symm
  rw [hfold, hfold, ← Multiset.fold_dedup_idem, hdedup, Multiset.fold_dedup_idem]

variable {sec}

theorem mem_grantsOf {rights : List Rights} {r : UInt32} : r ∈ sec.grantsOf rights ↔
    r ∈ (rights.filter fun e => e.ulType = ACCESS_TYPE_GRANT ∧ e.ulUserid ∈ sec.ids).map (·.ulRights) := by
  simp only [grantsOf, ids, List.mem_append, List.mem_flatMap, List.mem_map, List.mem_filter, List.mem_cons,
    decide_eq_true_eq]
  constructor
  · rintro ((⟨e, ⟨⟨he, hgrant⟩, hid⟩, rfl⟩ | ⟨e, ⟨⟨he, hgrant⟩, hid⟩, rfl⟩) |
      ⟨g, hg, e, ⟨⟨he, hgrant⟩, hid⟩, rfl⟩)
    · exact ⟨e, ⟨he, hgrant, .inl hid⟩, rfl⟩
    · exact ⟨e, ⟨he, hgrant, .inr (.inl hid)⟩, rfl⟩
    · exact ⟨e, ⟨he, hgrant, .inr (.inr (hid ▸ hg))⟩, rfl⟩
  · rintro ⟨e, ⟨he, hgrant, hid | hid | hid⟩, rfl⟩
    · exact .inl (.inl ⟨e, ⟨⟨he, hgrant⟩, hid⟩, rfl⟩)
    · exact .inl (.inr ⟨e, ⟨⟨he, hgrant⟩, hid⟩, rfl⟩)
    · exact .inr ⟨_, hid, e, ⟨⟨he, hgrant⟩, rfl⟩, rfl⟩

/-- The rights that the scans of an object find. -/
def found (sec : ECSecurity) (i : ObjId) : List UInt32 :=
  match sec.GetACLs i with
  | .ok rights => sec.grantsOf rights
  | .error _ => []

theorem mem_found {i : ObjId} {r : UInt32} : r ∈ sec.found i ↔ r ∈ (sec.grantEntries i).map (·.ulRights) := by
  unfold found grantEntries
  cases sec.GetACLs i with
  | ok rights => exact mem_grantsOf
  | error er => rfl

theorem found_eq_nil {i : ObjId} : sec.found i = [] ↔ sec.grantEntries i = [] := by
  rw [List.eq_nil_iff_forall_not_mem, ← List.map_eq_nil_iff (f := (·.ulRights)),
    List.eq_nil_iff_forall_not_mem]
  exact forall_congr' fun r => not_congr mem_found

/-! ## The walk -/

/-- One turn of the loop. -/
theorem objectRights_eq (left : ℕ) (i : ObjId) : sec.objectRights left i =
    if sec.grantEntries i ≠ [] then orOf ((sec.grantEntries i).map (·.ulRights))
    else match sec.GetParent i, left with
      | .ok ulParent, left + 1 => sec.objectRights left ulParent
      | _, _ => 0 := by
  have hloop : sec.objectRights left i =
      if sec.found i ≠ [] then orOf (sec.found i)
      else match sec.GetParent i, left with
        | .ok ulParent, left + 1 => sec.objectRights left ulParent
        | _, _ => 0 := by
    conv_lhs => unfold objectRights
    rfl
  rw [hloop, orOf_congr fun r => mem_found]
  simp only [ne_eq, found_eq_nil]

theorem parentAt_parent {x ulParent : ObjId} (h : sec.GetParent x = .ok ulParent) (n : ℕ) :
    sec.parentAt ulParent n = sec.parentAt x (n + 1) := by
  induction n with
  | zero => simp [parentAt, h, Except.toOption]
  | succ n ih => rw [parentAt, ih]; rfl

theorem parentAt_end {x : ObjId} {er : Failure} (h : sec.GetParent x = .error er) (n : ℕ) :
    sec.parentAt x (n + 1) = none := by
  induction n with
  | zero => simp [parentAt, h, Except.toOption]
  | succ n ih => rw [parentAt, ih]; rfl

/-- The loop with `left` parents to go stops at the first object with a grant, if that is near enough. -/
theorem objectRights_spec (left : ℕ) (x : ObjId) :
    (∀ n ≤ left, ∀ i, sec.parentAt x n = some i → sec.grantEntries i ≠ [] →
      (∀ m < n, ∀ j ∈ sec.parentAt x m, sec.grantEntries j = []) →
      sec.objectRights left x = orOf ((sec.grantEntries i).map (·.ulRights))) ∧
    ((∀ n ≤ left, ∀ i ∈ sec.parentAt x n, sec.grantEntries i = []) → sec.objectRights left x = 0) := by
  induction left generalizing x with
  | zero =>
    constructor
    · intro n hn i hi hgrant _
      obtain rfl : n = 0 := Nat.le_zero.mp hn
      cases hi
      rw [objectRights_eq, if_pos hgrant]
    · intro hnone
      have hx := hnone 0 le_rfl x rfl
      rw [objectRights_eq, if_neg (by simpa using hx)]
      cases sec.GetParent x <;> rfl
  | succ left ih =>
    constructor
    · intro n hn i hi hgrant hbefore
      cases n with
      | zero =>
        cases hi
        rw [objectRights_eq, if_pos hgrant]
      | succ n =>
        have hx := hbefore 0 (Nat.succ_pos n) x rfl
        cases hparent : sec.GetParent x with
        | error er =>
          rw [parentAt_end hparent] at hi
          cases hi
        | ok ulParent =>
          rw [← parentAt_parent hparent] at hi
          rw [objectRights_eq, if_neg (by simpa using hx), hparent]
          refine (ih ulParent).1 n (Nat.le_of_succ_le_succ hn) i hi hgrant fun m hm j hj => ?_
          rw [parentAt_parent hparent] at hj
          exact hbefore (m + 1) (Nat.succ_lt_succ hm) j hj
    · intro hnone
      have hx := hnone 0 (Nat.zero_le _) x rfl
      rw [objectRights_eq, if_neg (by simpa using hx)]
      cases hparent : sec.GetParent x with
      | error er => rfl
      | ok ulParent =>
        refine (ih ulParent).2 fun n hn i hi => ?_
        rw [parentAt_parent hparent] at hi
        exact hnone (n + 1) (Nat.succ_le_succ hn) i hi

/-- Either some object is the nearest with a grant, or none within the limit has one. -/
theorem nearest_or_none (sec : ECSecurity) (x : ObjId) : (∃ i, sec.Nearest x i) ∨
    ∀ n ≤ MAX_PARENT_LIMIT, ∀ i ∈ sec.parentAt x n, sec.grantEntries i = [] := by
  classical
  by_cases h : ∃ n ≤ MAX_PARENT_LIMIT, ∃ i ∈ sec.parentAt x n, sec.grantEntries i ≠ []
  · obtain ⟨hle, i, hi, hgrant⟩ := Nat.find_spec h
    refine .inl ⟨i, Nat.find h, hle, hi, hgrant, fun m hm j hj => ?_⟩
    by_contra hne
    exact Nat.find_min h hm ⟨hm.le.trans hle, j, hj, hne⟩
  · push Not at h
    exact .inr h

/-! ## The order of the lists -/

namespace SameUpToOrder

variable {sec' : ECSecurity} (h : SameUpToOrder sec sec')
include h

theorem mem_ids (i : UserId) : i ∈ sec'.ids ↔ i ∈ sec.ids := by
  have hgroups : i ∈ sec'.groups.getD [] ↔ i ∈ sec.groups.getD [] := by
    rcases h.groups with ⟨hg', hg⟩ | ⟨g, g', hg', hg, hperm⟩
    · rw [hg, hg']
    · rw [hg, hg']
      exact hperm.mem_iff
  rw [ids, ids, h.user, h.company, List.mem_cons, List.mem_cons, List.mem_cons, List.mem_cons, hgroups]

theorem mem_grantEntries (i : ObjId) (r : Rights) : r ∈ sec'.grantEntries i ↔ r ∈ sec.grantEntries i := by
  unfold grantEntries
  rcases h.acls i with ⟨er, er', he', he⟩ | ⟨l, l', hl', hl, hperm⟩
  · rw [he, he']
  · rw [hl, hl']
    simp only [List.mem_filter, decide_eq_true_eq, h.mem_ids, hperm.mem_iff]

theorem grantEntries_eq_nil (i : ObjId) : sec'.grantEntries i = [] ↔ sec.grantEntries i = [] := by
  rw [List.eq_nil_iff_forall_not_mem, List.eq_nil_iff_forall_not_mem]
  exact forall_congr' fun r => not_congr (h.mem_grantEntries i r)

theorem objectRights_eq (left : ℕ) (x : ObjId) : sec'.objectRights left x = sec.objectRights left x := by
  have hparent : ∀ i, sec'.GetParent i = sec.GetParent i := fun i => by rw [GetParent, GetParent, h.object]
  have hor : ∀ i, orOf ((sec'.grantEntries i).map (·.ulRights)) =
      orOf ((sec.grantEntries i).map (·.ulRights)) := by
    intro i
    refine orOf_congr fun r => ?_
    simp only [List.mem_map, h.mem_grantEntries]
  induction left generalizing x with
  | zero =>
    rw [ECSecurity.objectRights_eq, ECSecurity.objectRights_eq]
    simp only [ne_eq, h.grantEntries_eq_nil, hor, hparent]
    cases sec.GetParent x <;> rfl
  | succ left ih =>
    rw [ECSecurity.objectRights_eq, ECSecurity.objectRights_eq]
    simp only [ne_eq, h.grantEntries_eq_nil, hor, hparent]
    cases sec.GetParent x with
    | ok ulParent => simp only [ih]
    | error er => rfl

end SameUpToOrder

/-- `GetObjectPermission` returns all rights granted at the nearest object with a grant, none when there is no such
object, and does not depend on the order of entries and groups. -/
theorem GetObjectPermission_spec (sec : ECSecurity) (x : ObjId) : (∀ i, sec.Nearest x i →
      sec.GetObjectPermission x = orOf ((sec.grantEntries i).map (·.ulRights))) ∧
    ((¬ ∃ i, sec.Nearest x i) → sec.GetObjectPermission x = 0) ∧
    ∀ sec', SameUpToOrder sec sec' → sec'.GetObjectPermission x = sec.GetObjectPermission x := by
  refine ⟨?_, ?_, ?_⟩
  · rintro i ⟨n, hn, hi, hgrant, hbefore⟩
    exact (objectRights_spec MAX_PARENT_LIMIT x).1 n hn i hi hgrant hbefore
  · intro hnone
    exact (objectRights_spec MAX_PARENT_LIMIT x).2 ((nearest_or_none sec x).resolve_left hnone)
  · intro sec' h
    exact h.objectRights_eq MAX_PARENT_LIMIT x

end Zcp.Libserver.ECSecurity
