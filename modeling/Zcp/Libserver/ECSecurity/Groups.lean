import Mathlib.Data.Finset.Range
import Mathlib.Data.Finset.Image
import Zcp.Libserver.ECSecurity
import Zcp.Lib.Worklist

/-!
# The groups of a user

`ECSecurity::GetGroupsForUser`: the groups a user is in, with the groups that these are in, and so on. The list
of groups is a worklist: the loop appends to the list it goes through. A group is marked as seen when the loop
comes to it, so that it is appended once for each of its members that come before it
(`GetGroupsForUser_once_iff`).
-/

namespace Zcp.Libserver

open Zcp.Lib

/-- `objectclass_t`. -/
inductive objectclass_t where
  | OBJECTCLASS_UNKNOWN
  | OBJECTCLASS_USER
  | ACTIVE_USER
  | NONACTIVE_USER
  | NONACTIVE_ROOM
  | NONACTIVE_EQUIPMENT
  | NONACTIVE_CONTACT
  | OBJECTCLASS_DISTLIST
  | DISTLIST_GROUP
  | DISTLIST_SECURITY
  | DISTLIST_DYNAMIC
  | OBJECTCLASS_CONTAINER
  | CONTAINER_COMPANY
  | CONTAINER_ADDRESSLIST
deriving DecidableEq, Repr

/-- What `USERMANAGEMENT_IDS_ONLY` leaves of `localobjectdetails_t`. Two of them are compared by their id. -/
structure localobjectdetails_t where
  ulId : UserId
  objclass : objectclass_t
deriving DecidableEq, Repr

/-- What the session knows of groups: who is in which, and what the user may see. -/
structure GroupLookup where
  /-- `GetParentObjectsOfObjectAndSync` for `OBJECTRELATION_GROUP_MEMBER`. -/
  GetParentObjectsOfObjectAndSync : UserId → Except Failure (List localobjectdetails_t)
  IsUserObjectVisible : UserId → ECRESULT
  /-- The list comes out of `sort` and `unique`. -/
  sorted : ∀ i groups, GetParentObjectsOfObjectAndSync i = .ok groups →
    groups.Pairwise fun g h => g.ulId < h.ulId

namespace GroupLookup

variable (lookup : GroupLookup)

/-- A group that counts. -/
def shown (g : localobjectdetails_t) : Bool :=
  lookup.IsUserObjectVisible g.ulId = .erSuccess ∧ g.objclass ≠ .DISTLIST_DYNAMIC

/-- The groups that an object is in, none when they cannot be read. -/
def parentsOf (i : UserId) : List localobjectdetails_t :=
  match lookup.GetParentObjectsOfObjectAndSync i with
  | .ok groups => groups
  | .error _ => []

/-- The loop of `GetGroupsForUser`, with the groups it has kept. Hidden and dynamic groups are erased. -/
def groupsLoop : (fuel : ℕ) → (m_seen : Finset UserId) → (kept todo : List localobjectdetails_t) →
    Option (List localobjectdetails_t)
  | _, _, kept, [] => some kept
  | 0, _, _, _ :: _ => none
  | fuel + 1, m_seen, kept, g :: todo =>
    if lookup.shown g then
      let m_seen := insert g.ulId m_seen
      groupsLoop fuel m_seen (kept ++ [g]) (todo ++ (lookup.parentsOf g.ulId).filter (·.ulId ∉ m_seen))
    else groupsLoop fuel m_seen kept todo

/-- `ECSecurity::GetGroupsForUser`. -/
def GetGroupsForUser (fuel : ℕ) (ulUserId : UserId) : Option (Except Failure (List localobjectdetails_t)) :=
  match lookup.GetParentObjectsOfObjectAndSync ulUserId with
  | .error er => some (.error er)
  | .ok groups => (lookup.groupsLoop fuel ∅ [] groups).map .ok

/-! ## The memberships that count -/

/-- The shown groups that an object is in. -/
def groupsOf (i : UserId) : List UserId := ((lookup.parentsOf i).filter lookup.shown).map (·.ulId)

/-- A group is reached from an object through shown groups. -/
def Belongs (i g : UserId) : Prop := Relation.TransGen (fun x y => y ∈ lookup.groupsOf x) i g

/-- The function ends, with an error or with the groups the user belongs to, each of them once. -/
def ReturnsEachOnce (ulUserId : UserId) : Prop :=
  ∃ fuel result, lookup.GetGroupsForUser fuel ulUserId = some result ∧
    ∀ groups, result = .ok groups →
      (groups.map (·.ulId)).Nodup ∧ ∀ g, g ∈ groups.map (·.ulId) ↔ lookup.Belongs ulUserId g

/-- Among the user and the groups that a breadth-first walk meets ahead of it, every group has only one
member. -/
def MetOnce (ulUserId : UserId) : Prop := Worklist.MetOnce lookup.groupsOf (lookup.groupsOf ulUserId)

theorem groupsOf_nodup (i : UserId) : (lookup.groupsOf i).Nodup := by
  have hsorted : (lookup.parentsOf i).Pairwise fun g h => g.ulId < h.ulId := by
    unfold parentsOf
    cases hget : lookup.GetParentObjectsOfObjectAndSync i with
    | error er => exact List.Pairwise.nil
    | ok groups => exact lookup.sorted i groups hget
  rw [groupsOf, List.Nodup, List.pairwise_map]
  refine (hsorted.filter _).imp fun {g h} hlt heq => ?_
  rw [heq] at hlt
  exact UInt32.lt_irrefl _ hlt

/-! ## The loop -/

variable {lookup} {m_seen : Finset UserId} {kept todo r : List localobjectdetails_t}

theorem groupsLoop_nil (fuel : ℕ) : lookup.groupsLoop fuel m_seen kept [] = some kept := by
  cases fuel <;> rfl

theorem groupsLoop_mono {fuel fuel' : ℕ} (h : lookup.groupsLoop fuel m_seen kept todo = some r)
    (hle : fuel ≤ fuel') : lookup.groupsLoop fuel' m_seen kept todo = some r := by
  induction fuel generalizing fuel' m_seen kept todo with
  | zero =>
    cases todo with
    | nil => rwa [groupsLoop_nil] at h ⊢
    | cons g todo => cases h
  | succ fuel ih =>
    cases todo with
    | nil => rwa [groupsLoop_nil] at h ⊢
    | cons g todo =>
      obtain ⟨fuel', rfl⟩ : ∃ k, fuel' = k + 1 := ⟨fuel' - 1, by omega⟩
      have hle := Nat.le_of_succ_le_succ hle
      simp only [groupsLoop] at h ⊢
      split_ifs at h ⊢
      · exact ih h hle
      · exact ih h hle

theorem groupsLoop_det {fuel fuel' : ℕ} {r' : List localobjectdetails_t}
    (h : lookup.groupsLoop fuel m_seen kept todo = some r)
    (h' : lookup.groupsLoop fuel' m_seen kept todo = some r') : r = r' := by
  have h := groupsLoop_mono h (Nat.le_max_left fuel fuel')
  have h' := groupsLoop_mono h' (Nat.le_max_right fuel fuel')
  exact Option.some_inj.mp (h.symm.trans h')

/-- The ids of the shown groups of a list. -/
def shownIds (lookup : GroupLookup) (l : List localobjectdetails_t) : List UserId :=
  (l.filter lookup.shown).map (·.ulId)

theorem shownIds_append (l l' : List localobjectdetails_t) :
    shownIds lookup (l ++ l') = shownIds lookup l ++ shownIds lookup l' := by
  rw [shownIds, List.filter_append, List.map_append]
  rfl

theorem shownIds_filter (m_seen : Finset UserId) (i : UserId) :
    shownIds lookup ((lookup.parentsOf i).filter (·.ulId ∉ m_seen)) = (lookup.groupsOf i).filter (· ∉ m_seen) := by
  rw [shownIds, groupsOf, List.filter_map, List.filter_filter, List.filter_filter]
  simp only [Function.comp_def, Bool.and_comm]

/-- The loop reads the ids of the shown groups as a worklist. -/
theorem groupsLoop_of_run {fuel : ℕ} {ids : List UserId} (hseen : ∀ i, i ∈ m_seen ↔ i ∈ kept.map (·.ulId))
    (h : Worklist.run lookup.groupsOf fuel (kept.map (·.ulId)) (shownIds lookup todo) = some ids) :
    ∃ fuel' r, lookup.groupsLoop fuel' m_seen kept todo = some r ∧ r.map (·.ulId) = ids := by
  induction fuel generalizing m_seen kept todo with
  | zero =>
    -- nothing is shown any more: the rest is erased
    induction todo with
    | nil =>
      cases h
      exact ⟨0, kept, rfl, rfl⟩
    | cons g todo ih =>
      by_cases hg : lookup.shown g
      · rw [shownIds, List.filter_cons_of_pos hg] at h
        cases h
      · rw [shownIds, List.filter_cons_of_neg hg] at h
        obtain ⟨fuel', r, hr, hids⟩ := ih h
        exact ⟨fuel' + 1, r, by rw [groupsLoop, if_neg hg, hr], hids⟩
  | succ fuel ih =>
    induction todo with
    | nil =>
      cases h
      exact ⟨0, kept, rfl, rfl⟩
    | cons g todo ihtodo =>
      by_cases hg : lookup.shown g
      · rw [shownIds, List.filter_cons_of_pos hg, List.map_cons, Worklist.run] at h
        have hseen' : ∀ i, i ∈ insert g.ulId m_seen ↔ i ∈ (kept ++ [g]).map (·.ulId) := by
          intro i
          rw [Finset.mem_insert, hseen, List.map_append, List.mem_append, List.map_singleton,
            List.mem_singleton, or_comm]
        have hfilter : (lookup.groupsOf g.ulId).filter (· ∉ kept.map (·.ulId) ++ [g.ulId]) =
            (lookup.groupsOf g.ulId).filter (· ∉ insert g.ulId m_seen) := by
          refine List.filter_congr fun i _ => ?_
          simp only [hseen', List.map_append, List.map_singleton]
        obtain ⟨fuel', r, hr, hids⟩ := @ih _ _ (todo ++ (lookup.parentsOf g.ulId).filter
            (·.ulId ∉ insert g.ulId m_seen)) hseen' (by
          rw [shownIds_append, shownIds_filter, List.map_append, List.map_singleton, ← hfilter]
          exact h)
        exact ⟨fuel' + 1, r, by rw [groupsLoop, if_pos hg, hr], hids⟩
      · rw [shownIds, List.filter_cons_of_neg hg] at h
        obtain ⟨fuel', r, hr, hids⟩ := ihtodo h
        exact ⟨fuel' + 1, r, by rw [groupsLoop, if_neg hg, hr], hids⟩

theorem belongs_iff (i g : UserId) : lookup.Belongs i g ↔ Worklist.Reached lookup.groupsOf (lookup.groupsOf i) g :=
  Relation.TransGen.head'_iff

/-- All ids. -/
def allIds : Finset UserId := (Finset.range (2 ^ 32)).image UInt32.ofNat

theorem mem_allIds (i : UserId) : i ∈ allIds :=
  Finset.mem_image.mpr ⟨i.toNat, Finset.mem_range.mpr i.toNat_lt, UInt32.ofNat_toNat⟩

theorem GetGroupsForUser_ok {ulUserId : UserId} {groups : List localobjectdetails_t}
    (hget : lookup.GetParentObjectsOfObjectAndSync ulUserId = .ok groups) (fuel : ℕ) :
    lookup.GetGroupsForUser fuel ulUserId = (lookup.groupsLoop fuel ∅ [] groups).map .ok := by
  rw [GetGroupsForUser, hget]

/-- The loop ends, with the ids of a worklist that has been read. -/
theorem groupsLoop_ends {ulUserId : UserId} {groups : List localobjectdetails_t}
    (hget : lookup.GetParentObjectsOfObjectAndSync ulUserId = .ok groups) :
    ∃ fuel r n, lookup.groupsLoop fuel ∅ [] groups = some r ∧
      Worklist.run lookup.groupsOf n [] (lookup.groupsOf ulUserId) = some (r.map (·.ulId)) := by
  have hall : ∀ l : List UserId, l ⊆ allIds.toList := fun l i _ =>
    Finset.mem_toList.mpr (mem_allIds i)
  obtain ⟨n, ids, hrun⟩ := Worklist.run_ends allIds (fun i _ => hall (lookup.groupsOf i)) []
    (lookup.groupsOf ulUserId) (hall _)
  have hstart : lookup.groupsOf ulUserId = shownIds lookup groups := by
    rw [groupsOf, parentsOf, hget]
    rfl
  obtain ⟨fuel, r, hr, hids⟩ := groupsLoop_of_run
    (by simp : ∀ i, i ∈ (∅ : Finset UserId) ↔ i ∈ ([] : List localobjectdetails_t).map (·.ulId)) (hstart ▸ hrun)
  exact ⟨fuel, r, n, hr, by rw [hrun, hids]⟩

theorem metOnce_of_error {ulUserId : UserId} {er : Failure}
    (hget : lookup.GetParentObjectsOfObjectAndSync ulUserId = .error er) : lookup.MetOnce ulUserId := by
  have hnone : lookup.groupsOf ulUserId = [] := by
    rw [groupsOf, parentsOf, hget]
    rfl
  have hwalks : ∀ n, Worklist.walks lookup.groupsOf [] n = [] := by
    intro n
    induction n with
    | zero => rfl
    | succ n ih => rw [Worklist.walks, ih]; rfl
  have hahead : ∀ s g, Worklist.SourceAhead lookup.groupsOf [] s g → s = none := by
    intro s g hs
    cases s with
    | none => rfl
    | some x =>
      obtain ⟨n, hn, -⟩ := hs x rfl
      rw [hwalks] at hn
      cases hn
  intro g s s' hs hs' _ _
  rw [hnone] at hs hs'
  rw [hahead s g hs, hahead s' g hs']

/-- `GetGroupsForUser` always ends with the groups the user belongs to; none of them is on the list twice
exactly when no group is met twice. -/
theorem GetGroupsForUser_once_iff (lookup : GroupLookup) (ulUserId : UserId) :
    lookup.ReturnsEachOnce ulUserId ↔ lookup.MetOnce ulUserId := by
  cases hget : lookup.GetParentObjectsOfObjectAndSync ulUserId with
  | error er =>
    refine iff_of_true ⟨0, .error er, by rw [GetGroupsForUser, hget], ?_⟩ (metOnce_of_error hget)
    rintro groups ⟨⟩
  | ok groups =>
    obtain ⟨fuel, r, n, hr, hrun⟩ := groupsLoop_ends hget
    have hnodup := Worklist.run_nodup_iff (lookup.groupsOf_nodup ulUserId) lookup.groupsOf_nodup hrun
    constructor
    · rintro ⟨fuel', result, hresult, h⟩
      rw [GetGroupsForUser_ok hget] at hresult
      obtain ⟨r', hr', rfl⟩ := Option.map_eq_some_iff.mp hresult
      rw [groupsLoop_det hr hr'] at hnodup
      exact hnodup.mp (h r' rfl).1
    · intro honce
      refine ⟨fuel, .ok r, by rw [GetGroupsForUser_ok hget, hr]; rfl, ?_⟩
      rintro groups ⟨⟩
      refine ⟨hnodup.mpr honce, fun g => ?_⟩
      rw [belongs_iff, Worklist.mem_run_iff hrun]

/-- Whatever the memberships are, the function ends with the groups the user belongs to, some of them perhaps
more than once. -/
theorem GetGroupsForUser_groups (lookup : GroupLookup) (ulUserId : UserId) :
    ∃ fuel result, lookup.GetGroupsForUser fuel ulUserId = some result ∧
      ∀ groups, result = .ok groups → ∀ g, g ∈ groups.map (·.ulId) ↔ lookup.Belongs ulUserId g := by
  cases hget : lookup.GetParentObjectsOfObjectAndSync ulUserId with
  | error er =>
    refine ⟨0, .error er, by rw [GetGroupsForUser, hget], ?_⟩
    rintro groups ⟨⟩
  | ok groups =>
    obtain ⟨fuel, r, n, hr, hrun⟩ := groupsLoop_ends hget
    refine ⟨fuel, .ok r, by rw [GetGroupsForUser_ok hget, hr]; rfl, ?_⟩
    rintro groups ⟨⟩ g
    rw [belongs_iff, Worklist.mem_run_iff hrun]

def ZARAFA_UID_EVERYONE : UserId := 1

/-- User 10 is in the groups 11 and 12, group 11 is in group 12, and everyone in the group of everyone, of which
nothing can be asked. -/
def nestedGroups : GroupLookup where
  GetParentObjectsOfObjectAndSync i :=
    let everyone := ⟨ZARAFA_UID_EVERYONE, .DISTLIST_SECURITY⟩
    if i = ZARAFA_UID_EVERYONE then .error notFound
    else if i = 10 then .ok [everyone, ⟨11, .DISTLIST_SECURITY⟩, ⟨12, .DISTLIST_SECURITY⟩]
    else if i = 11 then .ok [everyone, ⟨12, .DISTLIST_SECURITY⟩]
    else .ok [everyone]
  IsUserObjectVisible _ := .erSuccess
  sorted i groups h := by
    split_ifs at h <;> cases h <;> simp [ZARAFA_UID_EVERYONE]

/-- Group 12 is on the list twice. -/
theorem GetGroupsForUser_not_unique : ¬ ∀ (lookup : GroupLookup) (ulUserId : UserId),
    lookup.ReturnsEachOnce ulUserId := by
  intro h
  obtain ⟨fuel, result, hresult, hall⟩ := h nestedGroups 10
  have hget : nestedGroups.GetParentObjectsOfObjectAndSync 10 = .ok
      [⟨1, .DISTLIST_SECURITY⟩, ⟨11, .DISTLIST_SECURITY⟩, ⟨12, .DISTLIST_SECURITY⟩] := rfl
  have hrun : nestedGroups.groupsLoop 5 ∅ []
      [⟨1, .DISTLIST_SECURITY⟩, ⟨11, .DISTLIST_SECURITY⟩, ⟨12, .DISTLIST_SECURITY⟩] = some
      [⟨1, .DISTLIST_SECURITY⟩, ⟨11, .DISTLIST_SECURITY⟩, ⟨12, .DISTLIST_SECURITY⟩,
        ⟨12, .DISTLIST_SECURITY⟩] := by decide
  rw [GetGroupsForUser_ok hget] at hresult
  obtain ⟨r', hr', rfl⟩ := Option.map_eq_some_iff.mp hresult
  rw [← groupsLoop_det hrun hr'] at hall
  exact absurd (hall _ rfl).1 (by decide)

end GroupLookup

end Zcp.Libserver
