import Zcp.Libserver.ECSecurity

/-!
# Writing below deleted folders

`CheckDeletedParent` visits up to 65 objects of a chain and refuses when it visited exactly 64. What it
accepts is `checkDeletedParent_iff`, and on which caches that keeps deleted folders closed is
`writesUndeleted_iff`.
-/

namespace Zcp.Libserver

namespace CacheObject

def isDeleted (obj : CacheObject) : Bool := obj.ulFlags &&& MSGFLAG_DELETED ≠ 0

/-- A chain of parents ends here: with a store, or without a parent. -/
def isTop (obj : CacheObject) : Bool := obj.ulType = MAPI_STORE ∨ obj.ulParent = CACHE_NO_PARENT

end CacheObject

/-- The `n`-th object above `x`, up to the end of the chain or to an object that cannot be read. -/
def ancestor (cache : ObjectCache) (x : ObjId) : ℕ → Option ObjId
  | 0 => some x
  | n + 1 =>
    match ancestor cache x n with
    | none => none
    | some i =>
      match cache i with
      | .ok obj => if obj.isTop then none else some obj.ulParent
      | .error _ => none

/-- The `n`-th object above `x`, read. -/
def objectAt (cache : ObjectCache) (x : ObjId) (n : ℕ) : Option CacheObject :=
  (ancestor cache x n).bind fun i => (cache i).toOption

namespace ECSecurity

variable {cache : ObjectCache} {x i : ObjId} {n m : ℕ} {obj : CacheObject}

/-- The chain reaches its `n`-th object, which is deleted or cannot be read. -/
def Barred (cache : ObjectCache) (x : ObjId) (n : ℕ) : Prop :=
  (ancestor cache x n).isSome ∧ ∀ obj, objectAt cache x n = some obj → obj.isDeleted

/-- The `n`-th object is there and not deleted. -/
def Clear (cache : ObjectCache) (x : ObjId) (n : ℕ) : Prop :=
  ∃ obj, objectAt cache x n = some obj ∧ obj.isDeleted = false

/-- The chain ends with its `n`-th object. -/
def EndsAt (cache : ObjectCache) (x : ObjId) (n : ℕ) : Prop :=
  ∃ obj, objectAt cache x n = some obj ∧ obj.isTop

/-- The `n`-th object is a store. -/
def StoreAt (cache : ObjectCache) (x : ObjId) (n : ℕ) : Prop :=
  ∃ obj, objectAt cache x n = some obj ∧ obj.ulType = MAPI_STORE

theorem objectAt_eq_some : objectAt cache x n = some obj ↔ ∃ i, ancestor cache x n = some i ∧ cache i = .ok obj := by
  unfold objectAt
  rw [Option.bind_eq_some_iff]
  refine exists_congr fun i => and_congr_right fun _ => ?_
  cases cache i with
  | error er => simp [Except.toOption]
  | ok o => simp [Except.toOption]

/-! ## The chain -/

theorem ancestor_succ (hi : ancestor cache x n = some i) (hobj : cache i = .ok obj) :
    ancestor cache x (n + 1) = if obj.isTop then none else some obj.ulParent := by
  simp [ancestor, hi, hobj]

/-- Nothing is above the end of the chain. -/
theorem ancestor_above (h : EndsAt cache x n) (hm : n < m) : ancestor cache x m = none := by
  obtain ⟨obj, hobj, htop⟩ := h
  obtain ⟨i, hi, hok⟩ := objectAt_eq_some.mp hobj
  induction m, hm using Nat.le_induction with
  | base => rw [ancestor_succ hi hok, if_pos htop]
  | succ m _ ih => simp [ancestor, ih]

theorem Clear.reached (h : Clear cache x n) : (ancestor cache x n).isSome := by
  obtain ⟨obj, hobj, -⟩ := h
  obtain ⟨i, hi, -⟩ := objectAt_eq_some.mp hobj
  rw [hi]
  rfl

theorem StoreAt.endsAt (h : StoreAt cache x n) : EndsAt cache x n := by
  obtain ⟨obj, hobj, hstore⟩ := h
  exact ⟨obj, hobj, by simp [CacheObject.isTop, hstore]⟩

/-- A chain that reaches its `m`-th object does not end before. -/
theorem not_endsAt_of_reached (hm : (ancestor cache x m).isSome) (hn : n < m) : ¬ EndsAt cache x n := by
  intro h
  rw [ancestor_above h hn] at hm
  cases hm

theorem clear_or_barred (h : (ancestor cache x n).isSome) : Clear cache x n ∨ Barred cache x n := by
  by_cases hc : Clear cache x n
  · exact .inl hc
  · refine .inr ⟨h, fun obj hobj => ?_⟩
    by_contra hd
    exact hc ⟨obj, hobj, by simpa using hd⟩

/-! ## The walk -/

/-- Objects `k` to `n` are clear, and there the walk ends: at the end of the chain, or with object 64
because `ulDepth` is past the limit then. -/
def Passes (cache : ObjectCache) (x : ObjId) (k n : ℕ) : Prop :=
  k ≤ n ∧ n ≤ MAX_PARENT_LIMIT ∧ (∀ m, k ≤ m → m ≤ n → Clear cache x m) ∧
    (n = MAX_PARENT_LIMIT ∨ EndsAt cache x n)

theorem passes_self (hi : ancestor cache x n = some i) (hobj : cache i = .ok obj)
    (hclear : obj.isDeleted = false) (hn : n ≤ MAX_PARENT_LIMIT)
    (hend : n = MAX_PARENT_LIMIT ∨ obj.isTop) {k : ℕ} : Passes cache x n k ↔ k = n := by
  have hat : objectAt cache x n = some obj := objectAt_eq_some.mpr ⟨i, hi, hobj⟩
  constructor
  · rintro ⟨hle, hlim, hall, -⟩
    by_contra hne
    have hlt : n < k := lt_of_le_of_ne hle (Ne.symm hne)
    rcases hend with rfl | htop
    · omega
    · exact not_endsAt_of_reached (hall k hle le_rfl).reached hlt ⟨obj, hat, htop⟩
  · rintro rfl
    refine ⟨le_rfl, hn, fun m h₁ h₂ => ?_, hend.imp id fun htop => ⟨obj, hat, htop⟩⟩
    obtain rfl : m = k := le_antisymm h₂ h₁
    exact ⟨obj, hat, hclear⟩

theorem passes_succ (hi : ancestor cache x n = some i) (hobj : cache i = .ok obj)
    (hclear : obj.isDeleted = false) (hn : n ≠ MAX_PARENT_LIMIT) (htop : ¬ obj.isTop) {k : ℕ} :
    Passes cache x n k ↔ Passes cache x (n + 1) k := by
  have hat : objectAt cache x n = some obj := objectAt_eq_some.mpr ⟨i, hi, hobj⟩
  constructor
  · rintro ⟨hle, hlim, hall, hend⟩
    have hne : n ≠ k := by
      rintro rfl
      rcases hend with rfl | ⟨obj', hobj', htop'⟩
      · exact hn rfl
      · rw [hat] at hobj'
        cases hobj'
        exact htop htop'
    exact ⟨by omega, hlim, fun m h₁ h₂ => hall m (by omega) h₂, hend⟩
  · rintro ⟨hle, hlim, hall, hend⟩
    refine ⟨by omega, hlim, fun m h₁ h₂ => ?_, hend⟩
    by_cases hm : m = n
    · subst hm
      exact ⟨obj, hat, hclear⟩
    · exact hall m (by omega) h₂

/-- From the `k`-th object on, the walk counts the objects up to where it ends. -/
theorem parentWalk_iff (left k d : ℕ) (i : ObjId) (hleft : left + k = MAX_PARENT_LIMIT + 1)
    (hk : k ≤ MAX_PARENT_LIMIT) (hi : ancestor cache x k = some i) :
    parentWalk cache left i k = .ok d ↔ ∃ n, Passes cache x k n ∧ d = n + 1 := by
  induction left generalizing k i with
  | zero => omega
  | succ left ih =>
    unfold parentWalk
    cases hobj : cache i with
    | error er =>
      -- the object cannot be read
      constructor
      · intro h; cases h
      · rintro ⟨n, ⟨hle, -, hall, -⟩, -⟩
        obtain ⟨obj, hat, -⟩ := hall k le_rfl hle
        obtain ⟨i', hi', hok⟩ := objectAt_eq_some.mp hat
        rw [hi] at hi'
        cases hi'
        rw [hobj] at hok
        cases hok
    | ok obj =>
      have hat : objectAt cache x k = some obj := objectAt_eq_some.mpr ⟨i, hi, hobj⟩
      show (if _ then _ else _) = _ ↔ _
      by_cases hdel : obj.ulFlags &&& MSGFLAG_DELETED ≠ 0
      · rw [if_pos hdel]
        constructor
        · intro h; cases h
        · rintro ⟨n, ⟨hle, -, hall, -⟩, -⟩
          obtain ⟨obj', hat', hclear⟩ := hall k le_rfl hle
          rw [hat] at hat'
          cases hat'
          simp [CacheObject.isDeleted, hdel] at hclear
      · have hclear : obj.isDeleted = false := by simpa [CacheObject.isDeleted] using hdel
        rw [if_neg hdel]
        by_cases hgo : obj.ulType ≠ MAPI_STORE ∧ obj.ulParent ≠ CACHE_NO_PARENT ∧
            k + 1 ≤ MAX_PARENT_LIMIT
        · -- the loop goes on with the parent
          have htop : ¬ obj.isTop := by simp [CacheObject.isTop, hgo.1, hgo.2.1]
          rw [if_pos hgo, ih (k + 1) obj.ulParent (by omega) hgo.2.2
            (by rw [ancestor_succ hi hobj, if_neg htop])]
          refine exists_congr fun n => and_congr_left fun _ => ?_
          exact (passes_succ hi hobj hclear (by omega) htop).symm
        · have hend : k = MAX_PARENT_LIMIT ∨ obj.isTop := by
            by_contra hne
            simp only [not_or, CacheObject.isTop, decide_eq_true_eq] at hne
            exact hgo ⟨hne.2.1, hne.2.2, by omega⟩
          rw [if_neg hgo]
          constructor
          · intro h
            cases h
            exact ⟨k, (passes_self hi hobj hclear hk hend).mpr rfl, rfl⟩
          · rintro ⟨n, hn, rfl⟩
            rw [(passes_self hi hobj hclear hk hend).mp hn]

/-- **`CheckDeletedParent` accepts** a chain of clear objects that ends within the limit, but not with
the 64th object, and every chain whose first 65 objects are clear. -/
theorem checkDeletedParent_iff (sec : ECSecurity) (x : ObjId) : sec.CheckDeletedParent x = .erSuccess ↔
      ∃ n, Passes sec.GetObject x 0 n ∧ n + 1 ≠ MAX_PARENT_LIMIT := by
  have hwalk := fun d => parentWalk_iff (MAX_PARENT_LIMIT + 1) 0 d x rfl (Nat.zero_le _)
    (show ancestor sec.GetObject x 0 = some x from rfl)
  unfold CheckDeletedParent
  cases hw : parentWalk sec.GetObject (MAX_PARENT_LIMIT + 1) x 0 with
  | error er =>
    constructor
    · intro h
      exact absurd h er.2
    · rintro ⟨n, hn, -⟩
      have := (hwalk (n + 1)).mpr ⟨n, hn, rfl⟩
      rw [hw] at this
      cases this
  | ok d =>
    obtain ⟨n, hn, rfl⟩ := (hwalk d).mp hw
    show (if _ then _ else _) = _ ↔ _
    by_cases hlim : n + 1 = MAX_PARENT_LIMIT
    · rw [if_pos hlim]
      constructor
      · intro h; cases h
      · rintro ⟨n', hn', hne⟩
        have := (hwalk (n' + 1)).mpr ⟨n', hn', rfl⟩
        rw [hw] at this
        cases this
        exact absurd hlim hne
    · rw [if_neg hlim]
      exact ⟨fun _ => ⟨n, hn, hlim⟩, fun _ => rfl⟩

/-! ## Deleted folders stay closed -/

/-- Whoever asks, a permission to write at `x` means that the chain of `x` reaches a store within 64
objects, and that none of them is deleted. -/
def WritesUndeleted (cache : ObjectCache) (x : ObjId) : Prop :=
  ∀ sec : ECSecurity, sec.GetObject = cache → ∀ ulecRights, isWrite ulecRights →
    sec.CheckPermission x ulecRights = .erSuccess →
    ∃ n < MAX_PARENT_LIMIT, StoreAt cache x n ∧
      ∀ m ≤ n, ∀ obj, objectAt cache x m = some obj → obj.isDeleted = false

/-- A permission to write needs `CheckDeletedParent`, -/
theorem checkDeletedParent_of_checkPermission {sec : ECSecurity} {ulecRights : UInt32}
    (hw : isWrite ulecRights) (h : sec.CheckPermission x ulecRights = .erSuccess) :
    sec.CheckDeletedParent x = .erSuccess := by
  simp only [CheckPermission] at h
  split at h
  · exact h
  · rename_i hne
    exact absurd ⟨h, hw⟩ hne

/-- The session of the system user, which only `CheckDeletedParent` stops. -/
def system (cache : ObjectCache) : ECSecurity where
  m_ulUserID := ZARAFA_UID_SYSTEM
  m_ulCompanyID := 0
  m_bRestrictedAdmin := false
  m_bOwnerAutoFullAccess := false
  groups := none
  GetObject := cache
  GetStoreAndType _ := .error notFound
  GetACLs _ := .error notFound
  IsAdminOverUserObject _ := .erSuccess

/-- and nothing else for the system user. -/
theorem checkPermission_system (cache : ObjectCache) (x : ObjId) {ulecRights : UInt32} (hw : isWrite ulecRights) :
    (system cache).CheckPermission x ulecRights = (system cache).CheckDeletedParent x := by
  unfold CheckPermission
  rw [if_pos ⟨if_pos rfl, hw⟩]

/-- A chain without a barred object among its first `k` ends there, or goes on. -/
theorem endsAt_or_reached (hbar : ∀ n ≤ MAX_PARENT_LIMIT, ¬ Barred cache x n) (k : ℕ) (hk : k ≤ MAX_PARENT_LIMIT) :
    (∃ n < k, (∀ m ≤ n, Clear cache x m) ∧ EndsAt cache x n) ∨
      (ancestor cache x k).isSome ∧ ∀ m < k, Clear cache x m := by
  induction k with
  | zero => exact .inr ⟨rfl, fun m hm => absurd hm (Nat.not_lt_zero m)⟩
  | succ k ih =>
    obtain ⟨n, hn, hall⟩ | ⟨hsome, hall⟩ := ih (by omega)
    · exact .inl ⟨n, by omega, hall⟩
    · have hclear := (clear_or_barred hsome).resolve_right (hbar k (by omega))
      have hall' : ∀ m ≤ k, Clear cache x m := by
        intro m hm
        by_cases hmk : m = k
        · exact hmk ▸ hclear
        · exact hall m (by omega)
      obtain ⟨obj, hobj, -⟩ := hclear
      obtain ⟨i, hi, hok⟩ := objectAt_eq_some.mp hobj
      by_cases htop : obj.isTop
      · exact .inl ⟨k, by omega, hall', obj, hobj, htop⟩
      · refine .inr ⟨?_, fun m hm => hall' m (by omega)⟩
        rw [ancestor_succ hi hok, if_neg htop]
        rfl

/-- **Deleted folders are closed to writers** exactly on the chains that `CheckDeletedParent` refuses
or that reach a store in time: with a deleted or unreadable object among the first 65, with a store
among the first 64, or with an end at the 64th. -/
theorem writesUndeleted_iff (cache : ObjectCache) (x : ObjId) : WritesUndeleted cache x ↔
      (∃ n ≤ MAX_PARENT_LIMIT, Barred cache x n) ∨ (∃ n < MAX_PARENT_LIMIT, StoreAt cache x n) ∨
        EndsAt cache x (MAX_PARENT_LIMIT - 1) := by
  constructor
  · intro h
    by_contra hne
    simp only [not_or, not_exists, not_and] at hne
    obtain ⟨hbar, hstore, hlast⟩ := hne
    -- every object of the chain is clear, so that the system user gets through
    have hpass : ∃ n, Passes cache x 0 n ∧ n + 1 ≠ MAX_PARENT_LIMIT := by
      obtain ⟨n, hn, hall, hend⟩ | ⟨hsome, hall⟩ := endsAt_or_reached hbar MAX_PARENT_LIMIT le_rfl
      · refine ⟨n, ⟨Nat.zero_le n, hn.le, fun m _ hm => hall m hm, .inr hend⟩, ?_⟩
        rintro hlim
        exact hlast (by rwa [← hlim])
      · have hclear := (clear_or_barred hsome).resolve_right (hbar _ le_rfl)
        refine ⟨MAX_PARENT_LIMIT, ⟨Nat.zero_le _, le_rfl, fun m _ hm => ?_, .inl rfl⟩, by omega⟩
        by_cases hm' : m = MAX_PARENT_LIMIT
        · exact hm' ▸ hclear
        · exact hall m (lt_of_le_of_ne hm hm')
    have hw : isWrite ecSecurityCreate := by decide
    have hgrant : (system cache).CheckPermission x ecSecurityCreate = .erSuccess := by
      rw [checkPermission_system cache x hw]
      exact (checkDeletedParent_iff (system cache) x).mpr hpass
    obtain ⟨n, hn, hat, -⟩ := h (system cache) rfl ecSecurityCreate hw hgrant
    exact hstore n hn hat
  · intro h sec hsec ulecRights hw hgrant
    have hcheck := checkDeletedParent_of_checkPermission hw hgrant
    obtain ⟨N, ⟨-, hN, hall, hend⟩, hne⟩ := (checkDeletedParent_iff sec x).mp hcheck
    subst hsec
    -- the chain reaches no object above the one the walk ended with
    have habove : ∀ n ≤ MAX_PARENT_LIMIT, N < n → ancestor sec.GetObject x n = none := by
      intro n hn hlt
      rcases hend with rfl | hend
      · omega
      · exact ancestor_above hend hlt
    rcases h with ⟨n, hn, hreached, hbarred⟩ | ⟨n, hn, hstore⟩ | hlast
    · exfalso
      by_cases hle : n ≤ N
      · obtain ⟨obj, hobj, hclear⟩ := hall n (Nat.zero_le n) hle
        simp [hbarred obj hobj] at hclear
      · rw [habove n hn (by omega)] at hreached
        cases hreached
    · obtain rfl : N = n := by
        rcases Nat.lt_trichotomy N n with hlt | heq | hlt
        · obtain ⟨obj, hobj, -⟩ := hstore
          obtain ⟨i, hi, -⟩ := objectAt_eq_some.mp hobj
          rw [habove n hn.le hlt] at hi
          cases hi
        · exact heq
        · exact absurd hstore.endsAt
            (not_endsAt_of_reached (hall N (Nat.zero_le N) le_rfl).reached hlt)
      refine ⟨N, hn, hstore, fun m hm obj hobj => ?_⟩
      obtain ⟨obj', hobj', hclear⟩ := hall m (Nat.zero_le m) hm
      rw [hobj] at hobj'
      cases hobj'
      exact hclear
    · exfalso
      rcases Nat.lt_trichotomy N (MAX_PARENT_LIMIT - 1) with hlt | heq | hlt
      · obtain ⟨obj, hobj, -⟩ := hlast
        obtain ⟨i, hi, -⟩ := objectAt_eq_some.mp hobj
        rw [habove _ (Nat.sub_le _ _) hlt] at hi
        cases hi
      · have : 1 ≤ MAX_PARENT_LIMIT := by decide
        omega
      · exact not_endsAt_of_reached (hall N (Nat.zero_le N) le_rfl).reached hlt hlast

/-- Seventy folders inside each other, the second id is deleted. -/
def deepFolders : ObjectCache := fun ulObjId =>
  if ulObjId = 1 then .ok ⟨CACHE_NO_PARENT, 5, 0, MAPI_STORE⟩
  else .ok ⟨ulObjId - 1, 5, if ulObjId = 2 then MSGFLAG_DELETED else 0, MAPI_FOLDER⟩

/-- The owner of the store of `deepFolders`. -/
def deepOwner : ECSecurity where
  m_ulUserID := 5
  m_ulCompanyID := 0
  m_bRestrictedAdmin := false
  m_bOwnerAutoFullAccess := true
  groups := some []
  GetObject := deepFolders
  GetStoreAndType _ := .ok (1, 0)
  GetACLs _ := .ok []
  IsAdminOverUserObject _ := .ZARAFA_E_NO_ACCESS

/-- The owner of a store creates a message 68 folders below a deleted one. -/
theorem not_writesUndeleted_deepFolders : ¬ ∀ cache x, WritesUndeleted cache x := by
  intro h
  obtain ⟨n, hn, ⟨obj, hobj, hstore⟩, -⟩ :=
    h deepFolders 70 deepOwner rfl ecSecurityCreate (by decide) (by decide +kernel)
  have hnone : ∀ n < MAX_PARENT_LIMIT, ∀ obj ∈ objectAt deepFolders 70 n,
      obj.ulType ≠ MAPI_STORE := by
    decide +kernel
  exact hnone n hn obj hobj hstore

end ECSecurity

end Zcp.Libserver
