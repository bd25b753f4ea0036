import Zcp.Libserver.ECLockManager

/-!
# Object locks exclude each other

An entry of the lock table goes with the first handle that gives it back. A run keeps every held lock
exactly when no call gives back a lock that another handle holds too (`excludes_iff`).
-/

namespace Zcp.Libserver

namespace ECLockManager

variable {st st' : ECLockManager} {h k : HandleId} {i j : ImplId} {o : ObjId} {s : ECSESSIONID}

/-! ## The lock table -/

variable {s' : ECSESSIONID}

theorem insertLock_lookup (m : LockMap) (o : ObjId) (s : ECSESSIONID) {o' : ObjId}
    (h : m.lookup o' = some s') : (insertLock m o s).2.lookup o' = some s' := by
  unfold insertLock
  split
  · rename_i hnone
    have hne : o' ≠ o := by
      rintro rfl
      simp [hnone] at h
    rw [AList.lookup_insert_ne hne, h]
  · exact h

/-- A granted lock is in the table. -/
theorem insertLock_granted (m : LockMap) (h : (insertLock m o s).1 = .erSuccess) :
    (insertLock m o s).2.lookup o = some s := by
  unfold insertLock at h ⊢
  split at h
  · rw [AList.lookup_insert]
  · rename_i s' hs
    by_cases hss : s' = s
    · rw [hs, hss]
    · simp [hss] at h

theorem insertLock_fails (m : LockMap) (h : m.lookup o = some s) (hne : s' ≠ s) :
    (insertLock m o s').1 = .ZARAFA_E_NO_ACCESS := by
  simp [insertLock, h, Ne.symm hne]

variable {lp : Option HandleId}

/-- The manager answers what the table answers. -/
theorem lockObject_er {er : ECRESULT}
    (h : st.LockObject o s' lp = some (er, st')) : er = (insertLock st.mapLocks o s').1 := by
  unfold LockObject at h
  cases lp with
  | none => simp at h; exact h.1.symm
  | some l =>
    simp only at h
    split at h
    · cases h
    · simp at h; exact h.1.symm

/-! ## Giving a lock back -/

theorem isShared_iff : st.isShared i = true ↔ ∃ k, st.handles.lookup k = some i := by
  unfold isShared
  rw [List.any_eq_true]
  constructor
  · rintro ⟨⟨k, j⟩, hmem, hj⟩
    refine ⟨k, ?_⟩
    rw [AList.mem_lookup_iff.mpr hmem]
    simpa using hj
  · rintro ⟨k, hk⟩
    exact ⟨⟨k, i⟩, AList.mem_lookup_iff.mp hk, by simp⟩

/-- An implementation whose entry is in the table takes it out, once. -/
theorem unlockImpl_locked (hi : st.impls[i]? = some ⟨o, s, true⟩) (ho : st.mapLocks.lookup o = some s) :
    st.unlockImpl i = (.erSuccess, { st with mapLocks := st.mapLocks.erase o
                                             impls := st.impls.set i ⟨o, s, false⟩ }) := by
  simp [unlockImpl, hi, UnlockObject, ho]

/-- The table gives an entry to its session only. -/
theorem unlockObject_refuses {m : LockMap} (ho : m.lookup o ≠ some s) :
    ∃ er, er ≠ .erSuccess ∧ UnlockObject m o s = (er, m) := by
  unfold UnlockObject
  split
  · exact ⟨.ZARAFA_E_NOT_FOUND, by simp, rfl⟩
  · rename_i s' hs'
    have hne : s' ≠ s := fun hss => ho (by rw [hs', hss])
    exact ⟨.ZARAFA_E_NO_ACCESS, by simp, by rw [if_neg hne]⟩

/-- An implementation without the right to the entry stays armed. -/
theorem unlockImpl_refused (hi : st.impls[i]? = some ⟨o, s, true⟩) (ho : st.mapLocks.lookup o ≠ some s) :
    ∃ er, er ≠ .erSuccess ∧ st.unlockImpl i = (er, st) := by
  obtain ⟨er, her, hun⟩ := unlockObject_refuses ho
  refine ⟨er, her, ?_⟩
  simp only [unlockImpl, hi, hun]
  cases er with
  | erSuccess => exact absurd rfl her
  | _ => rfl

/-- One that was unlocked does nothing. -/
theorem unlockImpl_disarmed (hi : ∀ o s, st.impls[i]? ≠ some ⟨o, s, true⟩) : st.unlockImpl i = (.erSuccess, st) := by
  unfold unlockImpl
  split
  · rename_i impl himpl
    obtain ⟨o, s, armed⟩ := impl
    cases armed with
    | false => rfl
    | true => exact absurd himpl (hi o s)
  · rfl

/-- Without an entry to take out nothing changes. -/
theorem unlockImpl_other (h : ∀ o s, st.impls[i]? = some ⟨o, s, true⟩ → st.mapLocks.lookup o ≠ some s) :
    (st.unlockImpl i).2 = st := by
  by_cases hi : ∃ o s, st.impls[i]? = some ⟨o, s, true⟩
  · obtain ⟨o, s, hi⟩ := hi
    obtain ⟨er, -, heq⟩ := unlockImpl_refused hi (h o s hi)
    rw [heq]
  · rw [unlockImpl_disarmed fun o s ho => hi ⟨o, s, ho⟩]

theorem LockOp.GivesBack.lookup {op : LockOp} (hop : op.GivesBack st h i) : st.handles.lookup h = some i := by
  cases op with
  | lockObject => exact hop.elim
  | assign => exact hop.2.2.1
  | unlock => exact hop.2
  | destroy => exact hop.2.1

/-- The entry of implementation `i` is taken out, as `st` has it. -/
structure GaveBack (st st' : ECLockManager) (i : ImplId) (o : ObjId) (s : ECSESSIONID) : Prop where
  armed : st.impls[i]? = some ⟨o, s, true⟩
  locked : st.mapLocks.lookup o = some s
  map_eq : st'.mapLocks = st.mapLocks.erase o
  impls_eq : st'.impls = st.impls.set i ⟨o, s, false⟩

/-- What a call other than `LockObject` does about handle `h`: every other handle stays, an
implementation of a handle was one before, and at most the entry that `h` gives back goes. -/
structure Touches (st st' : ECLockManager) (op : LockOp) (h : HandleId) : Prop where
  others : ∀ k ≠ h, st'.handles.lookup k = st.handles.lookup k
  known : ∀ k j, st'.handles.lookup k = some j → ∃ k', st.handles.lookup k' = some j
  gone : (st'.mapLocks = st.mapLocks ∧ st'.impls = st.impls ∧
      ∀ i o s, op.GivesBack st h i → st.impls[i]? = some ⟨o, s, true⟩ →
        st.mapLocks.lookup o ≠ some s) ∨
    ∃ i o s, op.GivesBack st h i ∧ GaveBack st st' i o s

theorem unlockImpl_handles : (st.unlockImpl i).2.handles = st.handles := by
  unfold unlockImpl
  split
  · split
    · split <;> rfl
    · rfl
  · rfl

theorem release_handles : (st.release i).handles = st.handles := by
  unfold release
  split
  · rfl
  · exact unlockImpl_handles

/-- Letting go of the last handle gives the entry back when there is one. -/
theorem release_gone (hs : st.isShared i = false) :
    ((st.release i).mapLocks = st.mapLocks ∧ (st.release i).impls = st.impls ∧
      ∀ o s, st.impls[i]? = some ⟨o, s, true⟩ → st.mapLocks.lookup o ≠ some s) ∨
    ∃ o s, GaveBack st (st.release i) i o s := by
  unfold release
  rw [hs, if_neg (by simp)]
  by_cases h : ∃ o s, st.impls[i]? = some ⟨o, s, true⟩ ∧ st.mapLocks.lookup o = some s
  · obtain ⟨o, s, hi, ho⟩ := h
    right
    refine ⟨o, s, hi, ho, ?_, ?_⟩ <;> rw [unlockImpl_locked hi ho]
  · have hnone : ∀ o s, st.impls[i]? = some ⟨o, s, true⟩ → st.mapLocks.lookup o ≠ some s :=
      fun o s hi ho => h ⟨o, s, hi, ho⟩
    rw [unlockImpl_other hnone]
    exact .inl ⟨rfl, rfl, hnone⟩

theorem release_shared (hs : st.isShared i = true) : st.release i = st := by
  unfold release
  rw [if_pos hs]

/-- Handle `h` is moved to other handles' implementations, and its old one is released. -/
theorem release_touches {op : LockOp} {hs : AList fun _ : HandleId => ImplId} (hold : st.handles.lookup h = some i)
    (hothers : ∀ k ≠ h, hs.lookup k = st.handles.lookup k)
    (hknown : ∀ j, hs.lookup h = some j → ∃ k ≠ h, st.handles.lookup k = some j) (hop : ∀ j, op.GivesBack st h j ↔
      st.handles.lookup h = some j ∧ ∀ k ≠ h, st.handles.lookup k ≠ some j) :
    Touches st ({ st with handles := hs }.release i) op h := by
  refine ⟨?_, ?_, ?_⟩
  · intro k hk
    rw [release_handles]
    exact hothers k hk
  · intro k j hj
    rw [release_handles] at hj
    by_cases hk : k = h
    · subst hk
      obtain ⟨k', -, hk'⟩ := hknown j hj
      exact ⟨k', hk'⟩
    · exact ⟨k, by rw [← hothers k hk]; exact hj⟩
  · -- the implementation stays shared exactly when another handle had it before
    by_cases hshared : ({ st with handles := hs } : ECLockManager).isShared i = true
    · rw [release_shared hshared]
      refine .inl ⟨rfl, rfl, ?_⟩
      intro j o s hgive
      obtain ⟨hj, hnone⟩ := (hop j).mp hgive
      obtain rfl : i = j := Option.some.inj (hold.symm.trans hj)
      obtain ⟨k, hk⟩ := isShared_iff.mp hshared
      by_cases hkh : k = h
      · subst hkh
        obtain ⟨k', hne, hk'⟩ := hknown i hk
        exact absurd hk' (hnone k' hne)
      · exact absurd ((hothers k hkh).symm.trans hk) (hnone k hkh)
    · have hlast : ∀ k ≠ h, st.handles.lookup k ≠ some i := by
        intro k hk hki
        exact hshared (isShared_iff.mpr ⟨k, (hothers k hk).trans hki⟩)
      have hgive : op.GivesBack st h i := (hop i).mpr ⟨hold, hlast⟩
      obtain ⟨hm, hi, hnone⟩ | ⟨o, s, hg⟩ := release_gone (by simpa using hshared)
      · refine .inl ⟨hm, hi, ?_⟩
        intro j o s hj
        obtain rfl : i = j := Option.some.inj (hold.symm.trans ((hop j).mp hj).1)
        exact hnone o s
      · exact .inr ⟨i, o, s, hgive, hg.armed, hg.locked, hg.map_eq, hg.impls_eq⟩

/-- Nothing changes but the handle. -/
theorem touches_of_handles {op : LockOp} {hs : AList fun _ : HandleId => ImplId}
    (hothers : ∀ k ≠ h, hs.lookup k = st.handles.lookup k)
    (hknown : ∀ j, hs.lookup h = some j → ∃ k, st.handles.lookup k = some j)
    (hop : ∀ j, ¬ op.GivesBack st h j) : Touches st { st with handles := hs } op h := by
  refine ⟨hothers, ?_, .inl ⟨rfl, rfl, fun j _ _ hj => absurd hj (hop j)⟩⟩
  intro k j hj
  by_cases hk : k = h
  · subst hk; exact hknown j hj
  · exact ⟨k, by rw [← hothers k hk]; exact hj⟩

theorem lookup_erase_self (hs : AList fun _ : HandleId => ImplId) : (hs.erase h).lookup h = none :=
  AList.lookup_erase h hs

/-- The destructor, for a call that gives back what it gives back. -/
theorem dropHandle_touches {op : LockOp} (hop : ∀ j, op.GivesBack st h j ↔
      st.handles.lookup h = some j ∧ ∀ k ≠ h, st.handles.lookup k ≠ some j) : Touches st (st.dropHandle h) op h := by
  unfold dropHandle
  split
  · rename_i hnone
    have hno : ∀ j, ¬ op.GivesBack st h j := fun j hj => by simp [hnone, hop j] at hj
    exact ⟨fun _ _ => rfl, fun k j hj => ⟨k, hj⟩, .inl ⟨rfl, rfl, fun j _ _ hj => absurd hj (hno j)⟩⟩
  · rename_i i hi
    refine release_touches hi (fun k hk => AList.lookup_erase_ne hk) ?_ hop
    intro j hj
    rw [lookup_erase_self] at hj
    cases hj

theorem destroy_touches : Touches st (st.dropHandle h) (.destroy h) h :=
  dropHandle_touches fun j => by simp [LockOp.GivesBack]

theorem assign_touches {other : HandleId} (hne : h ≠ other) :
    Touches st (st.assignHandle h other) (.assign h other) h := by
  have hop : ∀ j, (LockOp.assign h other).GivesBack st h j ↔
      st.handles.lookup h = some j ∧ ∀ k ≠ h, st.handles.lookup k ≠ some j :=
    fun j => by simp [LockOp.GivesBack, hne]
  unfold assignHandle
  rw [if_neg hne]
  split
  · exact dropHandle_touches hop
  · rename_i i hi
    have hothers : ∀ k ≠ h, (st.handles.insert h i).lookup k = st.handles.lookup k :=
      fun k hk => AList.lookup_insert_ne hk
    have hknown : ∀ j, (st.handles.insert h i).lookup h = some j →
        ∃ k ≠ h, st.handles.lookup k = some j := by
      intro j hj
      rw [AList.lookup_insert] at hj
      exact ⟨other, Ne.symm hne, by rw [hi, hj]⟩
    dsimp only
    split
    · rename_i hnone
      refine touches_of_handles hothers (fun j hj => ?_) fun j hj => by simp [hnone, hop j] at hj
      obtain ⟨k, -, hk⟩ := hknown j hj
      exact ⟨k, hk⟩
    · rename_i old hold
      exact release_touches hold hothers hknown hop

/-- After a successful `Unlock` the handle's old implementation has nothing left to give back. -/
theorem dropHandle_disarmed (hi : st.handles.lookup h = some i) (hd : ∀ o s, st.impls[i]? ≠ some ⟨o, s, true⟩) :
    st.dropHandle h = { st with handles := st.handles.erase h } := by
  unfold dropHandle
  rw [hi]
  unfold release
  dsimp only
  split
  · rfl
  · exact unlockImpl_other fun o s ho => absurd ho (hd o s)

/-- A handle that is reset. -/
theorem reset_touches {op : LockOp} (hgone : ∀ j o s, op.GivesBack st h j → st.impls[j]? = some ⟨o, s, true⟩ →
      st.mapLocks.lookup o ≠ some s) : Touches st { st with handles := st.handles.erase h } op h := by
  refine ⟨fun k hk => AList.lookup_erase_ne hk, ?_, .inl ⟨rfl, rfl, hgone⟩⟩
  intro k j hj
  by_cases hk : k = h
  · subst hk
    rw [lookup_erase_self] at hj
    cases hj
  · exact ⟨k, by rw [← AList.lookup_erase_ne hk]; exact hj⟩

theorem unlock_touches {er : ECRESULT} (h' : st.unlockHandle h = some (er, st')) : Touches st st' (.unlock h) h ∧
      (er = .erSuccess ∨ st'.mapLocks = st.mapLocks ∧ st'.impls = st.impls) := by
  unfold unlockHandle at h'
  split at h'
  · cases h'
  · rename_i i hi
    have hgives : ∀ j, (LockOp.unlock h).GivesBack st h j → i = j :=
      fun j hj => Option.some.inj (hi.symm.trans hj.2)
    by_cases himpl : ∃ o s, st.impls[i]? = some ⟨o, s, true⟩
    · obtain ⟨o, s, himpl⟩ := himpl
      by_cases ho : st.mapLocks.lookup o = some s
      · -- the entry goes, and the implementation that is dropped is disarmed
        rw [unlockImpl_locked himpl ho] at h'
        simp only [Option.some.injEq, Prod.mk.injEq] at h'
        obtain ⟨rfl, rfl⟩ := h'
        have hlt : i < st.impls.length := (List.getElem?_eq_some_iff.mp himpl).1
        rw [dropHandle_disarmed (by exact hi) fun o' s' => by simp [hlt]]
        have ht : Touches st { st with handles := st.handles.erase h } (.lockObject o s none) h :=
          reset_touches fun _ _ _ hj => hj.elim
        exact ⟨⟨ht.others, ht.known, .inr ⟨i, o, s, ⟨rfl, hi⟩, himpl, ho, rfl, rfl⟩⟩, .inl rfl⟩
      · obtain ⟨er', her, heq⟩ := unlockImpl_refused himpl ho
        rw [heq] at h'
        have hst : er = er' ∧ st' = st := by
          cases er' with
          | erSuccess => exact absurd rfl her
          | _ => simpa [eq_comm] using h'
        rw [hst.2]
        refine ⟨⟨fun _ _ => rfl, fun k j hj => ⟨k, hj⟩, .inl ⟨rfl, rfl, ?_⟩⟩, .inr ⟨rfl, rfl⟩⟩
        intro j o' s' hj hj'
        rw [← hgives j hj, himpl] at hj'
        cases hj'
        exact ho
    · have hdis : ∀ o s, st.impls[i]? ≠ some ⟨o, s, true⟩ := fun o s ho => himpl ⟨o, s, ho⟩
      rw [unlockImpl_disarmed hdis] at h'
      simp only [Option.some.injEq, Prod.mk.injEq] at h'
      obtain ⟨rfl, rfl⟩ := h'
      rw [dropHandle_disarmed hi hdis]
      exact ⟨reset_touches fun j o s hj hj' => absurd (hgives j hj ▸ hj') (hdis o s), .inl rfl⟩

/-! ## One call -/

variable {t t' : Tracked} {op : LockOp}

/-- A call other than `LockObject`, about handle `h`. -/
structure Tracked.Moves (t t' : Tracked) (op : LockOp) (h : HandleId) : Prop where
  touches : Touches t.st t'.st op h
  granted_eq : t'.granted = t.granted
  returned_others : ∀ k ≠ h, t'.returned k = t.returned k
  returned_self : t'.returned h = none ∨ t'.returned h = t.returned h ∧
    t'.st.mapLocks = t.st.mapLocks ∧ t'.st.impls = t.st.impls
  gives_self : ∀ k j, op.GivesBack t.st k j → k = h

/-- What `LockObject` does. -/
structure Tracked.Asks (t t' : Tracked) (o : ObjId) (s : ECSESSIONID) (lp : Option HandleId) :
    Prop where
  map_eq : t'.st.mapLocks = (insertLock t.st.mapLocks o s).2
  impls_prefix : ∀ j, j < t.st.impls.length → t'.st.impls[j]? = t.st.impls[j]?
  impls_new : ∀ j, t.st.impls.length ≤ j → ∀ impl, t'.st.impls[j]? = some impl →
    impl = ⟨o, s, true⟩
  length_le : t.st.impls.length ≤ t'.st.impls.length
  handles_cases : ∀ k j, t'.st.handles.lookup k = some j → t.st.handles.lookup k = some j ∨
    j = t.st.impls.length ∧ j < t'.st.impls.length
  granted_old : ∀ j, j < t.st.impls.length → t'.granted j = t.granted j
  granted_new : t'.st.impls.length ≠ t.st.impls.length → t'.granted t.st.impls.length = true →
    (insertLock t.st.mapLocks o s).1 = .erSuccess
  returned_cases : ∀ k o' s', t'.returned k = some (o', s') → t.returned k = some (o', s') ∨
    o' = o ∧ s' = s ∧ (insertLock t.st.mapLocks o s).1 = .erSuccess

theorem step_asks (h : t.step (.lockObject o s lp) = some t') : t.Asks t' o s lp := by
  simp only [Tracked.step, LockOp.exec, Option.map_eq_some_iff, Prod.exists] at h
  obtain ⟨er, st', hlock, rfl⟩ := h
  have her := lockObject_er hlock
  unfold LockObject at hlock
  cases lp with
  | none =>
    simp only [Option.some.injEq, Prod.mk.injEq] at hlock
    obtain ⟨-, rfl⟩ := hlock
    exact ⟨rfl, fun _ _ => rfl, fun j hj impl himpl => by
        simp [Tracked.record, List.getElem?_eq_none hj] at himpl,
      le_rfl, fun _ _ hk => .inl hk, fun _ _ => rfl, fun hne => absurd rfl hne,
      fun _ _ _ hk => .inl hk⟩
  | some l =>
    simp only at hlock
    split at hlock
    · cases hlock
    · simp only [Option.some.injEq, Prod.mk.injEq] at hlock
      obtain ⟨-, rfl⟩ := hlock
      refine ⟨rfl, ?_, ?_, ?_, ?_, ?_, ?_, ?_⟩
      · intro j hj
        simp [Tracked.record, List.getElem?_append_left hj]
      · intro j hj impl himpl
        simp only [Tracked.record, List.getElem?_append_right hj] at himpl
        rw [List.getElem?_singleton] at himpl
        split at himpl
        · exact (Option.some.inj himpl).symm
        · cases himpl
      · simp [Tracked.record]
      · intro k j hk
        by_cases hkl : k = l
        · subst hkl
          simp only [Tracked.record, AList.lookup_insert, Option.some.injEq] at hk
          right
          simp [Tracked.record, ← hk]
        · left
          rw [← hk]
          exact (AList.lookup_insert_ne hkl).symm
      · intro j hj
        exact Function.update_of_ne (Nat.ne_of_lt hj) _ _
      · intro _ hg
        rw [← her]
        simpa [Tracked.record] using hg
      · intro k o' s' hk
        by_cases hkl : k = l
        · subst hkl
          simp only [Tracked.record, Function.update_self] at hk
          split at hk
          · rename_i hs
            cases hk
            exact .inr ⟨rfl, rfl, by rw [← her, hs]⟩
          · cases hk
        · left
          rw [← hk]
          exact (Function.update_of_ne hkl _ _).symm

theorem step_moves (hop : ∀ o s lp, op ≠ .lockObject o s lp) (h : t.step op = some t') : ∃ l, t.Moves t' op l := by
  simp only [Tracked.step, Option.map_eq_some_iff, Prod.exists] at h
  obtain ⟨er, st', hexec, rfl⟩ := h
  cases op with
  | lockObject o s lp => exact absurd rfl (hop o s lp)
  | assign l other =>
    simp only [LockOp.exec, Option.some.injEq, Prod.mk.injEq] at hexec
    obtain ⟨-, rfl⟩ := hexec
    refine ⟨l, ?_⟩
    by_cases hl : l = other
    · -- an assignment to itself does nothing
      have hsame : t.st.assignHandle l other = t.st := if_pos hl
      have hno : ∀ j, ¬ (LockOp.assign l other).GivesBack t.st l j := fun j hj => hj.2.1 hl
      refine ⟨?_, rfl, ?_, .inr ?_, fun k j hj => hj.1.symm⟩
      · show Touches t.st (t.st.assignHandle l other) _ l
        rw [hsame]
        exact ⟨fun _ _ => rfl, fun k j hj => ⟨k, hj⟩,
          .inl ⟨rfl, rfl, fun j _ _ hj => absurd hj (hno j)⟩⟩
      · intro k _
        simp [Tracked.record, hl]
      · simp only [Tracked.record, hsame, if_pos hl, and_self]
    · refine ⟨assign_touches hl, rfl, ?_, .inl ?_, fun k j hj => hj.1.symm⟩
      · intro k hk
        simp [Tracked.record, hl, hk]
      · simp [Tracked.record, hl]
  | unlock l =>
    obtain ⟨htouch, her⟩ := unlock_touches hexec
    refine ⟨l, htouch, rfl, ?_, ?_, fun k j hj => hj.1.symm⟩
    · intro k hk
      by_cases hs : er = .erSuccess <;> simp [Tracked.record, hs, hk]
    · by_cases hs : er = .erSuccess
      · left
        simp [Tracked.record, hs]
      · right
        obtain ⟨hm, hi⟩ := her.resolve_left hs
        exact ⟨by simp [Tracked.record, hs], hm, hi⟩
  | destroy l =>
    simp only [LockOp.exec, Option.some.injEq, Prod.mk.injEq] at hexec
    obtain ⟨-, rfl⟩ := hexec
    refine ⟨l, destroy_touches, rfl, ?_, .inl ?_, fun k j hj => hj.1.symm⟩
    · intro k hk
      simp [Tracked.record, hk]
    · simp [Tracked.record]

/-! ## Held locks are in the table -/

/-- Every handle's implementation is one that was made. -/
def Made (st : ECLockManager) : Prop :=
  ∀ k j, st.handles.lookup k = some j → j < st.impls.length

/-- Every held lock has its entry. -/
def Tracked.Locked (t : Tracked) : Prop :=
  ∀ k o s, t.Holds k o s → t.st.mapLocks.lookup o = some s

/-- Sessions exclude each other exactly when the locks they hold are in the table. -/
theorem excludes_iff_locked : t.Excludes ↔ t.Locked := by
  constructor
  · intro hex k o s hk
    -- ask without a handle, so that the call returns
    have hfail : ∀ s' ≠ s, (insertLock t.st.mapLocks o s').1 ≠ .erSuccess :=
      fun s' hne => hex k o s hk s' hne none _ _ rfl
    cases hl : t.st.mapLocks.lookup o with
    | none => exact absurd (by simp [insertLock, hl]) (hfail (s + 1) (by simp))
    | some s' =>
      by_cases hs : s' = s
      · rw [hs]
      · exact absurd (by simp [insertLock, hl]) (hfail s' hs)
  · intro hlocked k o s hk s' hne lp er st' hlock
    rw [lockObject_er hlock, insertLock_fails _ (hlocked k o s hk) hne]
    simp

theorem Tracked.Asks.made (h : t.Asks t' o s lp) (hm : t.st.Made) : t'.st.Made := by
  intro k j hk
  obtain hold | ⟨-, hlt⟩ := h.handles_cases k j hk
  · exact lt_of_lt_of_le (hm k j hold) h.length_le
  · exact hlt

theorem Tracked.Moves.made (h : t.Moves t' op k) (hm : t.st.Made) : t'.st.Made := by
  intro l j hl
  obtain ⟨l', hl'⟩ := h.touches.known l j hl
  have hj := hm l' j hl'
  obtain ⟨-, himpls, -⟩ | ⟨i, o, s, -, hg⟩ := h.touches.gone
  · rwa [himpls]
  · rwa [hg.impls_eq, List.length_set]

/-- `LockObject` keeps what is held, and holds only what it got. -/
theorem Tracked.Asks.locked (h : t.Asks t' o s lp) (hm : t.st.Made) (hl : t.Locked) : t'.Locked := by
  intro k o' s' hk
  rw [h.map_eq]
  rcases hk with hret | ⟨j, hj, himpl, hgranted⟩
  · obtain hold | ⟨rfl, rfl, hs⟩ := h.returned_cases k o' s' hret
    · exact insertLock_lookup _ _ _ (hl k o' s' (.inl hold))
    · exact insertLock_granted _ hs
  · obtain hold | ⟨rfl, hlt⟩ := h.handles_cases k j hj
    · have hlt := hm k j hold
      rw [h.impls_prefix j hlt] at himpl
      rw [h.granted_old j hlt] at hgranted
      exact insertLock_lookup _ _ _ (hl k o' s' (.inr ⟨j, hold, himpl, hgranted⟩))
    · cases h.impls_new _ le_rfl _ himpl
      exact insertLock_granted _ (h.granted_new (Nat.ne_of_gt hlt) hgranted)

/-- A call that gives back what nobody else holds keeps the other locks. -/
theorem Tracked.Moves.locked (h : t.Moves t' op k) (hl : t.Locked) (hs : (Call.mk t op t').IsSole) : t'.Locked := by
  intro l o s hold
  obtain ⟨hmap, himpls, -⟩ | ⟨i, o₀, s₀, hgive, hgone⟩ := h.touches.gone
  · -- nothing is given back: the lock was held before, maybe through another handle
    rw [hmap]
    rcases hold with hret | ⟨j, hj, himpl, hgranted⟩
    · by_cases hlk : l = k
      · subst hlk
        obtain hnone | ⟨heq, -⟩ := h.returned_self
        · rw [hnone] at hret; cases hret
        · exact hl l o s (.inl (heq ▸ hret))
      · exact hl l o s (.inl (h.returned_others l hlk ▸ hret))
    · obtain ⟨l', hl'⟩ := h.touches.known l j hj
      rw [himpls] at himpl
      rw [h.granted_eq] at hgranted
      exact hl l' o s (.inr ⟨j, hl', himpl, hgranted⟩)
  · -- the entry of `i` goes: whoever holds its object still would hold it beside `i`
    have hki : t.st.handles.lookup k = some i := hgive.lookup
    have hsole : ∀ l ≠ k, ¬ t.HoldsBeside i l o₀ s₀ := hs k i o₀ s₀ hgive hgone.armed
    have hkeep : t.st.mapLocks.lookup o = some s → o ≠ o₀ → t'.st.mapLocks.lookup o = some s := by
      intro ho hne
      rw [hgone.map_eq, AList.lookup_erase_ne hne, ho]
    rcases hold with hret | ⟨j, hj, himpl, hgranted⟩
    · have hlk : l ≠ k := by
        rintro rfl
        obtain hnone | ⟨-, hmap, -⟩ := h.returned_self
        · rw [hnone] at hret; cases hret
        · have hcontra := hgone.map_eq ▸ hmap
          have := congrArg (AList.lookup o₀) hcontra
          rw [AList.lookup_erase, hgone.locked] at this
          cases this
      rw [h.returned_others l hlk] at hret
      have ho := hl l o s (.inl hret)
      refine hkeep ho ?_
      rintro rfl
      obtain rfl : s = s₀ := Option.some.inj (ho.symm.trans hgone.locked)
      exact hsole l hlk (.inl hret)
    · obtain ⟨l', hl'⟩ := h.touches.known l j hj
      rw [h.granted_eq] at hgranted
      rw [hgone.impls_eq] at himpl
      have hji : j ≠ i := by
        rintro rfl
        rw [List.getElem?_set_self (List.getElem?_eq_some_iff.mp hgone.armed).1] at himpl
        cases himpl
      rw [List.getElem?_set_ne (Ne.symm hji)] at himpl
      have hl'k : l' ≠ k := by
        rintro rfl
        exact hji (Option.some.inj (hl'.symm.trans hki))
      have ho := hl l' o s (.inr ⟨j, hl', himpl, hgranted⟩)
      refine hkeep ho ?_
      rintro rfl
      obtain rfl : s = s₀ := Option.some.inj (ho.symm.trans hgone.locked)
      exact hsole l' hl'k (.inr ⟨j, hji, hl', himpl, hgranted⟩)

/-- A call that gives back what another handle holds takes that handle's lock away. -/
theorem Tracked.Moves.not_locked (h : t.Moves t' op k) (hl : t.Locked)
    (hs : ¬ (Call.mk t op t').IsSole) : ¬ t'.Locked := by
  simp only [Call.IsSole, not_forall, not_not] at hs
  obtain ⟨l, i, o, s, hgive, himpl, m, hml, hbeside⟩ := hs
  obtain rfl : l = k := h.gives_self l i hgive
  have holds : t.Holds m o s := by
    rcases hbeside with hret | ⟨j, -, hj, himplj, hgranted⟩
    · exact .inl hret
    · exact .inr ⟨j, hj, himplj, hgranted⟩
  have ho := hl m o s holds
  intro hl'
  obtain ⟨-, -, hnone⟩ | ⟨i', o', s', hgive', hgone⟩ := h.touches.gone
  · exact hnone i o s hgive himpl ho
  · obtain rfl : i = i' := Option.some.inj (hgive.lookup.symm.trans hgive'.lookup)
    cases himpl.symm.trans hgone.armed
    have holds' : t'.Holds m o s := by
      rcases hbeside with hret | ⟨j, hji, hj, himplj, hgranted⟩
      · exact .inl ((h.returned_others m hml).trans hret)
      · refine .inr ⟨j, (h.touches.others m hml).trans hj, ?_, by rw [h.granted_eq]; exact hgranted⟩
        rw [hgone.impls_eq, List.getElem?_set_ne (Ne.symm hji)]
        exact himplj
    have hcontra := hl' m o s holds'
    rw [hgone.map_eq, AList.lookup_erase] at hcontra
    cases hcontra

/-- The destructor of a failed lock's handle keeps the others' locks. -/
theorem Tracked.Moves.keepsOthers (h : t.Moves t' op k) (hs : (Call.mk t op t').IsSole) :
    (Call.mk t op t').KeepsOthers := by
  intro l i hop hli hfailed m hml o s holds ho
  change t'.st.mapLocks.lookup o = some s
  change t.st.mapLocks.lookup o = some s at ho
  obtain ⟨hmap, -, -⟩ | ⟨i', o', s', hgive, hgone⟩ := h.touches.gone
  · rw [hmap, ho]
  · change op = .destroy l at hop
    subst hop
    obtain rfl : k = l := hgive.1.symm
    obtain rfl : i = i' := Option.some.inj (hli.symm.trans hgive.lookup)
    rw [hgone.map_eq]
    by_cases hoo : o = o'
    · subst hoo
      obtain rfl : s = s' := Option.some.inj (ho.symm.trans hgone.locked)
      refine absurd ?_ (hs k i o s hgive hgone.armed m hml)
      rcases holds with hret | ⟨j, hj, himplj, hgranted⟩
      · exact .inl hret
      · refine .inr ⟨j, ?_, hj, himplj, hgranted⟩
        rintro rfl
        rw [hfailed] at hgranted
        cases hgranted
    · rw [AList.lookup_erase_ne hoo, ho]

/-! ## Runs -/

theorem made_init : Tracked.init.st.Made := by
  intro k j hk
  simp [Tracked.init, Create] at hk

theorem locked_init : Tracked.init.Locked := by
  rintro k o s (hret | ⟨j, hj, -⟩)
  · simp [Tracked.init] at hret
  · simp [Tracked.init, Create] at hj

/-- A call keeps the table right exactly when it gives back only what nobody else holds. -/
theorem step_spec (hstep : t.step op = some t') (hm : t.st.Made) (hl : t.Locked) :
    t'.st.Made ∧ ((Call.mk t op t').IsSole → t'.Locked ∧ (Call.mk t op t').KeepsOthers) ∧
      (t'.Locked → (Call.mk t op t').IsSole) := by
  by_cases hop : ∃ o s lp, op = .lockObject o s lp
  · obtain ⟨o, s, lp, rfl⟩ := hop
    have hasks := step_asks hstep
    exact ⟨hasks.made hm, fun _ => ⟨hasks.locked hm hl, fun _ _ hop => by cases hop⟩,
      fun _ _ _ _ _ hgive => hgive.elim⟩
  · obtain ⟨l, hmoves⟩ := step_moves (fun o s lp h => hop ⟨o, s, lp, h⟩) hstep
    refine ⟨hmoves.made hm, fun hs => ⟨hmoves.locked hl hs, hmoves.keepsOthers hs⟩, fun hl' => ?_⟩
    by_contra hs
    exact hmoves.not_locked hl hs hl'

theorem calls_spec (ops : List LockOp) (t : Tracked) (hm : t.st.Made) (hl : t.Locked) :
    (∀ c ∈ calls t ops, c.after.Excludes ∧ c.KeepsOthers) ↔ ∀ c ∈ calls t ops, c.IsSole := by
  induction ops generalizing t with
  | nil => simp [calls]
  | cons op ops ih =>
    unfold calls
    cases hstep : t.step op with
    | none => simp
    | some t' =>
      obtain ⟨hm', hkeep, hsole⟩ := step_spec hstep hm hl
      simp only [List.mem_cons, forall_eq_or_imp, excludes_iff_locked]
      constructor
      · rintro ⟨⟨hl', -⟩, hrest⟩
        refine ⟨hsole hl', (ih t' hm' hl').mp ?_⟩
        simpa only [excludes_iff_locked] using hrest
      · rintro ⟨hs, hrest⟩
        obtain ⟨hl', hothers⟩ := hkeep hs
        refine ⟨⟨hl', hothers⟩, ?_⟩
        simpa only [excludes_iff_locked] using (ih t' hm' hl').mpr hrest

/-- **Locks exclude each other** over a run, and a failed lock's handle takes none away, exactly as
long as no call gives back a lock that another handle holds too. -/
theorem excludes_iff (ops : List LockOp) : (∀ c ∈ calls .init ops, c.after.Excludes ∧ c.KeepsOthers) ↔
      ∀ c ∈ calls .init ops, c.IsSole :=
  calls_spec ops .init made_init locked_init

/-- A session that locks an object twice loses both locks with the first handle, and another session
gets the object. -/
theorem not_excludes_twice : ¬ ∀ ops, ∀ c ∈ calls .init ops, c.after.Excludes ∧ c.KeepsOthers := by
  intro h
  let ops : List LockOp := [.lockObject 7 1 (some 0), .lockObject 7 1 (some 1), .unlock 0]
  have hlast := (h ops _ (List.getLast_mem (l := calls .init ops) (by decide +kernel))).1
  have hholds : ((calls .init ops).getLast (by decide +kernel)).after.Holds 1 7 1 :=
    .inl (by decide +kernel)
  have hlocked := excludes_iff_locked.mp hlast 1 7 1 hholds
  have hfree :
      ((calls .init ops).getLast (by decide +kernel)).after.st.mapLocks.lookup 7 = none := by
    decide +kernel
  rw [hfree] at hlocked
  cases hlocked

end ECLockManager

end Zcp.Libserver
