import Mathlib.Data.List.Infix
import Mathlib.Logic.Function.Basic
import Mathlib.Order.Basic
import Mathlib.Order.Defs.LinearOrder
import Mathlib.Order.Lattice
import Mathlib.Tactic.SplitIfs

/-!
# Replicas of one object

Every site has at most one version of an object. It edits its version under numbers that grow, and takes
over the versions of other sites. A version is its history, the edits that have made it with the latest one
first; a site only looks at the latest edit and at the last number of every site in the history (`stamp`).

A site does not merge: a version that it takes over is put in the place of its own, which is saved if it
seems to be unknown over there. `Consistent.kept` says that nothing gets lost that way, although the site
that made a version may have dropped it itself: then it is in a saved copy there.
-/

namespace Zcp.Lib.Replication

variable {κ ν α : Type}

/-- A change of the object, at a site. -/
structure Edit (κ ν α : Type) where
  site : κ
  number : ν
  content : α

/-- The edits that made a version, latest first. -/
abbrev History (κ ν α : Type) := List (Edit κ ν α)

/-- The number of the last edit at a site. -/
def stamp [DecidableEq κ] : History κ ν α → κ → Option ν
  | [], _ => none
  | e :: h, k => if e.site = k then some e.number else stamp h k

/-- The latest edit of a version is the last one at its site that is in the history of another version. -/
def processed [DecidableEq κ] [DecidableEq ν] (w v : History κ ν α) : Bool :=
  match w with
  | [] => false
  | e :: _ => stamp v e.site = some e.number

/-- The latest edit of a version is not known to another version, as far as numbers go. -/
def conflict [DecidableEq κ] [LinearOrder ν] (v w : History κ ν α) : Bool :=
  match v with
  | [] => false
  | e :: _ => (stamp w e.site).elim true fun n => n < e.number

theorem exists_of_stamp [DecidableEq κ] {w : History κ ν α} {k : κ} {n : ν} (h : stamp w k = some n) :
    ∃ e l, e :: l <:+ w ∧ e.site = k ∧ e.number = n := by
  induction w with
  | nil => cases h
  | cons e w ih =>
    unfold stamp at h
    split_ifs at h with hsite
    · exact ⟨e, w, List.suffix_rfl, hsite, Option.some.inj h⟩
    · obtain ⟨e', l, hsuffix, hk⟩ := ih h
      exact ⟨e', l, hsuffix.trans (List.suffix_cons e w), hk⟩

/-! ## Runs -/

/-- The versions of all sites, the copies that have been saved, and the last number of each site. -/
structure System (κ ν α : Type) where
  current : κ → Option (History κ ν α)
  saved : List (History κ ν α)
  clock : κ → ν

section Steps

variable [DecidableEq κ] [LinearOrder ν]

/-- A site edits its version; it makes one if it has none. -/
def System.edit (s : System κ ν α) (k : κ) (n : ν) (c : α) : System κ ν α :=
  { s with
    current := Function.update s.current k (some (⟨k, n, c⟩ :: (s.current k).getD []))
    clock := Function.update s.clock k n }

/-- A site takes over a version. -/
def System.takeOver (s : System κ ν α) (k : κ) (w : History κ ν α) : System κ ν α :=
  match s.current k with
  | none => { s with current := Function.update s.current k (some w) }
  | some v =>
    if processed w v then s
    else { s with
      current := Function.update s.current k (some w)
      saved := if conflict v w then v :: s.saved else s.saved }

/-- What can be reached from sites without any version. -/
inductive Reachable : System κ ν α → Prop where
  | init (clock : κ → ν) : Reachable ⟨fun _ => none, [], clock⟩
  | edit {s : System κ ν α} (h : Reachable s) {k : κ} {n : ν} (hn : s.clock k < n) (c : α) :
    Reachable (s.edit k n c)
  | takeOver {s : System κ ν α} (h : Reachable s) (k : κ) {j : κ} {w : History κ ν α}
    (hw : s.current j = some w) : Reachable (s.takeOver k w)

end Steps

/-! ## What is known -/

/-- A version is in a saved copy. -/
def System.Kept (s : System κ ν α) (v : History κ ν α) : Prop := ∃ c ∈ s.saved, v <:+ c

/-- A version that is part of a version of a site or of a saved copy. -/
def System.Known (s : System κ ν α) (v : History κ ν α) : Prop :=
  (∃ k u, s.current k = some u ∧ v <:+ u) ∨ s.Kept v

/-- Versions are told apart by site and number, and of two versions of a site the later one comes from the
earlier one, unless that is in a saved copy. -/
structure Consistent [LinearOrder ν] (s : System κ ν α) : Prop where
  ne_nil : ∀ {k v}, s.current k = some v → v ≠ []
  number_le : ∀ {e h}, s.Known (e :: h) → e.number ≤ s.clock e.site
  ordered : ∀ {e h}, s.Known (e :: h) → ∀ e' ∈ h, e'.site = e.site → e'.number < e.number
  unique : ∀ {e h e' h'}, s.Known (e :: h) → s.Known (e' :: h') → e.site = e'.site →
    e.number = e'.number → e :: h = e' :: h'
  covered : ∀ {e h e' h'}, s.Known (e :: h) → s.Known (e' :: h') → e.site = e'.site →
    e.number < e'.number → e :: h <:+ h' ∨ s.Kept (e :: h)
  present : ∀ {e h}, s.Known (e :: h) → (∃ u, s.current e.site = some u ∧ e :: h <:+ u) ∨ s.Kept (e :: h)

section Known

variable {s : System κ ν α} {k : κ} {u v w : History κ ν α}

theorem System.known_current (h : s.current k = some v) : s.Known v := .inl ⟨k, v, h, List.suffix_rfl⟩

theorem System.Known.mono (h : s.Known v) (hu : u <:+ v) : s.Known u := by
  rcases h with ⟨k, w, hw, hv⟩ | ⟨c, hc, hv⟩
  · exact .inl ⟨k, w, hw, hu.trans hv⟩
  · exact .inr ⟨c, hc, hu.trans hv⟩

/-- The part of a history from one of its edits on. -/
theorem exists_suffix_of_mem {e : Edit κ ν α} (h : e ∈ v) : ∃ l, e :: l <:+ v := by
  obtain ⟨before, l, rfl⟩ := List.append_of_mem h
  exact ⟨l, List.suffix_append before (e :: l)⟩

end Known

/-! ## Nothing gets lost -/

section Kept

variable [DecidableEq κ] [LinearOrder ν] {s : System κ ν α} {j k : κ} {u v w : History κ ν α}

/-- What is known to a version by its numbers is part of it, or saved. -/
theorem Consistent.of_not_conflict (hs : Consistent s) (hv : s.Known v) (hw : s.Known w)
    (hne : v ≠ []) (h : conflict v w = false) : v <:+ w ∨ s.Kept v := by
  obtain ⟨e, l, rfl⟩ := List.exists_cons_of_ne_nil hne
  change (stamp w e.site).elim true (fun n => decide (n < e.number)) = false at h
  cases hstamp : stamp w e.site with
  | none =>
    rw [hstamp] at h
    cases h
  | some n =>
    rw [hstamp] at h
    have hle : e.number ≤ n := not_lt.mp (of_decide_eq_false h)
    obtain ⟨e', l', hsuffix, hsite, rfl⟩ := exists_of_stamp hstamp
    have hknown := hw.mono hsuffix
    rcases hle.eq_or_lt with heq | hlt
    · rw [hs.unique hv hknown hsite.symm heq]
      exact .inl hsuffix
    · rcases hs.covered hv hknown hsite.symm hlt with hpart | hkept
      · exact .inl ((hpart.trans (List.suffix_cons e' l')).trans hsuffix)
      · exact .inr hkept

/-- The last number of a site is not below that of any of its edits. -/
theorem Consistent.le_stamp (hs : Consistent s) (hw : s.Known w) {e : Edit κ ν α} {l : History κ ν α}
    (h : e :: l <:+ w) : ∃ n, stamp w e.site = some n ∧ e.number ≤ n := by
  induction w with
  | nil => exact absurd (List.suffix_nil.mp h) (List.cons_ne_nil e l)
  | cons e' w ih =>
    unfold stamp
    rcases List.suffix_cons_iff.mp h with heq | hsuffix
    · rw [(List.cons.inj heq).1, if_pos rfl]
      exact ⟨_, rfl, le_rfl⟩
    · split_ifs with hsite
      · refine ⟨_, rfl, (hs.ordered hw e ?_ hsite.symm).le⟩
        exact hsuffix.subset List.mem_cons_self
      · exact ih (hw.mono (List.suffix_cons e' w)) hsuffix

/-- A version that is part of another one is known to it by its numbers. -/
theorem Consistent.not_conflict (hs : Consistent s) (hw : s.Known w) (h : v <:+ w) : conflict v w = false := by
  cases v with
  | nil => rfl
  | cons e l =>
    obtain ⟨n, hstamp, hle⟩ := hs.le_stamp hw h
    show (stamp w e.site).elim true (fun n => decide (n < e.number)) = false
    rw [hstamp]
    exact decide_eq_false (not_lt.mpr hle)

/-- A version that is taken over comes from the one that was there, unless that is in a saved copy. -/
theorem Consistent.kept (hs : Consistent s) (hv : s.current k = some v) (hw : s.current j = some w)
    (hnew : processed w v = false) : v <:+ w ∨ (s.takeOver k w).Kept v := by
  unfold System.takeOver System.Kept
  simp only [hv, hnew, Bool.false_eq_true, if_false]
  cases hconflict : conflict v w with
  | true => exact .inr ⟨v, List.mem_cons_self, List.suffix_rfl⟩
  | false =>
    exact hs.of_not_conflict (s.known_current hv) (s.known_current hw) (hs.ne_nil hv) hconflict

/-! ## Consistency over runs -/

omit [DecidableEq κ] in
theorem Consistent.init (clock : κ → ν) : Consistent (⟨fun _ => none, [], clock⟩ : System κ ν α) := by
  have hnone (v : History κ ν α) : ¬ System.Known ⟨fun _ => none, [], clock⟩ v := by
    rintro (⟨k, u, hu, _⟩ | ⟨c, hc, _⟩)
    · cases hu
    · cases hc
  exact {
    ne_nil := fun hv => nomatch hv
    number_le := fun h => absurd h (hnone _)
    ordered := fun h => absurd h (hnone _)
    unique := fun h => absurd h (hnone _)
    covered := fun h => absurd h (hnone _)
    present := fun h => absurd h (hnone _) }

omit [LinearOrder ν] in
@[simp]
theorem System.edit_current (s : System κ ν α) (k : κ) (n : ν) (c : α) :
    (s.edit k n c).current k = some (⟨k, n, c⟩ :: (s.current k).getD []) := Function.update_self ..

omit [LinearOrder ν] in
@[simp]
theorem System.edit_current_of_ne (s : System κ ν α) (hj : j ≠ k) (n : ν) (c : α) :
    (s.edit k n c).current j = s.current j := Function.update_of_ne hj ..

omit [LinearOrder ν] in
@[simp]
theorem System.edit_clock (s : System κ ν α) (k : κ) (n : ν) (c : α) :
    (s.edit k n c).clock k = n := Function.update_self ..

omit [LinearOrder ν] in
@[simp]
theorem System.edit_clock_of_ne (s : System κ ν α) (hj : j ≠ k) (n : ν) (c : α) :
    (s.edit k n c).clock j = s.clock j := Function.update_of_ne hj ..

omit [LinearOrder ν] in
/-- The versions after an edit. -/
theorem known_edit {n : ν} {c : α} {e : Edit κ ν α} {l : History κ ν α} (h : (s.edit k n c).Known (e :: l)) :
    e :: l = ⟨k, n, c⟩ :: (s.current k).getD [] ∨ s.Known (e :: l) := by
  rcases h with ⟨j, u, hu, hsuffix⟩ | hkept
  · by_cases hj : j = k
    · subst hj
      rw [s.edit_current] at hu
      cases hu
      rcases List.suffix_cons_iff.mp hsuffix with heq | hold
      · exact .inl heq
      · cases hv : s.current j with
        | none =>
          rw [hv] at hold
          exact absurd (List.suffix_nil.mp hold) (List.cons_ne_nil e l)
        | some v =>
          rw [hv] at hold
          exact .inr ((s.known_current hv).mono hold)
    · rw [s.edit_current_of_ne hj] at hu
      exact .inr (.inl ⟨j, u, hu, hsuffix⟩)
  · exact .inr (.inr hkept)

theorem Consistent.edit (hs : Consistent s) {n : ν} (hn : s.clock k < n) (c : α) : Consistent (s.edit k n c) := by
  have hclock (j : κ) : s.clock j ≤ (s.edit k n c).clock j := by
    by_cases hj : j = k
    · subst hj
      rw [s.edit_clock]
      exact hn.le
    · rw [s.edit_clock_of_ne hj]
  -- no edit that was known has the new number
  have hbelow {e : Edit κ ν α} {l : History κ ν α} (h : s.Known (e :: l)) (hsite : e.site = k) :
      e.number < n := by
    refine (hs.number_le h).trans_lt ?_
    rwa [hsite]
  have hcurrent := s.edit_current k n c
  constructor
  · intro j v hv
    by_cases hj : j = k
    · subst hj
      cases hcurrent.symm.trans hv
      exact List.cons_ne_nil _ _
    · rw [s.edit_current_of_ne hj] at hv
      exact hs.ne_nil hv
  · intro e l h
    rcases known_edit h with heq | hold
    · cases heq
      exact (s.edit_clock k n c).ge
    · exact (hs.number_le hold).trans (hclock e.site)
  · intro e l h e' hmem hsite
    rcases known_edit h with heq | hold
    · cases heq
      obtain ⟨l', hsuffix⟩ := exists_suffix_of_mem hmem
      cases hv : s.current k with
      | none =>
        rw [hv] at hmem
        cases hmem
      | some v =>
        rw [hv] at hsuffix
        exact hbelow ((s.known_current hv).mono hsuffix) hsite
    · exact hs.ordered hold e' hmem hsite
  · intro e l e' l' h h' hsite hnumber
    rcases known_edit h with heq | hold <;> rcases known_edit h' with heq' | hold'
    · rw [heq, heq']
    · cases heq
      exact absurd hnumber.symm (hbelow hold' hsite.symm).ne
    · cases heq'
      exact absurd hnumber (hbelow hold hsite).ne
    · exact hs.unique hold hold' hsite hnumber
  · intro e l e' l' h h' hsite hlt
    rcases known_edit h with heq | hold <;> rcases known_edit h' with heq' | hold'
    · cases heq
      cases heq'
      exact absurd hlt (lt_irrefl _)
    · cases heq
      exact absurd hlt (hbelow hold' hsite.symm).asymm
    · cases heq'
      rcases hs.present hold with ⟨u, hu, hsuffix⟩ | hkept
      · rw [hsite] at hu
        rw [hu]
        exact .inl hsuffix
      · exact .inr hkept
    · exact hs.covered hold hold' hsite hlt
  · intro e l h
    rcases known_edit h with heq | hold
    · cases heq
      exact .inl ⟨_, hcurrent, List.suffix_rfl⟩
    · rcases hs.present hold with ⟨u, hu, hsuffix⟩ | hkept
      · by_cases hsite : e.site = k
        · rw [hsite] at hu ⊢
          rw [hu] at hcurrent
          exact .inl ⟨_, hcurrent, hsuffix.trans (List.suffix_cons _ u)⟩
        · refine .inl ⟨u, ?_, hsuffix⟩
          rw [s.edit_current_of_ne hsite]
          exact hu
      · exact .inr hkept

omit [DecidableEq κ] in
/-- Without new versions it is enough that every site has kept its own. -/
theorem Consistent.of_known (hs : Consistent s) {s' : System κ ν α} (hclock : s'.clock = s.clock)
    (hne : ∀ {k v}, s'.current k = some v → v ≠ []) (hknown : ∀ v, s'.Known v → s.Known v)
    (hkept : ∀ v, s.Kept v → s'.Kept v) (hpresent : ∀ k u, s.current k = some u →
      (∃ u', s'.current k = some u' ∧ u <:+ u') ∨ s'.Kept u) : Consistent s' where
  ne_nil := hne
  number_le h := by
    rw [hclock]
    exact hs.number_le (hknown _ h)
  ordered h := hs.ordered (hknown _ h)
  unique h h' := hs.unique (hknown _ h) (hknown _ h')
  covered h h' hsite hlt :=
    (hs.covered (hknown _ h) (hknown _ h') hsite hlt).imp_right (hkept _)
  present h := by
    rcases hs.present (hknown _ h) with ⟨u, hu, hsuffix⟩ | hold
    · rcases hpresent _ u hu with ⟨u', hu', hpart⟩ | ⟨c, hc, hpart⟩
      · exact .inl ⟨u', hu', hsuffix.trans hpart⟩
      · exact .inr ⟨c, hc, hsuffix.trans hpart⟩
    · exact .inr (hkept _ hold)

theorem System.takeOver_none (hv : s.current k = none) :
    s.takeOver k w = { s with current := Function.update s.current k (some w) } := by
  unfold System.takeOver
  rw [hv]

theorem System.takeOver_processed (hv : s.current k = some v) (h : processed w v = true) : s.takeOver k w = s := by
  unfold System.takeOver
  simp only [hv, h, if_true]

theorem System.takeOver_new (hv : s.current k = some v) (h : processed w v = false) : s.takeOver k w = { s with
      current := Function.update s.current k (some w)
      saved := if conflict v w then v :: s.saved else s.saved } := by
  unfold System.takeOver
  simp only [hv, h, Bool.false_eq_true, if_false]

omit [LinearOrder ν] in
/-- The version of a site, after a version of some site has been put in a place. -/
theorem known_update (hw : s.current j = some w) {i : κ}
    (hu : Function.update s.current k (some w) i = some u) : s.Known u := by
  by_cases hi : i = k
  · rw [hi, Function.update_self] at hu
    cases hu
    exact s.known_current hw
  · rw [Function.update_of_ne hi] at hu
    exact s.known_current hu

theorem Consistent.ne_nil_update (hs : Consistent s) (hw : s.current j = some w) {i : κ}
    (hu : Function.update s.current k (some w) i = some u) : u ≠ [] := by
  by_cases hi : i = k
  · rw [hi, Function.update_self] at hu
    cases hu
    exact hs.ne_nil hw
  · rw [Function.update_of_ne hi] at hu
    exact hs.ne_nil hu

theorem Consistent.takeOver (hs : Consistent s) (k : κ) (hw : s.current j = some w) :
    Consistent (s.takeOver k w) := by
  cases hv : s.current k with
  | none =>
    rw [System.takeOver_none hv]
    refine hs.of_known rfl (hs.ne_nil_update hw) ?_ (fun _ h => h) fun i u hu =>
      .inl ⟨u, ?_, List.suffix_rfl⟩
    · rintro u (⟨i, x, hx, hsuffix⟩ | hkept)
      · exact (known_update hw hx).mono hsuffix
      · exact .inr hkept
    · have hi : i ≠ k := by
        rintro rfl
        cases hv.symm.trans hu
      show Function.update s.current k (some w) i = some u
      rw [Function.update_of_ne hi]
      exact hu
  | some v =>
    cases hnew : processed w v with
    | true => rwa [System.takeOver_processed hv hnew]
    | false =>
      have hkept := hs.kept hv hw hnew
      rw [System.takeOver_new hv hnew] at hkept ⊢
      refine hs.of_known rfl (hs.ne_nil_update hw) ?_ ?_ fun i u hu => ?_
      · rintro u (⟨i, x, hx, hsuffix⟩ | ⟨c, hc, hsuffix⟩)
        · exact (known_update hw hx).mono hsuffix
        · change c ∈ (if conflict v w then v :: s.saved else s.saved) at hc
          split_ifs at hc with hconflict
          · rcases List.mem_cons.mp hc with rfl | hold
            · exact (s.known_current hv).mono hsuffix
            · exact .inr ⟨c, hold, hsuffix⟩
          · exact .inr ⟨c, hc, hsuffix⟩
      · rintro u ⟨c, hc, hsuffix⟩
        refine ⟨c, ?_, hsuffix⟩
        show c ∈ (if conflict v w then v :: s.saved else s.saved)
        split_ifs
        · exact List.mem_cons_of_mem v hc
        · exact hc
      · by_cases hi : i = k
        · subst hi
          cases hv.symm.trans hu
          exact hkept.imp_left fun hsuffix => ⟨w, Function.update_self .., hsuffix⟩
        · refine .inl ⟨u, ?_, List.suffix_rfl⟩
          show Function.update s.current k (some w) i = some u
          rw [Function.update_of_ne hi]
          exact hu

theorem Reachable.consistent (h : Reachable s) : Consistent s := by
  induction h with
  | init clock => exact Consistent.init clock
  | edit _ hn c ih => exact ih.edit hn c
  | takeOver _ k hw ih => exact ih.takeOver k hw

end Kept

end Zcp.Lib.Replication
