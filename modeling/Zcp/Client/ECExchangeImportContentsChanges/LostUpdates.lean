import Zcp.Client.ECExchangeImportContentsChanges
import Zcp.Lib.Replication

/-!
# No lost updates

Replicas of one message, on servers with a GUID each. A replica is edited, with `AddChange` for a change that
does not come from a synchronization, or it imports the version of another replica with its change key and its
predecessor change list. `no_lost_update` says that an import never drops a version that is not known
elsewhere: the byte strings work like the numbers in the histories of the versions.
-/

namespace Zcp.Client.ECExchangeImportContentsChanges

open Zcp.Lib
open Zcp.Lib.Replication
open Zcp.Common
open Zcp.Libserver.ECICS

variable {R α : Type}

/-- A version of the message with its properties. The history is not stored: it says which edits the version
comes from. -/
structure Version (R α : Type) where
  history : History R ℕ α
  changeKey : List UInt8
  predecessorChangeList : Base64Binary

/-- `v` is an ancestor of `w`. -/
def Version.Ancestor (v w : Version R α) : Prop := v.history <:+ w.history ∧ v.history ≠ w.history

/-- The replicas, the copies of conflicts on all of them, and the last number of a change on each server. -/
structure Replicas (R α : Type) where
  current : R → Option (Version R α)
  conflicts : List (Version R α)
  changeid : R → BitVec 32

section Steps

variable [DecidableEq R] (guid : R → GUID)

/-- An edit on the server itself. It is not stored when its change list is too long for a property. -/
def Replicas.edit (s : Replicas R α) (r : R) (changeid : BitVec 32) (content : α) :
    Option (Replicas R α) :=
  let old := s.current r
  match addChange (guid r) changeid 0 false (old.map Version.changeKey)
      (old.map fun v => v.predecessorChangeList.elems) with
  | some (some changeKey, some strChangeList) =>
    if h : strChangeList.length < 2 ^ 31 then
      some { s with
        current := Function.update s.current r (some
          ⟨⟨r, changeid.toNat, content⟩ :: (old.map Version.history).getD [], changeKey, ⟨strChangeList, h⟩⟩)
        changeid := Function.update s.changeid r changeid }
    else none
  | _ => none

/-- The import of another replica's version: a new message, or `ImportMessageUpdateAsStream`. -/
def Replicas.importVersion (s : Replicas R α) (r : R) (w : Version R α) : Option (Replicas R α) :=
  match s.current r with
  | none => some { s with current := Function.update s.current r (some w) }
  | some v =>
    match isProcessed (some w.changeKey) (some v.predecessorChangeList.elems) with
    | none => none
    | some true => some s
    | some false =>
      match isConflict (some v.changeKey) (some w.predecessorChangeList.elems) with
      | none => none
      | some bConflict => some { s with
          current := Function.update s.current r (some w)
          conflicts := if bConflict then v :: s.conflicts else s.conflicts }

/-- The states that edits and imports lead to. -/
inductive Replicas.Reachable : Replicas R α → Prop where
  | init : Reachable ⟨fun _ => none, [], fun _ => 0⟩
  | edit {s s' : Replicas R α} (h : Reachable s) {r : R} {changeid : BitVec 32}
    (hchangeid : s.changeid r < changeid) {content : α}
    (hstep : s.edit guid r changeid content = some s') : Reachable s'
  | importVersion {s s' : Replicas R α} (h : Reachable s) {r q : R} {w : Version R α}
    (hw : s.current q = some w) (hstep : s.importVersion r w = some s') : Reachable s'

end Steps

/-! ## Bytes and histories -/

/-- The properties of a version say what its history says. -/
structure Version.Encodes [DecidableEq R] (guid : R → GUID) (v : Version R α) : Prop where
  changeKey : ∃ r changeid content h, v.history = ⟨r, BitVec.toNat changeid, content⟩ :: h ∧
    v.changeKey = szChangeKey (guid r) changeid
  changes : ∃ changes, v.predecessorChangeList.elems = changeList changes ∧
    ∀ r n, stamp v.history r = some n ↔ ∃ changeid, (guid r, changeid) ∈ changes ∧ changeid.toNat = n

/-- The histories behind the versions. -/
def Replicas.system (s : Replicas R α) : System R ℕ α where
  current r := (s.current r).map Version.history
  saved := s.conflicts.map Version.history
  clock r := (s.changeid r).toNat

section Simulation

variable [DecidableEq R] {guid : R → GUID} {s s' : Replicas R α} {v w : Version R α}

theorem mem_changes {changes : List (GUID × BitVec 32)} {h : History R ℕ α}
    (hmem : ∀ r n, stamp h r = some n ↔ ∃ changeid, (guid r, changeid) ∈ changes ∧ changeid.toNat = n)
    (r : R) (changeid : BitVec 32) : (guid r, changeid) ∈ changes ↔ stamp h r = some changeid.toNat := by
  constructor
  · exact fun hin => (hmem r _).mpr ⟨changeid, hin, rfl⟩
  · intro hstamp
    obtain ⟨changeid', hin, heq⟩ := (hmem r _).mp hstamp
    rwa [← BitVec.eq_of_toNat_eq heq]

/-- `IsProcessed` looks for the number of the imported version. -/
theorem isProcessed_eq (hw : w.Encodes guid) (hv : v.Encodes guid) :
    isProcessed (some w.changeKey) (some v.predecessorChangeList.elems) = some (processed w.history v.history) := by
  obtain ⟨r, changeid, content, h, hhistory, hkey⟩ := hw.changeKey
  obtain ⟨changes, hlist, hmem⟩ := hv.changes
  have hlt := v.predecessorChangeList.length_lt
  rw [hlist] at hlt
  rw [hkey, hlist, isProcessed_changeList (guid r, changeid) hlt, hhistory]
  exact congrArg some (decide_eq_decide.mpr (mem_changes hmem r changeid))

/-- `IsConflict` compares the number of the local version with the last one of its server. -/
theorem isConflict_eq (hv : v.Encodes guid) (hw : w.Encodes guid) :
    isConflict (some v.changeKey) (some w.predecessorChangeList.elems) = some (conflict v.history w.history) := by
  obtain ⟨r, changeid, content, h, hhistory, hkey⟩ := hv.changeKey
  obtain ⟨changes, hlist, hmem⟩ := hw.changes
  have hlt := w.predecessorChangeList.length_lt
  rw [hlist] at hlt
  rw [hkey, hlist, isConflict_changeList (guid r, changeid) hlt, hhistory]
  show some (unseen _ changes) = some ((stamp w.history r).elim true fun n => n < changeid.toNat)
  have hsame (change : GUID × BitVec 32) (hchange : change ∈ changes) (hguid : change.1 = guid r) :
      stamp w.history r = some change.2.toNat :=
    (mem_changes hmem r change.2).mp (hguid ▸ hchange)
  unfold unseen
  cases hstamp : stamp w.history r with
  | none =>
    have hnone : (changes.any fun change => change.1 = guid r) = false := by
      rw [List.any_eq_false]
      intro change hchange hguid
      cases hstamp.symm.trans (hsame change hchange (of_decide_eq_true hguid))
    rw [hnone, Bool.not_false, Bool.or_true]
    rfl
  | some n =>
    obtain ⟨changeid', hfound, rfl⟩ := (hmem r n).mp hstamp
    have hany : (changes.any fun change => change.1 = guid r) = true :=
      List.any_eq_true.mpr ⟨_, hfound, decide_eq_true rfl⟩
    rw [hany, Bool.not_true, Bool.or_false, Option.some_inj, Bool.eq_iff_iff, List.any_eq_true]
    constructor
    · rintro ⟨change, hchange, hnewer⟩
      obtain ⟨hguid, hlower⟩ := of_decide_eq_true hnewer
      rw [Option.some.inj (hstamp.symm.trans (hsame change hchange hguid))]
      exact decide_eq_true hlower
    · exact fun hlower => ⟨_, hfound, decide_eq_true ⟨rfl, of_decide_eq_true hlower⟩⟩

/-- A new change is put in the place of the last one of its server. -/
theorem mem_changes_put (hinj : Function.Injective guid) {changes : List (GUID × BitVec 32)} {h : History R ℕ α}
    (hmem : ∀ r n, stamp h r = some n ↔ ∃ changeid, (guid r, changeid) ∈ changes ∧ changeid.toNat = n)
    (r : R) (changeid : BitVec 32) (content : α) (j : R) (n : ℕ) :
    stamp (⟨r, changeid.toNat, content⟩ :: h) j = some n ↔
      ∃ c, (guid j, c) ∈ putChange changes (guid r) changeid ∧ c.toNat = n := by
  unfold stamp
  split_ifs with hj
  · subst hj
    rw [Option.some_inj]
    constructor
    · rintro rfl
      exact ⟨changeid, mem_putChange.mpr (.inl rfl), rfl⟩
    · rintro ⟨c, hc, rfl⟩
      rcases mem_putChange.mp hc with heq | ⟨_, hne⟩
      · rw [(Prod.mk.inj heq).2]
      · exact absurd rfl hne
  · rw [hmem j n]
    refine exists_congr fun c => and_congr_left fun _ => ?_
    rw [mem_putChange]
    constructor
    · exact fun hc => .inr ⟨hc, fun heq => hj (hinj heq).symm⟩
    · rintro (heq | ⟨hc, _⟩)
      · exact absurd (hinj (Prod.mk.inj heq).1).symm hj
      · exact hc

/-- Putting the last change of a server again changes nothing. -/
theorem mem_changes_again {changes : List (GUID × BitVec 32)} {h : History R ℕ α}
    (hmem : ∀ r n, stamp h r = some n ↔ ∃ changeid, (guid r, changeid) ∈ changes ∧ changeid.toNat = n)
    {r : R} {changeid : BitVec 32} (hlast : stamp h r = some changeid.toNat) (j : R) (n : ℕ) : stamp h j = some n ↔
      ∃ c, (guid j, c) ∈ putChange changes (guid r) changeid ∧ c.toNat = n := by
  have hin := (mem_changes hmem r changeid).mpr hlast
  rw [hmem j n]
  refine exists_congr fun c => and_congr_left fun _ => ?_
  rw [mem_putChange]
  constructor
  · intro hc
    by_cases hguid : guid j = guid r
    · have hstamp := (mem_changes hmem r c).mp (hguid ▸ hc)
      rw [hguid, BitVec.eq_of_toNat_eq (Option.some.inj (hstamp.symm.trans hlast))]
      exact .inl rfl
    · exact .inr ⟨hc, hguid⟩
  · rintro (heq | ⟨hc, _⟩)
    · rwa [heq]
    · exact hc

/-- An edit stores what its history says. -/
theorem edit_spec (hinj : Function.Injective guid) {r : R} {changeid : BitVec 32} {content : α}
    (hs : ∀ v, s.current r = some v → v.Encodes guid) (hstep : s.edit guid r changeid content = some s') :
    ∃ u : Version R α, u.Encodes guid ∧
      u.history = ⟨r, changeid.toNat, content⟩ :: ((s.current r).map Version.history).getD [] ∧ s' = { s with
        current := Function.update s.current r (some u)
        changeid := Function.update s.changeid r changeid } := by
  unfold Replicas.edit at hstep
  cases hv : s.current r with
  | none =>
    simp only [hv, Option.map_none, addChange_first, Option.getD_none] at hstep
    split_ifs at hstep with hlt
    refine ⟨_, ⟨⟨r, changeid, content, [], rfl, rfl⟩, _, rfl, ?_⟩, rfl, (Option.some.inj hstep).symm⟩
    have hnone (j : R) (n : ℕ) : stamp ([] : History R ℕ α) j = some n ↔
        ∃ c, (guid j, c) ∈ ([] : List (GUID × BitVec 32)) ∧ c.toNat = n :=
      iff_of_false (fun h => nomatch h) fun ⟨c, hc, _⟩ => nomatch hc
    exact mem_changes_put hinj hnone r changeid content
  | some v =>
    obtain ⟨⟨r₀, changeid₀, content₀, h₀, hhistory, hkey⟩, changes, hlist, hmem⟩ := hs v hv
    have hlast : stamp v.history r₀ = some changeid₀.toNat := by
      rw [hhistory]
      exact if_pos rfl
    have hlt := v.predecessorChangeList.length_lt
    have hin := (mem_changes hmem r₀ changeid₀).mpr hlast
    rw [hlist] at hlt
    have hput : (changeList (putChange changes (guid r₀) changeid₀)).length < 2 ^ 31 := by
      rwa [length_changeList, length_putChange hin, ← length_changeList]
    have hadd := addChange_next (guid r₀, changeid₀) hlt hput (guid r) changeid
    simp only [hv, Option.map_some, hkey, hlist, hadd, Option.getD_some] at hstep
    split_ifs at hstep with hfits
    refine ⟨_, ⟨⟨r, changeid, content, _, rfl, rfl⟩, _, rfl, ?_⟩, rfl, (Option.some.inj hstep).symm⟩
    exact mem_changes_put hinj (mem_changes_again hmem hlast) r changeid content

omit [DecidableEq R] in
theorem current_system (r : R) : s.system.current r = (s.current r).map Version.history := rfl

/-- The histories, after a version has been put in a place. -/
theorem map_update (r : R) (w : Version R α) :
    (fun q => (Function.update s.current r (some w) q).map Version.history) =
      Function.update s.system.current r (some w.history) := by
  funext q
  by_cases hq : q = r
  · rw [hq, Function.update_self, Function.update_self]
    rfl
  · rw [Function.update_of_ne hq, Function.update_of_ne hq]
    rfl

/-- What an import does, by the histories. -/
theorem importVersion_spec {r : R} (hw : w.Encodes guid) (hs : ∀ v, s.current r = some v → v.Encodes guid) :
    ∃ t, s.importVersion r w = some t ∧ t.system = s.system.takeOver r w.history ∧
      ∀ q u, t.current q = some u → s.current q = some u ∨ u = w := by
  have hupdate (q : R) (u : Version R α) (hu : Function.update s.current r (some w) q = some u) :
      s.current q = some u ∨ u = w := by
    by_cases hq : q = r
    · rw [hq, Function.update_self] at hu
      exact .inr (Option.some.inj hu).symm
    · rw [Function.update_of_ne hq] at hu
      exact .inl hu
  have hmap := map_update (s := s) r w
  unfold Replicas.importVersion
  cases hv : s.current r with
  | none =>
    have hsystem : s.system.current r = none := by rw [current_system, hv, Option.map_none]
    refine ⟨_, rfl, ?_, hupdate⟩
    rw [System.takeOver_none hsystem, ← hmap]
    rfl
  | some v =>
    have hsystem : s.system.current r = some v.history := by
      rw [current_system, hv, Option.map_some]
    simp only [isProcessed_eq hw (hs v hv), isConflict_eq (hs v hv) hw]
    cases hnew : processed w.history v.history with
    | true =>
      refine ⟨s, rfl, (System.takeOver_processed hsystem hnew).symm, fun q u hu => .inl hu⟩
    | false =>
      refine ⟨_, rfl, ?_, hupdate⟩
      rw [System.takeOver_new hsystem hnew, ← hmap]
      cases conflict v.history w.history <;> rfl

/-- Edits and imports are steps on the histories, and keep the properties right. -/
theorem Replicas.Reachable.simulates (hinj : Function.Injective guid) (h : Replicas.Reachable guid s) :
    Replication.Reachable s.system ∧ ∀ r v, s.current r = some v → v.Encodes guid := by
  induction h with
  | init => exact ⟨.init fun _ => 0, fun r v hv => nomatch hv⟩
  | @edit s s' _ r changeid hchangeid content hstep ih =>
    obtain ⟨hreach, hencodes⟩ := ih
    obtain ⟨u, hu, hhistory, rfl⟩ := edit_spec hinj (hencodes r) hstep
    have hsystem : Replicas.system { s with
        current := Function.update s.current r (some u)
        changeid := Function.update s.changeid r changeid } =
        s.system.edit r changeid.toNat content := by
      have hcurrent : (fun q => (Function.update s.current r (some u) q).map Version.history) =
          Function.update s.system.current r (some u.history) := map_update r u
      have hclock : (fun q => (Function.update s.changeid r changeid q).toNat) =
          Function.update s.system.clock r changeid.toNat := by
        funext q
        by_cases hq : q = r
        · rw [hq, Function.update_self, Function.update_self]
        · rw [Function.update_of_ne hq, Function.update_of_ne hq]
          rfl
      unfold Replicas.system System.edit
      rw [System.mk.injEq]
      exact ⟨hcurrent.trans (by rw [hhistory]; rfl), rfl, hclock⟩
    rw [hsystem]
    refine ⟨hreach.edit hchangeid content, fun q v hv => ?_⟩
    change Function.update s.current r (some u) q = some v at hv
    by_cases hq : q = r
    · subst hq
      rw [Function.update_self] at hv
      cases hv
      exact hu
    · rw [Function.update_of_ne hq] at hv
      exact hencodes q v hv
  | @importVersion s s' _ r q w hw hstep ih =>
    obtain ⟨hreach, hencodes⟩ := ih
    obtain ⟨t, ht, hsystem, hcurrent⟩ := importVersion_spec (hencodes q w hw) (hencodes r)
    cases ht.symm.trans hstep
    rw [hsystem]
    refine ⟨hreach.takeOver r (by rw [current_system, hw, Option.map_some]), fun i v hv => ?_⟩
    rcases hcurrent i v hv with hold | rfl
    · exact hencodes i v hold
    · exact hencodes q v hw

/-- An import that puts `w` in the place of `v` loses nothing: `v` is an ancestor of `w`, or it is part of the
copy of a conflict. There is no conflict when it is an ancestor. -/
theorem no_lost_update (hinj : Function.Injective guid) (h : Replicas.Reachable guid s) {r q : R}
    (hv : s.current r = some v) (hw : s.current q = some w)
    (hnew : isProcessed (some w.changeKey) (some v.predecessorChangeList.elems) ≠ some true) :
    (∃ t, s.importVersion r w = some t ∧ t.current r = some w ∧
      (v.Ancestor w ∨ ∃ c ∈ t.conflicts, v.history <:+ c.history)) ∧ (v.Ancestor w →
      isConflict (some v.changeKey) (some w.predecessorChangeList.elems) = some false) := by
  obtain ⟨hreach, hencodes⟩ := h.simulates hinj
  have hconsistent := hreach.consistent
  have hvs : s.system.current r = some v.history := by rw [current_system, hv, Option.map_some]
  have hws : s.system.current q = some w.history := by rw [current_system, hw, Option.map_some]
  have hprocessed : processed w.history v.history = false := by
    rw [isProcessed_eq (hencodes q w hw) (hencodes r v hv)] at hnew
    cases hcase : processed w.history v.history with
    | true => exact absurd (congrArg some hcase) hnew
    | false => rfl
  constructor
  · obtain ⟨t, ht, hsystem, _⟩ := importVersion_spec (hencodes q w hw) (hencodes r)
    refine ⟨t, ht, ?_, ?_⟩
    · unfold Replicas.importVersion at ht
      simp only [hv, isProcessed_eq (hencodes q w hw) (hencodes r v hv), hprocessed,
        isConflict_eq (hencodes r v hv) (hencodes q w hw)] at ht
      cases ht
      exact Function.update_self ..
    · rcases hconsistent.kept hvs hws hprocessed with hpart | ⟨c, hc, hpart⟩
      · refine .inl ⟨hpart, fun heq => ?_⟩
        -- a version is not new to itself
        obtain ⟨e, l, hhistory⟩ := List.exists_cons_of_ne_nil (hconsistent.ne_nil hvs)
        rw [← heq, hhistory] at hprocessed
        have hself : stamp (e :: l) e.site = some e.number := if_pos rfl
        exact absurd (decide_eq_true hself) (Bool.eq_false_iff.mp hprocessed)
      · rw [← hsystem] at hc
        obtain ⟨copy, hcopy, rfl⟩ := List.mem_map.mp hc
        exact .inr ⟨copy, hcopy, hpart⟩
  · rintro ⟨hpart, _⟩
    rw [isConflict_eq (hencodes r v hv) (hencodes q w hw),
      hconsistent.not_conflict (s.system.known_current hws) hpart]

end Simulation

/-! ## Two servers -/

/-- The GUIDs of two servers. -/
def twoServers (r : Bool) : GUID := ⟨List.replicate 16 (if r then 1 else 0), by rw [List.length_replicate]⟩

theorem twoServers_injective : Function.Injective twoServers := by
  have hne : twoServers true ≠ twoServers false := by
    intro h
    have hbytes := congrArg GUID.bytes h
    revert hbytes
    decide
  intro r q h
  cases r <;> cases q
  · rfl
  · exact absurd h.symm hne
  · exact absurd h hne
  · rfl

/-- An edit under a number that has not been used. -/
def nextEdit (s : Replicas Bool ℕ) (r : Bool) (changeid : BitVec 32) (content : ℕ) :
    Option (Replicas Bool ℕ) :=
  if s.changeid r < changeid then s.edit twoServers r changeid content else none

/-- The second server has the message from the first one, then both edit it. -/
def twoEdits : Option (Replicas Bool ℕ) := do
  let s ← nextEdit ⟨fun _ => none, [], fun _ => 0⟩ false 7 1
  let w ← s.current false
  let s ← s.importVersion true w
  let s ← nextEdit s true 3 2
  nextEdit s false 9 3

theorem reachable_nextEdit {s s' : Replicas Bool ℕ} (hs : s.Reachable twoServers) {r : Bool}
    {changeid : BitVec 32} {content : ℕ} (h : nextEdit s r changeid content = some s') : s'.Reachable twoServers := by
  unfold nextEdit at h
  split_ifs at h with hchangeid
  exact hs.edit hchangeid h

theorem reachable_twoEdits {s : Replicas Bool ℕ} (h : twoEdits = some s) : s.Reachable twoServers := by
  unfold twoEdits at h
  simp only [Option.bind_eq_bind, Option.bind_eq_some_iff] at h
  obtain ⟨s₁, h₁, w, hw, s₂, h₂, s₃, h₃, h⟩ := h
  have hfirst := reachable_nextEdit .init h₁
  exact reachable_nextEdit (reachable_nextEdit (hfirst.importVersion hw h₂) h₃) h

/-- The version of the second server against the one of the first. -/
def twoVersions : Option (Replicas Bool ℕ × Version Bool ℕ × Version Bool ℕ) := do
  let s ← twoEdits
  let v ← s.current false
  let w ← s.current true
  if isProcessed (some w.changeKey) (some v.predecessorChangeList.elems) ≠ some true then
    some (s, v, w)
  else none

theorem no_lost_update_twoServers :
    ∃ (s : Replicas Bool ℕ) (v w : Version Bool ℕ), s.current false = some v ∧ s.current true = some w ∧
      ((∃ t, s.importVersion false w = some t ∧ t.current false = some w ∧
          (v.Ancestor w ∨ ∃ c ∈ t.conflicts, v.history <:+ c.history)) ∧ (v.Ancestor w →
          isConflict (some v.changeKey) (some w.predecessorChangeList.elems) = some false)) := by
  have hrun : twoVersions.isSome = true := by decide +kernel
  obtain ⟨_, h⟩ := Option.isSome_iff_exists.mp hrun
  unfold twoVersions at h
  simp only [Option.bind_eq_bind, Option.bind_eq_some_iff] at h
  obtain ⟨s, hs, v, hv, w, hw, h⟩ := h
  split_ifs at h with hnew
  exact ⟨s, v, w, hv, hw, no_lost_update twoServers_injective (reachable_twoEdits hs) hv hw hnew⟩

end Zcp.Client.ECExchangeImportContentsChanges
