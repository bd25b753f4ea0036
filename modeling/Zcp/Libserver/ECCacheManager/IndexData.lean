import Zcp.Common.ECCache.Entries
import Zcp.Lib.PartialInverse
import Zcp.Libserver.ECCacheManager

/-!
# The index caches as inverses

An entry of one cache should never contradict an entry of the other. The calls find the other half of an
entry through the cache that they are about to change, so that a half whose partner has been purged is not
found any more. `runCalls_inverse` says that nothing else goes wrong.
-/

namespace Zcp.Libserver.ECCacheManager

open Zcp.Lib
open Zcp.Common
open Zcp.Common.ECCache

variable {t : IndexCaches} {m m' : ECCacheManager}

/-- The entries of the two caches are partly inverse. -/
structure Inverse (t : IndexCaches) (m : ECCacheManager) : Prop where
  keyed1 : m.m_PropToObjectCache.Keyed t.index1
  keyed2 : m.m_ObjectToPropCache.Keyed t.index2
  inverse : PartlyInverse m.m_ObjectToPropCache.Maps m.m_PropToObjectCache.Maps

/-- No lookup in the caches asks for an object and is answered, or is answered with this object. -/
structure Forgotten (t : IndexCaches) (m : ECCacheManager) (ulObjId : ObjId) : Prop where
  key : ∀ ulTag tNow,
    (m.m_ObjectToPropCache.getCacheItem t.index2 ⟨ulObjId, ulTag⟩ tNow).2.1 = none
  value : ∀ sObject tNow sObjectId,
    (m.m_PropToObjectCache.getCacheItem t.index1 sObject tNow).2.1 = some sObjectId →
      sObjectId.ulObjId ≠ ulObjId

/-! ## When no half is left alone -/

/-- The pair that a call adds: the lookups add what the database has when the cache has no answer. -/
def IndexOp.adds (m : ECCacheManager) : IndexOp → Option (ECsIndexObject × ECsIndexProp)
  | .setObjectProp ulTag lpData ulObjId => some (⟨ulObjId, ulTag⟩, .setValue ulTag lpData)
  | .addIndexData lpObject lpProp => some (lpObject, lpProp)
  | .getPropFromObject ulTag ulObjId (.ok lpData) =>
    if (m.m_ObjectToPropCache.find ⟨ulObjId, ulTag⟩).isSome then none
    else some (⟨ulObjId, ulTag⟩, .setValue ulTag lpData)
  | .getObjectFromProp ulTag lpData (.ok ulObjId) =>
    if lpData.1 = [] ∨ (m.m_PropToObjectCache.find ⟨ulTag, lpData⟩).isSome then none
    else some (⟨ulObjId, ulTag⟩, ⟨ulTag, lpData⟩)
  | _ => none

/-- Every other entry for the object or for the property still has its other half, and that half is
looked for: the tag is the id of a property, and the property has data. -/
structure Replaceable (m : ECCacheManager) (lpObject : ECsIndexObject) (lpProp : ECsIndexProp) :
    Prop where
  value : ∀ o, o ≠ lpObject → m.m_ObjectToPropCache.Maps o lpProp →
    lpProp.lpData.1 ≠ [] ∧ lpProp.ulTag < 0x10000 ∧ m.m_PropToObjectCache.Maps lpProp o
  object : ∀ p, p ≠ lpProp → m.m_PropToObjectCache.Maps p lpObject →
    lpObject.ulTag < 0x10000 ∧ m.m_ObjectToPropCache.Maps lpObject p

/-- Every entry with the object as its value still has its other half. -/
def Removable (m : ECCacheManager) (ulObjId : ObjId) : Prop :=
  ∀ p o, o.ulObjId = ulObjId → m.m_PropToObjectCache.Maps p o → m.m_ObjectToPropCache.Maps o p

/-- A call that does not look for an entry through a half that has been purged. -/
def IndexOp.Meets (m : ECCacheManager) (op : IndexOp) : Prop :=
  (∀ lpObject lpProp, op.adds m = some (lpObject, lpProp) → Replaceable m lpObject lpProp) ∧
    ∀ ulObjId, op = .removeIndexData ulObjId → Removable m ulObjId

/-- All calls of a run meet the condition. -/
def MeetsRun (t : IndexCaches) (m : ECCacheManager) : List (IndexOp × ℤ) → Prop
  | [] => True
  | (op, tNow) :: ops => op.Meets m ∧ MeetsRun t (op.step t m tNow) ops

/-- No call of a run adds a property of the object. -/
def NeverAdds (t : IndexCaches) (ulObjId : ObjId) (m : ECCacheManager) : List (IndexOp × ℤ) → Prop
  | [] => True
  | (op, tNow) :: ops => (∀ lpObject lpProp, op.adds m = some (lpObject, lpProp) →
      lpObject.ulObjId ≠ ulObjId) ∧ NeverAdds t ulObjId (op.step t m tNow) ops

/-! ## What the removals leave -/

theorem propId_propTag {ulTag : UInt32} (h : ulTag < 0x10000) : PROP_ID (PROP_TAG PT_UNSPECIFIED ulTag) = ulTag := by
  have hlt : ulTag.toNat < 65536 := h
  apply UInt32.toNat_inj.mp
  rw [PROP_ID, PROP_TAG, PT_UNSPECIFIED, UInt32.or_zero, UInt32.toNat_shiftRight,
    UInt32.toNat_shiftLeft]
  show (ulTag.toNat <<< 16 % 2 ^ 32) >>> 16 = ulTag.toNat
  rw [Nat.shiftLeft_eq, Nat.shiftRight_eq_div_pow]
  omega

/-- Some entries may be gone. -/
structure Fewer (t : IndexCaches) (m m' : ECCacheManager) : Prop where
  keyed1 : m'.m_PropToObjectCache.Keyed t.index1
  keyed2 : m'.m_ObjectToPropCache.Keyed t.index2
  maps1 : ∀ p o, m'.m_PropToObjectCache.Maps p o → m.m_PropToObjectCache.Maps p o
  maps2 : ∀ o p, m'.m_ObjectToPropCache.Maps o p → m.m_ObjectToPropCache.Maps o p

/-- Entries may always be gone. -/
theorem Fewer.inverse (h : Fewer t m m') (hm : Inverse t m) : Inverse t m' :=
  ⟨h.keyed1, h.keyed2, hm.inverse.mono h.maps2 h.maps1⟩

theorem Inverse.fewer_refl (hm : Inverse t m) : Fewer t m m :=
  ⟨hm.keyed1, hm.keyed2, fun _ _ => id, fun _ _ => id⟩

/-- `RemoveIndexData` of a property of an object takes the entry and its other half. -/
theorem removeIndexDataOfTag_spec (hm : Inverse t m) (ulPropTag : UInt32) (ulObjId : ObjId) (tNow : ℤ) :
    Fewer t m (m.removeIndexDataOfTag t ulPropTag ulObjId tNow) ∧
      (∀ o p, (m.removeIndexDataOfTag t ulPropTag ulObjId tNow).m_ObjectToPropCache.Maps o p ↔
        o ≠ ⟨ulObjId, PROP_ID ulPropTag⟩ ∧ m.m_ObjectToPropCache.Maps o p) ∧
      ∀ p o, (m.removeIndexDataOfTag t ulPropTag ulObjId tNow).m_PropToObjectCache.Maps p o ↔
        ¬ m.m_ObjectToPropCache.Maps ⟨ulObjId, PROP_ID ulPropTag⟩ p ∧ m.m_PropToObjectCache.Maps p o := by
  obtain ⟨er, index2, heq, hkeyed, hmaps⟩ := getCacheItem_spec t.index2_ageless hm.keyed2
    ⟨ulObjId, PROP_ID ulPropTag⟩ tNow
  rw [removeIndexDataOfTag, heq]
  cases hf : m.m_ObjectToPropCache.find ⟨ulObjId, PROP_ID ulPropTag⟩ with
  | none =>
    have hnone := not_maps_of_find hf
    refine ⟨⟨hm.keyed1, hkeyed, fun _ _ => id, fun o p => (hmaps o p).mp⟩, ?_, ?_⟩
    · intro o p
      show index2.Maps o p ↔ _
      rw [hmaps]
      refine ⟨fun h => ⟨?_, h⟩, fun h => h.2⟩
      rintro rfl
      exact hnone p h
    · intro p o
      exact ⟨fun h => ⟨hnone p, h⟩, fun h => h.2⟩
  | some item =>
    have hitem := maps_of_find hf
    have hrest (o : ECsIndexObject) (p : ECsIndexProp) :=
      (maps_removeCacheItem (t := t.index2) hkeyed (k := ⟨ulObjId, PROP_ID ulPropTag⟩)).trans (and_congr_right fun _ => hmaps o p)
    refine ⟨⟨keyed_removeCacheItem hm.keyed1 _, keyed_removeCacheItem hkeyed _, ?_, ?_⟩, hrest, ?_⟩
    · intro p o h
      exact ((maps_removeCacheItem hm.keyed1).mp h).2
    · intro o p h
      exact ((hrest o p).mp h).2
    · intro p o
      refine (maps_removeCacheItem hm.keyed1).trans (and_congr_left fun _ => not_congr ?_)
      constructor
      · rintro rfl
        exact hitem
      · intro h
        exact h.value_eq hm.keyed2 hitem

/-- `RemoveIndexData` of a property with a value takes the entry and its other half. -/
theorem removeIndexDataOfValue_spec (hm : Inverse t m) (ulPropTag : UInt32) {lpData : IndexData}
    (hdata : lpData.1 ≠ []) (tNow : ℤ) : Fewer t m (m.removeIndexDataOfValue t ulPropTag lpData tNow).2 ∧
      (∀ p o, (m.removeIndexDataOfValue t ulPropTag lpData tNow).2.m_PropToObjectCache.Maps p o ↔
        p ≠ ⟨PROP_ID ulPropTag, lpData⟩ ∧ m.m_PropToObjectCache.Maps p o) ∧
      ∀ o p, (m.removeIndexDataOfValue t ulPropTag lpData tNow).2.m_ObjectToPropCache.Maps o p ↔
        ¬ m.m_PropToObjectCache.Maps ⟨PROP_ID ulPropTag, lpData⟩ o ∧ m.m_ObjectToPropCache.Maps o p := by
  obtain ⟨er, index1, heq, hkeyed, hmaps⟩ := getCacheItem_spec t.index1_ageless hm.keyed1
    ⟨PROP_ID ulPropTag, lpData⟩ tNow
  rw [removeIndexDataOfValue, if_neg hdata]
  dsimp only
  rw [heq]
  cases hf : m.m_PropToObjectCache.find ⟨PROP_ID ulPropTag, lpData⟩ with
  | none =>
    have hnone := not_maps_of_find hf
    refine ⟨⟨hkeyed, hm.keyed2, fun p o => (hmaps p o).mp, fun _ _ => id⟩, ?_, ?_⟩
    · intro p o
      show index1.Maps p o ↔ _
      rw [hmaps]
      refine ⟨fun h => ⟨?_, h⟩, fun h => h.2⟩
      rintro rfl
      exact hnone o h
    · intro o p
      exact ⟨fun h => ⟨hnone o, h⟩, fun h => h.2⟩
  | some item =>
    have hitem := maps_of_find hf
    have hrest (p : ECsIndexProp) (o : ECsIndexObject) :=
      (maps_removeCacheItem (t := t.index1) hkeyed (k := ⟨PROP_ID ulPropTag, lpData⟩)).trans (and_congr_right fun _ => hmaps p o)
    refine ⟨⟨keyed_removeCacheItem hkeyed _, keyed_removeCacheItem hm.keyed2 _, ?_, ?_⟩, hrest, ?_⟩
    · intro p o h
      exact ((hrest p o).mp h).2
    · intro o p h
      exact ((maps_removeCacheItem hm.keyed2).mp h).2
    · intro o p
      refine (maps_removeCacheItem hm.keyed2).trans (and_congr_left fun _ => not_congr ?_)
      constructor
      · rintro rfl
        exact hitem
      · intro h
        exact h.value_eq hm.keyed1 hitem

theorem fewer_removeIndexDataOfValue (hm : Inverse t m) (ulPropTag : UInt32) (lpData : IndexData)
    (tNow : ℤ) : Fewer t m (m.removeIndexDataOfValue t ulPropTag lpData tNow).2 := by
  by_cases hdata : lpData.1 = []
  · rw [removeIndexDataOfValue, if_pos hdata]
    exact hm.fewer_refl
  · exact (removeIndexDataOfValue_spec hm ulPropTag hdata tNow).1

/-- The range holds the entries of the object. -/
theorem mem_getCacheRange {c : ECCache ECsIndexObject ECsIndexProp} {ulObjId : ObjId}
    {item : CacheItem ECsIndexObject ECsIndexProp} : item ∈ c.getCacheRange ⟨ulObjId, 0⟩ ⟨ulObjId, 0xffffffff⟩ ↔
      item ∈ c.m_map ∧ item.key.ulObjId = ulObjId := by
  have hmax (ulTag : UInt32) : ¬ 0xffffffff < ulTag := by
    intro h
    have hlt := ulTag.toNat_lt
    have h' : 4294967295 < ulTag.toNat := h
    omega
  rw [getCacheRange, List.mem_filter, decide_eq_true_iff]
  refine and_congr_right fun _ => ?_
  show ¬ (_ ∨ _) ∧ ¬ (_ ∨ _) ↔ _
  dsimp only
  constructor
  · rintro ⟨hlower, hupper⟩
    exact UInt32.le_antisymm (UInt32.not_lt.mp fun h => hupper (.inl h))
      (UInt32.not_lt.mp fun h => hlower (.inl h))
  · rintro rfl
    constructor
    · rintro (h | ⟨-, h⟩)
      · exact UInt32.lt_irrefl _ h
      · exact UInt32.not_lt_zero h
    · rintro (h | ⟨-, h⟩)
      · exact UInt32.lt_irrefl _ h
      · exact hmax _ h

/-- Removing a list of items leaves the entries with other keys, and values that are not among them. -/
theorem removeItems_spec (hm : Inverse t m) (lstItems : List (CacheItem ECsIndexObject ECsIndexProp)) :
    Fewer t m (lstItems.foldl (removeItem t) m) ∧
      (∀ item ∈ lstItems, ∀ p, ¬ (lstItems.foldl (removeItem t) m).m_ObjectToPropCache.Maps item.key p) ∧
      ∀ item ∈ lstItems, ∀ o, ¬ (lstItems.foldl (removeItem t) m).m_PropToObjectCache.Maps item.value o := by
  induction lstItems generalizing m with
  | nil => exact ⟨hm.fewer_refl, nofun, nofun⟩
  | cons item lstItems ih =>
    have hone : Fewer t m (m.removeItem t item) :=
      ⟨keyed_removeCacheItem hm.keyed1 _, keyed_removeCacheItem hm.keyed2 _,
        fun _ _ h => ((maps_removeCacheItem hm.keyed1).mp h).2,
        fun _ _ h => ((maps_removeCacheItem hm.keyed2).mp h).2⟩
    obtain ⟨hrest, hkeys, hvalues⟩ := ih (hone.inverse hm)
    refine ⟨⟨hrest.keyed1, hrest.keyed2, fun p o h => hone.maps1 p o (hrest.maps1 p o h),
      fun o p h => hone.maps2 o p (hrest.maps2 o p h)⟩, ?_, ?_⟩
    · intro i hi p h
      rcases List.mem_cons.mp hi with rfl | hi
      · exact ((maps_removeCacheItem hm.keyed2).mp (hrest.maps2 _ _ h)).1 rfl
      · exact hkeys i hi p h
    · intro i hi o h
      rcases List.mem_cons.mp hi with rfl | hi
      · exact ((maps_removeCacheItem hm.keyed1).mp (hrest.maps1 _ _ h)).1 rfl
      · exact hvalues i hi o h

/-- No entry is left for an object, or with it as its value. -/
structure Gone (m : ECCacheManager) (ulObjId : ObjId) : Prop where
  key : ∀ o p, o.ulObjId = ulObjId → ¬ m.m_ObjectToPropCache.Maps o p
  value : ∀ p o, o.ulObjId = ulObjId → ¬ m.m_PropToObjectCache.Maps p o

/-- `RemoveIndexData` of an object leaves nothing of it when all its entries have their halves. -/
theorem removeIndexData_spec (hm : Inverse t m) (ulObjId : ObjId) : Fewer t m (m.removeIndexData t ulObjId) ∧
      (Removable m ulObjId → Gone (m.removeIndexData t ulObjId) ulObjId) := by
  obtain ⟨hfewer, hkeys, hvalues⟩ := removeItems_spec hm
    (m.m_ObjectToPropCache.getCacheRange ⟨ulObjId, 0⟩ ⟨ulObjId, 0xffffffff⟩)
  have hrange {o : ECsIndexObject} {p : ECsIndexProp} (ho : o.ulObjId = ulObjId)
      (h : m.m_ObjectToPropCache.Maps o p) :
      ∃ item ∈ m.m_ObjectToPropCache.getCacheRange ⟨ulObjId, 0⟩ ⟨ulObjId, 0xffffffff⟩,
        item.key = o ∧ item.value = p := by
    obtain ⟨item, hmem, rfl, rfl⟩ := h
    exact ⟨item, mem_getCacheRange.mpr ⟨hmem, ho⟩, rfl, rfl⟩
  refine ⟨hfewer, fun hwhole => ⟨?_, ?_⟩⟩
  · intro o p ho h
    obtain ⟨item, hmem, rfl, -⟩ := hrange ho (hfewer.maps2 o p h)
    exact hkeys item hmem p h
  · intro p o ho h
    obtain ⟨item, hmem, -, rfl⟩ := hrange ho (hwhole p o ho (hfewer.maps1 p o h))
    exact hvalues item hmem o h

theorem fewer_purgeCache (hm : Inverse t m) (ulFlags : UInt32) : Fewer t m (m.purgeCache ulFlags) := by
  have h1 : (m.purgeCache ulFlags).m_PropToObjectCache = .clearCache ∨
      (m.purgeCache ulFlags).m_PropToObjectCache = m.m_PropToObjectCache := by
    rw [purgeCache]
    exact ite_eq_or_eq _ _ _
  have h2 : (m.purgeCache ulFlags).m_ObjectToPropCache = .clearCache ∨
      (m.purgeCache ulFlags).m_ObjectToPropCache = m.m_ObjectToPropCache := by
    rw [purgeCache]
    exact ite_eq_or_eq _ _ _
  constructor
  · rcases h1 with h | h
    · rw [h]
      exact keyed_new
    · rw [h]
      exact hm.keyed1
  · rcases h2 with h | h
    · rw [h]
      exact keyed_new
    · rw [h]
      exact hm.keyed2
  · intro p o hmaps
    rcases h1 with h | h
    · rw [h] at hmaps
      exact absurd hmaps (not_maps_new p o)
    · rwa [h] at hmaps
  · intro o p hmaps
    rcases h2 with h | h
    · rw [h] at hmaps
      exact absurd hmaps (not_maps_new o p)
    · rwa [h] at hmaps

/-! ## Adding a pair -/

variable {lpObject : ECsIndexObject} {lpProp : ECsIndexProp}

/-- What `_AddIndexData` leaves: the pair, and entries that have been there. -/
theorem addIndexData_spec (hm : Inverse t m) (hwhole : Replaceable m lpObject lpProp) (tNow : ℤ) :
    Inverse t (m.addIndexData t lpObject lpProp tNow) ∧
      (∀ o p, (m.addIndexData t lpObject lpProp tNow).m_ObjectToPropCache.Maps o p →
        o = lpObject ∧ p = lpProp ∨ m.m_ObjectToPropCache.Maps o p) ∧
      ∀ p o, (m.addIndexData t lpObject lpProp tNow).m_PropToObjectCache.Maps p o →
        p = lpProp ∧ o = lpObject ∨ m.m_PropToObjectCache.Maps p o := by
  obtain ⟨hfewer, htag2, htag1⟩ := removeIndexDataOfTag_spec hm
    (PROP_TAG PT_UNSPECIFIED lpObject.ulTag) lpObject.ulObjId tNow
  rw [addIndexData]
  dsimp only
  generalize m.removeIndexDataOfTag t (PROP_TAG PT_UNSPECIFIED lpObject.ulTag) lpObject.ulObjId
    tNow = m₁ at hfewer htag1 htag2 ⊢
  have hm₁ := hfewer.inverse hm
  have hfewer₂ := fewer_removeIndexDataOfValue hm₁ (PROP_TAG PT_UNSPECIFIED lpProp.ulTag)
    lpProp.lpData tNow
  -- no entry for the property is left in the one cache, and none for the object in the other one
  have hvalue : ∀ o, o ≠ lpObject → ¬ (m₁.removeIndexDataOfValue t
      (PROP_TAG PT_UNSPECIFIED lpProp.ulTag) lpProp.lpData tNow).2.m_ObjectToPropCache.Maps o lpProp := by
    intro o ho h
    obtain ⟨hkey, hold⟩ := (htag2 o lpProp).mp (hfewer₂.maps2 _ _ h)
    obtain ⟨hdata, htag, hback⟩ := hwhole.value o ho hold
    have hspec := (removeIndexDataOfValue_spec hm₁ (PROP_TAG PT_UNSPECIFIED lpProp.ulTag) hdata
      tNow).2.2 o lpProp
    rw [propId_propTag htag] at hspec
    refine (hspec.mp h).1 ((htag1 lpProp o).mpr ⟨fun hlow => ?_, hback⟩)
    exact hkey (hm.inverse.left hlow hback).symm
  have hobject : ∀ p, p ≠ lpProp → ¬ (m₁.removeIndexDataOfValue t
      (PROP_TAG PT_UNSPECIFIED lpProp.ulTag) lpProp.lpData tNow).2.m_PropToObjectCache.Maps p
        lpObject := by
    intro p hp h
    obtain ⟨hnot, hold⟩ := (htag1 p lpObject).mp (hfewer₂.maps1 _ _ h)
    obtain ⟨htag, hback⟩ := hwhole.object p hp hold
    rw [propId_propTag htag] at hnot
    exact hnot hback
  have hm₂ := hfewer₂.inverse hm₁
  generalize (m₁.removeIndexDataOfValue t (PROP_TAG PT_UNSPECIFIED lpProp.ulTag) lpProp.lpData
    tNow).2 = m₂ at hfewer₂ hvalue hobject hm₂ ⊢
  refine ⟨⟨keyed_addCacheItem hm₂.keyed1 _ _ _, keyed_addCacheItem hm₂.keyed2 _ _ _, ?_⟩, ?_, ?_⟩
  · exact hm₂.inverse.insert (fun _ _ h => maps_of_addCacheItem hm₂.keyed2 h)
      (fun _ _ h => maps_of_addCacheItem hm₂.keyed1 h) hvalue hobject
  · intro o p h
    refine (maps_of_addCacheItem hm₂.keyed2 h).imp_right fun hold => ?_
    exact hfewer.maps2 _ _ (hfewer₂.maps2 _ _ hold.2)
  · intro p o h
    refine (maps_of_addCacheItem hm₂.keyed1 h).imp_right fun hold => ?_
    exact hfewer.maps1 _ _ (hfewer₂.maps1 _ _ hold.2)

/-- The same entries. -/
structure SameEntries (m m' : ECCacheManager) : Prop where
  maps1 : ∀ p o, m'.m_PropToObjectCache.Maps p o ↔ m.m_PropToObjectCache.Maps p o
  maps2 : ∀ o p, m'.m_ObjectToPropCache.Maps o p ↔ m.m_ObjectToPropCache.Maps o p

theorem Replaceable.congr (h : SameEntries m m')
    (hwhole : Replaceable m lpObject lpProp) : Replaceable m' lpObject lpProp where
  value o ho hmaps := by
    rw [h.maps1]
    exact hwhole.value o ho ((h.maps2 _ _).mp hmaps)
  object p hp hmaps := by
    rw [h.maps2]
    exact hwhole.object p hp ((h.maps1 _ _).mp hmaps)

/-- A step keeps the caches inverse, and an entry after it has been there or is the one it adds. -/
structure StepSpec (t : IndexCaches) (m : ECCacheManager)
    (added : Option (ECsIndexObject × ECsIndexProp)) (m' : ECCacheManager) : Prop where
  inverse : Inverse t m'
  maps1 : ∀ p o, m'.m_PropToObjectCache.Maps p o → added = some (o, p) ∨ m.m_PropToObjectCache.Maps p o
  maps2 : ∀ o p, m'.m_ObjectToPropCache.Maps o p → added = some (o, p) ∨ m.m_ObjectToPropCache.Maps o p

theorem Fewer.step (h : Fewer t m m') (hm : Inverse t m)
    (added : Option (ECsIndexObject × ECsIndexProp)) : StepSpec t m added m' :=
  ⟨h.inverse hm, fun p o hmaps => .inr (h.maps1 p o hmaps), fun o p hmaps => .inr (h.maps2 o p hmaps)⟩

/-- A lookup, and the pair that is added after it. -/
theorem step_addIndexData (hm' : Inverse t m') (hsame : SameEntries m m')
    (hwhole : Replaceable m lpObject lpProp) (tNow : ℤ) :
    StepSpec t m (some (lpObject, lpProp)) (m'.addIndexData t lpObject lpProp tNow) := by
  obtain ⟨hinverse, hmaps2, hmaps1⟩ := addIndexData_spec hm' (hwhole.congr hsame) tNow
  refine ⟨hinverse, fun p o h => ?_, fun o p h => ?_⟩
  · rcases hmaps1 p o h with ⟨rfl, rfl⟩ | hold
    · exact .inl rfl
    · exact .inr ((hsame.maps1 p o).mp hold)
  · rcases hmaps2 o p h with ⟨rfl, rfl⟩ | hold
    · exact .inl rfl
    · exact .inr ((hsame.maps2 o p).mp hold)

theorem step_getPropFromObject (hm : Inverse t m) (ulTag : UInt32) (ulObjId : ObjId)
    (lpDBRow : Except IndexError IndexData) (tNow : ℤ)
    (hmeets : (IndexOp.getPropFromObject ulTag ulObjId lpDBRow).Meets m) :
    StepSpec t m ((IndexOp.getPropFromObject ulTag ulObjId lpDBRow).adds m)
      (m.getPropFromObject t ulTag ulObjId lpDBRow tNow).2 := by
  obtain ⟨er, index2, heq, hkeyed, hmaps⟩ := getCacheItem_spec t.index2_ageless hm.keyed2
    ⟨ulObjId, ulTag⟩ tNow
  have hfewer : Fewer t m ⟨m.m_PropToObjectCache, index2⟩ :=
    ⟨hm.keyed1, hkeyed, fun _ _ => id, fun o p => (hmaps o p).mp⟩
  have hadds := hmeets.1 ⟨ulObjId, ulTag⟩
  rw [getPropFromObject, heq]
  cases hf : m.m_ObjectToPropCache.find ⟨ulObjId, ulTag⟩ with
  | some item => exact hfewer.step hm _
  | none =>
    cases lpDBRow with
    | error er => exact hfewer.step hm _
    | ok lpData =>
      have hadd : (IndexOp.getPropFromObject ulTag ulObjId (.ok lpData)).adds m =
          some (⟨ulObjId, ulTag⟩, .setValue ulTag lpData) := by
        rw [IndexOp.adds, hf]
        rfl
      rw [hadd]
      have hsame : SameEntries m ⟨m.m_PropToObjectCache, index2⟩ := ⟨fun _ _ => Iff.rfl, hmaps⟩
      exact step_addIndexData (hfewer.inverse hm) hsame (hadds _ hadd) tNow

/-- `QueryObjectFromProp` keeps the entries, and answers when the property has one. -/
theorem queryObjectFromProp_spec (hm : Inverse t m) (ulTag : UInt32) {lpData : IndexData}
    (hdata : lpData.1 ≠ []) (tNow : ℤ) :
    ∃ answer m', m.queryObjectFromProp t ulTag lpData tNow = (answer, m') ∧ Inverse t m' ∧ SameEntries m m' ∧
      answer.isOk = (m.m_PropToObjectCache.find ⟨ulTag, lpData⟩).isSome := by
  obtain ⟨er, index1, heq, hkeyed, hmaps⟩ := getCacheItem_spec t.index1_ageless hm.keyed1
    ⟨ulTag, lpData⟩ tNow
  have hinverse : Inverse t ⟨index1, m.m_ObjectToPropCache⟩ :=
    Fewer.inverse ⟨hkeyed, hm.keyed2, fun p o => (hmaps p o).mp, fun _ _ => id⟩ hm
  have hsame : SameEntries m ⟨index1, m.m_ObjectToPropCache⟩ := ⟨hmaps, fun _ _ => Iff.rfl⟩
  rw [queryObjectFromProp, if_neg hdata]
  dsimp only
  rw [heq]
  cases m.m_PropToObjectCache.find ⟨ulTag, lpData⟩ with
  | none => exact ⟨_, _, rfl, hinverse, hsame, rfl⟩
  | some item => exact ⟨_, _, rfl, hinverse, hsame, rfl⟩

theorem SameEntries.fewer (h : SameEntries m m') (hm' : Inverse t m') : Fewer t m m' :=
  ⟨hm'.keyed1, hm'.keyed2, fun p o => (h.maps1 p o).mp, fun o p => (h.maps2 o p).mp⟩

theorem fewer_queryObjectFromProp (hm : Inverse t m) (ulTag : UInt32) (lpData : IndexData)
    (tNow : ℤ) : Fewer t m (m.queryObjectFromProp t ulTag lpData tNow).2 := by
  by_cases hdata : lpData.1 = []
  · rw [queryObjectFromProp, if_pos hdata]
    exact hm.fewer_refl
  · obtain ⟨answer, m', heq, hm', hsame, -⟩ := queryObjectFromProp_spec hm ulTag hdata tNow
    rw [heq]
    exact hsame.fewer hm'

theorem step_getObjectFromProp (hm : Inverse t m) (ulTag : UInt32) (lpData : IndexData)
    (lpDBRow : Except IndexError ObjId) (tNow : ℤ)
    (hmeets : (IndexOp.getObjectFromProp ulTag lpData lpDBRow).Meets m) :
    StepSpec t m ((IndexOp.getObjectFromProp ulTag lpData lpDBRow).adds m)
      (m.getObjectFromProp t ulTag lpData lpDBRow tNow).2 := by
  unfold getObjectFromProp
  by_cases hdata : lpData.1 = []
  · rw [if_pos hdata]
    exact hm.fewer_refl.step hm _
  obtain ⟨answer, m', heq, hm', hsame, hok⟩ := queryObjectFromProp_spec hm ulTag hdata tNow
  rw [if_neg hdata, heq]
  cases answer with
  | ok ulObjId => exact (hsame.fewer hm').step hm _
  | error er =>
    cases lpDBRow with
    | error er => exact (hsame.fewer hm').step hm _
    | ok ulObjId =>
      have hadd : (IndexOp.getObjectFromProp ulTag lpData (.ok ulObjId)).adds m =
          some (⟨ulObjId, ulTag⟩, ⟨ulTag, lpData⟩) := by
        rw [IndexOp.adds, ← hok, if_neg]
        rintro (h | h)
        · exact hdata h
        · cases h
      rw [hadd]
      exact step_addIndexData hm' hsame (hmeets.1 _ _ hadd) tNow

/-- A call that meets the condition keeps the caches inverse. -/
theorem step_spec (hm : Inverse t m) {op : IndexOp} (tNow : ℤ) (hmeets : op.Meets m) :
    StepSpec t m (op.adds m) (op.step t m tNow) := by
  have hself : SameEntries m m := ⟨fun _ _ => Iff.rfl, fun _ _ => Iff.rfl⟩
  cases op with
  | setObjectProp ulTag lpData ulObjId =>
    exact step_addIndexData hm hself (hmeets.1 _ _ rfl) tNow
  | addIndexData lpObject lpProp => exact step_addIndexData hm hself (hmeets.1 _ _ rfl) tNow
  | getPropFromObject ulTag ulObjId lpDBRow =>
    exact step_getPropFromObject hm ulTag ulObjId lpDBRow tNow hmeets
  | queryObjectFromProp ulTag lpData =>
    exact (fewer_queryObjectFromProp hm ulTag lpData tNow).step hm _
  | getObjectFromProp ulTag lpData lpDBRow =>
    exact step_getObjectFromProp hm ulTag lpData lpDBRow tNow hmeets
  | removeIndexData ulObjId => exact (removeIndexData_spec hm ulObjId).1.step hm _
  | removeIndexDataOfValue ulPropTag lpData =>
    exact (fewer_removeIndexDataOfValue hm ulPropTag lpData tNow).step hm _
  | removeIndexDataOfTag ulPropTag ulObjId =>
    exact (removeIndexDataOfTag_spec hm ulPropTag ulObjId tNow).1.step hm _
  | purgeCache ulFlags => exact (fewer_purgeCache hm ulFlags).step hm _

/-! ## Runs -/

theorem inverse_new : Inverse t new where
  keyed1 := keyed_new
  keyed2 := keyed_new
  inverse := ⟨fun h => absurd h (not_maps_new _ _), fun h => absurd h (not_maps_new _ _)⟩

theorem inverse_runCalls (hm : Inverse t m) {ops : List (IndexOp × ℤ)} (hmeets : MeetsRun t m ops) :
    Inverse t (runCalls t m ops) := by
  induction ops generalizing m with
  | nil => exact hm
  | cons op ops ih => exact ih (step_spec hm op.2 hmeets.1).inverse hmeets.2

/-- What is gone is gone until it is added. -/
theorem gone_runCalls (hm : Inverse t m) {ops : List (IndexOp × ℤ)} (hmeets : MeetsRun t m ops)
    {ulObjId : ObjId} (hgone : Gone m ulObjId) (hnever : NeverAdds t ulObjId m ops) :
    Gone (runCalls t m ops) ulObjId := by
  induction ops generalizing m with
  | nil => exact hgone
  | cons op ops ih =>
    have hstep := step_spec hm op.2 hmeets.1
    refine ih hstep.inverse hmeets.2 ⟨?_, ?_⟩ hnever.2
    · intro o p ho h
      rcases hstep.maps2 o p h with hadd | hold
      · exact hnever.1 o p hadd ho
      · exact hgone.key o p ho hold
    · intro p o ho h
      rcases hstep.maps1 p o h with hadd | hold
      · exact hnever.1 o p hadd ho
      · exact hgone.value p o ho hold

theorem runCalls_append (m : ECCacheManager) (before after : List (IndexOp × ℤ)) :
    runCalls t m (before ++ after) = runCalls t (runCalls t m before) after := by
  induction before generalizing m with
  | nil => rfl
  | cons op before ih => exact ih _

theorem meetsRun_append {before after : List (IndexOp × ℤ)} (h : MeetsRun t m (before ++ after)) :
    MeetsRun t m before ∧ MeetsRun t (runCalls t m before) after := by
  induction before generalizing m with
  | nil => exact ⟨trivial, h⟩
  | cons op before ih =>
    obtain ⟨hbefore, hafter⟩ := ih h.2
    exact ⟨⟨h.1, hbefore⟩, hafter⟩

/-- What has no entries is not answered. -/
theorem Gone.forgotten (h : Gone m ulObjId) : Forgotten t m ulObjId where
  key ulTag tNow := by
    rw [getCacheItem_answer t.index2_ageless, Option.map_eq_none_iff]
    cases hf : m.m_ObjectToPropCache.find ⟨ulObjId, ulTag⟩ with
    | none => rfl
    | some item => exact absurd (maps_of_find hf) (h.key _ _ rfl)
  value sObject tNow sObjectId hanswer := by
    rw [getCacheItem_answer t.index1_ageless] at hanswer
    obtain ⟨item, hf, rfl⟩ := Option.map_eq_some_iff.mp hanswer
    exact fun ho => h.value _ _ ho (maps_of_find hf)

/-- While no call looks for an entry through a half that has been purged, the caches are inverse, and an
object that is removed is not answered until it is added. -/
theorem runCalls_inverse (t : IndexCaches) (ops : List (IndexOp × ℤ)) (hmeets : MeetsRun t new ops) :
    PartlyInverse (runCalls t new ops).m_ObjectToPropCache.Maps (runCalls t new ops).m_PropToObjectCache.Maps ∧
      ∀ before ulObjId tNow after, ops = before ++ (.removeIndexData ulObjId, tNow) :: after →
        NeverAdds t ulObjId (runCalls t new (before ++ [(.removeIndexData ulObjId, tNow)])) after →
          Forgotten t (runCalls t new ops) ulObjId := by
  refine ⟨(inverse_runCalls inverse_new hmeets).inverse, ?_⟩
  rintro before ulObjId tNow after rfl hnever
  obtain ⟨hbefore, hremove, hafter⟩ := meetsRun_append hmeets
  have hm := inverse_runCalls inverse_new hbefore
  obtain ⟨hfewer, hgone⟩ := removeIndexData_spec hm ulObjId
  rw [runCalls_append] at hnever ⊢
  exact (gone_runCalls (hfewer.inverse hm) hafter (hgone (hremove.2 ulObjId rfl)) hnever).forgotten

/-! ## A key that is used again -/

/-- The bytes that a property has beside the map. -/
def propSize (lpProp : ECsIndexProp) : ℕ := lpProp.lpData.1.length

/-- Caches of some size, which purge a twentieth of their entries. The entries of the second one are in
order. -/
def cachesOfSize (ulSize1 ulSize2 : ℕ) : IndexCaches where
  index1 :=
    { m_ulMaxSize := ulSize1, m_lMaxAge := 0, keySize := propSize, valueSize := fun _ => 0
      keySize_lt := fun p => p.lpData.2, valueSize_lt := fun _ => by decide
      entrySize := 88, place := List.cons, place_perm := fun _ _ => .rfl, share := (· / 20) }
  index2 :=
    { m_ulMaxSize := ulSize2, m_lMaxAge := 0, keySize := fun _ => 0, valueSize := propSize
      keySize_lt := fun _ => by decide, valueSize_lt := fun p => p.lpData.2
      entrySize := 88, place := List.orderedInsert fun i j => ¬ j.key < i.key
      place_perm := List.perm_orderedInsert _, share := (· / 20) }
  index1_ageless := rfl
  index2_ageless := rfl

/-- `PROP_ID(PR_SOURCE_KEY)`. -/
def sourceKeyId : UInt32 := 0x65E0

/-- The source key of one byte. -/
def sourceKey (b : UInt8) : IndexData := ⟨[b], by rw [List.length_singleton]; decide⟩

theorem runCalls_inverse_removed : PartlyInverse (runCalls (cachesOfSize 1000 1000) new
          [(.setObjectProp sourceKeyId (sourceKey 1) 7, 0), (.removeIndexData 7, 1),
            (.queryObjectFromProp sourceKeyId (sourceKey 1), 2)]).m_ObjectToPropCache.Maps
        (runCalls (cachesOfSize 1000 1000) new
          [(.setObjectProp sourceKeyId (sourceKey 1) 7, 0), (.removeIndexData 7, 1),
            (.queryObjectFromProp sourceKeyId (sourceKey 1), 2)]).m_PropToObjectCache.Maps ∧
      Forgotten (cachesOfSize 1000 1000) (runCalls (cachesOfSize 1000 1000) new
        [(.setObjectProp sourceKeyId (sourceKey 1) 7, 0), (.removeIndexData 7, 1),
          (.queryObjectFromProp sourceKeyId (sourceKey 1), 2)]) 7 := by
  have hnothing (lpObject : ECsIndexObject) (lpProp : ECsIndexProp) :
      Replaceable new lpObject lpProp :=
    ⟨fun o _ h => absurd h (not_maps_new o _), fun p _ h => absurd h (not_maps_new p _)⟩
  obtain ⟨hinverse, hforgotten⟩ := runCalls_inverse (cachesOfSize 1000 1000)
    [(.setObjectProp sourceKeyId (sourceKey 1) 7, 0), (.removeIndexData 7, 1),
      (.queryObjectFromProp sourceKeyId (sourceKey 1), 2)] (by
      refine ⟨⟨fun _ _ _ => hnothing _ _, nofun⟩, ⟨nofun, ?_⟩, ⟨nofun, nofun⟩, trivial⟩
      rintro _ ⟨⟩ p o - ⟨item, hmem, rfl, rfl⟩
      have hmap : (IndexOp.step (cachesOfSize 1000 1000) new 0
          (.setObjectProp sourceKeyId (sourceKey 1) 7)).m_PropToObjectCache.m_map =
            [⟨⟨sourceKeyId, sourceKey 1⟩, ⟨7, sourceKeyId⟩, 0⟩] := by
        decide +kernel
      rw [hmap] at hmem
      obtain rfl := List.mem_singleton.mp hmem
      exact ⟨⟨⟨7, sourceKeyId⟩, ⟨sourceKeyId, sourceKey 1⟩, 0⟩, by decide +kernel, rfl, rfl⟩)
  exact ⟨hinverse, hforgotten [(.setObjectProp sourceKeyId (sourceKey 1) 7, 0)] 7 1
    [(.queryObjectFromProp sourceKeyId (sourceKey 1), 2)] rfl ⟨nofun, trivial⟩⟩

/-- An object gets a source key, its half in the first cache is purged, and another object gets the key. -/
def reusedKey : List (IndexOp × ℤ) :=
  [(.setObjectProp sourceKeyId (sourceKey 1) 7, 0), (.purgeCache PURGE_CACHE_INDEX1, 1),
    (.setObjectProp sourceKeyId (sourceKey 1) 8, 2)]

/-- The first object keeps the key in the second cache. -/
theorem not_partlyInverse_reusedKey :
    ¬ PartlyInverse (runCalls (cachesOfSize 1000 1000) new reusedKey).m_ObjectToPropCache.Maps
      (runCalls (cachesOfSize 1000 1000) new reusedKey).m_PropToObjectCache.Maps := by
  intro h
  have hfirst : (runCalls (cachesOfSize 1000 1000) new reusedKey).m_ObjectToPropCache.Maps
      ⟨7, sourceKeyId⟩ ⟨sourceKeyId, sourceKey 1⟩ :=
    ⟨⟨⟨7, sourceKeyId⟩, ⟨sourceKeyId, sourceKey 1⟩, 0⟩, by decide +kernel, rfl, rfl⟩
  have hother : (runCalls (cachesOfSize 1000 1000) new reusedKey).m_PropToObjectCache.Maps
      ⟨sourceKeyId, sourceKey 1⟩ ⟨8, sourceKeyId⟩ :=
    ⟨⟨⟨sourceKeyId, sourceKey 1⟩, ⟨8, sourceKeyId⟩, 2⟩, by decide +kernel, rfl, rfl⟩
  exact absurd (h.left hfirst hother) (by decide)

end Zcp.Libserver.ECCacheManager
