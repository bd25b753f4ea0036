import Mathlib.Logic.Function.Basic
import Zcp.Common.ECCache.Entries
import Zcp.Libserver.ZarafaCode

/-!
# The cached objects

`GetObjects` looks up many objects at once: first in the cache, and then the others with one query. The objects that it
finds in the cache are stored under the keys that were asked for, and the others under keys without an order; a store
has no parent, and its row is left out. What it finds is what `GetObject` returns only where these differences do not
show (`getObjects_iff`).

Reference: `provider/libserver/ECCacheManager.cpp`.
-/

namespace Zcp.Libserver

open Zcp.Common
open Zcp.Common.ECCache

namespace Objects

/-- `ECsObjects`. -/
structure ECsObjects where
  ulParent : ObjId
  ulOwner : UInt32
  ulFlags : UInt32
  ulType : UInt32
deriving DecidableEq, Repr

/-- `sObjectTableKey`. -/
structure TableKey where
  ulObjId : ObjId
  ulOrderId : UInt32
deriving DecidableEq, Repr

def CACHE_NO_PARENT : ObjId := 0xFFFFFFFF

/-- A row of the table `hierarchy`, where only the parent can be `NULL`. -/
structure HierarchyRow where
  id : ObjId
  parent : Option ObjId
  owner : UInt32
  flags : UInt32
  type : UInt32
deriving DecidableEq, Repr

/-- The table `hierarchy`. -/
structure Hierarchy where
  rows : List HierarchyRow
  id_nodup : (rows.map HierarchyRow.id).Nodup

/-- The cache of the objects, whose entries do not age. -/
structure ObjectsCacheType extends CacheType ObjId ECsObjects where
  ageless : m_lMaxAge = 0

/-- What `GetObject` makes of a row. -/
def HierarchyRow.object (row : HierarchyRow) : ECsObjects :=
  ⟨row.parent.getD CACHE_NO_PARENT, row.owner, row.flags, row.type⟩

def Hierarchy.row (db : Hierarchy) (ulObjId : ObjId) : Option HierarchyRow := db.rows.find? fun row => row.id = ulObjId

inductive ObjectError where
  | ZARAFA_E_NOT_FOUND
deriving DecidableEq, Repr

section Calls

variable (t : ObjectsCacheType) (db : Hierarchy) (m_ObjectsCache : ECCache ObjId ECsObjects)

/-- `SetObject`, without what it returns. -/
def SetObject (ulObjId : ObjId) (sObjects : ECsObjects) (tNow : ℤ) : ECCache ObjId ECsObjects :=
  if sObjects.ulParent = 0 ∨ ulObjId = 0 ∨ sObjects.ulOwner = 0 then m_ObjectsCache
  else m_ObjectsCache.addCacheItem t.toCacheType ulObjId sObjects tNow

/-- `GetObject`. -/
def GetObject (ulObjId : ObjId) (tNow : ℤ) : Except ObjectError ECsObjects × ECCache ObjId ECsObjects :=
  let (_, found, cache) := m_ObjectsCache.getCacheItem t.toCacheType ulObjId tNow
  match found with
  | some sObject => (.ok sObject, cache)
  | none =>
    match db.row ulObjId with
    | none => (.error .ZARAFA_E_NOT_FOUND, cache)
    | some row => (.ok row.object, SetObject t cache ulObjId row.object tNow)

/-- The variables of the first loop of `GetObjects`. -/
structure Lookups where
  m_ObjectsCache : ECCache ObjId ECsObjects
  mapObjects : TableKey → Option ECsObjects
  setUncached : List TableKey

/-- The body of the loop. -/
def Lookups.key (tNow : ℤ) (s : Lookups) (i : TableKey) : Lookups :=
  let (_, found, cache) := s.m_ObjectsCache.getCacheItem t.toCacheType i.ulObjId tNow
  match found with
  | some lpsObject => { s with m_ObjectsCache := cache, mapObjects := Function.update s.mapObjects i (some lpsObject) }
  | none => { s with m_ObjectsCache := cache, setUncached := s.setUncached.insert i }

/-- The body of the loop over the rows of the query, which leaves out a row with a `NULL`. -/
def fetchRow (mapObjects : TableKey → Option ECsObjects) (lpDBRow : HierarchyRow) : TableKey → Option ECsObjects :=
  match lpDBRow.parent with
  | none => mapObjects
  | some ulParent =>
    Function.update mapObjects ⟨lpDBRow.id, 0⟩ (some ⟨ulParent, lpDBRow.owner, lpDBRow.flags, lpDBRow.type⟩)

/-- The rows `WHERE id IN` the IDs of some keys. -/
def Hierarchy.select (keys : List TableKey) : List HierarchyRow :=
  db.rows.filter fun row => ∃ key ∈ keys, key.ulObjId = row.id

/-- `GetObjects`, with `mapObjects` empty before. -/
def GetObjects (lstObjects : List TableKey) (tNow : ℤ) :
    (TableKey → Option ECsObjects) × ECCache ObjId ECsObjects :=
  let s := lstObjects.foldl (Lookups.key t tNow) ⟨m_ObjectsCache, fun _ => none, []⟩
  ((db.select s.setUncached).foldl fetchRow s.mapObjects, s.m_ObjectsCache)

end Calls

/-! ## The cache -/

/-- The entries of the cache are as the table has them. -/
structure Agrees (t : ObjectsCacheType) (db : Hierarchy) (c : ECCache ObjId ECsObjects) : Prop where
  keyed : c.Keyed t.toCacheType
  current : ∀ ulObjId sObject, c.Maps ulObjId sObject → (db.row ulObjId).map HierarchyRow.object = some sObject

/-- What the cache has for an object. -/
def cached (c : ECCache ObjId ECsObjects) (ulObjId : ObjId) : Option ECsObjects := (c.find ulObjId).map CacheItem.value

section Cache

variable {t : ObjectsCacheType} {db : Hierarchy} {c : ECCache ObjId ECsObjects} {ulObjId : ObjId} {sObject : ECsObjects}

theorem cached_eq_some_iff (hc : c.Keyed t.toCacheType) : cached c ulObjId = some sObject ↔ c.Maps ulObjId sObject := by
  constructor
  · intro h
    obtain ⟨item, hitem, rfl⟩ := Option.map_eq_some_iff.mp h
    exact maps_of_find hitem
  · intro h
    obtain ⟨item, hitem, hvalue⟩ := find_of_maps hc h
    exact Option.map_eq_some_iff.mpr ⟨item, hitem, hvalue⟩

/-- Looking up changes nothing but times and counters. -/
theorem cached_getCacheItem (hc : c.Keyed t.toCacheType) (key : ObjId) (tNow : ℤ) :
    cached (c.getCacheItem t.toCacheType key tNow).2.2 = cached c := by
  funext ulObjId
  have hc' := keyed_getCacheItem t.ageless hc key tNow
  exact Option.ext fun sObject => by
    rw [cached_eq_some_iff hc', cached_eq_some_iff hc, maps_getCacheItem t.ageless hc]

/-- With a cache that agrees with the table, `GetObject` returns what is in the table. -/
theorem GetObject_eq (hc : Agrees t db c) (tNow : ℤ) :
    (GetObject t db c ulObjId tNow).1.toOption = (db.row ulObjId).map HierarchyRow.object := by
  have hanswer : (c.getCacheItem t.toCacheType ulObjId tNow).2.1 = cached c ulObjId :=
    getCacheItem_answer t.ageless ulObjId tNow
  rw [GetObject]
  simp only [hanswer]
  match hfound : cached c ulObjId with
  | some sObject => exact (hc.current _ _ ((cached_eq_some_iff hc.keyed).mp hfound)).symm
  | none =>
    match db.row ulObjId with
    | none => rfl
    | some row => rfl

/-- Looking an object up keeps the cache as the table has it, whether the object was there or is added. -/
theorem Agrees.getObject (hc : Agrees t db c) (ulObjId : ObjId) (tNow : ℤ) :
    Agrees t db (GetObject t db c ulObjId tNow).2 := by
  have hanswer : (c.getCacheItem t.toCacheType ulObjId tNow).2.1 = cached c ulObjId :=
    getCacheItem_answer t.ageless ulObjId tNow
  have hlooked : Agrees t db (c.getCacheItem t.toCacheType ulObjId tNow).2.2 :=
    ⟨keyed_getCacheItem t.ageless hc.keyed ulObjId tNow,
      fun k o h => hc.current k o ((maps_getCacheItem t.ageless hc.keyed).mp h)⟩
  rw [GetObject]
  simp only [hanswer]
  cases cached c ulObjId with
  | some sObject => exact hlooked
  | none =>
    cases hrow : db.row ulObjId with
    | none => exact hlooked
    | some row =>
      show Agrees t db (SetObject _ _ _ _ _)
      rw [SetObject]
      split_ifs
      · exact hlooked
      · refine ⟨keyed_addCacheItem hlooked.keyed ulObjId row.object tNow, fun k o h => ?_⟩
        rcases maps_of_addCacheItem hlooked.keyed h with ⟨rfl, rfl⟩ | ⟨-, h⟩
        · rw [hrow, Option.map_some]
        · exact hlooked.current k o h

/-! ## The two loops -/

/-- A turn of the first loop: a key is stored or remembered. -/
theorem lookups_key (s : Lookups) (hc : s.m_ObjectsCache.Keyed t.toCacheType) (tNow : ℤ) (i : TableKey) :
    (s.key t tNow i).m_ObjectsCache.Keyed t.toCacheType ∧
      cached (s.key t tNow i).m_ObjectsCache = cached s.m_ObjectsCache ∧ (∀ key, (s.key t tNow i).mapObjects key =
        (if key = i then cached s.m_ObjectsCache i.ulObjId else none).or (s.mapObjects key)) ∧
      ∀ key, key ∈ (s.key t tNow i).setUncached ↔
        key ∈ s.setUncached ∨ key = i ∧ cached s.m_ObjectsCache i.ulObjId = none := by
  have hanswer : (s.m_ObjectsCache.getCacheItem t.toCacheType i.ulObjId tNow).2.1 =
    cached s.m_ObjectsCache i.ulObjId := getCacheItem_answer t.ageless i.ulObjId tNow
  have hkeyed := keyed_getCacheItem t.ageless hc i.ulObjId tNow
  have hcached := cached_getCacheItem hc i.ulObjId tNow
  rw [Lookups.key]
  simp only [hanswer]
  match cached s.m_ObjectsCache i.ulObjId with
  | some lpsObject =>
    refine ⟨hkeyed, hcached, fun key => ?_, fun key => by simp⟩
    by_cases hkey : key = i
    · rw [hkey, if_pos rfl]
      exact Function.update_self i _ _
    · rw [if_neg hkey]
      exact Function.update_of_ne hkey _ _
  | none =>
    refine ⟨hkeyed, hcached, fun key => by simp, fun key => ?_⟩
    rw [List.mem_insert_iff, or_comm, and_iff_left rfl]

/-- The first loop stores the keys of the objects that are in the cache, and remembers the others. -/
theorem lookups_foldl (lstObjects : List TableKey) (s : Lookups) (hc : s.m_ObjectsCache.Keyed t.toCacheType) (tNow : ℤ) :
    (∀ key, (lstObjects.foldl (Lookups.key t tNow) s).mapObjects key =
        (if key ∈ lstObjects then cached s.m_ObjectsCache key.ulObjId else none).or (s.mapObjects key)) ∧
      ∀ key, key ∈ (lstObjects.foldl (Lookups.key t tNow) s).setUncached ↔
        key ∈ s.setUncached ∨ key ∈ lstObjects ∧ cached s.m_ObjectsCache key.ulObjId = none := by
  induction lstObjects generalizing s with
  | nil => simp
  | cons i lstObjects ih =>
    obtain ⟨hkeyed, hcached, hmap, huncached⟩ := lookups_key s hc tNow i
    obtain ⟨ihmap, ihuncached⟩ := ih (s.key t tNow i) hkeyed
    constructor
    · intro key
      rw [List.foldl_cons, ihmap, hcached, hmap]
      by_cases hkey : key = i
      · rw [hkey, if_pos rfl, if_pos List.mem_cons_self]
        split_ifs
        · rw [← Option.or_assoc, Option.or_self]
        · rfl
      · simp only [if_neg hkey, List.mem_cons, or_iff_right hkey, Option.none_or]
    · intro key
      rw [List.foldl_cons, ihuncached, hcached, huncached, List.mem_cons]
      by_cases hkey : key = i
      · rw [hkey]
        tauto
      · tauto

/-- A turn of the loop over the rows. -/
theorem fetchRow_apply (mapObjects : TableKey → Option ECsObjects) (row : HierarchyRow) (key : TableKey) :
    fetchRow mapObjects row key =
      (if key = ⟨row.id, 0⟩ then row.parent.map fun _ => row.object else none).or (mapObjects key) := by
  rw [fetchRow, HierarchyRow.object]
  match row.parent with
  | none => rw [Option.map_none, ite_self, Option.none_or]
  | some ulParent =>
    split_ifs with hkey
    · rw [hkey]
      exact Function.update_self _ _ _
    · exact Function.update_of_ne hkey _ _

/-- The loop over the rows stores the objects with a parent, under keys without an order. -/
theorem fetchRow_foldl {rows : List HierarchyRow} (hnodup : (rows.map HierarchyRow.id).Nodup)
    (mapObjects : TableKey → Option ECsObjects) (key : TableKey) : rows.foldl fetchRow mapObjects key =
      (if key.ulOrderId = 0 then
        (rows.find? fun row => row.id = key.ulObjId).bind fun row => row.parent.map fun _ => row.object
      else none).or (mapObjects key) := by
  induction rows generalizing mapObjects with
  | nil => simp
  | cons row rows ih =>
    obtain ⟨hrow, hnodup⟩ := List.nodup_cons.mp hnodup
    have hkey : key = ⟨row.id, 0⟩ ↔ key.ulOrderId = 0 ∧ row.id = key.ulObjId := by
      cases key
      rw [TableKey.mk.injEq, and_comm, eq_comm (b := row.id)]
    rw [List.foldl_cons, ih hnodup, fetchRow_apply, ← Option.or_assoc]
    refine congrArg (Option.or · (mapObjects key)) ?_
    by_cases horder : key.ulOrderId = 0
    · by_cases hid : row.id = key.ulObjId
      · -- the ID of this row is in no other
        have hrest : rows.find? (fun row => row.id = key.ulObjId) = none := by
          refine List.find?_eq_none.mpr fun row' hrow' => ?_
          rw [← hid, decide_eq_true_iff]
          exact fun heq => hrow (heq ▸ List.mem_map_of_mem hrow')
        have hfirst : (row :: rows).find? (fun row => row.id = key.ulObjId) = some row :=
          List.find?_cons_of_pos (decide_eq_true hid)
        rw [if_pos horder, if_pos horder, if_pos (hkey.mpr ⟨horder, hid⟩), hrest, hfirst, Option.bind_none,
          Option.none_or, Option.bind_some]
      · have hrest : (row :: rows).find? (fun row => row.id = key.ulObjId) = rows.find? fun row => row.id = key.ulObjId :=
          List.find?_cons_of_neg (by rwa [decide_eq_true_iff])
        rw [if_pos horder, if_pos horder, if_neg fun h => hid (hkey.mp h).2, Option.or_none, hrest]
    · rw [if_neg horder, if_neg horder, if_neg fun h => horder (hkey.mp h).1]
      rfl

/-- The row of an object in the answer of a query. -/
theorem find?_select (keys : List TableKey) (ulObjId : ObjId) : (db.select keys).find? (fun row => row.id = ulObjId) =
      if ∃ key ∈ keys, key.ulObjId = ulObjId then db.row ulObjId else none := by
  rw [Hierarchy.select, List.find?_filter, Hierarchy.row]
  split_ifs with hasked
  · refine congrArg (db.rows.find? ·) (funext fun row => ?_)
    by_cases hid : row.id = ulObjId
    · simp [hid, hasked]
    · simp [hid]
  · refine List.find?_eq_none.mpr fun row _ => ?_
    simp only [decide_eq_true_iff, not_and]
    rintro hkey rfl
    exact hasked hkey

/-- What `GetObjects` stores under a key: for one without an order the row of the object, if it has a parent and was
looked up in the table, and else what is in the cache. -/
theorem GetObjects_apply (hc : c.Keyed t.toCacheType) (lstObjects : List TableKey) (tNow : ℤ) (key : TableKey) :
    (GetObjects t db c lstObjects tNow).1 key =
      (if key.ulOrderId = 0 ∧ ∃ i ∈ lstObjects, cached c i.ulObjId = none ∧ i.ulObjId = key.ulObjId then
        (db.row key.ulObjId).bind fun row => row.parent.map fun _ => row.object
      else none).or (if key ∈ lstObjects then cached c key.ulObjId else none) := by
  have hspec := lookups_foldl lstObjects ⟨c, fun _ => none, []⟩ hc tNow
  obtain ⟨hmap, huncached⟩ := hspec
  have hnodup : ((db.select (lstObjects.foldl (Lookups.key t tNow) ⟨c, fun _ => none, []⟩).setUncached).map
      HierarchyRow.id).Nodup := db.id_nodup.sublist (List.filter_sublist.map _)
  simp only [List.not_mem_nil, false_or] at huncached
  rw [GetObjects]
  dsimp only
  rw [fetchRow_foldl hnodup, hmap, find?_select, Option.or_none]
  simp only [huncached, and_assoc]
  by_cases horder : key.ulOrderId = 0
  · simp only [horder, true_and]
    split_ifs <;> rfl
  · simp only [horder, false_and, if_false]

/-- The objects that are asked for and exist, as they are in the table. -/
def wanted (db : Hierarchy) (lstObjects : List TableKey) (key : TableKey) : Option ECsObjects :=
  if key ∈ lstObjects then (db.row key.ulObjId).map HierarchyRow.object else none

/-- An object that is asked for and not in the cache is asked for without an order, and has a parent. -/
def Plain (db : Hierarchy) (c : ECCache ObjId ECsObjects) (lstObjects : List TableKey) : Prop :=
  ∀ key ∈ lstObjects, ∀ row, db.row key.ulObjId = some row → cached c key.ulObjId = none →
    key.ulOrderId = 0 ∧ row.parent.isSome

/-- With one cache, `GetObjects` finds what is asked for just where the objects behind the cache are plain. -/
theorem GetObjects_eq_iff (hc : Agrees t db c) (lstObjects : List TableKey) (tNow : ℤ) :
    (GetObjects t db c lstObjects tNow).1 = wanted db lstObjects ↔ Plain db c lstObjects := by
  constructor
  · intro heq key hkey row hrow huncached
    have happly := congrFun heq key
    rw [GetObjects_apply hc.keyed, wanted, if_pos hkey, if_pos hkey, huncached, hrow, Option.or_none,
      Option.map_some] at happly
    -- nothing is stored under the key otherwise
    split_ifs at happly with hasked
    refine ⟨hasked.1, ?_⟩
    match hparent : row.parent with
    | some ulParent => rfl
    | none =>
      rw [Option.bind_some, hparent] at happly
      cases happly
  · intro hplain
    funext key
    rw [GetObjects_apply hc.keyed, wanted]
    by_cases hasked : key.ulOrderId = 0 ∧ ∃ i ∈ lstObjects, cached c i.ulObjId = none ∧ i.ulObjId = key.ulObjId
    · obtain ⟨horder, i, hi, huncached, hid⟩ := hasked
      rw [if_pos ⟨horder, i, hi, huncached, hid⟩]
      rw [hid] at huncached
      match hrow : db.row key.ulObjId with
      | none => rw [huncached, Option.bind_none, Option.none_or, ite_self, Option.map_none, ite_self]
      | some row =>
        obtain ⟨hi', hparent⟩ := hplain i hi row (hid ▸ hrow) (hid ▸ huncached)
        have hkey : key ∈ lstObjects := by
          have hsame : i = key := by
            cases i
            cases key
            exact congrArg₂ TableKey.mk hid (hi'.trans horder.symm)
          rwa [← hsame]
        obtain ⟨ulParent, hparent⟩ := Option.isSome_iff_exists.mp hparent
        rw [if_pos hkey, if_pos hkey, huncached, Option.or_none, Option.bind_some, hparent, Option.map_some,
          Option.map_some]
    · rw [if_neg hasked, Option.none_or]
      split_ifs with hkey
      · match hfound : cached c key.ulObjId with
        | some sObject => exact (hc.current _ _ ((cached_eq_some_iff hc.keyed).mp hfound)).symm
        | none =>
          match hrow : db.row key.ulObjId with
          | none => rfl
          | some row => exact absurd ⟨(hplain key hkey row hrow hfound).1, key, hkey, hfound, rfl⟩ hasked
      · rfl

/-- The lookup of many objects does not depend on what is cached, and gives what `GetObject` returns for each of them,
if and only if in either cache no object that exists is missing that is asked for with an order or has no parent. -/
theorem getObjects_iff {c' : ECCache ObjId ECsObjects} (hc : Agrees t db c) (hc' : Agrees t db c')
    (lstObjects : List TableKey) (tNow : ℤ) :
    ((GetObjects t db c lstObjects tNow).1 = (GetObjects t db c' lstObjects tNow).1 ∧
        ∀ key, (GetObjects t db c lstObjects tNow).1 key =
          if key ∈ lstObjects then (GetObject t db c key.ulObjId tNow).1.toOption else none) ↔
      Plain db c lstObjects ∧ Plain db c' lstObjects := by
  have hobject : (∀ key, (GetObjects t db c lstObjects tNow).1 key =
      if key ∈ lstObjects then (GetObject t db c key.ulObjId tNow).1.toOption else none) ↔
      (GetObjects t db c lstObjects tNow).1 = wanted db lstObjects := by
    simp only [GetObject_eq hc, funext_iff, wanted]
  rw [hobject, ← GetObjects_eq_iff hc lstObjects tNow, ← GetObjects_eq_iff hc' lstObjects tNow]
  constructor
  · rintro ⟨hsame, hwanted⟩
    exact ⟨hwanted, hsame.symm.trans hwanted⟩
  · rintro ⟨hwanted, hwanted'⟩
    exact ⟨hwanted.trans hwanted'.symm, hwanted⟩

end Cache

/-! ## A store -/

/-- A store and its root folder. -/
def twoRows : Hierarchy where
  rows := [⟨1, none, 1, 0, 1⟩, ⟨2, some 1, 1, 0, 3⟩]
  id_nodup := by decide

/-- A cache of objects that is large enough for anything. -/
def largeCache : ObjectsCacheType where
  m_ulMaxSize := 2 ^ 20
  m_lMaxAge := 0
  keySize _ := 0
  valueSize _ := 0
  keySize_lt _ := by decide
  valueSize_lt _ := by decide
  entrySize := 40
  place item m := item :: m
  place_perm _ _ := .rfl
  share n := n / 20
  ageless := rfl

/-- The cache behind `GetObject` for the store. -/
def storeCached : ECCache ObjId ECsObjects := (GetObject largeCache twoRows .new 1 0).2

theorem agrees_new (t : ObjectsCacheType) (db : Hierarchy) : Agrees t db .new :=
  ⟨keyed_new, fun ulObjId sObject h => absurd h (not_maps_new ulObjId sObject)⟩

theorem agrees_storeCached : Agrees largeCache twoRows storeCached := (agrees_new _ _).getObject 1 0

/-- A store with its root folder and a folder below it. -/
def threeRows : Hierarchy where
  rows := [⟨1, none, 1, 0, 1⟩, ⟨2, some 1, 1, 0, 3⟩, ⟨3, some 2, 1, 0, 3⟩]
  id_nodup := by decide

/-- The cache behind `GetObject` for the lowest folder. -/
def folderCached : ECCache ObjId ECsObjects := (GetObject largeCache threeRows .new 3 0).2

/-- Cached and other folders are found under any order that they are asked for with, and without one, in a cache that
has the store and in one that does not. -/
theorem getObjects_folders : (GetObjects largeCache threeRows folderCached [⟨2, 0⟩, ⟨3, 7⟩, ⟨9, 4⟩, ⟨3, 0⟩] 1).1 =
        (GetObjects largeCache threeRows (GetObject largeCache threeRows folderCached 1 0).2
          [⟨2, 0⟩, ⟨3, 7⟩, ⟨9, 4⟩, ⟨3, 0⟩] 1).1 ∧
      ∀ key, (GetObjects largeCache threeRows folderCached [⟨2, 0⟩, ⟨3, 7⟩, ⟨9, 4⟩, ⟨3, 0⟩] 1).1 key =
        if key ∈ [TableKey.mk 2 0, ⟨3, 7⟩, ⟨9, 4⟩, ⟨3, 0⟩] then
          (GetObject largeCache threeRows folderCached key.ulObjId 1).1.toOption
        else none := by
  have hfolder : Agrees largeCache threeRows folderCached := (agrees_new _ _).getObject 3 0
  have hplain : ∀ c, cached c 3 ≠ none → Plain threeRows c [⟨2, 0⟩, ⟨3, 7⟩, ⟨9, 4⟩, ⟨3, 0⟩] := by
    intro c hcached key hkey row hrow hnone
    simp only [List.mem_cons, List.not_mem_nil, or_false] at hkey
    rcases hkey with rfl | rfl | rfl | rfl
    · obtain rfl := Option.some.inj (show some (⟨2, some 1, 1, 0, 3⟩ : HierarchyRow) = some row from hrow)
      exact ⟨rfl, rfl⟩
    · exact absurd hnone hcached
    · -- an object that does not exist may have any order
      cases show none = some row from hrow
    · exact absurd hnone hcached
  exact (getObjects_iff hfolder (hfolder.getObject 1 0) _ 1).mpr ⟨hplain _ (by decide), hplain _ (by decide)⟩

/-- The store is found only when it is in the cache. -/
theorem not_getObjects_store : (GetObjects largeCache twoRows .new [⟨1, 0⟩] 1).1 ⟨1, 0⟩ = none ∧
      (GetObjects largeCache twoRows storeCached [⟨1, 0⟩] 1).1 ⟨1, 0⟩ = some ⟨CACHE_NO_PARENT, 1, 0, 1⟩ := ⟨rfl, rfl⟩

/-- The root folder is found under the order that it is asked for with, or without one. -/
example :
    (GetObjects largeCache twoRows .new [⟨2, 1⟩] 1).1 ⟨2, 0⟩ = some ⟨1, 1, 0, 3⟩ ∧
      (GetObjects largeCache twoRows (GetObject largeCache twoRows .new 2 0).2 [⟨2, 1⟩] 1).1 ⟨2, 1⟩ =
        some ⟨1, 1, 0, 3⟩ := ⟨rfl, rfl⟩

end Objects

end Zcp.Libserver
