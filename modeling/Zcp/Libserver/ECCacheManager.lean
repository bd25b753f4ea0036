import Mathlib.Data.UInt
import Zcp.Common.ECCache
import Zcp.Libserver.ZarafaCode

/-!
# Index caches

The part of `provider/libserver/ECCacheManager.cpp` that knows which object has which indexed property.
Every pair of an object and a property is in two caches, one for each direction, and each of them purges
its oldest entries on its own.
-/

namespace Zcp.Libserver

open Zcp.Common

namespace ECCacheManager

/-! ## Keys -/

/-- `PROP_TAG`. -/
def PROP_TAG (ulPropType ulPropID : UInt32) : UInt32 := (ulPropID <<< 16) ||| ulPropType

/-- `PROP_ID`. -/
def PROP_ID (ulPropTag : UInt32) : UInt32 := ulPropTag >>> 16

def PT_UNSPECIFIED : UInt32 := 0

/-- Bytes that an `unsigned int` can count. A null pointer has none. -/
abbrev IndexData := { lpData : List UInt8 // lpData.length < 2 ^ 32 }

structure ECsIndexObject where
  ulObjId : ObjId
  ulTag : UInt32
deriving DecidableEq, Repr

/-- The order of the map. -/
instance : LT ECsIndexObject :=
  ⟨fun a b => a.ulObjId < b.ulObjId ∨ a.ulObjId = b.ulObjId ∧ a.ulTag < b.ulTag⟩

instance : DecidableLT ECsIndexObject := fun _ _ => inferInstanceAs (Decidable (_ ∨ _))

structure ECsIndexProp where
  ulTag : UInt32
  lpData : IndexData
deriving DecidableEq, Repr

theorem IndexData.nil_lt : ([] : List UInt8).length < 2 ^ 32 := by decide

/-- `SetValue` on a new `ECsIndexProp`. -/
def ECsIndexProp.setValue (ulTag : UInt32) (lpData : IndexData) : ECsIndexProp :=
  if lpData.1 = [] then ⟨0, ⟨[], IndexData.nil_lt⟩⟩ else ⟨ulTag, lpData⟩

/-! ## The two caches -/

/-- The types of the caches, whose entries do not age. -/
structure IndexCaches where
  index1 : CacheType ECsIndexProp ECsIndexObject
  index2 : CacheType ECsIndexObject ECsIndexProp
  index1_ageless : index1.m_lMaxAge = 0
  index2_ageless : index2.m_lMaxAge = 0

/-- What goes wrong. -/
inductive IndexError where
  | ZARAFA_E_NOT_FOUND
  | ZARAFA_E_INVALID_PARAMETER
  | ZARAFA_E_DATABASE_ERROR
deriving DecidableEq, Repr

end ECCacheManager

/-- `ECCacheManager`, of which only the index caches are kept. -/
structure ECCacheManager where
  m_PropToObjectCache : ECCache ECCacheManager.ECsIndexProp ECCacheManager.ECsIndexObject
  m_ObjectToPropCache : ECCache ECCacheManager.ECsIndexObject ECCacheManager.ECsIndexProp

namespace ECCacheManager

def new : ECCacheManager := ⟨.new, .new⟩

variable (t : IndexCaches) (m : ECCacheManager)

/-! ### Removing -/

/-- The body of the loop of `RemoveIndexData`. -/
def removeItem (iItem : CacheItem ECsIndexObject ECsIndexProp) : ECCacheManager where
  m_ObjectToPropCache := (m.m_ObjectToPropCache.removeCacheItem t.index2 iItem.key).2
  m_PropToObjectCache := (m.m_PropToObjectCache.removeCacheItem t.index1 iItem.value).2

/-- `RemoveIndexData` of an object. -/
def removeIndexData (ulObjId : ObjId) : ECCacheManager :=
  let lstItems := m.m_ObjectToPropCache.getCacheRange ⟨ulObjId, 0⟩ ⟨ulObjId, 0xffffffff⟩
  lstItems.foldl (removeItem t) m

/-- `RemoveIndexData` of a property with a value. -/
def removeIndexDataOfValue (ulPropTag : UInt32) (lpData : IndexData) (tNow : ℤ) :
    Except IndexError Unit × ECCacheManager :=
  if lpData.1 = [] then (.error .ZARAFA_E_INVALID_PARAMETER, m)
  else
    let sObject : ECsIndexProp := ⟨PROP_ID ulPropTag, lpData⟩
    let (_, found, index1) := m.m_PropToObjectCache.getCacheItem t.index1 sObject tNow
    match found with
    | none => (.ok (), ⟨index1, m.m_ObjectToPropCache⟩)
    | some sObjectId => (.ok (),
        ⟨(index1.removeCacheItem t.index1 sObject).2,
          (m.m_ObjectToPropCache.removeCacheItem t.index2 sObjectId).2⟩)

/-- `RemoveIndexData` of a property of an object. -/
def removeIndexDataOfTag (ulPropTag : UInt32) (ulObjId : ObjId) (tNow : ℤ) : ECCacheManager :=
  let sObject : ECsIndexObject := ⟨ulObjId, PROP_ID ulPropTag⟩
  let (_, found, index2) := m.m_ObjectToPropCache.getCacheItem t.index2 sObject tNow
  match found with
  | none => ⟨m.m_PropToObjectCache, index2⟩
  | some sObjectId =>
    ⟨(m.m_PropToObjectCache.removeCacheItem t.index1 sObjectId).2,
      (index2.removeCacheItem t.index2 sObject).2⟩

/-! ### Adding -/

/-- `_AddIndexData`, which does not look at what the removals answer. -/
def addIndexData (lpObject : ECsIndexObject) (lpProp : ECsIndexProp) (tNow : ℤ) : ECCacheManager :=
  let m := m.removeIndexDataOfTag t (PROP_TAG PT_UNSPECIFIED lpObject.ulTag) lpObject.ulObjId tNow
  let m := (m.removeIndexDataOfValue t (PROP_TAG PT_UNSPECIFIED lpProp.ulTag) lpProp.lpData tNow).2
  ⟨m.m_PropToObjectCache.addCacheItem t.index1 lpProp lpObject tNow,
    m.m_ObjectToPropCache.addCacheItem t.index2 lpObject lpProp tNow⟩

def setObjectProp (ulTag : UInt32) (lpData : IndexData) (ulObjId : ObjId) (tNow : ℤ) :
    ECCacheManager :=
  m.addIndexData t ⟨ulObjId, ulTag⟩ (.setValue ulTag lpData) tNow

/-! ### Looking up -/

/-- `GetPropFromObject`, with what the database has when it is asked. -/
def getPropFromObject (ulTag : UInt32) (ulObjId : ObjId) (lpDBRow : Except IndexError IndexData)
    (tNow : ℤ) : Except IndexError IndexData × ECCacheManager :=
  let sObjectKey : ECsIndexObject := ⟨ulObjId, ulTag⟩
  let (_, found, index2) := m.m_ObjectToPropCache.getCacheItem t.index2 sObjectKey tNow
  let m : ECCacheManager := ⟨m.m_PropToObjectCache, index2⟩
  match found, lpDBRow with
  | some sObject, _ => (.ok sObject.lpData, m)
  | none, .error er => (.error er, m)
  | none, .ok lpData =>
    let sNewObject := ECsIndexProp.setValue ulTag lpData
    (.ok sNewObject.lpData, m.addIndexData t sObjectKey sNewObject tNow)

def queryObjectFromProp (ulTag : UInt32) (lpData : IndexData) (tNow : ℤ) :
    Except IndexError ObjId × ECCacheManager :=
  if lpData.1 = [] then (.error .ZARAFA_E_INVALID_PARAMETER, m)
  else
    let (_, found, index1) := m.m_PropToObjectCache.getCacheItem t.index1 ⟨ulTag, lpData⟩ tNow
    let m : ECCacheManager := ⟨index1, m.m_ObjectToPropCache⟩
    match found with
    | none => (.error .ZARAFA_E_NOT_FOUND, m)
    | some sIndexObject => (.ok sIndexObject.ulObjId, m)

/-- `GetObjectFromProp`, with what the database has when it is asked. -/
def getObjectFromProp (ulTag : UInt32) (lpData : IndexData) (lpDBRow : Except IndexError ObjId)
    (tNow : ℤ) : Except IndexError ObjId × ECCacheManager :=
  if lpData.1 = [] then (.error .ZARAFA_E_INVALID_PARAMETER, m)
  else
    match m.queryObjectFromProp t ulTag lpData tNow, lpDBRow with
    | (.ok ulObjId, m), _ => (.ok ulObjId, m)
    | (.error _, m), .error er => (.error er, m)
    | (.error _, m), .ok ulObjId =>
      (.ok ulObjId, m.addIndexData t ⟨ulObjId, ulTag⟩ ⟨ulTag, lpData⟩ tNow)

/-! ### Purging -/

def PURGE_CACHE_INDEX1 : UInt32 := 0x0040

def PURGE_CACHE_INDEX2 : UInt32 := 0x0080

/-- `PurgeCache`. -/
def purgeCache (ulFlags : UInt32) : ECCacheManager where
  m_PropToObjectCache :=
    if ulFlags &&& PURGE_CACHE_INDEX1 ≠ 0 then .clearCache else m.m_PropToObjectCache
  m_ObjectToPropCache :=
    if ulFlags &&& PURGE_CACHE_INDEX2 ≠ 0 then .clearCache else m.m_ObjectToPropCache

/-! ## Runs -/

/-- A call on the index caches. The lookups come with what the database has. -/
inductive IndexOp where
  | setObjectProp (ulTag : UInt32) (lpData : IndexData) (ulObjId : ObjId)
  | addIndexData (lpObject : ECsIndexObject) (lpProp : ECsIndexProp)
  | getPropFromObject (ulTag : UInt32) (ulObjId : ObjId) (lpDBRow : Except IndexError IndexData)
  | queryObjectFromProp (ulTag : UInt32) (lpData : IndexData)
  | getObjectFromProp (ulTag : UInt32) (lpData : IndexData) (lpDBRow : Except IndexError ObjId)
  | removeIndexData (ulObjId : ObjId)
  | removeIndexDataOfValue (ulPropTag : UInt32) (lpData : IndexData)
  | removeIndexDataOfTag (ulPropTag : UInt32) (ulObjId : ObjId)
  | purgeCache (ulFlags : UInt32)

/-- A call at a time. -/
def IndexOp.step (m : ECCacheManager) (tNow : ℤ) : IndexOp → ECCacheManager
  | .setObjectProp ulTag lpData ulObjId => m.setObjectProp t ulTag lpData ulObjId tNow
  | .addIndexData lpObject lpProp => m.addIndexData t lpObject lpProp tNow
  | .getPropFromObject ulTag ulObjId lpDBRow => (m.getPropFromObject t ulTag ulObjId lpDBRow tNow).2
  | .queryObjectFromProp ulTag lpData => (m.queryObjectFromProp t ulTag lpData tNow).2
  | .getObjectFromProp ulTag lpData lpDBRow => (m.getObjectFromProp t ulTag lpData lpDBRow tNow).2
  | .removeIndexData ulObjId => m.removeIndexData t ulObjId
  | .removeIndexDataOfValue ulPropTag lpData => (m.removeIndexDataOfValue t ulPropTag lpData tNow).2
  | .removeIndexDataOfTag ulPropTag ulObjId => m.removeIndexDataOfTag t ulPropTag ulObjId tNow
  | .purgeCache ulFlags => m.purgeCache ulFlags

/-- Calls one after the other. -/
def runCalls (m : ECCacheManager) : List (IndexOp × ℤ) → ECCacheManager
  | [] => m
  | (op, tNow) :: ops => runCalls (op.step t m tNow) ops

end ECCacheManager

end Zcp.Libserver
