import Mathlib.Algebra.Order.BigOperators.Group.List
import Mathlib.Data.List.Sort
import Mathlib.Tactic.Ring

/-!
# The cache

`ECCache` of `common/ECCache.h` keeps a map of items together with the number of bytes that the keys
and the values of the items need beside the map itself. `run_accounted` says when that number is
right.
-/

namespace Zcp.Common

/-- An entry of `m_map`: the key, the value and `ulLastAccess` of the value. -/
structure CacheItem (κ ν : Type*) where
  key : κ
  value : ν
  ulLastAccess : ℤ
deriving DecidableEq, Repr

/-- The types and the limits of a cache. The kind of map decides where a new item is placed. -/
structure CacheType (κ ν : Type*) where
  m_ulMaxSize : ℕ
  m_lMaxAge : ℤ
  /-- `GetCacheAdditionalSize` of a key and of a value, an `unsigned int`. -/
  keySize : κ → ℕ
  valueSize : ν → ℕ
  keySize_lt : ∀ k, keySize k < 2 ^ 32
  valueSize_lt : ∀ v, valueSize v < 2 ^ 32
  /-- `sizeof(value_type) + sizeof(_MapType)`. -/
  entrySize : ℕ
  place : CacheItem κ ν → List (CacheItem κ ν) → List (CacheItem κ ν)
  place_perm : ∀ item m, (place item m).Perm (item :: m)
  /-- `(unsigned int)(m_map.size() * ratio)`. -/
  share : ℕ → ℕ

/-- `ECCache`. -/
structure ECCache (κ ν : Type*) where
  m_map : List (CacheItem κ ν)
  m_ulSize : ℕ
  m_ulCacheHit : ℕ
  m_ulCacheValid : ℕ

inductive CacheResult where
  | erSuccess
  | ZARAFA_E_NOT_FOUND
deriving DecidableEq, Repr

/-- `+=` on a `size_type`. -/
def addSize (m : ℕ) (d : ℤ) : ℕ := ((m + d) % 2 ^ 64).toNat

/-- The cast of an `unsigned int` to an `int`. -/
def asInt (n : ℕ) : ℤ := if n < 2 ^ 31 then n else n - 2 ^ 32

variable {κ ν : Type*} [DecidableEq κ]

namespace ECCache

/-- An empty cache. -/
def new : ECCache κ ν := ⟨[], 0, 0, 0⟩

/-- Put another item in the place of the item with a key. -/
def replace (key : κ) (item : CacheItem κ ν) : List (CacheItem κ ν) → List (CacheItem κ ν)
  | [] => []
  | i :: m => if i.key = key then item :: m else i :: replace key item m

variable (t : CacheType κ ν) (c : ECCache κ ν)

def find (key : κ) : Option (CacheItem κ ν) := c.m_map.find? (·.key = key)

/-- Take an item out of the map and its bytes out of the counter. -/
def drop (item : CacheItem κ ν) : ECCache κ ν :=
  { c with
    m_map := c.m_map.eraseP (·.key = item.key)
    m_ulSize := addSize (addSize c.m_ulSize (-t.valueSize item.value)) (-t.keySize item.key) }

def clearCache : ECCache κ ν := ⟨[], 0, 0, 0⟩

def size : ℕ := (c.m_map.length * t.entrySize + c.m_ulSize) % 2 ^ 64

def removeCacheItem (key : κ) : CacheResult × ECCache κ ν :=
  match c.find key with
  | none => (.ZARAFA_E_NOT_FOUND, c)
  | some item => (.erSuccess, c.drop t item)

/-- An item has the maximum age. -/
def Expired (tNow : ℤ) (item : CacheItem κ ν) : Prop := tNow - item.ulLastAccess ≥ t.m_lMaxAge

instance (tNow : ℤ) (item : CacheItem κ ν) : Decidable (Expired t tNow item) :=
  inferInstanceAs (Decidable (_ ≥ _))

/-- `GetCacheItem`, without the counters of the requests. -/
def lookup (key : κ) (tNow : ℤ) : CacheResult × Option ν × ECCache κ ν :=
  match c.find key with
  | none => (.ZARAFA_E_NOT_FOUND, none, c)
  | some item =>
    if t.m_lMaxAge ≠ 0 ∧ Expired t tNow item then
      let dl := (c.m_map.filter fun i => Expired t tNow i).map CacheItem.key
      (.ZARAFA_E_NOT_FOUND, none, { c with m_map := dl.foldl (fun m k => m.eraseP (·.key = k)) c.m_map })
    else if t.m_lMaxAge = 0 then
      (.erSuccess, some item.value,
        { c with m_map := replace key { item with ulLastAccess := tNow } c.m_map })
    else (.erSuccess, some item.value, c)

def getCacheItem (key : κ) (tNow : ℤ) : CacheResult × Option ν × ECCache κ ν :=
  let (er, value, c) := c.lookup t key tNow
  (er, value, { c with
    m_ulCacheHit := c.m_ulCacheHit + 1
    m_ulCacheValid := if er = .erSuccess then c.m_ulCacheValid + 1 else c.m_ulCacheValid })

/-- `GetCacheRange`: the items from the lower to the upper bound, in a map that is in order. -/
def getCacheRange [LT κ] [DecidableLT κ] (lower upper : κ) : List (CacheItem κ ν) :=
  c.m_map.filter fun item => ¬ item.key < lower ∧ ¬ upper < item.key

/-- The body of the loop of `PurgeCache`. -/
def purgeItem (entry : κ × ℤ) : ECCache κ ν :=
  match c.find entry.1 with
  | none => c
  | some item => c.drop t item

/-- `PurgeCache`: drop the oldest items, in the order of `KeyEntryOrder`. -/
def purgeCache : ECCache κ ν :=
  let lstEntries := (c.m_map.map fun i => (i.key, i.ulLastAccess)).mergeSort fun a b => a.2 ≤ b.2
  (lstEntries.take (t.share c.m_map.length)).foldl (fun c entry => c.purgeItem t entry) c

def updateCache : ECCache κ ν := if c.size t > t.m_ulMaxSize then c.purgeCache t else c

def addCacheItem (key : κ) (value : ν) (tNow : ℤ) : ECCache κ ν :=
  if t.m_ulMaxSize = 0 then c
  else match c.find key with
  | some item =>
    -- the difference of two `unsigned int` is cast to an `int`
    let diff := (t.valueSize value + (2 ^ 32 - t.valueSize item.value)) % 2 ^ 32
    { c with
      m_map := replace key ⟨key, value, tNow⟩ c.m_map
      m_ulSize := addSize c.m_ulSize (asInt diff) }
  | none =>
    updateCache t { c with
      m_map := t.place ⟨key, value, tNow⟩ c.m_map
      m_ulSize := addSize (addSize c.m_ulSize (t.valueSize value)) (t.keySize key) }

end ECCache

/-! ## Runs -/

/-- A call on a cache. -/
inductive CacheOp (κ ν : Type*) where
  | addCacheItem (key : κ) (value : ν) (tNow : ℤ)
  | getCacheItem (key : κ) (tNow : ℤ)
  | removeCacheItem (key : κ)
  | clearCache

variable (t : CacheType κ ν)

def CacheOp.step (c : ECCache κ ν) : CacheOp κ ν → ECCache κ ν
  | .addCacheItem key value tNow => c.addCacheItem t key value tNow
  | .getCacheItem key tNow => (c.getCacheItem t key tNow).2.2
  | .removeCacheItem key => (c.removeCacheItem t key).2
  | .clearCache => .clearCache

/-- The bytes an item needs beside the map. -/
def CacheType.itemSize (item : CacheItem κ ν) : ℕ := t.keySize item.key + t.valueSize item.value

/-- The bytes the items of a cache need beside the map. -/
def ECCache.itemSizes (c : ECCache κ ν) : ℕ := (c.m_map.map t.itemSize).sum

/-- All bytes of a cache. -/
def ECCache.bytes (c : ECCache κ ν) : ℕ := c.m_map.length * t.entrySize + c.itemSizes t

/-- A call that neither expires items with bytes of their own, nor replaces a value by one whose size
is 2 GiB off. -/
def CacheOp.Regular (c : ECCache κ ν) : CacheOp κ ν → Prop
  | .addCacheItem key value _ => ∀ item, c.find key = some item →
      -2 ^ 31 ≤ (t.valueSize value - t.valueSize item.value : ℤ) ∧
        (t.valueSize value - t.valueSize item.value : ℤ) < 2 ^ 31
  | .getCacheItem key tNow => ∀ item, c.find key = some item → t.m_lMaxAge ≠ 0 →
      ECCache.Expired t tNow item →
        ∀ i ∈ c.m_map, ECCache.Expired t tNow i → t.itemSize i = 0
  | _ => True

/-- All calls of a run are regular. -/
def RegularRun (c : ECCache κ ν) : List (CacheOp κ ν) → Prop
  | [] => True
  | op :: ops => op.Regular t c ∧ RegularRun (op.step t c) ops

/-- A key is in the map once, and the counter is the sum over the items, in the 64 bits of
`size_type`. -/
structure ECCache.Accounted (c : ECCache κ ν) : Prop where
  keys : (c.m_map.map CacheItem.key).Nodup
  size : c.m_ulSize = c.itemSizes t % 2 ^ 64

/-- What is left of a map when the oldest share of its items is dropped. -/
def CacheType.DropsOldest (m m' : List (CacheItem κ ν)) : Prop :=
  ∃ dropped, m.Perm (dropped ++ m') ∧ dropped.length = min (t.share m.length) m.length ∧
    ∀ d ∈ dropped, ∀ i ∈ m', d.ulLastAccess ≤ i.ulLastAccess

/-- What the insertion of an item makes of a cache: all items stay when `Size` is within the maximum
with the new one, and else the oldest share of them is dropped. -/
structure CacheType.Inserts (item : CacheItem κ ν) (c c' : ECCache κ ν) : Prop where
  keeps : (c.bytes t + (t.entrySize + t.itemSize item)) % 2 ^ 64 ≤ t.m_ulMaxSize →
    c'.m_map = t.place item c.m_map ∧ c'.size t ≤ t.m_ulMaxSize
  drops : t.m_ulMaxSize < (c.bytes t + (t.entrySize + t.itemSize item)) % 2 ^ 64 →
    t.DropsOldest (t.place item c.m_map) c'.m_map

/-! ## The counter -/

namespace ECCache

variable {t} {c : ECCache κ ν}

omit [DecidableEq κ] in
theorem itemSizes_of_perm {m m' : List (CacheItem κ ν)} (h : m.Perm m') :
    (m.map t.itemSize).sum = (m'.map t.itemSize).sum :=
  (h.map _).sum_eq

/-- Erasing the item with a key takes its bytes from the sum. -/
theorem sum_eraseP {m : List (CacheItem κ ν)} {key : κ} {item : CacheItem κ ν}
    (hf : m.find? (·.key = key) = some item) :
    (m.map t.itemSize).sum = t.itemSize item + ((m.eraseP (·.key = key)).map t.itemSize).sum := by
  induction m with
  | nil => cases hf
  | cons i m ih =>
    by_cases hi : i.key = key
    · rw [List.find?_cons_of_pos (by simpa using hi)] at hf
      rw [List.eraseP_cons_of_pos (by simpa using hi), Option.some.inj hf, List.map_cons,
        List.sum_cons]
    · rw [List.find?_cons_of_neg (by simpa using hi)] at hf
      rw [List.eraseP_cons_of_neg (by simpa using hi), List.map_cons, List.sum_cons, ih hf,
        List.map_cons, List.sum_cons]
      omega

/-- Replacing an item takes its bytes from the sum and adds those of the new one. -/
theorem sum_replace {m : List (CacheItem κ ν)} {key : κ} {item n : CacheItem κ ν}
    (hf : m.find? (·.key = key) = some item) : ((replace key n m).map t.itemSize).sum + t.itemSize item =
      (m.map t.itemSize).sum + t.itemSize n := by
  induction m with
  | nil => cases hf
  | cons i m ih =>
    rw [replace]
    by_cases hi : i.key = key
    · rw [List.find?_cons_of_pos (by simpa using hi)] at hf
      rw [if_pos hi, Option.some.inj hf, List.map_cons, List.sum_cons, List.map_cons, List.sum_cons]
      omega
    · rw [List.find?_cons_of_neg (by simpa using hi)] at hf
      rw [if_neg hi, List.map_cons, List.sum_cons, List.map_cons, List.sum_cons]
      have h := ih hf
      omega

theorem keys_replace {key : κ} {n : CacheItem κ ν} (hn : n.key = key)
    (m : List (CacheItem κ ν)) : (replace key n m).map CacheItem.key = m.map CacheItem.key := by
  induction m with
  | nil => rfl
  | cons i m ih =>
    rw [replace]
    split_ifs with hi
    · rw [List.map_cons, List.map_cons, hn, hi]
    · rw [List.map_cons, ih, List.map_cons]

theorem nodup_replace {key : κ} {n : CacheItem κ ν} (hn : n.key = key)
    {m : List (CacheItem κ ν)} (hm : (m.map CacheItem.key).Nodup) : ((replace key n m).map CacheItem.key).Nodup := by
  rw [keys_replace hn]
  exact hm

theorem length_replace (key : κ) (n : CacheItem κ ν) (m : List (CacheItem κ ν)) :
    (replace key n m).length = m.length := by
  induction m with
  | nil => rfl
  | cons i m ih =>
    rw [replace]
    split_ifs
    · rfl
    · rw [List.length_cons, ih, List.length_cons]

theorem find_key {key : κ} {item : CacheItem κ ν} (hf : c.find key = some item) : item.key = key := by
  simpa using List.find?_some hf

/-- Dropping an item keeps the account, and leaves fewer bytes. -/
theorem drop_spec {key : κ} {item : CacheItem κ ν} (hf : c.find key = some item) (hc : c.Accounted t) :
    (c.drop t item).Accounted t ∧ (c.drop t item).bytes t ≤ c.bytes t := by
  obtain rfl := find_key hf
  have hsum := sum_eraseP (t := t) hf
  have hlen : (c.m_map.eraseP (·.key = item.key)).length ≤ c.m_map.length :=
    List.length_eraseP_le
  constructor
  · refine ⟨hc.keys.sublist (List.eraseP_sublist.map _), ?_⟩
    show addSize (addSize c.m_ulSize _) _ = _
    simp only [hc.size, itemSizes, drop, addSize, hsum, CacheType.itemSize]
    omega
  · rw [bytes, bytes, itemSizes, itemSizes, hsum]
    exact Nat.add_le_add (Nat.mul_le_mul_right _ hlen) (Nat.le_add_left _ _)

theorem purgeItem_spec (entry : κ × ℤ) (hc : c.Accounted t) :
    (c.purgeItem t entry).Accounted t ∧ (c.purgeItem t entry).bytes t ≤ c.bytes t := by
  rw [purgeItem]
  cases hf : c.find entry.1 with
  | none => exact ⟨hc, le_rfl⟩
  | some item => exact drop_spec hf hc

/-- Purging keeps the account, and leaves fewer bytes. -/
theorem purge_spec (entries : List (κ × ℤ)) (hc : c.Accounted t) :
    (entries.foldl (fun c entry => c.purgeItem t entry) c).Accounted t ∧
      (entries.foldl (fun c entry => c.purgeItem t entry) c).bytes t ≤ c.bytes t := by
  induction entries generalizing c with
  | nil => exact ⟨hc, le_rfl⟩
  | cons entry entries ih =>
    obtain ⟨hone, hle⟩ := purgeItem_spec entry hc
    obtain ⟨hall, hle'⟩ := ih hone
    exact ⟨hall, hle'.trans hle⟩

theorem updateCache_spec (hc : c.Accounted t) :
    (c.updateCache t).Accounted t ∧ (c.updateCache t).bytes t ≤ c.bytes t := by
  rw [updateCache]
  split_ifs
  · exact purge_spec _ hc
  · exact ⟨hc, le_rfl⟩

/-- An item of the map is the one that is found under its key. -/
theorem find_of_mem (hkeys : (c.m_map.map CacheItem.key).Nodup) {item : CacheItem κ ν} (hitem : item ∈ c.m_map) :
    c.find item.key = some item := by
  cases hf : c.find item.key with
  | none => exact absurd (decide_eq_true rfl) (List.find?_eq_none.mp hf item hitem)
  | some i => rw [List.inj_on_of_nodup_map hkeys (List.mem_of_find?_eq_some hf) hitem (find_key hf)]

/-- Purging entries of the map leaves the other items. The induction is on the entries: each takes
one item out, and the keys of the others are still there. -/
theorem purge_perm {dropped rest : List (CacheItem κ ν)} (hkeys : (c.m_map.map CacheItem.key).Nodup)
    (hperm : c.m_map.Perm (dropped ++ rest)) :
    ((dropped.map fun i => (i.key, i.ulLastAccess)).foldl (fun c entry => c.purgeItem t entry) c).m_map.Perm
      rest := by
  induction dropped generalizing c with
  | nil => exact hperm
  | cons item dropped ih =>
    have hitem : item ∈ c.m_map := hperm.mem_iff.mpr List.mem_cons_self
    have hpurge : c.purgeItem t (item.key, item.ulLastAccess) = c.drop t item := by
      rw [purgeItem, find_of_mem hkeys hitem]
    rw [List.map_cons, List.foldl_cons, hpurge]
    have herase : c.m_map.Perm (item :: c.m_map.eraseP (·.key = item.key)) := by
      obtain ⟨i, m₁, m₂, -, hi, heq, hrest⟩ :=
        List.exists_of_eraseP (p := fun j : CacheItem κ ν => decide (j.key = item.key)) hitem (decide_eq_true rfl)
      have hmem : i ∈ c.m_map := by simp [heq]
      obtain rfl := List.inj_on_of_nodup_map hkeys hmem hitem (of_decide_eq_true hi)
      rw [hrest]
      exact heq ▸ List.perm_middle
    exact ih (hkeys.sublist (List.eraseP_sublist.map _)) (herase.symm.trans hperm).cons_inv

omit [DecidableEq κ] in
/-- The items behind the sorted entries: they are those of the map, the oldest first. -/
theorem exists_sorted (m : List (CacheItem κ ν)) : ∃ sorted : List (CacheItem κ ν), m.Perm sorted ∧
    sorted.Pairwise (fun i j => i.ulLastAccess ≤ j.ulLastAccess) ∧
    (m.map fun i => (i.key, i.ulLastAccess)).mergeSort (fun a b => a.2 ≤ b.2) =
      sorted.map fun i => (i.key, i.ulLastAccess) := by
  have hperm := List.mergeSort_perm (m.map fun i => (i.key, i.ulLastAccess)) fun a b => decide (a.2 ≤ b.2)
  have hle := @List.pairwise_mergeSort (κ × ℤ) (fun a b => decide (a.2 ≤ b.2))
    (fun a b c hab hbc => decide_eq_true ((of_decide_eq_true hab).trans (of_decide_eq_true hbc)))
    (fun a b => by simpa using Int.le_total a.2 b.2) (m.map fun i => (i.key, i.ulLastAccess))
  have hfrom : List.Forall₂ (fun e i => (fun i : CacheItem κ ν => (i.key, i.ulLastAccess)) i = e)
      (m.map fun i => (i.key, i.ulLastAccess)) m :=
    List.forall₂_map_left_iff.mpr (List.forall₂_same.mpr fun _ _ => rfl)
  obtain ⟨sorted, hentries, hsorted⟩ := List.perm_comp_forall₂ hperm hfrom
  have hmap : sorted.map (fun i => (i.key, i.ulLastAccess)) = _ :=
    List.forall₂_eq_eq_eq ▸ List.forall₂_map_left_iff.mpr hentries.flip
  rw [← hmap] at hle
  refine ⟨sorted, hsorted.symm, (List.pairwise_map.mp hle).imp of_decide_eq_true, hmap.symm⟩

/-- `PurgeCache` drops the oldest share of the items. -/
theorem dropsOldest_purgeCache (hkeys : (c.m_map.map CacheItem.key).Nodup) :
    t.DropsOldest c.m_map (c.purgeCache t).m_map := by
  obtain ⟨sorted, hperm, hle, hsort⟩ := exists_sorted c.m_map
  have hsplit := List.take_append_drop (t.share c.m_map.length) sorted
  have hleft : (c.purgeCache t).m_map.Perm (sorted.drop (t.share c.m_map.length)) := by
    simp only [purgeCache]
    rw [hsort, ← List.map_take]
    exact purge_perm hkeys (by rwa [hsplit])
  refine ⟨sorted.take (t.share c.m_map.length), ?_, ?_, fun d hd i hi => ?_⟩
  · refine hperm.trans ?_
    nth_rewrite 1 [← hsplit]
    exact hleft.symm.append_left _
  · rw [List.length_take, hperm.length_eq]
  · rw [← hsplit] at hle
    exact (List.pairwise_append.mp hle).2.2 d hd i (hleft.mem_iff.mp hi)

omit [DecidableEq κ] in
/-- `Size` shows the bytes of the items, in the 64 bits of `size_type`. -/
theorem size_eq_bytes (hc : c.Accounted t) : c.size t = c.bytes t % 2 ^ 64 := by
  rw [size, bytes, hc.size, Nat.add_mod_mod]

/-- In range, the cast of the wrapped difference is the difference. -/
theorem asInt_diff {a b : ℕ} (hb : b < 2 ^ 32) (hge : -2 ^ 31 ≤ (a - b : ℤ))
    (hlt : (a - b : ℤ) < 2 ^ 31) : asInt ((a + (2 ^ 32 - b)) % 2 ^ 32) = a - b := by
  rw [asInt]
  split_ifs
  · omega
  · omega

/-- A cache with a new item, before `UpdateCache`, has the bytes of the item more. -/
theorem insert_spec (key : κ) (value : ν) (tNow : ℤ) (hc : c.Accounted t) (hf : c.find key = none) :
    let c' := { c with
      m_map := t.place ⟨key, value, tNow⟩ c.m_map
      m_ulSize := addSize (addSize c.m_ulSize (t.valueSize value)) (t.keySize key) }
    c'.Accounted t ∧ c'.bytes t = c.bytes t + (t.entrySize + t.itemSize ⟨key, value, tNow⟩) := by
  have hperm := t.place_perm ⟨key, value, tNow⟩ c.m_map
  have hsum := itemSizes_of_perm (t := t) hperm
  rw [List.map_cons, List.sum_cons] at hsum
  have hnew : key ∉ c.m_map.map CacheItem.key := by
    intro hk
    obtain ⟨i, hi, rfl⟩ := List.mem_map.mp hk
    simpa using List.find?_eq_none.mp hf i hi
  refine ⟨⟨(hperm.map CacheItem.key).nodup_iff.mpr (List.nodup_cons.mpr ⟨hnew, hc.keys⟩), ?_⟩, ?_⟩
  · simp only [hc.size, itemSizes, hsum, addSize, CacheType.itemSize]
    omega
  · simp only [bytes, itemSizes, hsum, hperm.length_eq, List.length_cons]
    ring

/-- Adding an item keeps the account, and adds at most the bytes of the item. -/
theorem addCacheItem_spec {key : κ} {value : ν} {tNow : ℤ} (hc : c.Accounted t)
    (hreg : (CacheOp.addCacheItem key value tNow).Regular t c) : (c.addCacheItem t key value tNow).Accounted t ∧
      (c.addCacheItem t key value tNow).bytes t ≤ c.bytes t + (t.entrySize + t.itemSize ⟨key, value, tNow⟩) := by
  rw [addCacheItem]
  split_ifs with hmax
  · exact ⟨hc, Nat.le_add_right _ _⟩
  cases hf : c.find key with
  | some item =>
    obtain ⟨hge, hlt⟩ := hreg item hf
    have hkey := find_key hf
    have hsum := sum_replace (t := t) (n := ⟨key, value, tNow⟩) hf
    constructor
    · refine ⟨nodup_replace (n := ⟨key, value, tNow⟩) rfl hc.keys, ?_⟩
      show addSize _ _ = _
      rw [asInt_diff (t.valueSize_lt _) hge hlt, hc.size, addSize]
      simp only [itemSizes, CacheType.itemSize, hkey] at hsum ⊢
      omega
    · simp only [bytes, itemSizes, length_replace]
      omega
  | none =>
    obtain ⟨hinsert, hbytes⟩ := insert_spec key value tNow hc hf
    obtain ⟨hacc, hle⟩ := updateCache_spec hinsert
    exact ⟨hacc, hle.trans_eq hbytes⟩

/-- Adding a new key purges when, and only when, `Size` is above the maximum with it. -/
theorem inserts_addCacheItem {key : κ} {value : ν} {tNow : ℤ} (hc : c.Accounted t) (hmax : t.m_ulMaxSize ≠ 0)
    (hf : c.find key = none) : t.Inserts ⟨key, value, tNow⟩ c (c.addCacheItem t key value tNow) := by
  obtain ⟨hinsert, hbytes⟩ := insert_spec key value tNow hc hf
  have hsize := size_eq_bytes hinsert
  rw [hbytes] at hsize
  rw [addCacheItem, if_neg hmax, hf]
  simp only [updateCache]
  split_ifs with hfull
  · exact ⟨fun hle => absurd (hsize ▸ hle) (not_le.mpr hfull), fun _ => dropsOldest_purgeCache hinsert.keys⟩
  · exact ⟨fun _ => ⟨rfl, not_lt.mp hfull⟩, fun hlt => absurd (hsize ▸ hlt) hfull⟩

/-- Erasing items without bytes of their own keeps the sum. -/
theorem sum_erase_keys {m : List (CacheItem κ ν)} (dl : List κ) (hzero : ∀ i ∈ m, i.key ∈ dl → t.itemSize i = 0) :
    ((dl.foldl (fun m k => m.eraseP (·.key = k)) m).map t.itemSize).sum = (m.map t.itemSize).sum := by
  induction dl generalizing m with
  | nil => rfl
  | cons k dl ih =>
    rw [List.foldl_cons, ih fun i hi hk =>
      hzero i (List.mem_of_mem_eraseP hi) (List.mem_cons_of_mem _ hk)]
    cases hf : m.find? (·.key = k) with
    | none =>
      rw [List.eraseP_of_forall_not fun i hi => List.find?_eq_none.mp hf i hi]
    | some item =>
      have hkey : item.key = k := by simpa using List.find?_some hf
      rw [sum_eraseP hf, hzero item (List.mem_of_find?_eq_some hf) (hkey ▸ List.mem_cons_self),
        Nat.zero_add]

theorem nodup_erase_keys {m : List (CacheItem κ ν)} (dl : List κ) (hm : (m.map CacheItem.key).Nodup) :
    ((dl.foldl (fun m k => m.eraseP (·.key = k)) m).map CacheItem.key).Nodup := by
  induction dl generalizing m with
  | nil => exact hm
  | cons k dl ih => exact ih (hm.sublist (List.eraseP_sublist.map _))

theorem lookup_spec {key : κ} {tNow : ℤ} (hc : c.Accounted t)
    (hreg : (CacheOp.getCacheItem (ν := ν) key tNow).Regular t c) :
    (c.lookup t key tNow).2.2.Accounted t := by
  rw [lookup]
  cases hf : c.find key with
  | none => exact hc
  | some item =>
    show Accounted t (if _ then _ else _ : CacheResult × Option ν × ECCache κ ν).2.2
    split_ifs with hexp hage
    · refine ⟨nodup_erase_keys _ hc.keys, ?_⟩
      have hzero : ∀ i ∈ c.m_map,
          i.key ∈ (c.m_map.filter fun i => Expired t tNow i).map CacheItem.key →
            t.itemSize i = 0 := by
        intro i hi hk
        obtain ⟨j, hj, hji⟩ := List.mem_map.mp hk
        obtain ⟨hj, hjexp⟩ := List.mem_filter.mp hj
        obtain rfl := List.inj_on_of_nodup_map hc.keys hj hi hji
        exact hreg item hf hexp.1 hexp.2 j hi (of_decide_eq_true hjexp)
      rw [hc.size, itemSizes, itemSizes, sum_erase_keys _ hzero]
    · have hkey := find_key hf
      have hsum := sum_replace (t := t) (n := { item with ulLastAccess := tNow }) hf
      refine ⟨nodup_replace (n := { item with ulLastAccess := tNow }) hkey hc.keys, ?_⟩
      simp only [hc.size, itemSizes, CacheType.itemSize] at hsum ⊢
      omega
    · exact hc

/-- A regular call keeps the account. -/
theorem step_spec {op : CacheOp κ ν} (hc : c.Accounted t) (hreg : op.Regular t c) : (op.step t c).Accounted t := by
  cases op with
  | addCacheItem key value tNow => exact (addCacheItem_spec hc hreg).1
  | getCacheItem key tNow =>
    have h := lookup_spec hc hreg
    exact ⟨h.keys, h.size⟩
  | removeCacheItem key =>
    show (c.removeCacheItem t key).2.Accounted t
    rw [removeCacheItem]
    cases hf : c.find key with
    | none => exact hc
    | some item => exact (drop_spec hf hc).1
  | clearCache => exact ⟨List.nodup_nil, rfl⟩

theorem run_spec {ops : List (CacheOp κ ν)} (hc : c.Accounted t) (hreg : RegularRun t c ops) :
    (ops.foldl (CacheOp.step t) c).Accounted t := by
  induction ops generalizing c with
  | nil => exact hc
  | cons op ops ih => exact ih (step_spec hc hreg.1) hreg.2

omit [DecidableEq κ] in
theorem accounted_new : (new : ECCache κ ν).Accounted t := ⟨List.nodup_nil, rfl⟩

omit [DecidableEq κ] in
/-- `Size` never shows more than the bytes of the items. -/
theorem size_le_bytes (hc : c.Accounted t) : c.size t ≤ c.bytes t := by
  have hle := Nat.mod_le (c.itemSizes t) (2 ^ 64)
  rw [← hc.size] at hle
  rw [size, bytes]
  exact (Nat.mod_le _ _).trans (Nat.add_le_add_left hle _)

end ECCache

/-- After every regular run the counter is the sum over the items. Adding an item then leaves `Size` at
the bytes of the items, and at most the new item's above the maximum or above what was there; and with
a new key it drops the oldest share of the items, if `Size` is above the maximum. -/
theorem run_accounted (t : CacheType κ ν) (ops : List (CacheOp κ ν)) (hreg : RegularRun t .new ops) :
    let c := ops.foldl (CacheOp.step t) .new
    c.m_ulSize = c.itemSizes t % 2 ^ 64 ∧
      ∀ key value tNow, (CacheOp.addCacheItem key value tNow).Regular t c →
        let c' := c.addCacheItem t key value tNow
        c'.size t = c'.bytes t % 2 ^ 64 ∧
          c'.size t ≤ max t.m_ulMaxSize (c.bytes t) + (t.entrySize + t.itemSize ⟨key, value, tNow⟩) ∧
          (t.m_ulMaxSize ≠ 0 → c.find key = none → t.Inserts ⟨key, value, tNow⟩ c c') := by
  intro c
  have hc : c.Accounted t := ECCache.run_spec ECCache.accounted_new hreg
  refine ⟨hc.size, fun key value tNow hadd => ?_⟩
  obtain ⟨hacc, hle⟩ := ECCache.addCacheItem_spec hc hadd
  refine ⟨ECCache.size_eq_bytes hacc, ?_, ECCache.inserts_addCacheItem hc⟩
  calc _ ≤ _ := ECCache.size_le_bytes hacc
    _ ≤ _ := hle
    _ ≤ _ := Nat.add_le_add_right (le_max_right _ _) _

/-- Numbers for keys and for values, each of its own size. -/
def numberCache (m_ulMaxSize : ℕ) (m_lMaxAge : ℤ) : CacheType ℕ ℕ where
  m_ulMaxSize := m_ulMaxSize
  m_lMaxAge := m_lMaxAge
  keySize k := k % 2 ^ 32
  valueSize v := v % 2 ^ 32
  keySize_lt _ := Nat.mod_lt _ (by decide)
  valueSize_lt _ := Nat.mod_lt _ (by decide)
  entrySize := 8
  place item m := item :: m
  place_perm _ _ := List.Perm.refl _
  share n := n * 5 / 100

/-- Items are added, read, given another value and removed. With the key that comes then `Size` is
above the maximum, so that half of the two items are dropped: the older one. -/
theorem run_accounted_five :
    let t := { numberCache 40 0 with share := fun n => n / 2 }
    let ops := [.addCacheItem 1 10 0, .addCacheItem 2 7 1, .getCacheItem 1 2, .addCacheItem 1 4 3,
      .removeCacheItem 2]
    let c := ops.foldl (CacheOp.step t) .new
    let c' := c.addCacheItem t 3 200 4
    c.m_ulSize = c.itemSizes t % 2 ^ 64 ∧ c'.size t = c'.bytes t % 2 ^ 64 ∧
      c'.size t ≤ max t.m_ulMaxSize (c.bytes t) + (t.entrySize + t.itemSize ⟨3, 200, 4⟩) ∧
      t.DropsOldest (t.place ⟨3, 200, 4⟩ c.m_map) c'.m_map := by
  intro t ops c c'
  have hreg : RegularRun t .new ops := by
    refine ⟨?_, ?_, ?_, ?_, ?_, trivial⟩
    · rintro item ⟨⟩
    · rintro item ⟨⟩
    · rintro item - hage
      exact absurd rfl hage
    · rintro item ⟨⟩
      decide
    · trivial
  have hnew : c.find 3 = none := by decide
  have hadd : (CacheOp.addCacheItem 3 200 4).Regular t c := fun item hitem => by rw [hnew] at hitem; cases hitem
  obtain ⟨hsize, hafter⟩ := run_accounted t ops hreg
  obtain ⟨hbytes, hle, hinserts⟩ := hafter 3 200 4 hadd
  exact ⟨hsize, hbytes, hle, (hinserts (by decide) hnew).drops (by decide)⟩

/-- An item that expires stays in the counter, and a second item stays although both are above the
maximum. -/
theorem run_accounted_expired :
    let ops := [.addCacheItem 1 10 0, .getCacheItem 1 60]
    let c := ops.foldl (CacheOp.step (numberCache 100 60)) .new
    let c' := CacheOp.step (numberCache 1 0) .new (.addCacheItem 1 10 0)
    c.m_ulSize ≠ c.itemSizes (numberCache 100 60) % 2 ^ 64 ∧
      ¬ (c'.addCacheItem (numberCache 1 0) 2 10 1).size (numberCache 1 0) ≤
        (numberCache 1 0).m_ulMaxSize +
          ((numberCache 1 0).entrySize + (numberCache 1 0).itemSize ⟨2, 10, 1⟩) := by
  decide

end Zcp.Common
