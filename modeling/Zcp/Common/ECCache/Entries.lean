import Zcp.Common.ECCache

/-!
# The entries of a cache

What a cache answers, apart from the times and the sizes it counts: `Maps` is the relation between the keys
and the values. Removing a key takes its pair away, adding a pair replaces the value of its key, and any
pair may be gone after that.
-/

namespace Zcp.Common.ECCache

variable {κ ν : Type*} [DecidableEq κ] {t : CacheType κ ν} {c : ECCache κ ν}

/-- No key is in the map twice, and a cache of size 0 has no entries. -/
structure Keyed (t : CacheType κ ν) (c : ECCache κ ν) : Prop where
  nodup : (c.m_map.map CacheItem.key).Nodup
  unused : t.m_ulMaxSize = 0 → c.m_map = []

/-- The key has the value. -/
def Maps (c : ECCache κ ν) (key : κ) (value : ν) : Prop :=
  ∃ item ∈ c.m_map, item.key = key ∧ item.value = value

omit [DecidableEq κ] in
theorem Keyed.eq_of_key (hc : c.Keyed t) {i j : CacheItem κ ν} (hi : i ∈ c.m_map) (hj : j ∈ c.m_map)
    (hkey : i.key = j.key) : i = j :=
  List.inj_on_of_nodup_map hc.nodup hi hj hkey

omit [DecidableEq κ] in
/-- A key has one value. -/
theorem Maps.value_eq {key : κ} {v v' : ν} (hc : c.Keyed t) (h : c.Maps key v) (h' : c.Maps key v') : v = v' := by
  obtain ⟨i, hi, rfl, rfl⟩ := h
  obtain ⟨j, hj, hkey, rfl⟩ := h'
  rw [hc.eq_of_key hi hj hkey.symm]

omit [DecidableEq κ] in
theorem not_maps_new (key : κ) (v : ν) : ¬ (new : ECCache κ ν).Maps key v := by
  rintro ⟨item, hmem, -⟩
  cases hmem

omit [DecidableEq κ] in
theorem keyed_new : (new : ECCache κ ν).Keyed t := ⟨List.nodup_nil, fun _ => rfl⟩

/-- What is found is an entry. -/
theorem maps_of_find {key : κ} {item : CacheItem κ ν} (hf : c.find key = some item) : c.Maps key item.value :=
  ⟨item, List.mem_of_find?_eq_some hf, find_key hf, rfl⟩

theorem not_maps_of_find {key : κ} (hf : c.find key = none) (v : ν) : ¬ c.Maps key v := by
  rintro ⟨item, hmem, hkey, -⟩
  exact List.find?_eq_none.mp hf item hmem (decide_eq_true hkey)

/-- An entry is found. -/
theorem find_of_maps (hc : c.Keyed t) {key : κ} {v : ν} (h : c.Maps key v) :
    ∃ item, c.find key = some item ∧ item.value = v := by
  cases hf : c.find key with
  | none => exact absurd h (not_maps_of_find hf v)
  | some item => exact ⟨item, rfl, (maps_of_find hf).value_eq hc h⟩

/-! ## Removing -/

theorem keyed_drop (hc : c.Keyed t) (item : CacheItem κ ν) : (c.drop t item).Keyed t where
  nodup := hc.nodup.sublist (List.eraseP_sublist.map _)
  unused hmax := by
    show c.m_map.eraseP _ = []
    rw [hc.unused hmax, List.eraseP_nil]

/-- Dropping an item takes the pair of its key away. -/
theorem maps_drop (hc : c.Keyed t) {item : CacheItem κ ν} {key : κ} {v : ν} :
    (c.drop t item).Maps key v ↔ key ≠ item.key ∧ c.Maps key v := by
  have hmem (i : CacheItem κ ν) :
      i ∈ c.m_map.eraseP (·.key = item.key) ↔ i.key ≠ item.key ∧ i ∈ c.m_map := by
    constructor
    · intro hi
      refine ⟨fun hkey => ?_, List.mem_of_mem_eraseP hi⟩
      -- the item that is erased has the same key, so that it would be there twice
      obtain ⟨a, m₁, m₂, -, ha, heq, herase⟩ :=
        List.exists_of_eraseP (p := fun j : CacheItem κ ν => decide (j.key = item.key))
          (List.mem_of_mem_eraseP hi) (decide_eq_true hkey)
      have hnodup := hc.nodup
      rw [heq, List.map_append, List.map_cons] at hnodup
      rw [herase] at hi
      have hin : a.key ∈ m₁.map CacheItem.key ++ m₂.map CacheItem.key := by
        rw [← List.map_append, of_decide_eq_true ha, ← hkey]
        exact List.mem_map_of_mem hi
      exact (List.nodup_cons.mp (List.nodup_middle.mp hnodup)).1 hin
    · rintro ⟨hkey, hi⟩
      exact (List.mem_eraseP_of_neg (by simpa using hkey)).mpr hi
  constructor
  · rintro ⟨i, hi, rfl, rfl⟩
    obtain ⟨hkey, hi⟩ := (hmem i).mp hi
    exact ⟨hkey, i, hi, rfl, rfl⟩
  · rintro ⟨hkey, i, hi, rfl, rfl⟩
    exact ⟨i, (hmem i).mpr ⟨hkey, hi⟩, rfl, rfl⟩

theorem keyed_removeCacheItem (hc : c.Keyed t) (key : κ) : (c.removeCacheItem t key).2.Keyed t := by
  rw [removeCacheItem]
  cases c.find key with
  | none => exact hc
  | some item => exact keyed_drop hc item

/-- Removing a key takes its pair away. -/
theorem maps_removeCacheItem (hc : c.Keyed t) {k key : κ} {v : ν} :
    (c.removeCacheItem t k).2.Maps key v ↔ key ≠ k ∧ c.Maps key v := by
  rw [removeCacheItem]
  cases hf : c.find k with
  | none =>
    refine ⟨fun h => ⟨?_, h⟩, fun h => h.2⟩
    rintro rfl
    exact not_maps_of_find hf v h
  | some item =>
    rw [← find_key hf]
    exact maps_drop hc

/-! ## Purging -/

theorem keyed_purgeItem (hc : c.Keyed t) (entry : κ × ℤ) : (c.purgeItem t entry).Keyed t := by
  rw [purgeItem]
  cases c.find entry.1 with
  | none => exact hc
  | some item => exact keyed_drop hc item

theorem maps_of_purgeItem (hc : c.Keyed t) {entry : κ × ℤ} {key : κ} {v : ν}
    (h : (c.purgeItem t entry).Maps key v) : c.Maps key v := by
  rw [purgeItem] at h
  cases hf : c.find entry.1 with
  | none => rwa [hf] at h
  | some item =>
    rw [hf] at h
    exact ((maps_drop hc).mp h).2

theorem keyed_purge (hc : c.Keyed t) (entries : List (κ × ℤ)) :
    (entries.foldl (fun c entry => c.purgeItem t entry) c).Keyed t := by
  induction entries generalizing c with
  | nil => exact hc
  | cons entry entries ih => exact ih (keyed_purgeItem hc entry)

theorem maps_of_purge (hc : c.Keyed t) (entries : List (κ × ℤ)) {key : κ} {v : ν}
    (h : (entries.foldl (fun c entry => c.purgeItem t entry) c).Maps key v) : c.Maps key v := by
  induction entries generalizing c with
  | nil => exact h
  | cons entry entries ih => exact maps_of_purgeItem hc (ih (keyed_purgeItem hc entry) h)

theorem keyed_updateCache (hc : c.Keyed t) : (c.updateCache t).Keyed t := by
  rw [updateCache]
  split_ifs
  · exact keyed_purge hc _
  · exact hc

theorem maps_of_updateCache (hc : c.Keyed t) {key : κ} {v : ν} (h : (c.updateCache t).Maps key v) : c.Maps key v := by
  rw [updateCache] at h
  split_ifs at h
  · exact maps_of_purge hc _ h
  · exact h

/-! ## Adding and looking up -/

/-- The items after one has been put in the place of the item with its key. -/
theorem mem_replace {key : κ} {n i : CacheItem κ ν} (hn : n.key = key) {m : List (CacheItem κ ν)}
    (hm : (m.map CacheItem.key).Nodup) :
    i ∈ replace key n m ↔ i = n ∧ key ∈ m.map CacheItem.key ∨ i.key ≠ key ∧ i ∈ m := by
  induction m with
  | nil => simp [replace]
  | cons j m ih =>
    rw [List.map_cons, List.nodup_cons] at hm
    rw [replace, List.map_cons]
    split_ifs with hj
    · have hother : i ∈ m → i.key ≠ key := by
        intro hi hkey
        refine hm.1 ?_
        rw [hj, ← hkey]
        exact List.mem_map_of_mem hi
      subst hj
      simp only [List.mem_cons, true_or, and_true, ne_eq]
      constructor
      · rintro (rfl | hi)
        · exact .inl rfl
        · exact .inr ⟨hother hi, .inr hi⟩
      · rintro (rfl | ⟨hkey, rfl | hi⟩)
        · exact .inl rfl
        · exact absurd rfl hkey
        · exact .inr hi
    · rw [List.mem_cons, List.mem_cons, List.mem_cons, ih hm.2]
      constructor
      · rintro (rfl | ⟨rfl, hkey⟩ | ⟨hkey, hi⟩)
        · exact .inr ⟨hj, .inl rfl⟩
        · exact .inl ⟨rfl, .inr hkey⟩
        · exact .inr ⟨hkey, .inr hi⟩
      · rintro (⟨rfl, rfl | hkey⟩ | ⟨hkey, rfl | hi⟩)
        · exact absurd rfl hj
        · exact .inr (.inl ⟨rfl, hkey⟩)
        · exact .inl rfl
        · exact .inr (.inr ⟨hkey, hi⟩)

/-- Placing an item with a new key. -/
theorem keyed_place (hc : c.Keyed t) {key : κ} (hf : c.find key = none) (hmax : t.m_ulMaxSize ≠ 0)
    (value : ν) (tNow : ℤ) (ulSize : ℕ) :
    ({ c with m_map := t.place ⟨key, value, tNow⟩ c.m_map, m_ulSize := ulSize } :
      ECCache κ ν).Keyed t := by
  refine ⟨?_, fun h => absurd h hmax⟩
  have hnew : key ∉ c.m_map.map CacheItem.key := by
    intro hk
    obtain ⟨i, hi, rfl⟩ := List.mem_map.mp hk
    exact not_maps_of_find hf i.value ⟨i, hi, rfl, rfl⟩
  exact ((t.place_perm ⟨key, value, tNow⟩ c.m_map).map CacheItem.key).nodup_iff.mpr
    (List.nodup_cons.mpr ⟨hnew, hc.nodup⟩)

theorem keyed_addCacheItem (hc : c.Keyed t) (key : κ) (value : ν) (tNow : ℤ) :
    (c.addCacheItem t key value tNow).Keyed t := by
  rw [addCacheItem]
  split_ifs with hmax
  · exact hc
  cases hf : c.find key with
  | some item =>
    exact ⟨nodup_replace (n := ⟨key, value, tNow⟩) rfl hc.nodup, fun h => absurd h hmax⟩
  | none => exact keyed_updateCache (keyed_place hc hf hmax value tNow _)

/-- After adding a pair, an entry is this pair or one of another key that has been there. -/
theorem maps_of_addCacheItem (hc : c.Keyed t) {key k : κ} {value v : ν} {tNow : ℤ}
    (h : (c.addCacheItem t key value tNow).Maps k v) : k = key ∧ v = value ∨ k ≠ key ∧ c.Maps k v := by
  rw [addCacheItem] at h
  split_ifs at h with hmax
  · obtain ⟨i, hi, -⟩ := h
    rw [hc.unused hmax] at hi
    cases hi
  cases hf : c.find key with
  | some item =>
    rw [hf] at h
    obtain ⟨i, hi, rfl, rfl⟩ := h
    rcases (mem_replace (n := ⟨key, value, tNow⟩) rfl hc.nodup).mp hi with ⟨rfl, -⟩ | ⟨hkey, hi⟩
    · exact .inl ⟨rfl, rfl⟩
    · exact .inr ⟨hkey, i, hi, rfl, rfl⟩
  | none =>
    rw [hf] at h
    obtain ⟨i, hi, rfl, rfl⟩ := maps_of_updateCache (keyed_place hc hf hmax value tNow _) h
    rcases List.mem_cons.mp ((t.place_perm _ _).mem_iff.mp hi) with rfl | hold
    · exact .inl ⟨rfl, rfl⟩
    · refine .inr ⟨?_, i, hold, rfl, rfl⟩
      rintro rfl
      exact not_maps_of_find hf i.value ⟨i, hold, rfl, rfl⟩

/-- Without an age, a lookup renews the time of the entry. -/
theorem lookup_of_ageless (hage : t.m_lMaxAge = 0) (key : κ) (tNow : ℤ) :
    c.lookup t key tNow = match c.find key with
      | none => (.ZARAFA_E_NOT_FOUND, none, c)
      | some item => (.erSuccess, some item.value,
          { c with m_map := replace key { item with ulLastAccess := tNow } c.m_map }) := by
  rw [lookup]
  cases c.find key with
  | none => rfl
  | some item =>
    show (if _ then _ else _) = _
    rw [if_neg (fun h => h.1 hage), if_pos hage]

/-- A lookup in a cache whose entries do not age keeps the entries. -/
theorem keyed_getCacheItem (hage : t.m_lMaxAge = 0) (hc : c.Keyed t) (key : κ) (tNow : ℤ) :
    (c.getCacheItem t key tNow).2.2.Keyed t := by
  rw [getCacheItem, lookup_of_ageless hage]
  cases hf : c.find key with
  | none => exact ⟨hc.nodup, hc.unused⟩
  | some item =>
    have hkey := find_key hf
    refine ⟨nodup_replace (n := { item with ulLastAccess := tNow }) hkey hc.nodup, ?_⟩
    intro hmax
    have hmem := List.mem_of_find?_eq_some hf
    rw [hc.unused hmax] at hmem
    cases hmem

theorem maps_getCacheItem (hage : t.m_lMaxAge = 0) (hc : c.Keyed t) {key k : κ} {v : ν} {tNow : ℤ} :
    (c.getCacheItem t key tNow).2.2.Maps k v ↔ c.Maps k v := by
  rw [getCacheItem, lookup_of_ageless hage]
  cases hf : c.find key with
  | none => rfl
  | some item =>
    have hkey := find_key hf
    have hin := List.mem_of_find?_eq_some hf
    have hmem (i : CacheItem κ ν) :=
      mem_replace (i := i) (n := { item with ulLastAccess := tNow }) hkey hc.nodup
    constructor
    · rintro ⟨i, hi, rfl, rfl⟩
      rcases (hmem i).mp hi with ⟨rfl, -⟩ | ⟨-, hi⟩
      · exact ⟨item, hin, rfl, rfl⟩
      · exact ⟨i, hi, rfl, rfl⟩
    · rintro ⟨i, hi, rfl, rfl⟩
      by_cases hi' : i.key = key
      · obtain rfl := hc.eq_of_key hi hin (hi'.trans hkey.symm)
        exact ⟨_, (hmem _).mpr (.inl ⟨rfl, hkey ▸ List.mem_map_of_mem hin⟩), rfl, rfl⟩
      · exact ⟨i, (hmem i).mpr (.inr ⟨hi', hi⟩), rfl, rfl⟩

/-- In a cache whose entries do not age, a lookup answers the value of the key. -/
theorem getCacheItem_answer (hage : t.m_lMaxAge = 0) (key : κ) (tNow : ℤ) :
    (c.getCacheItem t key tNow).2.1 = (c.find key).map CacheItem.value := by
  rw [getCacheItem, lookup_of_ageless hage]
  cases c.find key with
  | none => rfl
  | some item => rfl

/-- A lookup in a cache whose entries do not age: what it answers, and the same entries. -/
theorem getCacheItem_spec (hage : t.m_lMaxAge = 0) (hc : c.Keyed t) (key : κ) (tNow : ℤ) :
    ∃ er c', c.getCacheItem t key tNow = (er, (c.find key).map CacheItem.value, c') ∧
      c'.Keyed t ∧ ∀ k v, c'.Maps k v ↔ c.Maps k v :=
  ⟨_, _, by rw [← getCacheItem_answer hage key tNow], keyed_getCacheItem hage hc key tNow,
    fun _ _ => maps_getCacheItem hage hc⟩

end Zcp.Common.ECCache
