import Mathlib.Data.List.AList

/-!
# Tables with a primary key

Statements on a table with one row for each key, and what they do to the number of rows with a property.
-/

namespace Zcp.Lib

/-- A table with a primary key. -/
abbrev KeyedTable (κ ν : Type*) := AList fun _ : κ => ν

namespace KeyedTable

variable {κ ν : Type*}

/-- `SELECT COUNT(*)` of the rows whose value has the property. -/
def count (p : ν → Bool) (table : KeyedTable κ ν) : ℕ := table.entries.countP fun row => p row.2

/-- The number of rows. -/
def size (table : KeyedTable κ ν) : ℕ := table.entries.length

/-- The number of entries is the count of a test that every value passes, so that what is proved of counts holds of
sizes. -/
theorem size_eq_count (table : KeyedTable κ ν) : table.size = table.count fun _ => true := by
  rw [size, count, List.countP_true]

/-- In an empty table no entry passes any test. -/
theorem count_empty (p : ν → Bool) : count p (∅ : KeyedTable κ ν) = 0 := rfl

theorem size_empty : size (∅ : KeyedTable κ ν) = 0 := rfl

variable [DecidableEq κ]

/-- All values of the table have the property. -/
def All (P : ν → Prop) (table : KeyedTable κ ν) : Prop := ∀ k v, table.lookup k = some v → P v

/-- Taking an entry out lowers the count by one if its value passes the test, and leaves it otherwise. -/
theorem count_erase (p : ν → Bool) {k : κ} {v : ν} {table : KeyedTable κ ν} (h : table.lookup k = some v) :
    count p (table.erase k) + (if p v then 1 else 0) = count p table := by
  have hmem : k ∈ table.entries.keys := AList.mem_keys.mp (AList.lookup_isSome.mp (by rw [h]; rfl))
  obtain ⟨w, l₁, l₂, -, hrows, herase⟩ := List.exists_of_kerase hmem
  have hv : v = w := by
    have hw : w ∈ table.lookup k := AList.mem_lookup_iff.mpr (by rw [hrows]; simp)
    rw [h] at hw
    exact Option.some.inj hw
  show (List.kerase k table.entries).countP _ + _ = table.entries.countP _
  rw [herase, hrows, hv, List.countP_append, List.countP_append, List.countP_cons, Nat.add_assoc]

/-- An entry under a key that has none raises the count by one if its value passes the test. -/
theorem count_insert_new (p : ν → Bool) {k : κ} (v : ν) {table : KeyedTable κ ν} (h : table.lookup k = none) :
    count p (table.insert k v) = count p table + (if p v then 1 else 0) := by
  show (AList.insert k v table).entries.countP _ = table.entries.countP _ + _
  rw [AList.entries_insert_of_notMem (AList.lookup_eq_none.mp h), List.countP_cons]

/-- An entry that takes the place of another one: the count loses what the old value added and gains what the new
value adds. -/
theorem count_insert_over (p : ν → Bool) {k : κ} (v : ν) {w : ν} {table : KeyedTable κ ν}
    (h : table.lookup k = some w) :
    count p (table.insert k v) + (if p w then 1 else 0) = count p table + (if p v then 1 else 0) := by
  have hnew : count p (table.insert k v) = count p (table.erase k) + (if p v then 1 else 0) := by
    show (List.kinsert k v table.entries).countP _ = (List.kerase k table.entries).countP _ + _
    rw [List.kinsert_def, List.countP_cons]
  have herase := count_erase p h
  omega

/-- A table has one entry fewer after the entry of a key that is there has been taken out. -/
theorem size_erase {k : κ} {v : ν} {table : KeyedTable κ ν} (h : table.lookup k = some v) :
    size (table.erase k) + 1 = size table := by
  rw [size_eq_count, size_eq_count]
  exact count_erase (fun _ => true) h

/-- A table has one entry more after an entry has been put under a key that had none. -/
theorem size_insert_new {k : κ} (v : ν) {table : KeyedTable κ ν} (h : table.lookup k = none) :
    size (table.insert k v) = size table + 1 := by
  rw [size_eq_count, size_eq_count]
  exact count_insert_new (fun _ => true) v h

/-- Putting another value under a key that is there leaves the number of entries as it is. -/
theorem size_insert_over {k : κ} (v : ν) {w : ν} {table : KeyedTable κ ν} (h : table.lookup k = some w) :
    size (table.insert k v) = size table := by
  rw [size_eq_count, size_eq_count]
  exact Nat.add_right_cancel (count_insert_over (fun _ => true) v h)

/-- Whatever is asked of the values holds in an empty table. -/
theorem all_empty (P : ν → Prop) : All P (∅ : KeyedTable κ ν) := by
  intro k v h
  simp at h

/-- What holds of all values still holds after an entry has been taken out. -/
theorem All.erase {P : ν → Prop} {table : KeyedTable κ ν} (h : All P table) (k : κ) : All P (table.erase k) := by
  intro k' v hv
  by_cases hk : k' = k
  · rw [hk, AList.lookup_erase] at hv
    cases hv
  · exact h k' v (by rwa [AList.lookup_erase_ne hk] at hv)

/-- What holds of all values and of a new one holds after the new one has been put in, over an old one or not. -/
theorem All.insert {P : ν → Prop} {table : KeyedTable κ ν} (h : All P table) (k : κ) {v : ν} (hv : P v) :
    All P (table.insert k v) := by
  intro k' w hw
  by_cases hk : k' = k
  · rw [hk, AList.lookup_insert] at hw
    exact Option.some.inj hw ▸ hv
  · exact h k' w (by rwa [AList.lookup_insert_ne hk] at hw)

end KeyedTable

end Zcp.Lib
