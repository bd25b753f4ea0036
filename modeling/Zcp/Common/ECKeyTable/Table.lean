import Mathlib.Data.List.Range
import Zcp.Common.ECKeyTable.Relink

/-!
# The invariant of the key table

`Represents t T` says that the memory of `t` is exactly the sentinel and the tree `T`, that `T` is
balanced, that `mapRow` finds each row under its key, and that the cursor and the bookmarks stand on
rows, on the sentinel or at the end. What an operation does is described by the list of the rows
before and after it.
-/

namespace Zcp.Common

open Zcp.Lib Zcp.Lib.Assn

variable {lpRoot : Addr} {F : Assn ECTableRow} {h : Heap}

/-! ## Addresses -/

theorem owns_treeAt (p : Addr) (left : Bool) (t : AvlTree RowAt) :
    Owns (treeAt p left t) (t.toList.map RowAt.addr) := by
  induction t generalizing p left with
  | nil => exact owns_one
  | node l a r ihl ihr =>
    refine ((owns_pts _ _).mul ((ihl _ _).mul (ihr _ _))).perm ?_
    rw [AvlTree.toList_node, List.map_append, List.map_cons, List.singleton_append]
    exact List.perm_middle.symm

theorem owns_tableAt (lpRoot : Addr) (T : AvlTree RowAt) :
    Owns (tableAt lpRoot T) (lpRoot :: T.toList.map RowAt.addr) :=
  (owns_ex fun _ => owns_pts _ _).mul (owns_treeAt _ _ T)

/-- The memory says which tree it holds below an address. -/
theorem treeAt_unique {p : Addr} {left : Bool} {T T' : AvlTree RowAt} (hT : Has (treeAt p left T) h)
    (hT' : Has (treeAt p left T') h) (haddr : addr? T = addr? T') : T = T' := by
  induction T generalizing p left T' with
  | nil =>
    cases T' with
    | nil => rfl
    | node l' a' r' => cases haddr
  | node l a r ihl ihr =>
    cases T' with
    | nil => cases haddr
    | node l' a' r' =>
      obtain ⟨hcell, hbelow⟩ := hT.split
      obtain ⟨hcell', hbelow'⟩ := hT'.split
      have he : a.addr = a'.addr := Option.some.inj haddr
      have hsame := Option.some.inj (hcell.get.symm.trans (he ▸ hcell'.get))
      have hrow : a = a' := by
        cases a
        cases a'
        simp only [RowAt.cell, ECTableRow.mk.injEq] at hsame
        simp only [RowAt.mk.injEq]
        exact ⟨he, hsame.1, hsame.2.1, hsame.2.2.2.2.2.2.2.2.2⟩
      subst hrow
      rw [ihl hbelow.split.1 hbelow'.split.1 (congrArg ECTableRow.lpLeft hsame),
        ihr hbelow.split.2 hbelow'.split.2 (congrArg ECTableRow.lpRight hsame)]

/-- A place the cursor can be at: the end, the sentinel or a row. -/
def ValidPos (lpRoot : Addr) (rows : List RowAt) (pos : Option Addr) : Prop :=
  pos = none ∨ pos = some lpRoot ∨ ∃ r ∈ rows, pos = some r.addr

variable {pos : Option Addr}

theorem ValidPos.mono {rows rows' : List RowAt} (hp : ValidPos lpRoot rows pos)
    (hsub : ∀ r ∈ rows, pos = some r.addr → ∃ r' ∈ rows', r'.addr = r.addr) : ValidPos lpRoot rows' pos := by
  rcases hp with hp | hp | ⟨r, hr, hp⟩
  · exact .inl hp
  · exact .inr (.inl hp)
  · obtain ⟨r', hr', he⟩ := hsub r hr hp
    exact .inr (.inr ⟨r', hr', he ▸ hp⟩)

/-- The same addresses are the same places. -/
theorem ValidPos.of_addrs {rows rows' : List RowAt}
    (hp : ValidPos lpRoot rows pos) (he : rows'.map RowAt.addr = rows.map RowAt.addr) : ValidPos lpRoot rows' pos :=
  ValidPos.mono hp fun r hr _ => by
    have hmem : r.addr ∈ rows'.map RowAt.addr := he ▸ List.mem_map_of_mem hr
    exact List.mem_map.mp hmem

/-- The rows of `T` are in the memory of `t`, perhaps with other cells beside them. -/
structure Holds (t : ECKeyTable) (T : AvlTree RowAt) : Prop where
  has : Has (tableAt t.lpRoot T) t.heap
  balanced : T.Balanced
  length_lt : T.toList.length + 1 < t.fuel

variable {a : RowAt}

namespace Holds

variable {t : ECKeyTable} {T : AvlTree RowAt}

theorem addrs_nodup (hH : Holds t T) : (t.lpRoot :: T.toList.map RowAt.addr).Nodup :=
  (owns_tableAt _ _).nodup hH.has

theorem addr_ne_root (hH : Holds t T) (ha : a ∈ T.toList) : a.addr ≠ t.lpRoot := by
  intro he
  refine (List.nodup_cons.mp hH.addrs_nodup).1 ?_
  rw [← he]
  exact List.mem_map_of_mem ha

/-- The place of a row in the tree is its place in the list. -/
theorem focus (hH : Holds t T) {xs ys : List RowAt} (hL : T.toList = xs ++ a :: ys) :
    ∃ c l r, Ctx.plug c (.node l a r) = T ∧ c.before ++ l.toList = xs ∧ r.toList ++ c.after = ys := by
  obtain ⟨c, l, r, hT⟩ := Ctx.exists_plug_of_mem (t := T) (a := a) (by simp [hL])
  refine ⟨c, l, r, hT, ?_⟩
  have hsplit : xs ++ a :: ys = (c.before ++ l.toList) ++ a :: (r.toList ++ c.after) := by
    rw [← hL, ← hT, Ctx.toList_plug]
    simp
  have hnodup : (xs ++ a :: ys).Nodup :=
    hL ▸ List.Nodup.of_map _ (List.nodup_cons.mp hH.addrs_nodup).2
  obtain ⟨-, hys, hxys⟩ := List.nodup_append.mp hnodup
  have hxs : a ∉ xs := fun ha => hxys a ha a (by simp) rfl
  obtain ⟨h1, -, h2⟩ := (List.append_cons_inj_of_notMem hxs (List.nodup_cons.mp hys).1).mp hsplit
  exact ⟨h1.symm, h2.symm⟩

/-- The cell of a row. -/
theorem cell (hH : Holds t T) (ha : a ∈ T.toList) :
    ∃ p left l r n k, t.heap a.addr = some (a.cell p left l r n k) := by
  obtain ⟨c, l, r, hT⟩ := Ctx.exists_plug_of_mem ha
  obtain ⟨F, hF⟩ := hH.has
  exact ⟨_, _, _, _, _, _, (tableAt_has hT hF).split.1.get⟩

end Holds

/-- The table `t` holds the rows of `T` and nothing else. -/
structure Represents (t : ECKeyTable) (T : AvlTree RowAt) : Prop where
  memory : tableAt t.lpRoot T t.heap
  balanced : T.Balanced
  keys : (T.toList.map RowAt.sKey).Nodup
  mapRow : ∀ k a, t.mapRow k = some a ↔ ∃ r ∈ T.toList, r.sKey = k ∧ r.addr = a
  root_lt : t.lpRoot < t.next
  addr_lt : ∀ r ∈ T.toList, r.addr < t.next
  cursor : ValidPos t.lpRoot T.toList t.lpCurrent
  bookmarks : ∀ b ∈ t.mapBookmarks, ValidPos t.lpRoot T.toList b.2.lpPosition

namespace Represents

variable {t : ECKeyTable} {T : AvlTree RowAt}

theorem framed (hR : Represents t T) : (tableAt t.lpRoot T * 1) t.heap := by
  rw [mul_one]
  exact hR.memory

/-- A table never has more rows than it allocated. -/
theorem holds (hR : Represents t T) : Holds t T where
  has := Has.self hR.memory
  balanced := hR.balanced
  length_lt := by
    have hnodup := (owns_tableAt _ _ _ hR.memory).1
    have hlt : ∀ a ∈ t.lpRoot :: T.toList.map RowAt.addr, a < t.next := by
      intro a ha
      rcases List.mem_cons.mp ha with rfl | ha
      · exact hR.root_lt
      · obtain ⟨r, hr, rfl⟩ := List.mem_map.mp ha
        exact hR.addr_lt r hr
    have hsub : t.lpRoot :: T.toList.map RowAt.addr ⊆ List.range t.next :=
      fun a ha => List.mem_range.mpr (hlt a ha)
    have hle := (hnodup.subperm hsub).length_le
    rw [List.length_cons, List.length_map, List.length_range] at hle
    rw [ECKeyTable.fuel]
    omega

/-- A table holds one tree only. -/
theorem unique {T' : AvlTree RowAt} (hR : Represents t T) (hR' : Represents t T') : T = T' := by
  obtain ⟨hroot, hbelow⟩ := (Has.self hR.memory).split
  obtain ⟨hroot', hbelow'⟩ := (Has.self hR'.memory).split
  obtain ⟨k, hcell⟩ := hroot.exists
  obtain ⟨k', hcell'⟩ := hroot'.exists
  have hsame := Option.some.inj (hcell.get.symm.trans hcell'.get)
  exact treeAt_unique hbelow hbelow' (congrArg ECTableRow.lpRight hsame)
/-- The next address `new` returns is not in use. -/
theorem next_fresh (hR : Represents t T) : t.heap t.next = none := by
  by_contra hne
  have hmem := ((owns_tableAt _ _ _ hR.memory).2 t.next).mpr hne
  rcases List.mem_cons.mp hmem with he | ha
  · exact absurd hR.root_lt (he ▸ lt_irrefl _)
  · obtain ⟨r, hr, he⟩ := List.mem_map.mp ha
    exact absurd (hR.addr_lt r hr) (he ▸ lt_irrefl _)

/-- Rows are told apart by their addresses. -/
theorem eq_of_addr (hR : Represents t T) {b : RowAt} (ha : a ∈ T.toList) (hb : b ∈ T.toList)
    (hab : a.addr = b.addr) : a = b :=
  List.inj_on_of_nodup_map (List.nodup_cons.mp hR.holds.addrs_nodup).2 ha hb hab

theorem eq_of_key (hR : Represents t T) {b : RowAt} (ha : a ∈ T.toList) (hb : b ∈ T.toList)
    (hab : a.sKey = b.sKey) : a = b :=
  List.inj_on_of_nodup_map hR.keys ha hb hab

theorem mapRow_of_mem (hR : Represents t T) (ha : a ∈ T.toList) : t.mapRow a.sKey = some a.addr :=
  (hR.mapRow _ _).mpr ⟨a, ha, rfl, rfl⟩

theorem mapRow_eq_none (hR : Represents t T) {k : SObjectTableKey} :
    t.mapRow k = none ↔ k ∉ T.toList.map RowAt.sKey := by
  constructor
  · intro hn hk
    obtain ⟨a, ha, rfl⟩ := List.mem_map.mp hk
    rw [hR.mapRow_of_mem ha] at hn
    cases hn
  · intro hk
    by_contra hn
    obtain ⟨a, ha⟩ := Option.ne_none_iff_exists'.mp hn
    obtain ⟨r, hr, hrk, -⟩ := (hR.mapRow k a).mp ha
    exact hk (List.mem_map.mpr ⟨r, hr, hrk⟩)

/-- The cell a key leads to. -/
theorem cell_of_key (hR : Represents t T) (ha : a ∈ T.toList) : ∃ p left x y n k, t.mapRow a.sKey = some a.addr ∧
      t.heap a.addr = some (a.cell p left x y n k) := by
  obtain ⟨p, left, x, y, n, k, hcell⟩ := hR.holds.cell ha
  exact ⟨p, left, x, y, n, k, hR.mapRow_of_mem ha, hcell⟩

/-- Moving the cursor keeps the rows. -/
theorem setCursor (hR : Represents t T)
    (hpos : ValidPos t.lpRoot T.toList pos) : Represents { t with lpCurrent := pos } T :=
  { hR with cursor := hpos }

end Represents

/-! ## Row numbers and the cursor -/

section Cursor

variable {t : ECKeyTable} {T : AvlTree RowAt}

theorem rowCount_spec (hh : Has (tableAt t.lpRoot T) t.heap) : t.rowCount = some (count T) := by
  obtain ⟨k, hroot⟩ := hh.split.1.exists
  rw [ECKeyTable.rowCount, Heap.branchCount, hroot.get]
  rfl

/-- The number of visible rows before a place. -/
def RowNumber (lpRoot : Addr) (T : AvlTree RowAt) (pos : Option Addr) (k : ℕ) : Prop :=
  (pos = none ∧ k = count T) ∨ (pos = some lpRoot ∧ k = 0) ∨
    ∃ xs a ys, T.toList = xs ++ a :: ys ∧ pos = some a.addr ∧ k = visibleRows xs

/-- `CurrentRow` counts the visible rows before a place. -/
theorem currentRow_spec (hH : Holds t T) {k : ℕ}
    (hpos : RowNumber t.lpRoot T pos k) : t.currentRow pos = some (k : ℤ) := by
  rcases hpos with ⟨rfl, rfl⟩ | ⟨rfl, rfl⟩ | ⟨xs, a, ys, hL, rfl, rfl⟩
  · rw [ECKeyTable.currentRow, rowCount_spec hH.has]
    rfl
  · rw [ECKeyTable.currentRow, if_pos rfl]
    rfl
  · obtain ⟨c, l, r, hT, hxs, -⟩ := hH.focus hL
    obtain ⟨F, hF⟩ := hH.has
    have hlen := Ctx.length_le_length_plug c (.node l a r)
    have hfuel := hH.length_lt
    rw [hT] at hlen
    obtain ⟨hcell, hsub⟩ := (tableAt_has hT hF).split
    rw [ECKeyTable.currentRow, if_neg (hH.addr_ne_root (by simp [hL])), hcell.get]
    simp only [RowAt.cell, Option.bind_eq_bind, Option.bind_some, branchCount_treeAt hsub.split.1]
    rw [currentRowLoop_spec hT (by omega) hH.has, count_eq_visibleRows, ← hxs, visibleRows_append]
    push_cast
    rw [add_comm]

/-- A row number within the table. -/
def clampRow (V : ℕ) (k : ℤ) : ℤ := max 0 (min k V)

/-- Where `SeekRow` leaves the cursor. -/
def Landed (lpRoot : Addr) (T : AvlTree RowAt) (k : ℤ) (pos : Option Addr) : Prop :=
  if count T = 0 then pos = some lpRoot else Sought T k pos

variable {cur : ℤ}

/-- `SeekRow` moves the cursor to the clamped destination, from whatever place has a row number. -/
theorem seekRow_lands (hH : Holds t T) {org : ℕ} {k dest : ℤ} {er : ECRESULT}
    (hcur : t.currentRow t.lpCurrent = some cur) (hdest : t.seekDest org k (count T) cur = some (er, some dest)) :
    ∃ pos sought, t.seekRow org k = some (er, some sought, { t with lpCurrent := pos }) ∧
      Landed t.lpRoot T (clampRow (count T) dest) pos ∧
        (org = EC_SEEK_SET → sought = clampRow (count T) dest) ∧
          (org = EC_SEEK_CUR → sought = clampRow (count T) dest - cur) := by
  have hclamp : (if (if dest < 0 then 0 else dest) ≥ (count T : ℤ) then (count T : ℤ)
      else if dest < 0 then 0 else dest) = clampRow (count T) dest := by
    rw [clampRow]
    split_ifs <;> omega
  have hk0 : 0 ≤ clampRow (count T) dest := by rw [clampRow]; omega
  have hkV : clampRow (count T) dest ≤ count T := by rw [clampRow]; omega
  rw [ECKeyTable.seekRow, ECKeyTable.getRowCount, hcur, rowCount_spec hH.has]
  simp only [Option.bind_eq_bind, Option.bind_some, hdest, hclamp]
  by_cases hV : count T = 0
  · refine ⟨some t.lpRoot, _, by rw [if_pos hV], ?_, fun horg => by rw [if_pos horg], ?_⟩
    · rw [Landed, if_pos hV]
    · rintro rfl
      rfl
  · rw [if_neg hV]
    obtain ⟨l, a, r, rfl⟩ : ∃ l a r, T = .node l a r := by
      cases T with
      | nil => exact absurd rfl hV
      | node l a r => exact ⟨l, a, r, rfl⟩
    obtain ⟨m, hroot⟩ := hH.has.split.1.exists
    have hheight := AvlTree.height_le_length (.node l a r)
    have hfuel := hH.length_lt
    obtain ⟨pos, hpos, hsought⟩ := seekRowLoop_spec (a := a) (n := t.fuel) rfl hH.balanced hk0 hkV
      (by omega) hH.has.split.2
    refine ⟨pos, if org = EC_SEEK_SET then clampRow (count (.node l a r)) dest
      else if org = EC_SEEK_END then clampRow (count (.node l a r)) dest - count (.node l a r)
      else clampRow (count (.node l a r)) dest - cur, ?_, ?_, fun horg => if_pos horg, ?_⟩
    · rw [hroot.get]
      simp only [rootCell, addr?_node, Option.bind_some, hpos]
    · rw [Landed, if_neg hV]
      exact hsought
    · rintro rfl
      rfl

/-- `SeekRow` from the beginning. -/
theorem seekRow_set_lands (hH : Holds t T) (hcur : t.currentRow t.lpCurrent = some cur) (k : ℤ) :
    ∃ pos, t.seekRow EC_SEEK_SET k =
        some (.erSuccess, some (clampRow (count T) k), { t with lpCurrent := pos }) ∧
      Landed t.lpRoot T (clampRow (count T) k) pos := by
  have hdest : t.seekDest EC_SEEK_SET k (count T) cur = some (.erSuccess, some k) := rfl
  obtain ⟨pos, sought, hseek, hland, hsought, -⟩ := seekRow_lands hH hcur hdest
  exact ⟨pos, hsought rfl ▸ hseek, hland⟩

/-- `SeekRow` from the cursor. -/
theorem seekRow_cur_lands (hH : Holds t T) (hcur : t.currentRow t.lpCurrent = some cur) (k : ℤ) :
    ∃ pos, t.seekRow EC_SEEK_CUR k = some (.erSuccess,
        some (clampRow (count T) (toInt (cur + k)) - cur), { t with lpCurrent := pos }) ∧
      Landed t.lpRoot T (clampRow (count T) (toInt (cur + k))) pos := by
  have hdest : t.seekDest EC_SEEK_CUR k (count T) cur =
      some (.erSuccess, some (toInt (cur + k))) := rfl
  obtain ⟨pos, sought, hseek, hland, -, hsought⟩ := seekRow_lands hH hcur hdest
  exact ⟨pos, hsought rfl ▸ hseek, hland⟩

theorem Landed.rowNumber {k : ℤ} (hk : 0 ≤ k) (hkT : k ≤ count T)
    (hl : Landed lpRoot T k pos) : RowNumber lpRoot T pos k.toNat := by
  rw [Landed] at hl
  split_ifs at hl with hV
  · exact .inr (.inl ⟨hl, by omega⟩)
  · rcases hl with ⟨xs, a, ys, hL, hxs, rfl⟩ | ⟨rfl, hk⟩
    · exact .inr (.inr ⟨xs, a, ys, hL, rfl, by omega⟩)
    · exact .inl ⟨rfl, by omega⟩

theorem RowNumber.validPos {k : ℕ} (hp : RowNumber lpRoot T pos k) : ValidPos lpRoot T.toList pos := by
  rcases hp with ⟨hp, -⟩ | ⟨hp, -⟩ | ⟨xs, a, ys, hL, hp, -⟩
  · exact .inl hp
  · exact .inr (.inl hp)
  · exact .inr (.inr ⟨a, by simp [hL], hp⟩)

theorem ValidPos.rowNumber (hp : ValidPos lpRoot T.toList pos) : ∃ k, RowNumber lpRoot T pos k := by
  rcases hp with hp | hp | ⟨a, ha, hp⟩
  · exact ⟨_, .inl ⟨hp, rfl⟩⟩
  · exact ⟨_, .inr (.inl ⟨hp, rfl⟩)⟩
  · obtain ⟨xs, ys, hL⟩ := List.append_of_mem ha
    exact ⟨_, .inr (.inr ⟨xs, a, ys, hL, hp, rfl⟩)⟩

/-- A bookmark has a row number. -/
theorem getBookmark_spec (hR : Represents t T) (k : ℕ) : ∃ er pos, t.getBookmark k = some (er, pos) := by
  rw [ECKeyTable.getBookmark]
  cases hk : t.mapBookmarks.lookup k with
  | none => exact ⟨_, _, rfl⟩
  | some b =>
    obtain ⟨l₁, l₂, hb, -⟩ := List.lookup_eq_some_iff.mp hk
    obtain ⟨n, hn⟩ := (hR.bookmarks (k, b) (by simp [hb])).rowNumber
    simp only [currentRow_spec hR.holds hn, Option.bind_eq_bind, Option.bind_some]
    exact ⟨_, _, rfl⟩

/-- `SeekRow` moves the cursor to a place of the table, or fails and leaves it. -/
theorem seekRow_valid (hR : Represents t T) (org : ℕ) (k : ℤ) :
    ∃ er sought pos, t.seekRow org k = some (er, sought, { t with lpCurrent := pos }) ∧
      ValidPos t.lpRoot T.toList pos := by
  obtain ⟨n, hn⟩ := hR.cursor.rowNumber
  have hcur := currentRow_spec hR.holds hn
  have hdest : ∃ er dest, t.seekDest org k (count T) n = some (er, dest) := by
    rw [ECKeyTable.seekDest]
    split_ifs
    · exact ⟨_, _, rfl⟩
    · exact ⟨_, _, rfl⟩
    · exact ⟨_, _, rfl⟩
    · obtain ⟨er, pos, hpos⟩ := getBookmark_spec hR org
      rw [hpos]
      exact ⟨_, _, rfl⟩
  obtain ⟨er, dest, hdest⟩ := hdest
  cases dest with
  | none =>
    refine ⟨er, none, t.lpCurrent, ?_, hR.cursor⟩
    rw [ECKeyTable.seekRow, ECKeyTable.getRowCount, hcur, rowCount_spec hR.holds.has]
    simp only [Option.bind_eq_bind, Option.bind_some, hdest]
  | some dest =>
    obtain ⟨pos, sought, hseek, hland, -⟩ := seekRow_lands hR.holds hcur hdest
    have h0 : 0 ≤ clampRow (count T) dest := by rw [clampRow]; omega
    have hV : clampRow (count T) dest ≤ count T := by rw [clampRow]; omega
    exact ⟨er, some sought, pos, hseek, (hland.rowNumber h0 hV).validPos⟩

end Cursor

end Zcp.Common
