import Zcp.Common.ECKeyTable.Search
import Zcp.Lib.Endian

/-!
# Finding a row of a table

`ECGenericObjectTable::FindRow`, in a table that is populated and sorted. What the data of the rows is and how a
restriction is evaluated on a row are parameters.

The search reads blocks of 20 rows without moving the cursor and goes on from row number to row number. Forward this
finds the first row that matches. Backward it does not when the cursor stands past the last row, since `QueryRows` then
starts with the last row, which is one row further back than the cursor; and when no row matches, the sentinel in front
of the first row is evaluated like a row.
-/

namespace Zcp.Libserver.ECGenericObjectTable

open Zcp.Common Zcp.Lib

/-! ## The restriction -/

def RELOP_EQ : ℕ := 4
def PR_INSTANCE_KEY : ℕ := 0x0FF60102
def PR_ENTRYID_TAG : ℕ := 0x0FFF0102

/-- `propVal`; `bin` is `Value.bin` of a binary property. -/
structure PropVal where
  ulPropTag : ℕ
  bin : Option (List UInt8)

/-- `restrictTable`, as far as `FindRow` itself looks at it. -/
inductive FindRestriction (R : Type) where
  | RES_PROPERTY (ulType ulPropTag : ℕ) (lpProp : Option PropVal)
  | other (lpRes : R)

def sizeofEID : ℕ := 48
def sizeofEID_V0 : ℕ := 36

/-- `ulVersion` of an `EID`. -/
def ulVersion (lpEntryId : List UInt8) : ℕ := ofLittleEndian ((lpEntryId.drop 20).take 4)

def IsZarafaEntryId (lpEntryId : List UInt8) : Bool :=
  (lpEntryId.length = sizeofEID ∧ ulVersion lpEntryId = 1) ∨ (lpEntryId.length = sizeofEID_V0 ∧ ulVersion lpEntryId = 0)

/-- What a search reads. -/
structure FindData (R : Type) where
  /-- `QueryRowData`, `RunSubRestrictions` and `MatchRowRestrict` for a row. -/
  matchRow : FindRestriction R → SObjectTableKey → Except ECRESULT Bool
  /-- `ECCacheManager::GetObjectFromEntryId`. -/
  GetObjectFromEntryId : List UInt8 → Except ECRESULT ℕ
  /-- The code of a failure is not `erSuccess`. -/
  fails {lpEntryId : List UInt8} {er : ECRESULT} (h : GetObjectFromEntryId lpEntryId = .error er) : er ≠ .erSuccess

variable {R : Type} (data : FindData R) (lpsRestrict : FindRestriction R)

/-- The row that a restriction on `PR_INSTANCE_KEY` or `PR_ENTRYID` names. -/
def namedRow : Option (Except ECRESULT SObjectTableKey) :=
  match lpsRestrict with
  | .RES_PROPERTY ulType ulPropTag (some ⟨tag, some bin⟩) =>
    if ulType = RELOP_EQ ∧ ulPropTag = PR_INSTANCE_KEY ∧ tag = PR_INSTANCE_KEY ∧ bin.length = 8 then
      some (.ok ⟨ofLittleEndian (bin.take 4), ofLittleEndian (bin.drop 4)⟩)
    else if ulType = RELOP_EQ ∧ ulPropTag = PR_ENTRYID_TAG ∧ tag = PR_ENTRYID_TAG ∧ IsZarafaEntryId bin then
      some ((data.GetObjectFromEntryId bin).map fun ulObjId => ⟨ulObjId, 0⟩)
    else none
  | _ => none

/-- The code of an object that is not found is not `erSuccess`. -/
theorem error_ne_of_namedRow {data : FindData R} {lpsRestrict : FindRestriction R} {er : ECRESULT}
    (h : namedRow data lpsRestrict = some (.error er)) : er ≠ .erSuccess := by
  have hmap {res : Except ECRESULT ℕ} (hres : res.map (fun ulObjId => (⟨ulObjId, 0⟩ : SObjectTableKey)) = .error er) :
      res = .error er := by
    cases res with
    | error er' =>
      cases hres
      rfl
    | ok ulObjId => cases hres
  unfold namedRow at h
  split at h
  · split_ifs at h
    · cases h
    · exact data.fails (hmap (Option.some.inj h))
  · cases h

/-! ## The search -/

/-- The loop over a block: the place of the first row that matches. -/
def matchBlock : List SObjectTableKey → Except ECRESULT (Option ℕ)
  | [] => .ok none
  | sRowItem :: rest =>
    match data.matchRow lpsRestrict sRowItem with
    | .error er => .error er
    | .ok true => .ok (some 0)
    | .ok false => (matchBlock rest).map (Option.map (· + 1))

/-- The loop over the blocks: whether a row matches, with the cursor on it. -/
def findLoop (bDirBackward : Bool) : ℕ → ECKeyTable → Option (Except ECRESULT Bool × ECKeyTable)
  | 0, _ => none
  | fuel + 1, t => do
    let (ecRowList, t) ← t.queryRows 20 bDirBackward true false
    if ecRowList.isEmpty then some (.ok false, t)
    else match matchBlock data lpsRestrict ecRowList with
      | .error er => some (.error er, t)
      | .ok (some i) => do
        let (_, _, t) ← t.seekRow EC_SEEK_CUR (if bDirBackward then -(i : ℤ) else i)
        some (.ok true, t)
      | .ok none => do
        let size : ℤ := ecRowList.length
        let (_, ulSeeked, t) ← t.seekRow EC_SEEK_CUR (if bDirBackward then -size else size)
        -- no advance is possible
        if ulSeeked = some 0 then some (.ok false, t) else findLoop bDirBackward fuel t

/-- `ECGenericObjectTable::FindRow`, with a bound on the number of blocks. -/
def findRow (fuel : ℕ) (t : ECKeyTable) (ulBookmark : ℕ) (bDirBackward : Bool) : Option (ECRESULT × ECKeyTable) := do
  let (_, ulRow) ← t.getRowCount
  let (er, _, t) ← t.seekRow ulBookmark (startSeek ulBookmark bDirBackward)
  if er ≠ .erSuccess then some (er, t)
  else match if ulBookmark = BOOKMARK_BEGINNING then namedRow data lpsRestrict else none with
    | some (.error er) => some (er, t)
    | some (.ok sRowItem) => some (t.seekId sRowItem)
    | none => do
      match ← findLoop data lpsRestrict bDirBackward fuel t with
      | (.error er, t) => some (er, t)
      | (.ok true, t) => some (.erSuccess, t)
      | (.ok false, t) => do
        let (_, _, t) ← t.seekRow EC_SEEK_SET ulRow
        some (.ZARAFA_E_NOT_FOUND, t)

/-! ## Searching forward -/

section Search

variable {data lpsRestrict} {m : SObjectTableKey → Bool} {t : ECKeyTable} {T : AvlTree RowAt}

theorem matchBlock_eq (hm : ∀ k, data.matchRow lpsRestrict k = .ok (m k)) (keys : List SObjectTableKey) :
    matchBlock data lpsRestrict keys = .ok (keys.findIdx? m) := by
  induction keys with
  | nil => rfl
  | cons k keys ih =>
    rw [matchBlock, hm, List.findIdx?_cons]
    cases m k with
    | false =>
      rw [ih]
      rfl
    | true => rfl

variable {s : ℕ}

/-- The first match of a list is in its first rows or behind them. -/
theorem findIdx?_split {α : Type} (p : α → Bool) (l : List α) (hs : s ≤ l.length) :
    l.findIdx? p = ((l.take s).findIdx? p).or (((l.drop s).findIdx? p).map (· + s)) := by
  conv_lhs => rw [← List.take_append_drop s l]
  rw [List.findIdx?_append, List.length_take, min_eq_left hs]

variable {n : ℕ}

theorem findLoop_forward (hm : ∀ k, data.matchRow lpsRestrict k = .ok (m k)) (hsmall : count T < 2 ^ 31)
    (h : StandsAt t T n) :
    ∃ fuel found t', findLoop data lpsRestrict false fuel t = some (.ok found, t') ∧ Represents t' T ∧
      match (readingOrder T false n).findIdx? m with
      | some i => found = true ∧ StandsAt t' T (n + i)
      -- no match in the block: the cursor stands behind it, and the loop goes on
      | none => found = false := by
  obtain ⟨d, hd⟩ : ∃ d, d = count T - n := ⟨_, rfl⟩
  -- on the rows that are left: each turn reads a block of at least one
  induction d using Nat.strong_induction_on generalizing t n with
  | h d ih =>
    have hread := queryRows_forward_block h.represents h.rowNumber 20
    have hlen : (readingOrder T false n).length = count T - n := by
      rw [readingOrder, if_neg Bool.false_ne_true, List.length_drop, length_visibleKeys]
    obtain ⟨s, hs⟩ : ∃ s, s = min 20 (count T - n) := ⟨_, rfl⟩
    rw [List.take_eq_take_min, hlen, ← hs] at hread
    have hsplit := findIdx?_split m (readingOrder T false n) (s := s) (by omega)
    by_cases hend : n = count T
    · -- nothing is left to read
      have hnil : readingOrder T false n = [] := List.length_eq_zero_iff.mp (by omega)
      rw [hnil, List.take_nil] at hread
      refine ⟨1, false, t, ?_, h.represents, ?_⟩
      · simp [findLoop, hread]
      · rw [hnil]
        rfl
    · have hle := h.le
      have hblock : (readingOrder T false n).take s ≠ [] := by
        intro hnil
        have hlength := congrArg List.length hnil
        rw [List.length_take, hlen, List.length_nil] at hlength
        omega
      cases hfind : ((readingOrder T false n).take s).findIdx? m with
      | some i =>
        have hi : i < s := by
          have := (List.findIdx?_eq_some_iff_findIdx_eq.mp hfind).1
          rw [List.length_take] at this
          omega
        obtain ⟨t', hseek, hstands, -⟩ := seekRow_cur_standsAt (n + i) (k := i) h.represents h.rowNumber hsmall
          (by omega) (by omega) (by omega)
        refine ⟨1, true, t', ?_, hstands.represents, ?_⟩
        · simp [findLoop, hread, hblock, matchBlock_eq hm, hfind, hseek]
        · rw [hsplit, hfind]
          exact ⟨rfl, hstands⟩
      | none =>
        obtain ⟨t₁, hseek, hstands, -⟩ := seekRow_cur_standsAt (n + s) (k := s) h.represents h.rowNumber hsmall
          (by omega) (by omega) (by omega)
        obtain ⟨fuel, found, t', hloop, hR', hres⟩ := ih (count T - (n + s)) (by omega) hstands rfl
        have hdrop : (readingOrder T false n).drop s = readingOrder T false (n + s) := List.drop_drop
        refine ⟨fuel + 1, found, t', ?_, hR', ?_⟩
        · have hsize : ((readingOrder T false n).take s).length = s := by
            rw [List.length_take, hlen]
            omega
          have hmoved : ¬ s = 0 := by omega
          simp [findLoop, hread, hblock, matchBlock_eq hm, hfind, hsize, hseek, hmoved, hloop]
        · rw [hsplit, hfind, hdrop]
          cases hrest : (readingOrder T false (n + s)).findIdx? m with
          | none =>
            rw [hrest] at hres
            exact hres
          | some i =>
            rw [hrest] at hres
            refine ⟨hres.1, ?_⟩
            rw [show n + (i + s) = n + s + i by omega]
            exact hres.2

/-! ## Searching backward -/

/-- The row number at which the next block of a backward search starts. -/
def nextBlock (T : AvlTree RowAt) (n : ℕ) : ℕ := n - blockSize T (min n (count T - 1)) 20

/-- The row numbers at which the blocks of a backward search from row `n` start. From past the last row, the first
block starts with the last row. -/
inductive BlockStart (T : AvlTree RowAt) : ℕ → ℕ → Prop where
  | here (n : ℕ) : BlockStart T n n
  | last : BlockStart T (count T) (count T - 1)
  | behind {n b : ℕ} (h : BlockStart T (nextBlock T n) b) : BlockStart T n b

/-- The blocks that a backward search reads, those with no match in front of them, start with a visible row. -/
def ReadsVisible (t : ECKeyTable) (T : AvlTree RowAt) (m : SObjectTableKey → Bool) (n : ℕ) : Prop :=
  ∀ b, BlockStart T n b → (∀ k ∈ (readingOrder T true n).take (min n (count T - 1) - b), m k = false) →
    t.SeeksVisible b

/-- A backward search that finds no row reads the sentinel. -/
def ReadsSentinel (T : AvlTree RowAt) : Prop := 0 < rootNumber T ∧ 1 < count T

instance (T : AvlTree RowAt) : Decidable (ReadsSentinel T) := inferInstanceAs (Decidable (_ ∧ _))

variable {b : ℕ}

theorem BlockStart.le (h : BlockStart T n b) : b ≤ n := by
  induction h with
  | here => exact le_rfl
  | last => exact Nat.sub_le _ _
  | behind _ ih => exact ih.trans (Nat.sub_le _ _)

theorem blockSize_pos (n : ℕ) : 0 < blockSize T n 20 := by
  rw [blockSize]
  split_ifs <;> omega

theorem blockSize_le (n : ℕ) : blockSize T n 20 ≤ n + 1 := by
  rw [blockSize]
  omega

theorem blockSize_min (hn : n < count T) : blockSize T n (min 20 (count T)) = blockSize T n 20 := by
  rw [blockSize, blockSize]
  omega

/-- Behind rows without a match the search starts over. -/
theorem findIdx?_behind (hn : n < count T) (hs : s ≤ n + 1)
    (hnone : ((readingOrder T true n).take s).findIdx? m = none) :
    (readingOrder T true n).findIdx? m = ((readingOrder T true (n - s)).findIdx? m).map (· + s) := by
  have hlen := length_readingOrder hn
  rw [findIdx?_split m _ (s := s) (by omega), hnone, Option.none_or]
  by_cases hle : s ≤ n
  · rw [drop_readingOrder hn hle]
  · -- row 0 was in the block
    have hall : (readingOrder T true n).take s = readingOrder T true n := List.take_of_length_le (by omega)
    have hzero : readingOrder T true (n - s) = (readingOrder T true n).drop n := by
      rw [drop_readingOrder hn le_rfl]
      congr 1
      omega
    rw [hall] at hnone
    have hrest : (readingOrder T true (n - s)).findIdx? m = none := by
      rw [hzero, List.findIdx?_eq_none_iff]
      exact fun k hk => List.findIdx?_eq_none_iff.mp hnone k (List.mem_of_mem_drop hk)
    rw [hrest, List.drop_of_length_le (by omega)]
    rfl

/-- The blocks behind rows without a match. -/
theorem no_match_behind (hn : n < count T) (hb : b ≤ n - s)
    (hnone : ((readingOrder T true n).take s).findIdx? m = none)
    (hrest : ∀ k ∈ (readingOrder T true (n - s)).take (n - s - b), m k = false) :
    ∀ k ∈ (readingOrder T true n).take (n - b), m k = false := by
  intro k hk
  by_cases hle : s ≤ n
  · have hsplit : (readingOrder T true n).take (n - b) =
        (readingOrder T true n).take s ++ (readingOrder T true (n - s)).take (n - s - b) := by
      rw [← drop_readingOrder hn hle, show n - b = s + (n - s - b) by omega, List.take_add]
    rw [hsplit, List.mem_append] at hk
    rcases hk with hk | hk
    · exact List.findIdx?_eq_none_iff.mp hnone k hk
    · exact hrest k hk
  · have hall : (readingOrder T true n).take s = readingOrder T true n := by
      apply List.take_of_length_le
      rw [length_readingOrder hn]
      omega
    rw [hall] at hnone
    exact List.findIdx?_eq_none_iff.mp hnone k (List.mem_of_mem_take hk)

variable {t' : ECKeyTable}

theorem ReadsVisible.next (h : ReadsVisible t T m n) (hn : n < count T)
    (ht' : t' = { t with lpCurrent := t'.lpCurrent }) (hs : s = blockSize T n 20)
    (hnone : ((readingOrder T true n).take s).findIdx? m = none) : ReadsVisible t' T m (n - s) := by
  intro b hb hrest
  have hmin : min n (count T - 1) = n := by omega
  have hnext : nextBlock T n = n - s := by rw [nextBlock, hmin, hs]
  rw [ht']
  refine h b (.behind (hnext ▸ hb)) ?_
  rw [hmin]
  rw [show min (n - s) (count T - 1) = n - s by omega] at hrest
  exact no_match_behind hn hb.le hnone hrest

/-- What a search from row `n` ends with: the row that matches, or the sentinel. -/
def EndsBackward (T : AvlTree RowAt) (m : SObjectTableKey → Bool) (n : ℕ) (found : Bool) (t' : ECKeyTable) : Prop :=
  Represents t' T ∧
    match (readingOrder T true n).findIdx? m with
    | some i => found = true ∧ StandsAt t' T (n - i)
    | none => found = (m .zero && decide (ReadsSentinel T))

variable {c : ℕ}

/-- One turn of a backward search that reads `keys`: it ends with the cursor on the first match, or it goes back over all
of them. -/
theorem findLoop_turn (hm : ∀ k, data.matchRow lpsRestrict k = .ok (m k)) (hsmall : count T < 2 ^ 31)
    (h : StandsAt t T c) {keys : List SObjectTableKey} (hread : t.queryRows 20 true true false = some (keys, t))
    (hne : keys ≠ []) (hlen : keys.length ≤ 2 ^ 31) :
    match keys.findIdx? m with
    | some i => ∃ t', (∀ fuel, findLoop data lpsRestrict true (fuel + 1) t = some (.ok true, t')) ∧ StandsAt t' T (c - i)
    | none => ∃ t', (∀ fuel, findLoop data lpsRestrict true (fuel + 1) t =
        if c = 0 then some (.ok false, t') else findLoop data lpsRestrict true fuel t') ∧
          StandsAt t' T (c - keys.length) ∧ t' = { t with lpCurrent := t'.lpCurrent } := by
  have hle := h.le
  cases hfind : keys.findIdx? m with
  | some i =>
    have hi := (List.findIdx?_eq_some_iff_findIdx_eq.mp hfind).1
    obtain ⟨t', hseek, hstands, -⟩ := seekRow_cur_standsAt (c - i) (k := -i) h.represents h.rowNumber hsmall
      (by omega) (by omega) (by omega)
    refine ⟨t', fun fuel => ?_, hstands⟩
    simp [findLoop, hread, hne, matchBlock_eq hm, hfind, hseek]
  | none =>
    have hpos := List.length_pos_of_ne_nil hne
    obtain ⟨t', hseek, hstands, hframe⟩ := seekRow_cur_standsAt (c - keys.length) (k := -keys.length) h.represents
      h.rowNumber hsmall (by omega) (by omega) (by omega)
    refine ⟨t', fun fuel => ?_, hstands, hframe⟩
    have hsought : ((c - keys.length : ℕ) : ℤ) - c = 0 ↔ c = 0 := by omega
    simp [findLoop, hread, hne, matchBlock_eq hm, hfind, hseek, hsought]

/-! ## The blocks of a backward search -/

/-- The block that a backward search reads from row number `c`: what `QueryRows` reads from where `SeekRow` stops. -/
def block (t : ECKeyTable) (c : ℕ) : List SObjectTableKey :=
  ((ECKeyTable.queryRows { t with lpCurrent := (t.place c).getD none } 20 true true false).map Prod.fst).getD []

/-- The row numbers from which a backward search from row number `c` reads its blocks: over a block without a match it
goes back by as many rows as the block has. -/
inductive Reaches (t : ECKeyTable) (m : SObjectTableKey → Bool) : ℕ → ℕ → Prop where
  | here (c : ℕ) : Reaches t m c c
  | behind {c b : ℕ} (hnone : (block t c).findIdx? m = none) (h : Reaches t m (c - (block t c).length) b) : Reaches t m c b

/-- When a backward search is right: the first match that its blocks have is the `i`-th key of the block from row number
`c`, and row `c - i` is the first one that matches; or nothing matches in any of the blocks, and no row does. A block
starts with row `c` itself unless `SeekRow` stops at a hidden row or behind the last row. -/
def BlocksRight (t : ECKeyTable) (T : AvlTree RowAt) (m : SObjectTableKey → Bool) (n : ℕ) : Prop :=
  (∃ c i k, Reaches t m n c ∧ (block t c).findIdx? m = some i ∧ (readingOrder T true n).find? m = some k ∧
    (visibleKeys T)[c - i]? = some k) ∨
      (∀ c, Reaches t m n c → (block t c).findIdx? m = none) ∧ (readingOrder T true n).find? m = none

/-- The result of a loop. -/
def result (found : Bool) : ECRESULT := if found then .erSuccess else .ZARAFA_E_NOT_FOUND

/-- How the loop over the blocks ends. -/
def EndsBlocks (t : ECKeyTable) (T : AvlTree RowAt) (m : SObjectTableKey → Bool) (n : ℕ) (t' : ECKeyTable) : Bool → Prop
  | true => ∃ c i, Reaches t m n c ∧ (block t c).findIdx? m = some i ∧ StandsAt t' T (c - i)
  | false => ∀ c, Reaches t m n c → (block t c).findIdx? m = none

/-- A block that does not let the search go back is the last one. -/
theorem Reaches.eq_of_stays (h : Reaches t m c b) (hstays : c - (block t c).length = c) : b = c := by
  induction h with
  | here => rfl
  | behind _ _ ih =>
    rw [hstays] at ih
    exact ih hstays

/-- At most one of the blocks has the first match. -/
theorem Reaches.unique {b' i i' : ℕ} (h : Reaches t m c b) (hi : (block t b).findIdx? m = some i)
    (h' : Reaches t m c b') (hi' : (block t b').findIdx? m = some i') : b = b' := by
  induction h with
  | here =>
    cases h' with
    | here => rfl
    | behind hnone => exact absurd (hi.symm.trans hnone) (by simp)
  | behind hnone _ ih =>
    cases h' with
    | here => exact absurd (hi'.symm.trans hnone) (by simp)
    | behind _ h' => exact ih hi h'

theorem queryRows_block (h : StandsAt t T n) : t.queryRows 20 true true false = some (block t n, t) := by
  obtain ⟨keys, pos, hread, -⟩ := queryRows_valid h.represents 20 true true false
  obtain rfl := queryRows_noAdvance hread
  have hplace : { t with lpCurrent := (t.place n).getD none } = t := by
    rw [h.place]
    rfl
  rw [block, hplace, hread]
  rfl

/-- The loop over the blocks, from any row number and in any table. -/
theorem findLoop_blocks (hm : ∀ k, data.matchRow lpsRestrict k = .ok (m k)) (hsmall : count T < 2 ^ 31) {t₁ : ECKeyTable}
    (h : StandsAt t₁ T n) (hframe : t₁ = { t with lpCurrent := t₁.lpCurrent }) :
    ∃ fuel found t', findLoop data lpsRestrict true fuel t₁ = some (.ok found, t') ∧ Represents t' T ∧
      EndsBlocks t T m n t' found := by
  induction n using Nat.strong_induction_on generalizing t₁ with
  | h n ih =>
    have hblock (c : ℕ) : block t₁ c = block t c := by
      rw [hframe]
      rfl
    have hread := queryRows_block h
    have hlen := length_queryRows_le hread
    rw [hblock] at hread hlen
    by_cases hnil : block t n = []
    · refine ⟨1, false, t₁, by simp [findLoop, hread, hnil], h.represents, fun c hc => ?_⟩
      rw [hc.eq_of_stays (by simp [hnil]), hnil]
      rfl
    · have hturn := findLoop_turn hm hsmall h hread hnil (hlen.trans (by omega))
      cases hfind : (block t n).findIdx? m with
      | some i =>
        rw [hfind] at hturn
        obtain ⟨t', hends, hstands⟩ := hturn
        exact ⟨1, true, t', hends 0, hstands.represents, n, i, .here n, hfind, hstands⟩
      | none =>
        rw [hfind] at hturn
        obtain ⟨t', hgoes, hstands, hframe'⟩ := hturn
        have hpos := List.length_pos_of_ne_nil hnil
        by_cases hzero : n = 0
        · refine ⟨1, false, t', by rw [hgoes, if_pos hzero], hstands.represents, fun c hc => ?_⟩
          rw [hc.eq_of_stays (by omega), hfind]
        · -- over the rows of the block, and on from there
          obtain ⟨fuel, found, t'', hloop, hR, hend⟩ := ih (n - (block t n).length) (by omega) hstands (by
            rw [hframe', hframe])
          refine ⟨fuel + 1, found, t'', by rw [hgoes, if_neg hzero, hloop], hR, ?_⟩
          cases found with
          | true =>
            obtain ⟨c, i, hc, hi, hstands'⟩ := hend
            exact ⟨c, i, .behind hfind hc, hi, hstands'⟩
          | false =>
            intro c hc
            cases hc with
            | here => exact hfind
            | behind _ hc => exact hend c hc

variable {found : Bool}

/-- A search that ends so is right if and only if its blocks are. -/
theorem findsFirst_blocks_iff (hend : EndsBlocks t T m n t' found) :
    FindsFirst .erSuccess .ZARAFA_E_NOT_FOUND (readingOrder T true n) m (result found, t') ↔ BlocksRight t T m n := by
  rw [BlocksRight]
  cases found with
  | true =>
    obtain ⟨c, i, hc, hi, hstands⟩ := hend
    rw [or_iff_left fun h => absurd (hi.symm.trans (h.1 c hc)) (by simp)]
    constructor
    · intro hright
      cases hfind : (readingOrder T true n).find? m with
      | none =>
        rw [FindsFirst, hfind] at hright
        cases hright
      | some k =>
        rw [FindsFirst, hfind] at hright
        exact ⟨c, i, k, hc, hi, rfl, (readsNext_iff hstands.represents hstands.rowNumber).mp hright.2⟩
    · rintro ⟨c', i', k, hc', hi', hfind, hrow⟩
      obtain rfl := hc.unique hi hc' hi'
      obtain rfl : i = i' := Option.some.inj (hi.symm.trans hi')
      rw [FindsFirst, hfind]
      exact ⟨rfl, (readsNext_iff hstands.represents hstands.rowNumber).mpr hrow⟩
  | false =>
    constructor
    · intro hright
      cases hfind : (readingOrder T true n).find? m with
      | none => exact .inr ⟨hend, rfl⟩
      | some k =>
        rw [FindsFirst, hfind] at hright
        cases hright.1
    · rintro (⟨c, i, k, hc, hi, -, -⟩ | ⟨-, hnone⟩)
      · -- no block met holds a row the search found
        cases hi.symm.trans (hend c hc)
      · rw [FindsFirst, hnone]
        rfl

/-! ## Blocks that start with visible rows -/

/-- A search from a row, backward. -/
theorem findLoop_backward (hm : ∀ k, data.matchRow lpsRestrict k = .ok (m k)) (hsmall : count T < 2 ^ 31)
    (h : StandsAt t T n) (hn : n < count T) (hvis : ReadsVisible t T m n) :
    ∃ fuel found t', findLoop data lpsRestrict true fuel t = some (.ok found, t') ∧ EndsBackward T m n found t' := by
  induction n using Nat.strong_induction_on generalizing t with
  | h n ih =>
    have hread := queryRows_backward_block h hn (hvis n (.here n) (by simp)) 20
    obtain ⟨s, hs⟩ : ∃ s, s = blockSize T n 20 := ⟨_, rfl⟩
    have hspos : 0 < s := hs ▸ blockSize_pos n
    have hsle : s ≤ n + 1 := hs ▸ blockSize_le n
    have hs20 : s ≤ 20 := hs ▸ Nat.min_le_left _ _
    rw [backBlock, blockSize_min hn, ← hs] at hread
    have hlen : ((readingOrder T true n).take s).length = s := by
      rw [List.length_take, length_readingOrder hn]
      omega
    have hne (keys : List SObjectTableKey) : (readingOrder T true n).take s ++ keys ≠ [] := by
      intro hnil
      have := congrArg List.length hnil
      rw [List.length_append, hlen, List.length_nil] at this
      omega
    have hsplit := findIdx?_split m (readingOrder T true n) (s := s) (by rw [length_readingOrder hn]; exact hsle)
    -- the next turn, when the rows of this one do not match
    have hnext (hnone : ((readingOrder T true n).take s).findIdx? m = none) {t' : ECKeyTable} {size : ℕ}
        (hsize : n - size = n - s) (hpos : 0 < n)
        (hgoes : ∀ fuel, findLoop data lpsRestrict true (fuel + 1) t =
          if n = 0 then some (.ok false, t') else findLoop data lpsRestrict true fuel t')
        (hstands : StandsAt t' T (n - size)) (hframe : t' = { t with lpCurrent := t'.lpCurrent }) :
        ∃ fuel found t', findLoop data lpsRestrict true fuel t = some (.ok found, t') ∧
          EndsBackward T m n found t' := by
      rw [hsize] at hstands
      obtain ⟨fuel, found, t'', hloop, hR, hend⟩ := ih (n - s) (by omega) hstands (by omega)
        (hvis.next hn hframe hs hnone)
      refine ⟨fuel + 1, found, t'', ?_, hR, ?_⟩
      · rw [hgoes, if_neg (by omega), hloop]
      · rw [findIdx?_behind hn hsle hnone]
        cases hfind : (readingOrder T true (n - s)).findIdx? m with
        | none =>
          rw [hfind] at hend
          exact hend
        | some i =>
          rw [hfind] at hend
          refine ⟨hend.1, ?_⟩
          show StandsAt t'' T (n - (i + s))
          rw [Nat.add_comm i s, ← Nat.sub_sub]
          exact hend.2
    cases hfind : ((readingOrder T true n).take s).findIdx? m with
    | some i =>
      have hturn := findLoop_turn hm hsmall h hread (hne _) (by
        rw [List.length_append, hlen]
        split_ifs <;> simp <;> omega)
      rw [List.findIdx?_append, hfind, Option.some_or] at hturn
      obtain ⟨t', hends, hstands⟩ := hturn
      refine ⟨1, true, t', hends 0, hstands.represents, ?_⟩
      rw [hsplit, hfind]
      exact ⟨rfl, hstands⟩
    | none =>
      by_cases hfront : n < rootNumber T ∧ n + 1 < min 20 (count T)
      · -- the block goes on to the sentinel
        rw [if_pos hfront] at hread
        have hall : s = n + 1 := by
          rw [hs, blockSize, if_neg (by omega)]
          omega
        have hnil : (readingOrder T true n).findIdx? m = none := by
          rwa [List.take_of_length_le (by rw [length_readingOrder hn, hall])] at hfind
        have hturn := findLoop_turn hm hsmall h hread (hne _) (by
          rw [List.length_append, hlen]
          simp
          omega)
        rw [List.findIdx?_append, hfind, Option.none_or, List.findIdx?_singleton] at hturn
        cases hz : m .zero with
        | true =>
          rw [hz] at hturn
          obtain ⟨t', hends, hstands⟩ := hturn
          refine ⟨1, true, t', hends 0, hstands.represents, ?_⟩
          rw [hnil, hz, decide_eq_true (show ReadsSentinel T from ⟨by omega, by omega⟩)]
          rfl
        | false =>
          rw [hz] at hturn
          obtain ⟨t', hgoes, hstands, hframe⟩ := hturn
          rw [List.length_append, hlen] at hstands
          by_cases hzero : n = 0
          · refine ⟨1, false, t', by rw [hgoes, if_pos hzero], hstands.represents, ?_⟩
            rw [hnil, hz]
            rfl
          · exact hnext hfind (by simp; omega) (by omega) hgoes hstands hframe
      · rw [if_neg hfront, List.append_nil] at hread
        have hturn := findLoop_turn hm hsmall h hread (by simpa using hne []) (by omega)
        rw [hfind] at hturn
        obtain ⟨t', hgoes, hstands, hframe⟩ := hturn
        rw [hlen] at hstands
        by_cases hzero : n = 0
        · refine ⟨1, false, t', by rw [hgoes, if_pos hzero], hstands.represents, ?_⟩
          have hall : (readingOrder T true n).take s = readingOrder T true n :=
            List.take_of_length_le (by rw [length_readingOrder hn]; omega)
          have hnot : ¬ ReadsSentinel T := fun hr => hfront ⟨hzero ▸ hr.1, by have := hr.2; omega⟩
          rw [← hall, hfind, decide_eq_false hnot, Bool.and_false]
        · exact hnext hfind rfl (by omega) hgoes hstands hframe

/-- A search from past the last row, backward: its first block starts one row further back than the cursor. -/
theorem findLoop_backward_end (hm : ∀ k, data.matchRow lpsRestrict k = .ok (m k)) (hsmall : count T < 2 ^ 31)
    (h : StandsAt t T (count T)) (hpos : 0 < count T) (hvis : ReadsVisible t T m (count T)) :
    ∃ fuel found t', findLoop data lpsRestrict true fuel t = some (.ok found, t') ∧
      match ((readingOrder T true (count T)).take (blockSize T (count T - 1) 20)).findIdx? m with
      | some i => found = true ∧ StandsAt t' T (count T - i)
      | none => EndsBackward T m (count T - 1) found t' := by
  obtain ⟨n, hn⟩ : ∃ n, count T = n + 1 := ⟨count T - 1, by omega⟩
  have hlast : count T - 1 = n := by omega
  have hmin : min (count T) (count T - 1) - n = 0 := by omega
  have hread := queryRows_backward_end h hpos hsmall (hvis _ (.here _) (by simp)) (hvis _ .last (by simp)) 20
  rw [readingOrder_end hpos]
  obtain ⟨s, hs⟩ : ∃ s, s = blockSize T (count T - 1) 20 := ⟨_, rfl⟩
  have hspos : 0 < s := hs ▸ blockSize_pos _
  have hsle : s ≤ n + 1 := hlast ▸ hs ▸ blockSize_le _
  rw [backBlock, blockSize_min (by omega), ← hs, if_neg (by omega), List.append_nil] at hread
  rw [← hs]
  rw [hlast] at hread hs ⊢
  have hlen : ((readingOrder T true n).take s).length = s := by
    rw [List.length_take, length_readingOrder (by omega)]
    omega
  have hturn := findLoop_turn hm hsmall h hread (List.ne_nil_of_length_pos (by omega)) (by omega)
  cases hfind : ((readingOrder T true n).take s).findIdx? m with
  | some i =>
    rw [hfind] at hturn
    obtain ⟨t', hends, hstands⟩ := hturn
    exact ⟨1, true, t', hends 0, rfl, hstands⟩
  | none =>
    rw [hfind] at hturn
    obtain ⟨t', hgoes, hstands, hframe⟩ := hturn
    have hback : count T - s = n - (s - 1) := by omega
    rw [hlen, hback] at hstands
    -- the last row of a block is read again by the next one
    have hfew : ((readingOrder T true n).take (s - 1)).findIdx? m = none := by
      rw [List.findIdx?_eq_none_iff] at hfind ⊢
      exact fun k hk => hfind k (List.take_subset_take_left _ (Nat.sub_le s 1) hk)
    have hvis' : ReadsVisible t' T m (n - (s - 1)) := by
      intro b hb hrest
      have hnext : nextBlock T (count T) = n - (s - 1) := by
        rw [nextBlock, min_eq_right (Nat.sub_le _ _), hlast, ← hs]
        exact hback
      rw [hframe]
      refine hvis b (.behind (hnext ▸ hb)) ?_
      rw [readingOrder_end hpos, min_eq_right (Nat.sub_le _ _), hlast]
      rw [show min (n - (s - 1)) (count T - 1) = n - (s - 1) by omega] at hrest
      exact no_match_behind (by omega) hb.le hfew hrest
    obtain ⟨fuel, found, t'', hloop, hR, hend⟩ := findLoop_backward hm hsmall hstands (by omega) hvis'
    refine ⟨fuel + 1, found, t'', ?_, hR, ?_⟩
    · rw [hgoes, if_neg (by omega), hloop]
    · rw [findIdx?_behind (by omega) (by omega) hfew]
      cases hrest : (readingOrder T true (n - (s - 1))).findIdx? m with
      | none =>
        rw [hrest] at hend
        exact hend
      | some i =>
        rw [hrest] at hend
        refine ⟨hend.1, ?_⟩
        show StandsAt t'' T (n - (i + (s - 1)))
        rw [Nat.add_comm i, ← Nat.sub_sub]
        exact hend.2

/-! ## The result of a search -/

variable {bDirBackward : Bool}

theorem findLoop_mono {fuel fuel' : ℕ} (hle : fuel ≤ fuel')
    {res : Except ECRESULT Bool × ECKeyTable} (h : findLoop data lpsRestrict bDirBackward fuel t = some res) :
    findLoop data lpsRestrict bDirBackward fuel' t = some res := by
  induction fuel generalizing t fuel' with
  | zero => cases h
  | succ fuel ih =>
    obtain ⟨fuel', rfl⟩ := Nat.exists_eq_succ_of_ne_zero (Nat.ne_of_gt (Nat.zero_lt_of_lt hle))
    have hle' := Nat.le_of_succ_le_succ hle
    rw [findLoop] at h ⊢
    obtain ⟨⟨keys, t₁⟩, hread, h⟩ := Option.bind_eq_some_iff.mp h
    rw [hread]
    simp only [Option.bind_eq_bind, Option.bind_some] at h ⊢
    by_cases hnil : keys.isEmpty
    · rwa [if_pos hnil] at h ⊢
    · rw [if_neg hnil] at h ⊢
      rcases hmatch : matchBlock data lpsRestrict keys with er | found
      · rwa [hmatch] at h
      · rw [hmatch] at h
        cases found with
        | some i => exact h
        | none =>
          simp only at h ⊢
          obtain ⟨⟨er, ulSeeked, t₂⟩, hseek, h⟩ := Option.bind_eq_some_iff.mp h
          rw [hseek]
          simp only [Option.bind_some] at h ⊢
          by_cases hzero : ulSeeked = some 0
          · rwa [if_pos hzero] at h ⊢
          · rw [if_neg hzero] at h ⊢
            exact ih hle' h

/-- `FindRow` returns and does what it is for. -/
def FindsRow (data : FindData R) (lpsRestrict : FindRestriction R) (m : SObjectTableKey → Bool) (t : ECKeyTable)
    (T : AvlTree RowAt) (ulBookmark : ℕ) (bDirBackward : Bool) (n : ℕ) : Prop :=
  ∃ fuel res, findRow data lpsRestrict fuel t ulBookmark bDirBackward = some res ∧
    FindsFirst .erSuccess .ZARAFA_E_NOT_FOUND (readingOrder T bDirBackward n) m res

/-- The row that is looked up at once. -/
def lookedUp (data : FindData R) (lpsRestrict : FindRestriction R) (ulBookmark : ℕ) :
    Option (Except ECRESULT SObjectTableKey) :=
  if ulBookmark = BOOKMARK_BEGINNING then namedRow data lpsRestrict else none

variable {ulBookmark : ℕ}

/-- `FindRow` behind the seek at its start. -/
theorem findRow_start (hR : Represents t T) (hsmall : count T < 2 ^ 31) (bDirBackward : Bool)
    (hn : StartsAt t T ulBookmark n) :
    ∃ t₁ ulRow, StandsAt t₁ T (startRow ulBookmark bDirBackward n) ∧ t₁ = { t with lpCurrent := t₁.lpCurrent } ∧
      ∀ fuel, findRow data lpsRestrict fuel t ulBookmark bDirBackward =
        match lookedUp data lpsRestrict ulBookmark with
        | some (.error er) => some (er, t₁)
        | some (.ok sRowItem) => some (t₁.seekId sRowItem)
        | none => (findLoop data lpsRestrict bDirBackward fuel t₁).bind fun res =>
          match res with
          | (.error er, t) => some (er, t)
          | (.ok true, t) => some (.erSuccess, t)
          | (.ok false, t) => (t.seekRow EC_SEEK_SET ulRow).bind fun res => some (.ZARAFA_E_NOT_FOUND, res.2.2) := by
  obtain ⟨c, hc⟩ := hR.cursor.rowNumber
  obtain ⟨sought, t₁, hseek, hstands, hframe⟩ := seekRow_start hR hsmall bDirBackward hn
  refine ⟨t₁, c, hstands, hframe, fun fuel => ?_⟩
  rw [findRow, ECKeyTable.getRowCount, currentRow_spec hR.holds hc, rowCount_spec hR.holds.has]
  simp only [Option.bind_eq_bind, Option.bind_some, hseek, ne_eq, not_true_eq_false, if_false, lookedUp]

/-- A search that is not looked up at once, from the end of its loop. -/
theorem findsRow_iff (bDirBackward : Bool) (hR : Represents t T) (hsmall : count T < 2 ^ 31)
    (hn : StartsAt t T ulBookmark n) (hsearch : lookedUp data lpsRestrict ulBookmark = none)
    {P : Bool → ECKeyTable → Prop}
    (hloop : ∀ t₁, StandsAt t₁ T (startRow ulBookmark bDirBackward n) → t₁ = { t with lpCurrent := t₁.lpCurrent } →
      ∃ fuel found t', findLoop data lpsRestrict bDirBackward fuel t₁ = some (.ok found, t') ∧ Represents t' T ∧
        P found t') :
    ∃ found t', P found t' ∧ (FindsRow data lpsRestrict m t T ulBookmark bDirBackward n ↔
      FindsFirst .erSuccess .ZARAFA_E_NOT_FOUND (readingOrder T bDirBackward n) m (result found, t')) := by
  obtain ⟨t₁, ulRow, hstands, hframe, hrow⟩ := findRow_start hR hsmall
    bDirBackward hn
  obtain ⟨fuel, found, t', hfound, hR', hP⟩ := hloop t₁ hstands hframe
  refine ⟨found, t', hP, ?_⟩
  rw [hsearch] at hrow
  obtain ⟨er, sought, pos, hseek, -⟩ := seekRow_valid hR' EC_SEEK_SET ulRow
  -- the code and, when the row is found, the table do not depend on the number of turns
  have hres : ∃ t'', (found = true → t'' = t') ∧ findRow data lpsRestrict fuel t ulBookmark bDirBackward =
      some (result found, t'') := by
    cases found with
    | true => exact ⟨t', fun _ => rfl, by simp [hrow, hfound, result]⟩
    | false => exact ⟨{ t' with lpCurrent := pos }, by simp, by simp [hrow, hfound, hseek, result]⟩
  obtain ⟨t'', hsame, hres⟩ := hres
  have hunique (fuel' : ℕ) (res : ECRESULT × ECKeyTable)
      (h : findRow data lpsRestrict fuel' t ulBookmark bDirBackward = some res) : res = (result found, t'') := by
    have hfuel := h
    rw [hrow] at h
    obtain ⟨x, hx, -⟩ := Option.bind_eq_some_iff.mp h
    have heq : findLoop data lpsRestrict bDirBackward fuel' t₁ = findLoop data lpsRestrict bDirBackward fuel t₁ := by
      rcases le_total fuel fuel' with hle | hle
      · rw [findLoop_mono hle hfound, hfound]
      · rw [hx, findLoop_mono hle hx]
    rw [hrow, heq, ← hrow, hres] at hfuel
    exact (Option.some.inj hfuel).symm
  have hfirst : FindsFirst .erSuccess .ZARAFA_E_NOT_FOUND (readingOrder T bDirBackward n) m (result found, t'') ↔
      FindsFirst .erSuccess .ZARAFA_E_NOT_FOUND (readingOrder T bDirBackward n) m (result found, t') := by
    cases found with
    | true => rw [hsame rfl]
    | false =>
      cases hfind : (readingOrder T bDirBackward n).findIdx? m with
      | none => rw [findsFirst_iff_of_none hfind, findsFirst_iff_of_none hfind]
      | some i =>
        rw [findsFirst_iff_of_some hfind, findsFirst_iff_of_some hfind]
        exact iff_of_false (fun ⟨_, _, h, _⟩ => by cases h) fun ⟨_, _, h, _⟩ => by cases h
  constructor
  · rintro ⟨fuel', res, h, hright⟩
    rw [hunique fuel' res h] at hright
    exact hfirst.mp hright
  · exact fun hright => ⟨fuel, _, hres, hfirst.mpr hright⟩

/-- Forward, the search finds the first row that matches. -/
theorem findsRow_forward (hm : ∀ k, data.matchRow lpsRestrict k = .ok (m k)) (hR : Represents t T)
    (hsmall : count T < 2 ^ 31) (hn : StartsAt t T ulBookmark n)
    (hsearch : lookedUp data lpsRestrict ulBookmark = none) : FindsRow data lpsRestrict m t T ulBookmark false n := by
  have hstart : startRow ulBookmark false n = n := if_neg fun h => Bool.false_ne_true h.2
  obtain ⟨found, t', hP, hiff⟩ := findsRow_iff (m := m) false (P := fun found t' =>
    match (readingOrder T false n).findIdx? m with
    | some i => found = true ∧ StandsAt t' T (n + i)
    | none => found = false) hR hsmall hn hsearch fun t₁ hstands _ => findLoop_forward hm hsmall (hstart ▸ hstands)
  rw [hiff]
  cases hfind : (readingOrder T false n).findIdx? m with
  | none =>
    simp only [hfind] at hP
    rw [findsFirst_iff_of_none hfind, hP]
    rfl
  | some i =>
    simp only [hfind] at hP
    obtain ⟨rfl, hstands⟩ := hP
    have hi := (List.findIdx?_eq_some_iff_findIdx_eq.mp hfind).1
    rw [findsFirst_iff_of_some hfind]
    exact ⟨_, List.getElem?_eq_getElem hi, rfl, hstands.readsNext_forward.mpr (List.getElem?_eq_getElem hi)⟩

/-- When a backward search from a row number is right: from past the last row, its first block has no match; and a
search that finds no row does not take the sentinel for one. -/
def SearchesBack (T : AvlTree RowAt) (m : SObjectTableKey → Bool) (n : ℕ) : Prop :=
  (n = count T → ∀ k ∈ (readingOrder T true n).take (blockSize T (count T - 1) 20), m k = false) ∧
    ((∃ k ∈ readingOrder T true n, m k = true) ∨ m .zero = false ∨ ¬ ReadsSentinel T)

/-- In a table without visible rows there is nothing to read. -/
private theorem findLoop_empty (h : StandsAt t T 0) (hempty : count T = 0) :
    findLoop data lpsRestrict bDirBackward 1 t = some (.ok false, t) := by
  have hcur : t.lpCurrent = some t.lpRoot := by
    have hland := h.landed
    rwa [Landed, if_pos hempty] at hland
  have hcount := rowCount_spec h.represents.holds.has
  rw [hempty] at hcount
  have hread : t.queryRows 20 bDirBackward true false = some ([], t) := by
    simp [ECKeyTable.queryRows, ECKeyTable.queryRowsStart, hcount, hcur, ECKeyTable.queryRowsLoop, setCursor_self hcur]
  simp [findLoop, hread]

private theorem result_eq_notFound (b : Bool) (P : Prop) [Decidable P] :
    result (b && decide P) = .ZARAFA_E_NOT_FOUND ↔ b = false ∨ ¬ P := by
  by_cases hP : P
  · cases b <;> simp [result, hP]
  · simp [result, hP]

/-- How a backward search from a row number ends. -/
private theorem findsFirst_backward (hn : n < count T) (hend : EndsBackward T m n found t') :
    FindsFirst .erSuccess .ZARAFA_E_NOT_FOUND (readingOrder T true n) m (result found, t') ↔
      (∃ k ∈ readingOrder T true n, m k = true) ∨ m .zero = false ∨ ¬ ReadsSentinel T := by
  obtain ⟨-, hend⟩ := hend
  cases hfind : (readingOrder T true n).findIdx? m with
  | none =>
    rw [hfind] at hend
    have hnone : ¬ ∃ k ∈ readingOrder T true n, m k = true := by
      rintro ⟨k, hk, hmk⟩
      rw [List.findIdx?_eq_none_iff.mp hfind k hk] at hmk
      cases hmk
    rw [findsFirst_iff_of_none hfind, hend, result_eq_notFound, or_iff_right hnone]
  | some i =>
    rw [hfind] at hend
    obtain ⟨rfl, hstands⟩ := hend
    have hi := (List.findIdx?_eq_some_iff_findIdx_eq.mp hfind).1
    have hmatch := (List.findIdx?_eq_some_iff_getElem.mp hfind).2.1
    have hle : i ≤ n := by
      rw [length_readingOrder hn] at hi
      omega
    rw [findsFirst_iff_of_some hfind]
    refine iff_of_true ⟨_, List.getElem?_eq_getElem hi, rfl, ?_⟩ (.inl ⟨_, List.getElem_mem hi, hmatch⟩)
    exact (hstands.readsNext_backward hn hle).mpr (List.getElem?_eq_getElem hi)

/-- What a search from past the last row ends with. -/
def EndsAtEnd (T : AvlTree RowAt) (m : SObjectTableKey → Bool) (found : Bool) (t' : ECKeyTable) : Prop :=
  match ((readingOrder T true (count T)).take (blockSize T (count T - 1) 20)).findIdx? m with
  | some i => found = true ∧ StandsAt t' T (count T - i)
  | none => EndsBackward T m (count T - 1) found t'

theorem EndsAtEnd.represents (h : EndsAtEnd T m found t') : Represents t' T := by
  rw [EndsAtEnd] at h
  split at h
  · exact h.2.represents
  · exact h.1

/-- How a search from past the last row ends: on a match in its first block, the cursor is one row too far. -/
private theorem findsFirst_backward_end (hR : Represents t T) (hpos : 0 < count T) (hend : EndsAtEnd T m found t') :
    FindsFirst .erSuccess .ZARAFA_E_NOT_FOUND (readingOrder T true (count T)) m (result found, t') ↔
      (count T = count T → ∀ k ∈ (readingOrder T true (count T)).take (blockSize T (count T - 1) 20), m k = false) ∧
        ((∃ k ∈ readingOrder T true (count T), m k = true) ∨ m .zero = false ∨ ¬ ReadsSentinel T) := by
  rw [EndsAtEnd] at hend
  cases hfind : ((readingOrder T true (count T)).take (blockSize T (count T - 1) 20)).findIdx? m with
  | none =>
    rw [hfind] at hend
    have hnone (_ : count T = count T) := List.findIdx?_eq_none_iff.mp hfind
    rw [and_iff_right hnone, readingOrder_end hpos]
    exact findsFirst_backward (by omega) hend
  | some i =>
    rw [hfind] at hend
    obtain ⟨rfl, hstands⟩ := hend
    obtain ⟨hi, hmatch, -⟩ := List.findIdx?_eq_some_iff_getElem.mp hfind
    refine iff_of_false (fun hfirst => ?_) fun h => ?_
    · have hsplit := findIdx?_split m (readingOrder T true (count T)) (s := blockSize T (count T - 1) 20) (by
        rw [readingOrder_end hpos, length_readingOrder (by omega)]
        exact blockSize_le _)
      rw [hfind, Option.some_or] at hsplit
      obtain ⟨k, hk, -, hreads⟩ := (findsFirst_iff_of_some hsplit _).mp hfirst
      rw [readsNext_iff hstands.represents hstands.rowNumber] at hreads
      -- the row that matches is the one in front of it
      have hlt : i < count T := by
        have := hi.trans_le (List.length_take_le _ _)
        have := blockSize_le (T := T) (count T - 1)
        omega
      have hrow : (readingOrder T true (count T))[i]? = (visibleKeys T)[count T - 1 - i]? := by
        rw [readingOrder_end hpos]
        show ((visibleKeys T).take (count T - 1 + 1)).reverse[i]? = _
        have hlen := length_visibleKeys T
        rw [List.take_of_length_le (by omega), List.getElem?_reverse (by omega), hlen]
      have hindex := (List.getElem?_inj (by rw [length_visibleKeys]; omega) (nodup_visibleKeys hR)).mp
        (hrow.symm.trans (hk.trans hreads.symm))
      omega
    · rw [h.1 rfl _ (List.getElem_mem hi)] at hmatch
      cases hmatch

/-- Backward, with blocks that start with visible rows. -/
theorem findsRow_backward_iff (hm : ∀ k, data.matchRow lpsRestrict k = .ok (m k)) (hR : Represents t T)
    (hsmall : count T < 2 ^ 31) (hn : StartsAt t T ulBookmark n)
    (hsearch : lookedUp data lpsRestrict ulBookmark = none) (hvis : ReadsVisible t T m (startRow ulBookmark true n)) :
    FindsRow data lpsRestrict m t T ulBookmark true n ↔ SearchesBack T m (startRow ulBookmark true n) := by
  have hframe {t₁ : ECKeyTable} (ht₁ : t₁ = { t with lpCurrent := t₁.lpCurrent }) :
      ReadsVisible t₁ T m (startRow ulBookmark true n) := by
    rw [ht₁]
    exact hvis
  have horder := readingOrder_startRow hn
  have hle : startRow ulBookmark true n ≤ count T := by
    obtain ⟨_, t₁, _, hstands, _⟩ := seekRow_start hR hsmall true hn
    exact hstands.le
  generalize hs : startRow ulBookmark true n = s at *
  rcases Nat.eq_zero_or_pos (count T) with hempty | hpos
  · -- no visible row
    obtain rfl : s = 0 := by omega
    obtain ⟨found, t', rfl, hiff⟩ := findsRow_iff (m := m) true (P := fun found _ => found = false) hR
      hsmall hn hsearch fun t₁ hstands _ => ⟨1, false, t₁, findLoop_empty (hs ▸ hstands) hempty, hstands.represents, rfl⟩
    have hnil : readingOrder T true 0 = [] := by
      have hlen := length_visibleKeys T
      rw [hempty, List.length_eq_zero_iff] at hlen
      show ((visibleKeys T).take 1).reverse = []
      rw [hlen]
      rfl
    rw [hiff, horder, findsFirst_iff_of_none (by rw [hnil]; rfl), SearchesBack, hnil]
    refine iff_of_true rfl ⟨by simp, .inr (.inr fun h => ?_)⟩
    have := h.2
    omega
  · rcases Nat.lt_or_ge s (count T) with hlt | hge
    · obtain ⟨found, t', hend, hiff⟩ := findsRow_iff (m := m) true (P := EndsBackward T m s) hR hsmall hn
        hsearch fun t₁ hstands ht₁ => by
          obtain ⟨fuel, found, t', hloop, hend⟩ := findLoop_backward hm hsmall (hs ▸ hstands) hlt (hframe ht₁)
          exact ⟨fuel, found, t', hloop, hend.1, hend⟩
      rw [hiff, horder, findsFirst_backward hlt hend, SearchesBack]
      exact (and_iff_right fun h => absurd h (by omega)).symm
    · obtain rfl : s = count T := by omega
      obtain ⟨found, t', hend, hiff⟩ := findsRow_iff (m := m) true (P := EndsAtEnd T m) hR hsmall hn
        hsearch fun t₁ hstands ht₁ => by
          obtain ⟨fuel, found, t', hloop, hend⟩ := findLoop_backward_end hm hsmall (hs ▸ hstands) hpos (hframe ht₁)
          exact ⟨fuel, found, t', hloop, EndsAtEnd.represents hend, hend⟩
      rw [hiff, horder, findsFirst_backward_end hR hpos hend, SearchesBack]

/-- Backward, in any table. -/
theorem findsRow_iff_blocksRight (hm : ∀ k, data.matchRow lpsRestrict k = .ok (m k)) (hR : Represents t T)
    (hsmall : count T < 2 ^ 31) (hn : StartsAt t T ulBookmark n)
    (hsearch : lookedUp data lpsRestrict ulBookmark = none) :
    FindsRow data lpsRestrict m t T ulBookmark true n ↔ BlocksRight t T m (startRow ulBookmark true n) := by
  obtain ⟨found, t', hend, hiff⟩ := findsRow_iff (m := m) true
    (P := fun found t' => EndsBlocks t T m (startRow ulBookmark true n) t' found) hR hsmall hn hsearch
    fun t₁ hstands hframe => findLoop_blocks hm hsmall hstands hframe
  rw [hiff, readingOrder_startRow hn]
  exact findsFirst_blocks_iff hend

/-! ## Looking up a row -/

/-- A row that is looked up is the first one that matches, or there is none and the object of the entry is not found. -/
def NamesFirst (T : AvlTree RowAt) (order : List SObjectTableKey) (m : SObjectTableKey → Bool) :
    Except ECRESULT SObjectTableKey → Prop
  | .ok k => LooksAhead T order m k
  | .error er => er = .ZARAFA_E_NOT_FOUND ∧ order.find? m = none

/-- A row that is looked up. -/
theorem findsRow_lookedUp_iff (hR : Represents t T) (hsmall : count T < 2 ^ 31)
    (hn : StartsAt t T ulBookmark n) {row : Except ECRESULT SObjectTableKey}
    (hrow : lookedUp data lpsRestrict ulBookmark = some row) :
    FindsRow data lpsRestrict m t T ulBookmark bDirBackward n ↔ NamesFirst T (readingOrder T bDirBackward n) m row := by
  obtain ⟨t₁, ulRow, hstands, -, hfind⟩ := findRow_start hR hsmall bDirBackward hn
  have hone {res : ECRESULT × ECKeyTable} (h : ∀ fuel, findRow data lpsRestrict fuel t ulBookmark bDirBackward = some res) :
      FindsRow data lpsRestrict m t T ulBookmark bDirBackward n ↔
        FindsFirst .erSuccess .ZARAFA_E_NOT_FOUND (readingOrder T bDirBackward n) m res := by
    constructor
    · rintro ⟨fuel, res', hres', hright⟩
      obtain rfl : res = res' := Option.some.inj ((h fuel).symm.trans hres')
      exact hright
    · exact fun hright => ⟨0, res, h 0, hright⟩
  have hne (er : ECRESULT) (her : row = .error er) : er ≠ .erSuccess := by
    rw [lookedUp] at hrow
    split_ifs at hrow
    exact error_ne_of_namedRow (hrow.trans (congrArg some her))
  rw [hrow] at hfind
  cases row with
  | error er =>
    rw [hone hfind, NamesFirst, FindsFirst]
    cases hfirst : (readingOrder T bDirBackward n).find? m with
    | none => exact (and_iff_left rfl).symm
    | some k => exact iff_of_false (fun h => hne er rfl h.1) fun h => by cases h.2
  | ok k =>
    rw [hone hfind]
    exact findsFirst_seekId_iff (f := id) (by decide) hstands.represents

/-! ## All searches -/

/-- A row that is looked up is the first one that matches, and a backward search is right. -/
def LooksRight (data : FindData R) (lpsRestrict : FindRestriction R) (m : SObjectTableKey → Bool) (t : ECKeyTable)
    (T : AvlTree RowAt) (ulBookmark : ℕ) (bDirBackward : Bool) (n : ℕ) : Prop :=
  match lookedUp data lpsRestrict ulBookmark with
  | some row => NamesFirst T (readingOrder T bDirBackward n) m row
  | none => bDirBackward = true → BlocksRight t T m (startRow ulBookmark true n)

theorem findsRow_iff_looksRight (hm : ∀ k, data.matchRow lpsRestrict k = .ok (m k)) (hR : Represents t T)
    (hsmall : count T < 2 ^ 31) (hn : StartsAt t T ulBookmark n) :
    FindsRow data lpsRestrict m t T ulBookmark bDirBackward n ↔
      LooksRight data lpsRestrict m t T ulBookmark bDirBackward n := by
  rw [LooksRight]
  cases hrow : lookedUp data lpsRestrict ulBookmark with
  | some row => exact findsRow_lookedUp_iff hR hsmall hn hrow
  | none =>
    cases bDirBackward with
    | false => exact iff_of_true (findsRow_forward hm hR hsmall hn hrow) fun h => absurd h Bool.false_ne_true
    | true =>
      rw [findsRow_iff_blocksRight hm hR hsmall hn hrow]
      exact ⟨fun h _ => h, fun h => h rfl⟩

/-- Where the blocks start with visible rows. -/
theorem blocksRight_iff_searchesBack (hm : ∀ k, data.matchRow lpsRestrict k = .ok (m k)) (hR : Represents t T)
    (hsmall : count T < 2 ^ 31) (hn : StartsAt t T ulBookmark n)
    (hsearch : lookedUp data lpsRestrict ulBookmark = none) (hvis : ReadsVisible t T m (startRow ulBookmark true n)) :
    BlocksRight t T m (startRow ulBookmark true n) ↔ SearchesBack T m (startRow ulBookmark true n) :=
  (findsRow_iff_blocksRight hm hR hsmall hn hsearch).symm.trans (findsRow_backward_iff hm hR hsmall hn hsearch hvis)

end Search

end Zcp.Libserver.ECGenericObjectTable
