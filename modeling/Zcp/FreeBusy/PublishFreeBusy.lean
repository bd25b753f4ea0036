import Mathlib.Algebra.Group.Int.Defs
import Mathlib.Algebra.Group.Nat.Defs
import Mathlib.Data.Finset.Card
import Mathlib.Data.List.Sort
import Zcp.Lib.OrderedMap

/-!
# Merging free/busy blocks

`PublishFreeBusy::HrMergeBlocks` of `libfreebusy/PublishFreeBusy.cpp` sweeps over the starts and ends
of the blocks in the order of time. They are kept in a map from instants to events, so of the events
at one instant only the last one stays. Where no two blocks have a common end point, the merged blocks
show at every instant the highest status of the blocks that contain it (`mergedBlocks_of_apart`), and there
are as many as end points at which a status is shown (`length_merged`).
-/

namespace Zcp.FreeBusy

open Zcp.Lib

/-! ## The sweep -/

/-- `FBBlock_1`. -/
structure FBBlock_1 where
  m_tmStart : ℤ
  m_tmEnd : ℤ
  m_fbstatus : ℕ
deriving DecidableEq, Repr

/-- `START_TIME` and `END_TIME`. -/
inductive TsType where
  | START_TIME
  | END_TIME
deriving DecidableEq, Repr

/-- `TSARRAY`. -/
structure TSARRAY where
  ulType : TsType
  tsTime : ℤ
  ulStatus : ℕ
deriving DecidableEq, Repr

def FBBlock_1.startItem (b : FBBlock_1) : TSARRAY := ⟨.START_TIME, b.m_tmStart, b.m_fbstatus⟩

def FBBlock_1.endItem (b : FBBlock_1) : TSARRAY := ⟨.END_TIME, b.m_tmEnd, b.m_fbstatus⟩

/-- `mpTimestamps[sTsitem.tsTime] = sTsitem`. -/
def setTimestamp (mpTimestamps : List TSARRAY) (sTsitem : TSARRAY) : List TSARRAY :=
  OrderedMap.set TSARRAY.tsTime sTsitem mpTimestamps

/-- `mpTimestamps` after the first loop. -/
def timestamps (lpFbBlocks : List FBBlock_1) : List TSARRAY :=
  lpFbBlocks.foldl (fun mp b => setTimestamp (setTimestamp mp b.startItem) b.endItem) []

/-- The variables of the second loop. -/
structure MergeState where
  ulLevel : ℕ
  vctStatus : List ℕ
  tsLastTime : ℤ
  vcFBblocks : List FBBlock_1

/-- Sort the statuses, and add a block from the last instant to this one unless it is free. -/
def MergeState.addBlock (st : MergeState) (tsTime : ℤ) : MergeState :=
  let vctStatus := st.vctStatus.insertionSort (· ≤ ·)
  let fbBlockTemp : FBBlock_1 := ⟨st.tsLastTime, tsTime, vctStatus.getLast?.getD 0⟩
  { st with
    vctStatus := vctStatus
    vcFBblocks :=
      if fbBlockTemp.m_fbstatus ≠ 0 then st.vcFBblocks ++ [fbBlockTemp] else st.vcFBblocks }

/-- The body of the second loop. -/
def MergeState.step (st : MergeState) (sTsitem : TSARRAY) : MergeState :=
  match sTsitem.ulType with
  | .START_TIME =>
    let st := if st.ulLevel ≠ 0 ∧ st.tsLastTime ≠ sTsitem.tsTime then st.addBlock sTsitem.tsTime
      else st
    { st with
      ulLevel := (st.ulLevel + 1) % 2 ^ 32
      vctStatus := st.vctStatus ++ [sTsitem.ulStatus]
      tsLastTime := sTsitem.tsTime }
  | .END_TIME =>
    let st := if st.tsLastTime ≠ sTsitem.tsTime then st.addBlock sTsitem.tsTime else st
    { st with
      ulLevel := (st.ulLevel + (2 ^ 32 - 1)) % 2 ^ 32
      vctStatus := st.vctStatus.erase sTsitem.ulStatus
      tsLastTime := sTsitem.tsTime }

/-- `vcFBblocks` after the second loop. -/
def mergedBlocks (lpFbBlocks : List FBBlock_1) : List FBBlock_1 :=
  ((timestamps lpFbBlocks).foldl MergeState.step ⟨0, [], 0, []⟩).vcFBblocks

/-- `sizeof(FBBlock_1)`. -/
def FBBlock_1.sizeof : ℕ := 12

/-- `PublishFreeBusy::HrMergeBlocks`. The memory for the output is asked for with a `ULONG`; `none` when blocks are
stored outside of it. -/
def hrMergeBlocks (lpFbBlocks : List FBBlock_1) : Option (List FBBlock_1) :=
  let vcFBblocks := mergedBlocks lpFbBlocks
  if FBBlock_1.sizeof * vcFBblocks.length ≤ FBBlock_1.sizeof * vcFBblocks.length % 2 ^ 32 then some vcFBblocks
  else none

/-! ## What the merged blocks should be -/

/-- A block `[start, end)` contains an instant. -/
def FBBlock_1.Contains (b : FBBlock_1) (t : ℤ) : Prop := b.m_tmStart ≤ t ∧ t < b.m_tmEnd

instance (b : FBBlock_1) (t : ℤ) : Decidable (b.Contains t) :=
  inferInstanceAs (Decidable (_ ∧ _))

/-- The highest status of the blocks that contain an instant, free when there is none. -/
def highestStatus (blocks : List FBBlock_1) (t : ℤ) : ℕ :=
  ((blocks.filter (·.Contains t)).map FBBlock_1.m_fbstatus).foldr max 0

/-- The status of the block that contains an instant, free when there is none. -/
def statusAt (blocks : List FBBlock_1) (t : ℤ) : ℕ :=
  ((blocks.find? (·.Contains t)).map FBBlock_1.m_fbstatus).getD 0

/-- The blocks `out` are what merging `blocks` should give. -/
structure Merged (blocks out : List FBBlock_1) : Prop where
  nonempty : ∀ b ∈ out, b.m_tmStart < b.m_tmEnd
  sorted : out.Pairwise fun a b => a.m_tmEnd ≤ b.m_tmStart
  status : ∀ t, statusAt out t = highestStatus blocks t

def FBBlock_1.times (b : FBBlock_1) : ℤ × ℤ := (b.m_tmStart, b.m_tmEnd)

/-- No instant is an end point of two blocks, but the last one may be the end of several. -/
def ApartEnds (times : List (ℤ × ℤ)) : Prop :=
  times.Pairwise fun a b =>
    a.1 ≠ b.1 ∧ a.1 ≠ b.2 ∧ b.1 ≠ a.2 ∧ (a.2 = b.2 → ∀ c ∈ times, c.2 ≤ a.2)

/-! ## The highest status -/

variable {l : List ℕ}

theorem foldr_max_le {m : ℕ} : l.foldr max 0 ≤ m ↔ ∀ x ∈ l, x ≤ m := by
  induction l with
  | nil => simp
  | cons a l ih => rw [List.foldr_cons, max_le_iff, ih, List.forall_mem_cons]

/-- The maximum depends only on which values occur. -/
theorem foldr_max_congr {m : List ℕ} (h : ∀ x, x ∈ l ↔ x ∈ m) : l.foldr max 0 = m.foldr max 0 := by
  apply le_antisymm
  · exact foldr_max_le.mpr fun x hx => foldr_max_le.mp le_rfl x ((h x).mp hx)
  · exact foldr_max_le.mpr fun x hx => foldr_max_le.mp le_rfl x ((h x).mpr hx)

/-- The last value of a sorted list is the maximum. -/
theorem getLast_insertionSort (l : List ℕ) : (l.insertionSort (· ≤ ·)).getLast?.getD 0 = l.foldr max 0 := by
  have hmem : ∀ x, x ∈ l ↔ x ∈ l.insertionSort (· ≤ ·) := fun x => (List.mem_insertionSort _).symm
  rw [foldr_max_congr hmem]
  have hsorted := List.pairwise_insertionSort (· ≤ ·) l
  rcases (l.insertionSort (· ≤ ·)).eq_nil_or_concat' with h | ⟨xs, x, h⟩
  · rw [h]
    rfl
  · rw [h] at hsorted ⊢
    rw [List.getLast?_concat, Option.getD_some]
    apply le_antisymm
    · exact foldr_max_le.mp le_rfl x (by simp)
    · refine foldr_max_le.mpr fun y hy => ?_
      rcases List.mem_append.mp hy with hy | hy
      · exact (List.pairwise_append.mp hsorted).2.2 y hy x (by simp)
      · exact (List.mem_singleton.mp hy).le

variable {b : FBBlock_1} {t : ℤ} {x : TSARRAY}

section Sweep

variable {blocks : List FBBlock_1}

/-- The blocks that contain an instant, each once. -/
def openBlocks (blocks : List FBBlock_1) (t : ℤ) : Finset FBBlock_1 :=
  blocks.toFinset.filter (·.Contains t)

theorem mem_openBlocks : b ∈ openBlocks blocks t ↔ b ∈ blocks ∧ b.Contains t := by
  rw [openBlocks, Finset.mem_filter, List.mem_toFinset]

theorem card_openBlocks_le (t : ℤ) : (openBlocks blocks t).card ≤ blocks.length :=
  (Finset.card_filter_le _ _).trans (List.toFinset_card_le _)

/-- The highest status, from the statuses of the blocks that contain the instant. -/
theorem highestStatus_eq (hl : (l : Multiset ℕ) = (openBlocks blocks t).val.map FBBlock_1.m_fbstatus) :
    highestStatus blocks t = l.foldr max 0 := by
  refine foldr_max_congr fun x => ?_
  have hx : x ∈ l ↔ x ∈ (openBlocks blocks t).val.map FBBlock_1.m_fbstatus := by
    rw [← hl, Multiset.mem_coe]
  rw [hx, Multiset.mem_map]
  simp only [List.mem_map, List.mem_filter, decide_eq_true_eq, Finset.mem_val, mem_openBlocks]

/-- No more statuses than blocks. -/
theorem length_le (hl : (l : Multiset ℕ) = (openBlocks blocks t).val.map FBBlock_1.m_fbstatus) :
    l.length ≤ blocks.length := by
  have hcard := congrArg Multiset.card hl
  rw [Multiset.coe_card, Multiset.card_map] at hcard
  exact hcard.le.trans (card_openBlocks_le t)

/-! ## The events -/

theorem timestamps_append (blocks : List FBBlock_1) (b : FBBlock_1) : timestamps (blocks ++ [b]) =
      setTimestamp (setTimestamp (timestamps blocks) b.startItem) b.endItem := by
  rw [timestamps, List.foldl_append]
  rfl

theorem sorted_timestamps (blocks : List FBBlock_1) : OrderedMap.Sorted TSARRAY.tsTime (timestamps blocks) := by
  induction blocks using List.reverseRecOn with
  | nil => exact List.Pairwise.nil
  | append_singleton blocks b ih =>
    rw [timestamps_append]
    exact (ih.set _).set _

/-- Every event is of a block. -/
theorem exists_of_mem_timestamps (hx : x ∈ timestamps blocks) : ∃ b ∈ blocks, x = b.startItem ∨ x = b.endItem := by
  induction blocks using List.reverseRecOn with
  | nil => cases hx
  | append_singleton blocks b ih =>
    have hs := sorted_timestamps blocks
    rw [timestamps_append, setTimestamp, setTimestamp, OrderedMap.mem_set (hs.set _),
      OrderedMap.mem_set hs] at hx
    rcases hx with rfl | ⟨rfl | ⟨hx, -⟩, -⟩
    · exact ⟨b, by simp, .inr rfl⟩
    · exact ⟨b, by simp, .inl rfl⟩
    · obtain ⟨a, ha, hxa⟩ := ih hx
      exact ⟨a, List.mem_append_left _ ha, hxa⟩

/-- Every end point is the instant of an event. -/
theorem exists_tsTime_eq (hb : b ∈ blocks) : (∃ x ∈ timestamps blocks, x.tsTime = b.m_tmStart) ∧
      ∃ x ∈ timestamps blocks, x.tsTime = b.m_tmEnd := by
  induction blocks using List.reverseRecOn with
  | nil => cases hb
  | append_singleton blocks c ih =>
    have hs := sorted_timestamps blocks
    -- an event that is replaced is replaced by one at the same instant
    have hkeep (t : ℤ) (ht : t = c.m_tmStart ∨ t = c.m_tmEnd ∨ ∃ x ∈ timestamps blocks, x.tsTime = t) :
        ∃ x ∈ timestamps (blocks ++ [c]), x.tsTime = t := by
      rw [timestamps_append, setTimestamp, setTimestamp]
      simp only [OrderedMap.mem_set (hs.set _), OrderedMap.mem_set hs]
      by_cases hend : t = c.m_tmEnd
      · exact ⟨c.endItem, .inl rfl, hend.symm⟩
      by_cases hstart : t = c.m_tmStart
      · exact ⟨c.startItem, .inr ⟨.inl rfl, fun h => hend (hstart.trans h)⟩, hstart.symm⟩
      obtain ⟨x, hx, rfl⟩ := (ht.resolve_left hstart).resolve_left hend
      exact ⟨x, .inr ⟨.inr ⟨hx, hstart⟩, hend⟩, rfl⟩
    rcases List.mem_append.mp hb with hb | hb
    · exact ⟨hkeep _ (.inr (.inr (ih hb).1)), hkeep _ (.inr (.inr (ih hb).2))⟩
    · rw [List.mem_singleton.mp hb]
      exact ⟨hkeep _ (.inl rfl), hkeep _ (.inr (.inl rfl))⟩

/-- Two blocks have no common end point, unless it is the last one of all. -/
def Apart (blocks : List FBBlock_1) (a b : FBBlock_1) : Prop :=
  a = b ∨ (a.m_tmStart ≠ b.m_tmStart ∧ a.m_tmStart ≠ b.m_tmEnd ∧ b.m_tmStart ≠ a.m_tmEnd ∧
    (a.m_tmEnd = b.m_tmEnd → ∀ c ∈ blocks, c.m_tmEnd ≤ a.m_tmEnd))

theorem ApartEnds.apart (h : ApartEnds (blocks.map FBBlock_1.times)) :
    ∀ a ∈ blocks, ∀ b ∈ blocks, Apart blocks a b := by
  rw [ApartEnds, List.pairwise_map] at h
  have hflat := h.imp (S := Apart blocks) (by
    rintro a b ⟨hss, hse, hes, hee⟩
    exact .inr ⟨hss, hse, hes, fun hab c hc => hee hab c.times (List.mem_map_of_mem hc)⟩)
  have hflip := hflat.imp (S := flip (Apart blocks)) (by
    rintro a b (rfl | ⟨hss, hse, hes, hee⟩)
    · exact .inl rfl
    · exact .inr ⟨hss.symm, hes, hse, fun hba c hc => hba ▸ hee hba.symm c hc⟩)
  intro a ha b hb
  exact hflat.forall_of_forall_of_flip (fun a _ => .inl rfl) hflip ha hb

/-! ## From one event to the next -/

/-- No event lies between two instants. -/
def NoEvent (blocks : List FBBlock_1) (t₁ t₂ : ℤ) : Prop :=
  ∀ x ∈ timestamps blocks, ¬ (t₁ < x.tsTime ∧ x.tsTime < t₂)

/-- No end point lies between two instants either. -/
theorem NoEvent.times {t₁ t₂ : ℤ} (hno : NoEvent blocks t₁ t₂) (hb : b ∈ blocks) :
    ¬ (t₁ < b.m_tmStart ∧ b.m_tmStart < t₂) ∧ ¬ (t₁ < b.m_tmEnd ∧ b.m_tmEnd < t₂) := by
  obtain ⟨⟨x, hx, hxs⟩, ⟨y, hy, hye⟩⟩ := exists_tsTime_eq hb
  exact ⟨hxs ▸ hno x hx, hye ▸ hno y hy⟩

/-- Between two events the same blocks are open. -/
theorem openBlocks_between {t₁ t₂ : ℤ} (hno : NoEvent blocks t₁ t₂) (h₁ : t₁ ≤ t) (h₂ : t < t₂) :
    openBlocks blocks t = openBlocks blocks t₁ := by
  ext b
  rw [mem_openBlocks, mem_openBlocks]
  refine and_congr_right fun hb => ?_
  obtain ⟨hstart, hend⟩ := hno.times hb
  rw [FBBlock_1.Contains, FBBlock_1.Contains]
  omega

/-- At a start one block opens. -/
theorem openBlocks_start {t₁ : ℤ} (hpos : b.m_tmStart < b.m_tmEnd)
    (hap : ∀ a ∈ blocks, Apart blocks a b) (hb : b ∈ blocks)
    (hno : NoEvent blocks t₁ b.m_tmStart) (hlt : t₁ < b.m_tmStart) : b ∉ openBlocks blocks t₁ ∧
      openBlocks blocks b.m_tmStart = insert b (openBlocks blocks t₁) := by
  constructor
  · rw [mem_openBlocks, FBBlock_1.Contains]
    omega
  · ext a
    rw [Finset.mem_insert, mem_openBlocks, mem_openBlocks, FBBlock_1.Contains, FBBlock_1.Contains]
    constructor
    · rintro ⟨ha, hs, he⟩
      rcases hap a ha with hab | ⟨hss, -, -, -⟩
      · exact .inl hab
      · have hstart := (hno.times ha).1
        exact .inr ⟨ha, by omega, by omega⟩
    · rintro (rfl | ⟨ha, hs, he⟩)
      · exact ⟨hb, le_rfl, hpos⟩
      · rcases hap a ha with rfl | ⟨-, -, hes, -⟩
        · omega
        · have hend := (hno.times ha).2
          exact ⟨ha, by omega, by omega⟩

/-- At an end that is not the last one of all, one block closes. -/
theorem openBlocks_end {t₁ : ℤ} (hpos : b.m_tmStart < b.m_tmEnd)
    (hap : ∀ a ∈ blocks, Apart blocks a b) (hb : b ∈ blocks)
    (hno : NoEvent blocks t₁ b.m_tmEnd) (hlt : t₁ < b.m_tmEnd) (hnext : ∃ c ∈ blocks, b.m_tmEnd < c.m_tmEnd) :
    b ∈ openBlocks blocks t₁ ∧ openBlocks blocks b.m_tmEnd = (openBlocks blocks t₁).erase b := by
  obtain ⟨c, hc, hbc⟩ := hnext
  constructor
  · have hstart := (hno.times hb).1
    rw [mem_openBlocks, FBBlock_1.Contains]
    exact ⟨hb, by omega, hlt⟩
  · ext a
    rw [Finset.mem_erase, mem_openBlocks, mem_openBlocks, FBBlock_1.Contains, FBBlock_1.Contains]
    constructor
    · rintro ⟨ha, hs, he⟩
      rcases hap a ha with rfl | ⟨-, hse, -, -⟩
      · omega
      · have hstart := (hno.times ha).1
        refine ⟨?_, ha, by omega, by omega⟩
        rintro rfl
        omega
    · rintro ⟨hab, ha, hs, he⟩
      obtain ⟨-, -, -, hee⟩ := (hap a ha).resolve_left hab
      have hne : a.m_tmEnd ≠ b.m_tmEnd := by
        intro h
        have hca := hee h c hc
        omega
      have hend := (hno.times ha).2
      exact ⟨ha, by omega, by omega⟩

end Sweep

/-! ## The invariant of the sweep -/

/-- The blocks in `out` reach from one end point to the next one, and show a status. -/
structure Sharp (blocks out : List FBBlock_1) : Prop where
  start : ∀ b ∈ out, ∃ x ∈ timestamps blocks, x.tsTime = b.m_tmStart
  inside : ∀ b ∈ out, NoEvent blocks b.m_tmStart b.m_tmEnd
  busy : ∀ b ∈ out, b.m_fbstatus ≠ 0

/-- The blocks found so far are right before an instant. -/
structure RightBefore (blocks out : List FBBlock_1) (t : ℤ) : Prop where
  sharp : Sharp blocks out
  nonempty : ∀ b ∈ out, b.m_tmStart < b.m_tmEnd
  ends : ∀ b ∈ out, b.m_tmEnd ≤ t
  sorted : out.Pairwise fun a b => a.m_tmEnd ≤ b.m_tmStart
  status : ∀ u < t, statusAt out u = highestStatus blocks u

/-- After the event at an instant, the vector holds the statuses of the open blocks. -/
structure SweptTo (blocks : List FBBlock_1) (t : ℤ) (st : MergeState) : Prop where
  last : st.tsLastTime = t
  level : st.ulLevel = st.vctStatus.length
  status : (st.vctStatus : Multiset ℕ) = (openBlocks blocks t).val.map FBBlock_1.m_fbstatus
  right : RightBefore blocks st.vcFBblocks t
  /-- Where a block is open, an event has been read. -/
  instant : st.vctStatus ≠ [] → ∃ x ∈ timestamps blocks, x.tsTime = t

variable {out : List FBBlock_1}

/-- Behind the last end there is no block. -/
theorem find_of_ends (hends : ∀ b ∈ out, b.m_tmEnd ≤ t) : out.find? (·.Contains t) = none := by
  rw [List.find?_eq_none]
  intro b hb hc
  have hc : b.Contains t := of_decide_eq_true hc
  have hbt := hends b hb
  rw [FBBlock_1.Contains] at hc
  omega

theorem statusAt_of_ends (hends : ∀ b ∈ out, b.m_tmEnd ≤ t) : statusAt out t = 0 := by
  rw [statusAt, find_of_ends hends]
  rfl

variable {v : ℕ}

theorem statusAt_concat_before {t₁ t₂ : ℤ} (h₁ : t < t₁) : statusAt (out ++ [⟨t₁, t₂, v⟩]) t = statusAt out t := by
  have hlast : [(⟨t₁, t₂, v⟩ : FBBlock_1)].find? (·.Contains t) = none := by
    simp [FBBlock_1.Contains, not_le.mpr h₁]
  rw [statusAt, List.find?_append, hlast, Option.or_none]
  rfl

theorem statusAt_concat_inside {t₁ t₂ : ℤ} (hends : ∀ b ∈ out, b.m_tmEnd ≤ t₁) (h₁ : t₁ ≤ t) (h₂ : t < t₂) :
    statusAt (out ++ [⟨t₁, t₂, v⟩]) t = v := by
  have hlast : [(⟨t₁, t₂, v⟩ : FBBlock_1)].find? (·.Contains t) = some ⟨t₁, t₂, v⟩ := by
    simp [FBBlock_1.Contains, h₁, h₂]
  rw [statusAt, List.find?_append, find_of_ends fun b hb => (hends b hb).trans h₁, hlast]
  rfl

variable {blocks : List FBBlock_1} {st : MergeState} {t₁ t₂ : ℤ}

/-- The vector tells the highest status up to the next event. -/
theorem SweptTo.highest (h : SweptTo blocks t₁ st) (hno : NoEvent blocks t₁ t₂) (h₁ : t₁ ≤ t)
    (h₂ : t < t₂) : highestStatus blocks t = st.vctStatus.foldr max 0 :=
  highestStatus_eq (by rw [h.status, openBlocks_between hno h₁ h₂])

/-- Without a block, the time to the next event is free. -/
theorem RightBefore.free (h : RightBefore blocks out t₁)
    (hlt : t₁ < t₂) (hfree : ∀ t, t₁ ≤ t → t < t₂ → highestStatus blocks t = 0) : RightBefore blocks out t₂ where
  sharp := h.sharp
  nonempty := h.nonempty
  ends b hb := (h.ends b hb).trans hlt.le
  sorted := h.sorted
  status t ht := by
    by_cases h₁ : t < t₁
    · exact h.status t h₁
    · rw [hfree t (not_lt.mp h₁) ht]
      exact statusAt_of_ends fun b hb => (h.ends b hb).trans (not_lt.mp h₁)

/-- With a block to the next event. -/
theorem RightBefore.append (h : RightBefore blocks out t₁)
    (hlt : t₁ < t₂) (hv : ∀ t, t₁ ≤ t → t < t₂ → highestStatus blocks t = v) (hno : NoEvent blocks t₁ t₂)
    (hinstant : ∃ x ∈ timestamps blocks, x.tsTime = t₁) (hbusy : v ≠ 0) :
    RightBefore blocks (out ++ [⟨t₁, t₂, v⟩]) t₂ where
  sharp :=
    ⟨List.forall_mem_append.mpr ⟨h.sharp.start, by simpa using hinstant⟩,
      List.forall_mem_append.mpr ⟨h.sharp.inside, by simpa using hno⟩,
      List.forall_mem_append.mpr ⟨h.sharp.busy, by simpa using hbusy⟩⟩
  nonempty := List.forall_mem_append.mpr ⟨h.nonempty, by simpa using hlt⟩
  ends := List.forall_mem_append.mpr ⟨fun b hb => (h.ends b hb).trans hlt.le, by simp⟩
  sorted := List.pairwise_append.mpr ⟨h.sorted, List.pairwise_singleton _ _, fun a ha b hb => by
    rw [List.mem_singleton.mp hb]
    exact h.ends a ha⟩
  status t ht := by
    by_cases h₁ : t < t₁
    · rw [statusAt_concat_before h₁]
      exact h.status t h₁
    · rw [statusAt_concat_inside h.ends (not_lt.mp h₁) ht, hv t (not_lt.mp h₁) ht]

/-- `addBlock` sorts the vector and makes the blocks right up to the next event. -/
theorem SweptTo.addBlock (h : SweptTo blocks t₁ st) (hno : NoEvent blocks t₁ t₂) (hlt : t₁ < t₂) :
    (st.addBlock t₂).ulLevel = st.ulLevel ∧ (st.addBlock t₂).vctStatus.Perm st.vctStatus ∧
      RightBefore blocks (st.addBlock t₂).vcFBblocks t₂ := by
  refine ⟨rfl, List.perm_insertionSort _ _, ?_⟩
  have hhigh (t : ℤ) (h₁ : t₁ ≤ t) (h₂ : t < t₂) := h.highest hno h₁ h₂
  rw [MergeState.addBlock, h.last]
  simp only [getLast_insertionSort]
  split_ifs with hz
  · refine h.right.append hlt hhigh hno (h.instant fun hnil => hz ?_) hz
    rw [hnil]
    rfl
  · rw [not_not] at hz
    exact h.right.free hlt fun t h₁ h₂ => by rw [hhigh t h₁ h₂, hz]

/-- The start of a block. -/
theorem SweptTo.step_start (hlen : blocks.length < 2 ^ 32)
    (hpos : b.m_tmStart < b.m_tmEnd) (hap : ∀ a ∈ blocks, Apart blocks a b)
    (h : SweptTo blocks t₁ st) (hb : b ∈ blocks) (hno : NoEvent blocks t₁ b.m_tmStart) (hlt : t₁ < b.m_tmStart) :
    SweptTo blocks b.m_tmStart (st.step b.startItem) := by
  obtain ⟨hnew, hopen⟩ := openBlocks_start hpos hap hb hno hlt
  -- whether a block is added or not, the vector is the old one up to its order
  obtain ⟨st', hst', hlevel, hperm, hright⟩ : ∃ st' : MergeState,
      st.step b.startItem = ⟨(st'.ulLevel + 1) % 2 ^ 32, st'.vctStatus ++ [b.m_fbstatus],
        b.m_tmStart, st'.vcFBblocks⟩ ∧
        st'.ulLevel = st.ulLevel ∧ st'.vctStatus.Perm st.vctStatus ∧
          RightBefore blocks st'.vcFBblocks b.m_tmStart := by
    refine ⟨if st.ulLevel ≠ 0 ∧ st.tsLastTime ≠ b.m_tmStart then st.addBlock b.m_tmStart else st,
      rfl, ?_⟩
    split_ifs with hif
    · exact h.addBlock hno hlt
    · refine ⟨rfl, List.Perm.refl _, h.right.free hlt fun t h₁ h₂ => ?_⟩
      have hne : st.tsLastTime ≠ b.m_tmStart := h.last.trans_ne hlt.ne
      have hzero : st.ulLevel = 0 := by
        by_contra hl
        exact hif ⟨hl, hne⟩
      have hnil : st.vctStatus = [] := List.length_eq_zero_iff.mp (h.level.symm.trans hzero)
      rw [h.highest hno h₁ h₂, hnil]
      rfl
  have hvct : ((st'.vctStatus ++ [b.m_fbstatus] : List ℕ) : Multiset ℕ) =
      (openBlocks blocks b.m_tmStart).val.map FBBlock_1.m_fbstatus := by
    rw [hopen, Finset.insert_val_of_notMem hnew, Multiset.map_cons, ← h.status,
      ← Multiset.coe_eq_coe.mpr hperm, Multiset.cons_coe, Multiset.coe_eq_coe]
    exact List.perm_append_singleton _ _
  have hcard := length_le hvct
  rw [List.length_append, List.length_singleton] at hcard
  rw [hst']
  refine ⟨rfl, ?_, hvct, hright, fun _ => (exists_tsTime_eq hb).1⟩
  show (st'.ulLevel + 1) % 2 ^ 32 = (st'.vctStatus ++ [b.m_fbstatus]).length
  rw [hlevel, h.level, ← hperm.length_eq, List.length_append, List.length_singleton]
  exact Nat.mod_eq_of_lt (by omega)

/-- The end of a block, when it is not the last one of all. -/
theorem SweptTo.step_end (hlen : blocks.length < 2 ^ 32)
    (hpos : b.m_tmStart < b.m_tmEnd) (hap : ∀ a ∈ blocks, Apart blocks a b)
    (h : SweptTo blocks t₁ st) (hb : b ∈ blocks) (hno : NoEvent blocks t₁ b.m_tmEnd) (hlt : t₁ < b.m_tmEnd)
    (hnext : ∃ c ∈ blocks, b.m_tmEnd < c.m_tmEnd) : SweptTo blocks b.m_tmEnd (st.step b.endItem) := by
  obtain ⟨hold, hopen⟩ := openBlocks_end hpos hap hb hno hlt hnext
  obtain ⟨hlevel, hperm, hright⟩ := h.addBlock hno hlt
  have hvct : (((st.addBlock b.m_tmEnd).vctStatus.erase b.m_fbstatus : List ℕ) : Multiset ℕ) =
      (openBlocks blocks b.m_tmEnd).val.map FBBlock_1.m_fbstatus := by
    rw [hopen, Finset.erase_val, Multiset.map_erase_of_mem _ _ hold, ← h.status,
      ← Multiset.coe_eq_coe.mpr hperm, Multiset.coe_erase]
  have hmem : b.m_fbstatus ∈ st.vctStatus := by
    rw [← Multiset.mem_coe, h.status]
    exact Multiset.mem_map_of_mem _ hold
  have hpos' := List.length_pos_of_mem hmem
  have hcard := length_le h.status
  have hne : st.tsLastTime ≠ b.m_tmEnd := h.last.trans_ne hlt.ne
  rw [MergeState.step]
  simp only [FBBlock_1.endItem, hne, ne_eq, not_false_eq_true, if_true]
  refine ⟨rfl, ?_, hvct, hright, fun _ => (exists_tsTime_eq hb).2⟩
  show ((st.addBlock b.m_tmEnd).ulLevel + (2 ^ 32 - 1)) % 2 ^ 32 =
    ((st.addBlock b.m_tmEnd).vctStatus.erase b.m_fbstatus).length
  rw [hlevel, h.level, List.length_erase_of_mem (hperm.mem_iff.mpr hmem), hperm.length_eq]
  omega

/-- One event, when a block ends later. -/
theorem SweptTo.step (hlen : blocks.length < 2 ^ 32) (hpos : ∀ b ∈ blocks, b.m_tmStart < b.m_tmEnd)
    (hap : ∀ a ∈ blocks, ∀ b ∈ blocks, Apart blocks a b) (h : SweptTo blocks t₁ st) (hx : x ∈ timestamps blocks)
    (hno : NoEvent blocks t₁ x.tsTime) (hlt : t₁ < x.tsTime) (hnext : ∃ c ∈ blocks, x.tsTime < c.m_tmEnd) :
    SweptTo blocks x.tsTime (st.step x) := by
  obtain ⟨b, hb, rfl | rfl⟩ := exists_of_mem_timestamps hx
  · exact h.step_start hlen (hpos b hb) (fun a ha => hap a ha b hb) hb hno hlt
  · exact h.step_end hlen (hpos b hb) (fun a ha => hap a ha b hb) hb hno hlt hnext

/-- The last event: the blocks are right before it. -/
theorem SweptTo.step_last (h : SweptTo blocks t₁ st) (hno : NoEvent blocks t₁ b.m_tmEnd) (hlt : t₁ < b.m_tmEnd) :
    RightBefore blocks (st.step b.endItem).vcFBblocks b.m_tmEnd := by
  obtain ⟨-, -, hright⟩ := h.addBlock hno hlt
  have hne : st.tsLastTime ≠ b.m_tmEnd := h.last.trans_ne hlt.ne
  rw [MergeState.step]
  simp only [FBBlock_1.endItem, hne, ne_eq, not_false_eq_true, if_true]
  exact hright

/-- The last event is an end. -/
theorem exists_endItem_last (hpos : ∀ b ∈ blocks, b.m_tmStart < b.m_tmEnd) {past : List TSARRAY}
    (hts : timestamps blocks = past ++ [x]) : (∃ b ∈ blocks, x = b.endItem) ∧ ∀ y ∈ past, y.tsTime < x.tsTime := by
  have hsorted := sorted_timestamps blocks
  rw [hts, OrderedMap.Sorted, List.pairwise_append] at hsorted
  have hbefore (y : TSARRAY) (hy : y ∈ past) := hsorted.2.2 y hy x List.mem_cons_self
  refine ⟨?_, hbefore⟩
  have hx : x ∈ timestamps blocks := by simp [hts]
  obtain ⟨b, hb, rfl | rfl⟩ := exists_of_mem_timestamps hx
  · -- the end of the block comes later
    obtain ⟨y, hy, hye⟩ := (exists_tsTime_eq hb).2
    have hle : y.tsTime ≤ b.m_tmStart := by
      rw [hts, List.mem_append, List.mem_singleton] at hy
      rcases hy with hy | rfl
      · exact (hbefore y hy).le
      · exact le_rfl
    have hbe := hpos b hb
    omega
  · exact ⟨b, hb, rfl⟩

/-- All events from one on. -/
theorem SweptTo.run (hlen : blocks.length < 2 ^ 32) (hpos : ∀ b ∈ blocks, b.m_tmStart < b.m_tmEnd)
    (hap : ∀ a ∈ blocks, ∀ b ∈ blocks, Apart blocks a b) (past : List TSARRAY) {rest : List TSARRAY}
    (hts : timestamps blocks = past ++ x :: rest) (hpast : ∀ y ∈ past, y.tsTime ≤ t₁)
    (hrest : ∀ y ∈ x :: rest, t₁ < y.tsTime) (h : SweptTo blocks t₁ st) :
    ∃ t, RightBefore blocks ((x :: rest).foldl MergeState.step st).vcFBblocks t ∧
      ∀ y ∈ timestamps blocks, y.tsTime ≤ t := by
  have hno : NoEvent blocks t₁ x.tsTime := by
    have hsorted := sorted_timestamps blocks
    rw [hts, OrderedMap.Sorted, List.pairwise_append, List.pairwise_cons] at hsorted
    intro y hy
    rw [hts, List.mem_append, List.mem_cons] at hy
    rcases hy with hy | rfl | hy
    · have := hpast y hy
      omega
    · omega
    · have := hsorted.2.1.1 y hy
      omega
  have hx := hrest x List.mem_cons_self
  induction rest generalizing past x t₁ st with
  | nil =>
    obtain ⟨⟨b, hb, rfl⟩, hlast⟩ := exists_endItem_last hpos hts
    refine ⟨b.m_tmEnd, h.step_last hno hx, fun y hy => ?_⟩
    rw [hts, List.mem_append, List.mem_singleton] at hy
    rcases hy with hy | rfl
    · exact (hlast y hy).le
    · exact le_rfl
  | cons z rest ih =>
    have hsorted := sorted_timestamps blocks
    rw [hts, OrderedMap.Sorted, List.pairwise_append, List.pairwise_cons] at hsorted
    obtain ⟨hxrest, hzrest⟩ := hsorted.2.1
    have hxz := hxrest z List.mem_cons_self
    have hmem (y : TSARRAY) (hy : y ∈ past ++ x :: z :: rest) : y ∈ timestamps blocks := hts ▸ hy
    -- the block of the next event ends later
    have hnext : ∃ c ∈ blocks, x.tsTime < c.m_tmEnd := by
      obtain ⟨c, hc, rfl | rfl⟩ := exists_of_mem_timestamps (hmem z (by simp))
      · exact ⟨c, hc, hxz.trans (hpos c hc)⟩
      · exact ⟨c, hc, hxz⟩
    have hno' : NoEvent blocks x.tsTime z.tsTime := by
      intro y hy
      rw [hts, List.mem_append, List.mem_cons, List.mem_cons] at hy
      rcases hy with hy | rfl | rfl | hy
      · have := hpast y hy
        omega
      · omega
      · omega
      · have := (List.pairwise_cons.mp hzrest).1 y hy
        omega
    refine ih (past ++ [x]) ?_ ?_ hxrest
      (h.step hlen hpos hap (hmem x (by simp)) hno hx hnext) hno' hxz
    · rw [hts, List.append_assoc]
      rfl
    · intro y hy
      rcases List.mem_append.mp hy with hy | hy
      · exact (hpast y hy).trans hx.le
      · exact (List.mem_singleton.mp hy ▸ le_rfl)

/-- The first event is the start of a block, so nothing is read of the initial `tsLastTime`. -/
theorem foldl_first (hpos : ∀ b ∈ blocks, b.m_tmStart < b.m_tmEnd)
    {rest : List TSARRAY} (hts : timestamps blocks = x :: rest) : (x :: rest).foldl MergeState.step ⟨0, [], 0, []⟩ =
      (x :: rest).foldl MergeState.step ⟨0, [], x.tsTime - 1, []⟩ := by
  have hx : x ∈ timestamps blocks := hts ▸ List.mem_cons_self
  obtain ⟨b, hb, rfl | rfl⟩ := exists_of_mem_timestamps hx
  · rfl
  · -- the start of the block would come before its end
    have hsorted := sorted_timestamps blocks
    obtain ⟨y, hy, hys⟩ := (exists_tsTime_eq hb).1
    have hbe := hpos b hb
    rw [hts] at hsorted hy
    rcases List.mem_cons.mp hy with rfl | hy
    · have hstart : b.m_tmEnd = b.m_tmStart := hys
      omega
    · have hlt : b.m_tmEnd < y.tsTime := (List.pairwise_cons.mp hsorted).1 y hy
      omega

/-- Where the end points are apart, the merged blocks are sorted, disjoint and not empty, and show at
every instant the highest status of the blocks that contain it. -/
theorem mergedBlocks_of_apart {lpFbBlocks : List FBBlock_1} (hlen : lpFbBlocks.length < 2 ^ 32)
    (hpos : ∀ b ∈ lpFbBlocks, b.m_tmStart < b.m_tmEnd) (hap : ApartEnds (lpFbBlocks.map FBBlock_1.times)) :
    Merged lpFbBlocks (mergedBlocks lpFbBlocks) ∧ Sharp lpFbBlocks (mergedBlocks lpFbBlocks) := by
  have hno (u : ℤ) (hu : ∀ b ∈ lpFbBlocks, ¬ b.Contains u) : openBlocks lpFbBlocks u = ∅ := by
    rw [Finset.eq_empty_iff_forall_notMem]
    intro b hb
    obtain ⟨hb, hc⟩ := mem_openBlocks.mp hb
    exact hu b hb hc
  rw [mergedBlocks]
  cases hts : timestamps lpFbBlocks with
  | nil =>
    have hnil : lpFbBlocks = [] := by
      rw [List.eq_nil_iff_forall_not_mem]
      intro b hb
      obtain ⟨⟨x, hx, -⟩, -⟩ := exists_tsTime_eq hb
      rw [hts] at hx
      cases hx
    subst hnil
    exact ⟨⟨by simp, List.Pairwise.nil, fun t => rfl⟩, by simp, by simp, by simp⟩
  | cons x rest =>
    have hsorted := sorted_timestamps lpFbBlocks
    rw [hts] at hsorted
    have hfirst := (List.pairwise_cons.mp hsorted).1
    -- nothing is open before the first event
    have hbefore : ∀ t < x.tsTime, openBlocks lpFbBlocks t = ∅ := by
      refine fun t ht => hno t fun b hb hc => ?_
      obtain ⟨⟨y, hy, hys⟩, -⟩ := exists_tsTime_eq hb
      rw [hts] at hy
      rw [FBBlock_1.Contains] at hc
      rcases List.mem_cons.mp hy with rfl | hy
      · omega
      · have := hfirst y hy
        omega
    have hstart : SweptTo lpFbBlocks (x.tsTime - 1) ⟨0, [], x.tsTime - 1, []⟩ := by
      refine ⟨rfl, rfl, by rw [hbefore _ (by omega)]; rfl, ⟨⟨by simp, by simp, by simp⟩, by simp, by simp,
        List.Pairwise.nil, fun t ht => ?_⟩, fun h => absurd rfl h⟩
      rw [highestStatus_eq (l := []) (by rw [hbefore t (by omega)]; rfl)]
      rfl
    obtain ⟨t, hright, hlast⟩ := hstart.run hlen hpos hap.apart [] hts (by simp) (by
      intro y hy
      rcases List.mem_cons.mp hy with rfl | hy
      · omega
      · have := hfirst y hy
        omega)
    rw [← foldl_first hpos hts] at hright
    refine ⟨⟨hright.nonempty, hright.sorted, fun u => ?_⟩, hright.sharp⟩
    by_cases hu : u < t
    · exact hright.status u hu
    · -- nor after the last one
      have hafter : openBlocks lpFbBlocks u = ∅ := by
        refine hno u fun b hb hc => ?_
        obtain ⟨-, y, hy, hye⟩ := exists_tsTime_eq hb
        have := hlast y hy
        rw [FBBlock_1.Contains] at hc
        omega
      rw [highestStatus_eq (l := []) (by rw [hafter]; rfl)]
      exact statusAt_of_ends fun b hb => (hright.ends b hb).trans (not_lt.mp hu)

/-! ## How many merged blocks there are -/

/-- The instants at which a block starts or ends. -/
def endPoints (times : List (ℤ × ℤ)) : Finset ℤ := (times.map Prod.fst ++ times.map Prod.snd).toFinset

theorem exists_tsTime_iff {blocks : List FBBlock_1} :
    (∃ x ∈ timestamps blocks, x.tsTime = t) ↔ t ∈ endPoints (blocks.map FBBlock_1.times) := by
  rw [endPoints, List.mem_toFinset, List.map_map, List.map_map, List.mem_append, List.mem_map, List.mem_map]
  constructor
  · rintro ⟨x, hx, rfl⟩
    obtain ⟨b, hb, rfl | rfl⟩ := exists_of_mem_timestamps hx
    · exact .inl ⟨b, hb, rfl⟩
    · exact .inr ⟨b, hb, rfl⟩
  · rintro (⟨b, hb, rfl⟩ | ⟨b, hb, rfl⟩)
    · exact (exists_tsTime_eq hb).1
    · exact (exists_tsTime_eq hb).2

/-- A status is shown by a block. -/
theorem statusAt_ne_zero (hbusy : ∀ b ∈ out, b.m_fbstatus ≠ 0) : statusAt out t ≠ 0 ↔ ∃ b ∈ out, b.Contains t := by
  rw [statusAt]
  cases hfind : out.find? (·.Contains t) with
  | none =>
    refine iff_of_false (not_not.mpr rfl) fun ⟨b, hb, hc⟩ => ?_
    exact List.find?_eq_none.mp hfind b hb (decide_eq_true hc)
  | some b =>
    have hb := List.mem_of_find?_eq_some hfind
    have hc := List.find?_some hfind
    exact iff_of_true (hbusy b hb) ⟨b, hb, of_decide_eq_true hc⟩

/-- There is one merged block for each end point at which a status is shown: no end point lies inside
of a block, so the block that shows it starts there. -/
theorem length_merged {blocks : List FBBlock_1} (h : Merged blocks out) (hsharp : Sharp blocks out) : out.length =
      ((endPoints (blocks.map FBBlock_1.times)).filter fun t => highestStatus blocks t ≠ 0).card := by
  have hnodup : (out.map FBBlock_1.m_tmStart).Nodup := by
    refine List.pairwise_map.mpr (h.sorted.imp_of_mem ?_)
    intro a b ha _ hab hstart
    have hpos := h.nonempty a ha
    omega
  rw [← List.length_map FBBlock_1.m_tmStart, ← List.toFinset_card_of_nodup hnodup]
  refine congrArg Finset.card (Finset.ext fun t => ?_)
  rw [List.mem_toFinset, List.mem_map, Finset.mem_filter, ← exists_tsTime_iff, ← h.status t,
    statusAt_ne_zero hsharp.busy]
  constructor
  · rintro ⟨b, hb, rfl⟩
    exact ⟨hsharp.start b hb, b, hb, le_rfl, h.nonempty b hb⟩
  · rintro ⟨⟨x, hx, rfl⟩, b, hb, hstart, hend⟩
    have hinside := hsharp.inside b hb x hx
    exact ⟨b, hb, by omega⟩

end Zcp.FreeBusy
