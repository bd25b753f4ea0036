import Zcp.FreeBusy.FreeBusyUtil.Reading
import Zcp.FreeBusy.FreeBusyUtil.Writing

/-!
# The round trip of free/busy properties

Reading the properties of a block list should give the minutes of its blocks. `roundTrips_iff` says when
it does.
-/

namespace Zcp.FreeBusy

open Zcp.Lib Zcp.Common

/-! ## What is promised -/

/-- The blocks of a list are disjoint, of one status, and from 1970 on. -/
structure Publishable (s : ℕ) (blocks : List FBBlock_1) : Prop where
  status : ∀ b ∈ blocks, b.m_fbstatus = s
  sound : ∀ b ∈ blocks, b.Sound
  disjoint : blocks.Pairwise fun a b => ∀ t, ¬ (a.Contains t ∧ b.Contains t)

/-- The properties of a list, read into an empty list, give the minutes of its blocks. An empty list has
no properties. -/
def RoundTrips (s : ℕ) (ulMonths : ULONG) (l : ECFBBlockList) : Prop :=
  l.blocks = [] ∨ ∃ props, createFBProp s ulMonths l = some (.hrSuccess, some props) ∧
    (parseFBEvents s props .new).1 = .hrSuccess ∧
    ∀ t, Covers s (parseFBEvents s props .new).2.m_FBMap t ↔ Covers s l.blocks t

/-- The months that the minutes of the blocks touch. -/
noncomputable def touchedMonths (blocks : List FBBlock_1) : Finset ℤ :=
  blocks.toFinset.biUnion fun b => Finset.Icc b.startMonth (monthOfRTime (b.m_tmEnd - 1))

/-- The start of the year 4096. -/
def yearLimit : ℤ := monthStart (4096 * 12)

/-- The months of the blocks, with the months of their ends, have entries, those of all but the last block
before the loop ends, the events of each month fit, and all minutes are before the year 4096. -/
structure Fits (ulMonths : ULONG) (blocks : List FBBlock_1) : Prop where
  months : ((closedMonths blocks.dropLast).card : ℤ) ≤ ulMonths.toInt
  entries : (closedMonths blocks).card ≤ (ulMonths.toNat + 1) % 2 ^ 28
  events : ∀ n, eventsIn blocks n ≤ (blocks.length + 1) % 2 ^ 30
  years : ∀ b ∈ blocks, b.m_tmEnd ≤ yearLimit

/-! ## Order -/

/-- Disjoint blocks are in the order of time. -/
theorem Publishable.inTime {s : ℕ} {l : ECFBBlockList} (hl : Publishable s l.blocks) : InTime l.blocks := by
  refine (ECFBBlockList.blocks_sorted.and hl.disjoint).imp_of_mem fun {a b} ha hb h => ?_
  obtain ⟨hle, hdisjoint⟩ := h
  by_contra hlt
  exact hdisjoint b.m_tmStart ⟨⟨hle, not_le.mp hlt⟩, le_rfl, (hl.sound b hb).nonempty⟩

theorem wholeParts_succ (n : ℤ) (k : ℕ) :
    wholeParts n (k + 1) = (n + 1, 0, monthLength (n + 1) * 1440) :: wholeParts (n + 1) k := by
  rw [← tableParts_wholeEntries, wholeEntries_succ, ← tableParts_wholeEntries]
  rfl

/-- Whole months follow each other. -/
theorem inOrder_wholeParts {n : ℤ} {k : ℕ} {is : List (ℤ × ℤ)} (his : InOrder (monthStart (n + 1 + k)) is) :
    InOrder (monthStart (n + 1)) ((wholeParts n k).map interval ++ is) := by
  induction k generalizing n with
  | zero => simpa [wholeParts] using his
  | succ k ih =>
    have hnext : n + 1 + ((k + 1 : ℕ) : ℤ) = n + 1 + 1 + k := by
      push_cast
      ring
    rw [hnext] at his
    rw [wholeParts_succ, List.map_cons, List.cons_append]
    have hpos := (monthLength_bounds (n + 1)).1
    refine ⟨.inr ⟨(add_zero _).symm, ?_⟩, ?_⟩
    · unfold interval
      dsimp only
      omega
    · rw [interval_whole]
      exact ih his

theorem inInterval_wholeParts {n t : ℤ} {k : ℕ} : (∃ e ∈ wholeParts n k, InInterval t (interval e)) ↔
      monthStart (n + 1) ≤ t ∧ t < monthStart (n + 1 + k) := by
  induction k generalizing n with
  | zero =>
    simp only [wholeParts, List.range_zero, List.map_nil, List.not_mem_nil, false_and, exists_false,
      Nat.cast_zero, add_zero, false_iff]
    omega
  | succ k ih =>
    have hnext : n + 1 + ((k + 1 : ℕ) : ℤ) = n + 1 + 1 + k := by
      push_cast
      ring
    have hle : monthStart (n + 1 + 1) ≤ monthStart (n + 1 + 1 + k) :=
      monthStart_strictMono.monotone (by omega)
    have hle' : monthStart (n + 1) ≤ monthStart (n + 1 + 1) :=
      monthStart_strictMono.monotone (by omega)
    rw [wholeParts_succ, hnext]
    simp only [List.mem_cons, exists_eq_or_imp, ih]
    unfold InInterval
    rw [interval_whole]
    unfold interval
    dsimp only
    omega

section Block

variable {b : FBBlock_1}

theorem FBBlock_1.endMonth_start (hlt : b.startMonth < b.endMonth) :
    b.startMonth + 1 + (b.wholeMonths : ℤ) = b.endMonth := by
  unfold FBBlock_1.wholeMonths
  omega

/-- The parts of a block follow each other from its start to its end. -/
theorem FBBlock_1.inOrder_parts (hb : b.Sound) {e : ℤ} (he : e ≤ b.m_tmStart) {is : List (ℤ × ℤ)}
    (his : InOrder b.m_tmEnd is) : InOrder e (b.parts.map interval ++ is) := by
  have hnonempty := hb.nonempty
  have hstart : monthStart b.startMonth + (b.m_tmStart - monthStart b.startMonth) = b.m_tmStart := by
    ring
  have hfollows {t : ℤ} (ht : b.m_tmStart < t) : Follows e (b.m_tmStart, t) := by
    unfold Follows
    dsimp only
    omega
  unfold FBBlock_1.parts
  split_ifs with hlt
  · have hfirst : interval b.firstPart = (b.m_tmStart, monthStart (b.startMonth + 1)) :=
      Prod.ext hstart (interval_whole _ _)
    have hlast : interval (b.startMonth + b.wholeMonths + 1, 0, b.m_tmEnd - monthStart b.endMonth) =
        (monthStart (b.startMonth + 1 + b.wholeMonths), b.m_tmEnd) := by
      have hend := FBBlock_1.endMonth_start hlt
      rw [add_right_comm] at hend
      unfold interval
      dsimp only
      rw [add_right_comm b.startMonth 1, hend]
      exact Prod.ext (add_zero _) (by ring)
    unfold FBBlock_1.someParts
    rw [List.map_cons, List.map_append, List.map_singleton, hfirst, hlast, List.cons_append,
      List.append_assoc]
    refine ⟨hfollows (monthOfRTime_spec b.m_tmStart).2, inOrder_wholeParts ⟨.inr ⟨rfl, ?_⟩, his⟩⟩
    rw [FBBlock_1.endMonth_start hlt]
    exact (monthOfRTime_spec b.m_tmEnd).1
  · have heq : b.startMonth = b.endMonth := le_antisymm hb.months.2.1 (not_lt.mp hlt)
    have hinterval : interval (b.startMonth, b.m_tmStart - monthStart b.startMonth,
        b.m_tmEnd - monthStart b.endMonth) = (b.m_tmStart, b.m_tmEnd) := by
      refine Prod.ext hstart ?_
      unfold interval
      rw [heq]
      dsimp only
      ring
    rw [List.map_singleton, hinterval]
    exact ⟨hfollows hnonempty, his⟩

/-- The parts of a block contain its minutes. -/
theorem FBBlock_1.contains_iff (hb : b.Sound) {t : ℤ} :
    (∃ e ∈ b.parts, InInterval t (interval e)) ↔ b.Contains t := by
  unfold FBBlock_1.parts FBBlock_1.Contains
  split_ifs with hlt
  · have hend := FBBlock_1.endMonth_start hlt
    have hend' : b.startMonth + (b.wholeMonths : ℤ) + 1 = b.endMonth := by omega
    have hstart := (monthOfRTime_spec b.m_tmStart).2
    have hle := (monthOfRTime_spec b.m_tmEnd).1
    have hmono : monthStart (b.startMonth + 1) ≤ monthStart b.endMonth :=
      monthStart_strictMono.monotone (by omega)
    unfold FBBlock_1.someParts
    rw [hend']
    simp only [List.mem_cons, List.mem_append, List.not_mem_nil, or_false, or_and_right,
      exists_or, inInterval_wholeParts, exists_eq_left, hend]
    unfold InInterval FBBlock_1.firstPart
    rw [interval_whole]
    unfold interval FBBlock_1.startMonth FBBlock_1.endMonth at *
    dsimp only
    omega
  · have heq : b.startMonth = b.endMonth := le_antisymm hb.months.2.1 (not_lt.mp hlt)
    rw [heq]
    simp only [List.mem_singleton, exists_eq_left]
    unfold InInterval interval
    dsimp only
    omega

end Block

/-- The parts of blocks follow each other. -/
theorem inOrder_flatMap_parts {blocks : List FBBlock_1} (htime : InTime blocks)
    (hsound : ∀ b ∈ blocks, b.Sound) {e : ℤ} (he : ∀ b ∈ blocks, e ≤ b.m_tmStart) :
    InOrder e ((blocks.flatMap FBBlock_1.parts).map interval) := by
  induction blocks generalizing e with
  | nil => trivial
  | cons b blocks ih =>
    obtain ⟨hbefore, htime⟩ := List.pairwise_cons.mp htime
    obtain ⟨hb, hsound⟩ := List.forall_mem_cons.mp hsound
    rw [List.flatMap_cons, List.map_append]
    exact FBBlock_1.inOrder_parts hb (he b List.mem_cons_self) (ih htime hsound hbefore)

/-! ## Reading what was written -/

/-- The events of the two properties are the parts in the entries. -/
theorem allEvents_table (T : MonthTable) :
    allEvents ((T.map toFBMonth).map FBMonth.lpl) ((T.map toFBMonth).map FBMonth.lpbin) =
      (tableParts T).map eventOf := by
  induction T with
  | nil => rfl
  | cons m T ih =>
    have hcons : tableParts (m :: T) = (m.2.map fun e => (m.1, e)) ++ tableParts T := rfl
    have hentry : (toFBMonth m).lpbin.map (fun e => ((toFBMonth m).lpl, e)) =
        (m.2.map fun e => (m.1, e)).map eventOf := by
      rw [List.map_map]
      exact List.map_map
    rw [hcons, List.map_append, ← ih, ← hentry]
    rfl

/-- The minutes that are read from some parts. -/
def Reads (s : ℕ) (parts : List (ℤ × ℤ × ℤ)) (t : ℤ) : Prop :=
  Covers s ((parts.map eventOf).foldl (readEvent s) (0, .new)).2.m_FBMap t

section Reads

variable {s : ℕ} {t : ℤ} {parts : List (ℤ × ℤ × ℤ)}

theorem Reads.exists_part (h : Reads s parts t) : ∃ e ∈ parts, InInterval t (readInterval (eventOf e)) := by
  obtain ⟨e, he, het⟩ := (covers_read h).resolve_left covers_nil
  obtain ⟨p, hp, rfl⟩ := List.mem_map.mp he
  exact ⟨p, hp, het⟩

/-- The minutes of a part are a part of a month from 1970 on and before the year 4096. -/
def Readable (e : ℤ × ℤ × ℤ) : Prop :=
  1970 * 12 ≤ e.1 ∧ e.1 < 4096 * 12 ∧ 0 ≤ e.2.1 ∧ e.2.1 ≤ e.2.2 ∧ e.2.2 ≤ 44640

theorem readInterval_eventOf {e : ℤ × ℤ × ℤ} (he : Readable e) : readInterval (eventOf e) = interval e := by
  obtain ⟨hn, hn', hx, hxy, hy⟩ := he
  exact Prod.ext (eventTime_of_lt hn hn' hx (by omega)) (eventTime_of_lt hn hn' (by omega) (by omega))

/-- Readable parts in the order of time are read as they were. -/
theorem reads_iff (horder : InOrder 0 (parts.map interval)) (hparts : ∀ e ∈ parts, Readable e) :
    Reads s parts t ↔ ∃ e ∈ parts, InInterval t (interval e) := by
  have hmap : (parts.map eventOf).map readInterval = parts.map interval := by
    rw [List.map_map]
    exact List.map_congr_left fun e he => readInterval_eventOf (hparts e he)
  have hfirst : ∀ e ∈ (parts.map eventOf).head?, (0 : ℤ) < (readInterval e).1 := by
    intro e he
    obtain ⟨p, hp, rfl⟩ := List.mem_map.mp (List.mem_of_head? he)
    rw [readInterval_eventOf (hparts p hp)]
    obtain ⟨hn, -, hx, -⟩ := hparts p hp
    have hstart := monthStart_strictMono.monotone hn
    have h1970 : monthStart (1970 * 12) = 194074560 := rfl
    unfold interval
    dsimp only
    omega
  have hnew : ReadTo s (0, ECFBBlockList.new).2.m_FBMap (0, ECFBBlockList.new).1 :=
    ⟨by rintro b ⟨⟩, by rintro b ⟨⟩, List.Pairwise.nil, by rintro b ⟨⟩, fun h => absurd rfl h⟩
  have hnil : ¬ Covers s ECFBBlockList.new.m_FBMap t := covers_nil
  have horder' : InOrder (0, ECFBBlockList.new).1 ((parts.map eventOf).map readInterval) := by
    rw [hmap]
    exact horder
  have hread := covers_readAll hnew horder' (fun _ => hfirst) t
  refine hread.trans ((or_iff_right hnil).trans ⟨?_, ?_⟩)
  · rintro ⟨e, he, het⟩
    obtain ⟨p, hp, rfl⟩ := List.mem_map.mp he
    exact ⟨p, hp, readInterval_eventOf (hparts p hp) ▸ het⟩
  · rintro ⟨e, he, het⟩
    exact ⟨eventOf e, List.mem_map_of_mem he, (readInterval_eventOf (hparts e he)).symm ▸ het⟩

theorem mergeEnd_of_eq {b : FBBlock_1} (hb : b.m_tmStart = b.m_tmEnd) (m : List FBBlock_1) :
    ECFBBlockList.mergeEnd b m = m := by
  induction m with
  | nil => rfl
  | cons a m ih =>
    rw [ECFBBlockList.mergeEnd]
    split_ifs with ha
    · rw [← hb, ← ha]
    · rw [ih]

/-- An event of no minutes changes no minutes. -/
theorem covers_readEvent_of_eq {st : ℤ × ECFBBlockList} {e : LONG × SfbEvent} (he : e.2.rtmStart = e.2.rtmEnd) :
    Covers s (readEvent s st e).2.m_FBMap t ↔ Covers s st.2.m_FBMap t := by
  have hempty : ¬ InInterval t (readInterval e) := by
    unfold InInterval readInterval
    rw [he]
    exact fun h => (h.1.trans_lt h.2).false
  refine ⟨fun h => (covers_readEvent h).resolve_right hempty, fun h => ?_⟩
  unfold readEvent
  dsimp only
  split_ifs
  · unfold ECFBBlockList.merge
    split_ifs
    · show Covers s (ECFBBlockList.mergeEnd _ _) t
      rw [mergeEnd_of_eq (by dsimp only; rw [he])]
      exact h
    · exact h
  · show Covers s (ECFBBlockList.insert _ _) t
    unfold ECFBBlockList.insert
    split_ifs with hget
    · exact h
    · obtain ⟨b, hb, hbt⟩ := h
      have hnone := OrderedMap.get_eq_none.mp (Option.not_isSome_iff_eq_none.mp hget)
      exact ⟨b, (OrderedMap.mem_set st.2.sorted).mpr (.inr ⟨hb, hnone b hb⟩), hbt⟩

theorem reads_concat_of_eq {n x : ℤ} : Reads s (parts ++ [(n, x, x)]) t ↔ Reads s parts t := by
  unfold Reads
  rw [List.map_append, List.foldl_append]
  exact covers_readEvent_of_eq rfl

end Reads

/-! ## The year 4096 -/

section Years

variable {s : ℕ} {t : ℤ} {b : FBBlock_1} {e : ℤ × ℤ × ℤ}

theorem FBBlock_1.Sound.endMonth_le (hend : b.m_tmEnd ≤ yearLimit) : b.endMonth ≤ 4096 * 12 := by
  by_contra hlt
  have hle := (le_monthOfRTime.mp (le_refl b.endMonth)).trans hend
  have hlimit := monthStart_strictMono (not_le.mp hlt)
  unfold yearLimit at hle
  omega

/-- A part of a block before the year 4096 is readable, or has no minutes. -/
theorem FBBlock_1.HasPart.readable (hpart : b.HasPart e) (hb : b.Sound) (hend : b.m_tmEnd ≤ yearLimit) :
    Readable e ∨ e = (4096 * 12, 0, 0) := by
  have hle := (hpart.le_end).trans (FBBlock_1.Sound.endMonth_le hend)
  rcases hle.lt_or_eq with hlt | heq
  · exact .inl ⟨hb.months.1.trans hpart.start, hlt, hpart.nonneg, hpart.le, hpart.short⟩
  · have hlast := hpart.last (le_antisymm hpart.le_end
      (heq ▸ FBBlock_1.Sound.endMonth_le hend))
    unfold interval yearLimit at *
    rw [heq] at hlast
    have hnonneg := hpart.nonneg
    have hxy := hpart.le
    refine .inr (Prod.ext heq (Prod.ext ?_ ?_))
    · dsimp only at *
      omega
    · dsimp only at *
      omega

theorem not_inInterval_empty {n x : ℤ} : ¬ InInterval t (readInterval (eventOf (n, x, x))) :=
  fun h => (h.1.trans_lt h.2).false

/-- A minute from the year 4096 on that is read from a part of a block comes from a month from 4096 to
4405, and it is one of the minutes that wrap around. -/
theorem FBBlock_1.HasPart.late (hpart : b.HasPart e) (hb : b.Sound) (ht : yearLimit ≤ t)
    (hread : InInterval t (readInterval (eventOf e))) : 4096 * 12 ≤ e.1 ∧ e.1 < 4406 * 12 ∧ 1985240272 ≤ t := by
  obtain ⟨n, x, y⟩ := e
  obtain ⟨hp, -, hq⟩ := hb.months
  obtain ⟨hstart, hle_end, hx, hxy, hy, -, -⟩ := hpart
  dsimp only at *
  have hlimit : yearLimit = 1312243200 := rfl
  unfold InInterval readInterval eventOf at hread
  dsimp only at hread
  by_cases hn : n < 4096 * 12
  · -- December has 31 days
    rw [eventTime_of_lt (by omega) hn (by omega) (by omega),
      eventTime_of_lt (by omega) hn (by omega) (by omega)] at hread
    have hmonth := monthStart_strictMono.monotone (show n ≤ 4095 * 12 + 11 by omega)
    have hdecember : monthStart (4095 * 12 + 11) = 1312198560 := rfl
    omega
  · rw [eventTime_of_le (by omega) (by omega) (by omega) (by omega),
      eventTime_of_le (by omega) (by omega) (by omega) (by omega)] at hread
    have hfirst := monthStart_strictMono.monotone (show 0 ≤ n - 4096 * 12 by omega)
    have hlast := monthStart_strictMono.monotone (show n - 4096 * 12 ≤ 1589 * 12 by omega)
    have h0 : monthStart 0 = -842045760 := rfl
    have h1589 : monthStart (1589 * 12) = -6311520 := rfl
    have h310 : monthStart (310 * 12) = -679001760 := rfl
    have hmonth : monthStart (n - 4096 * 12) < monthStart (310 * 12) := by
      rw [h0] at hfirst
      rw [h1589] at hlast
      omega
    have hlt := monthStart_strictMono.lt_iff_lt.mp hmonth
    omega

/-- Blocks of which all minutes are read end before the year 4096. -/
theorem le_yearLimit {blocks : List FBBlock_1} {parts : List (ℤ × ℤ × ℤ)}
    (hsound : ∀ b ∈ blocks, b.Sound) (hparts : ∀ e ∈ parts, ∃ b ∈ blocks, b.HasPart e)
    (hreads : ∀ b ∈ blocks, ∀ t, b.Contains t → Reads s parts t) : ∀ b ∈ blocks, b.m_tmEnd ≤ yearLimit := by
  have hlate {b : FBBlock_1} (hb : b ∈ blocks) {t : ℤ} (ht : yearLimit ≤ t) (hbt : b.Contains t) :
      1985240272 ≤ t ∧ ∃ c ∈ blocks, c.m_tmStart < 1985240272 ∧ yearLimit < c.m_tmEnd := by
    obtain ⟨e, he, het⟩ := (hreads b hb t hbt).exists_part
    obtain ⟨c, hc, hpart⟩ := hparts e he
    obtain ⟨hn, hn', hlate⟩ := hpart.late (hsound c hc) ht het
    refine ⟨hlate, c, hc, ?_, ?_⟩
    · have hmonth := monthStart_strictMono.monotone (show c.startMonth + 1 ≤ 4406 * 12 from
        Int.add_one_le_iff.mpr (hpart.start.trans_lt hn'))
      have h4406 : monthStart (4406 * 12) = 1475287200 := rfl
      have hlt := (monthOfRTime_spec c.m_tmStart).2
      unfold FBBlock_1.startMonth at hmonth
      omega
    · by_contra hle
      rcases hpart.readable (hsound c hc) (not_lt.mp hle) with hreadable | rfl
      · exact absurd hreadable.2.1 hn.not_gt
      · exact not_inInterval_empty het
  have hbefore {b : FBBlock_1} (hb : b ∈ blocks) (hstart : b.m_tmStart < 1985240272) :
      b.m_tmEnd ≤ yearLimit := by
    by_contra hlt
    have hlimit : yearLimit = 1312243200 := rfl
    have hnonempty := (hsound b hb).nonempty
    have hmax := (hlate hb (le_max_right b.m_tmStart yearLimit)
      ⟨le_max_left _ _, max_lt hnonempty (not_le.mp hlt)⟩).1
    omega
  intro b hb
  by_contra hlt
  have hnonempty := (hsound b hb).nonempty
  obtain ⟨-, c, hc, hstart, hend⟩ := hlate hb (le_max_right b.m_tmStart yearLimit)
    ⟨le_max_left _ _, max_lt hnonempty (not_le.mp hlt)⟩
  exact absurd (hbefore hc hstart) hend.not_ge

end Years

/-! ## All parts -/

section All

variable {s : ℕ} {t : ℤ} {blocks : List FBBlock_1}

theorem InOrder.left {e : ℤ} {is js : List (ℤ × ℤ)} (h : InOrder e (is ++ js)) : InOrder e is := by
  induction is generalizing e with
  | nil => trivial
  | cons i is ih => exact ⟨h.1, ih h.2⟩

/-- The last part of a block is in the month of its end. -/
theorem FBBlock_1.Sound.parts_eq_concat {b : FBBlock_1} (hb : b.Sound) :
    ∃ parts e, b.parts = parts ++ [e] ∧ e.1 = b.endMonth ∧ ∀ e ∈ parts, e.1 < b.endMonth := by
  unfold FBBlock_1.parts
  split_ifs with hlt
  · have hend := FBBlock_1.endMonth_start hlt
    refine ⟨b.firstPart :: wholeParts b.startMonth b.wholeMonths, _, rfl, ?_, ?_⟩
    · dsimp only
      omega
    · refine List.forall_mem_cons.mpr ⟨hlt, fun e he => ?_⟩
      obtain ⟨i, hi, rfl⟩ := List.mem_map.mp he
      have hi := List.mem_range.mp hi
      dsimp only
      omega
  · exact ⟨[], _, rfl, le_antisymm hb.months.2.1 (not_lt.mp hlt), by rintro e ⟨⟩⟩

theorem exists_part_iff (hsound : ∀ b ∈ blocks, b.Sound) (hstatus : ∀ b ∈ blocks, b.m_fbstatus = s) :
    (∃ e ∈ blocks.flatMap FBBlock_1.parts, InInterval t (interval e)) ↔ Covers s blocks t := by
  constructor
  · rintro ⟨e, he, het⟩
    obtain ⟨b, hb, he⟩ := List.mem_flatMap.mp he
    exact ⟨b, hb, hstatus b hb, (FBBlock_1.contains_iff (hsound b hb)).mp ⟨e, he, het⟩⟩
  · rintro ⟨b, hb, -, hbt⟩
    obtain ⟨e, he, het⟩ := (FBBlock_1.contains_iff (hsound b hb)).mpr hbt
    exact ⟨e, List.mem_flatMap.mpr ⟨b, hb, he⟩, het⟩

/-- All parts of blocks before the year 4096 but the last one are readable, and the last one is or has no
minutes. -/
theorem flatMap_parts_eq_concat (htime : InTime blocks) (hsound : ∀ b ∈ blocks, b.Sound)
    (hyears : ∀ b ∈ blocks, b.m_tmEnd ≤ yearLimit) (hne : blocks ≠ []) :
    ∃ parts e, blocks.flatMap FBBlock_1.parts = parts ++ [e] ∧ (∀ e ∈ parts, Readable e) ∧
      (Readable e ∨ e = (4096 * 12, 0, 0)) := by
  obtain ⟨blocks, b, rfl⟩ := (List.eq_nil_or_concat' blocks).resolve_left hne
  have hb := hsound b (by simp)
  have hend := hyears b (by simp)
  obtain ⟨parts, e, hparts, he, hbefore⟩ := hb.parts_eq_concat
  refine ⟨blocks.flatMap FBBlock_1.parts ++ parts, e, ?_, ?_, ?_⟩
  · rw [List.flatMap_append, List.flatMap_singleton, hparts, List.append_assoc]
  · refine List.forall_mem_append.mpr ⟨fun e he => ?_, fun e he => ?_⟩
    · obtain ⟨a, ha, he⟩ := List.mem_flatMap.mp he
      have hpart := a.hasPart_parts (hsound a (List.mem_append_left _ ha)) he
      refine (hpart.readable (hsound a (List.mem_append_left _ ha))
        (hyears a (List.mem_append_left _ ha))).resolve_right ?_
      rintro rfl
      -- the block would end where the last one starts, at the earliest in the year 4096
      have hle := hpart.le_end.trans (InTime.endMonth_le htime a ha)
      have hstart : monthStart (4096 * 12) ≤ b.m_tmStart := le_monthOfRTime.mp hle
      have hnonempty := hb.nonempty
      unfold yearLimit at hend
      omega
    · have hpart := b.hasPart_parts hb (hparts ▸ List.mem_append_left _ he)
      refine (hpart.readable hb hend).resolve_right ?_
      rintro rfl
      exact absurd (FBBlock_1.Sound.endMonth_le hend) (hbefore _ he).not_ge
  · exact (b.hasPart_parts hb (hparts ▸ by simp)).readable hb hend

/-- The parts of blocks before the year 4096 are read as the minutes of the blocks. -/
theorem reads_parts_iff (htime : InTime blocks) (hsound : ∀ b ∈ blocks, b.Sound)
    (hstatus : ∀ b ∈ blocks, b.m_fbstatus = s) (hyears : ∀ b ∈ blocks, b.m_tmEnd ≤ yearLimit) :
    Reads s (blocks.flatMap FBBlock_1.parts) t ↔ Covers s blocks t := by
  rcases blocks.eq_nil_or_concat' with rfl | hne
  · exact Iff.rfl
  have horder : InOrder 0 ((blocks.flatMap FBBlock_1.parts).map interval) := by
    refine inOrder_flatMap_parts htime hsound fun b hb => ?_
    have hstart := (hsound b hb).start
    unfold RTIME_EPOCH at hstart
    omega
  obtain ⟨parts, e, hparts, hreadable, he⟩ := flatMap_parts_eq_concat htime hsound hyears
    (by rintro rfl; simp at hne)
  rw [← exists_part_iff hsound hstatus, hparts]
  rw [hparts, List.map_append] at horder
  rcases he with he | rfl
  · refine reads_iff (by rwa [List.map_append]) (List.forall_mem_append.mpr ⟨hreadable, ?_⟩)
    simpa using he
  · rw [reads_concat_of_eq, reads_iff horder.left hreadable]
    have hempty : ¬ InInterval t (interval (4096 * 12, 0, 0)) := fun h => (h.1.trans_lt h.2).false
    simp only [List.mem_append, List.mem_singleton, or_and_right, exists_or, exists_eq_left,
      or_iff_left hempty]

end All

/-! ## The round trip -/

section RoundTrip

variable {s : ℕ} {ulMonths : ULONG} {l : ECFBBlockList}

/-- The sizes of the arrays for a list. -/
def ECFBBlockList.sizes (l : ECFBBlockList) (ulMonths : ULONG) : FBPropSizes :=
  ⟨ulMonths, (BitVec.ofNat 32 l.size + 1) * 4⟩

theorem ECFBBlockList.entries_iff {n : ℕ} : (l.sizes ulMonths).Entries n ↔ n ≤ (ulMonths.toNat + 1) % 2 ^ 28 := by
  have hlt := ulMonths.isLt
  have hsucc : (ulMonths + 1).toNat = (ulMonths.toNat + 1) % 2 ^ 32 := BitVec.toNat_add _ _
  unfold FBPropSizes.Entries ECFBBlockList.sizes
  dsimp only
  rw [hsucc]
  omega

theorem ECFBBlockList.events_iff {n : ℕ} : (l.sizes ulMonths).Events n ↔ n ≤ (l.blocks.length + 1) % 2 ^ 30 := by
  have hsize : ((BitVec.ofNat 32 l.size + 1) * 4).toNat =
      (l.size % 2 ^ 32 + 1) % 2 ^ 32 * 4 % 2 ^ 32 := by
    rw [BitVec.toNat_mul, BitVec.toNat_add, BitVec.toNat_ofNat]
    rfl
  unfold FBPropSizes.Events ECFBBlockList.sizes
  dsimp only
  rw [hsize, ECFBBlockList.size_eq]
  omega

/-- The entries before the first block. -/
theorem written_nil (sizes : FBPropSizes) : Written sizes [] [] ⟨[], 0, 0, false⟩ := by
  refine ⟨rfl, rfl, rfl, fun _ => ⟨rfl, rfl⟩, by simp, by simp, ?_, fun n => ?_⟩
  · exact ⟨by simp, by simp⟩
  · exact Nat.zero_le _

/-- Reading the properties of a table. -/
theorem parseFBEvents_table (T : MonthTable) :
    parseFBEvents s ⟨(T.map toFBMonth).map FBMonth.lpl, (T.map toFBMonth).map FBMonth.lpbin⟩ .new =
      (.hrSuccess, (((tableParts T).map eventOf).foldl (readEvent s) (0, .new)).2) := by
  unfold parseFBEvents
  rw [if_neg (by simp), allEvents_table]

theorem createFBProp_eq : createFBProp s ulMonths l =
    (writeBlocks (l.sizes ulMonths) s l.blocks ⟨[], 0, 0, false⟩).map fun st =>
      if st.bFound then
        (.hrSuccess, some ⟨st.entries.map FBMonth.lpl, st.entries.map FBMonth.lpbin⟩)
      else (.MAPI_E_NOT_FOUND, none) := by
  unfold createFBProp
  show Option.bind (writeBlocks (l.sizes ulMonths) s l.blocks ⟨[], 0, 0, false⟩) _ = _
  cases writeBlocks (l.sizes ulMonths) s l.blocks ⟨[], 0, 0, false⟩ with
  | none => rfl
  | some st =>
    rw [Option.bind_some, Option.map_some]
    split_ifs <;> rfl

/-- The parts in a table are parts of blocks before the year 4096 when all minutes of the blocks are
read. -/
theorem Publishable.inInterval (hl : Publishable s l.blocks) {parts : List (ℤ × ℤ × ℤ)}
    (hparts : ∀ e ∈ parts, ∃ b ∈ l.blocks, b.HasPart e) (hreads : ∀ t, Reads s parts t ↔ Covers s l.blocks t) :
    (∀ b ∈ l.blocks, b.m_tmEnd ≤ yearLimit) ∧
      ∀ b ∈ l.blocks, ∀ t, b.Contains t → ∃ e ∈ parts, InInterval t (interval e) := by
  have hread : ∀ b ∈ l.blocks, ∀ t, b.Contains t → Reads s parts t := fun b hb t hbt =>
    (hreads t).mpr ⟨b, hb, hl.status b hb, hbt⟩
  have hyears := le_yearLimit hl.sound hparts hread
  refine ⟨hyears, fun b hb t hbt => ?_⟩
  obtain ⟨e, he, het⟩ := (hread b hb t hbt).exists_part
  obtain ⟨c, hc, hpart⟩ := hparts e he
  rcases hpart.readable (hl.sound c hc) (hyears c hc) with hreadable | rfl
  · exact ⟨e, he, readInterval_eventOf hreadable ▸ het⟩
  · exact absurd het not_inInterval_empty

/-- The properties of a list give the minutes of its blocks exactly when all events fit. -/
theorem roundTrips_iff (l : ECFBBlockList) (s : ℕ) (ulMonths : ULONG) (hl : Publishable s l.blocks) :
    RoundTrips s ulMonths l ↔ l.blocks = [] ∨ Fits ulMonths l.blocks := by
  refine or_congr_right' fun hne => ?_
  have htime := hl.inTime
  have hinit := written_nil (l.sizes ulMonths)
  constructor
  · rintro ⟨props, hprops, -, hcovers⟩
    rw [createFBProp_eq] at hprops
    obtain ⟨st, hrun, hst⟩ := Option.map_eq_some_iff.mp hprops
    split_ifs at hst
    · obtain rfl := Option.some.inj (Prod.mk.inj hst).2
      -- what is read when the entries are a table
      have hreads {T : MonthTable} (hT : st.entries = T.map toFBMonth) (t : ℤ) :
          Reads s (tableParts T) t ↔ Covers s l.blocks t := by
        rw [← hcovers t, hT, parseFBEvents_table]
        rfl
      obtain ⟨last, hlast⟩ := Option.isSome_iff_exists.mp (List.getLast?_isSome.mpr hne)
      rcases hinit.writeBlocks_some htime hl.sound hl.status hrun hlast with
        ⟨T, hw, hmonths⟩ | ⟨T, hT, hcut⟩
      · have hparts : ∀ e ∈ tableParts T, ∃ b ∈ l.blocks, b.HasPart e := by
          intro e he
          rw [hw.parts] at he
          obtain ⟨b, hb, he⟩ := List.mem_flatMap.mp he
          exact ⟨b, hb, b.hasPart_parts (hl.sound b hb) he⟩
        refine ⟨hmonths hne, ?_, fun n => ?_, (hl.inInterval hparts (hreads hw.entries)).1⟩
        · exact ECFBBlockList.entries_iff.mp (hw.count ▸ hw.entriesFit)
        · exact ECFBBlockList.events_iff.mp (hw.eventsFit n)
      · -- the last minute of the last block is missing
        have hmem : last ∈ l.blocks := List.mem_of_getLast? hlast
        have hnonempty := (hl.sound last hmem).nonempty
        obtain ⟨e, he, het⟩ := (hl.inInterval (fun e he => (hcut e he).1) (hreads hT)).2 last hmem
          (last.m_tmEnd - 1) ⟨by omega, by omega⟩
        have hend := (hcut e he).2
        have hlt := het.2
        omega
    · cases hst
  · intro hfits
    have hwritten : ∃ T st, writeBlocks (l.sizes ulMonths) s l.blocks ⟨[], 0, 0, false⟩ = some st ∧
        Written (l.sizes ulMonths) l.blocks T st :=
      hinit.writeBlocks htime hl.sound hl.status (fun _ => hfits.months)
        (ECFBBlockList.entries_iff.mpr hfits.entries) fun n =>
          ECFBBlockList.events_iff.mpr (hfits.events n)
    obtain ⟨T, st, hrun, hw⟩ := hwritten
    refine ⟨⟨st.entries.map FBMonth.lpl, st.entries.map FBMonth.lpbin⟩, ?_, ?_, fun t => ?_⟩
    · rw [createFBProp_eq, hrun, Option.map_some, if_pos (hw.found.mpr hne)]
    · rw [hw.entries, parseFBEvents_table]
    · rw [hw.entries, parseFBEvents_table, ← reads_parts_iff htime hl.sound hl.status hfits.years]
      show Reads s (tableParts T) t ↔ _
      rw [hw.parts]

end RoundTrip

/-- The last day of January, the first of March, and the third of March. -/
def monthEnds : ECFBBlockList :=
  ((ECFBBlockList.new.add ⟨194117760, 194119200, 2⟩).add ⟨194159520, 194160960, 2⟩).add
    ⟨194162400, 194163840, 2⟩

theorem blocks_monthEnds : monthEnds.blocks =
    [⟨194117760, 194119200, 2⟩, ⟨194159520, 194160960, 2⟩, ⟨194162400, 194163840, 2⟩] := by
  decide +kernel

theorem publishable_monthEnds : Publishable 2 monthEnds.blocks := by
  have htime : monthEnds.blocks.Pairwise fun a b => a.m_tmEnd ≤ b.m_tmStart := by
    rw [blocks_monthEnds]
    decide
  have hsound : ∀ b ∈ monthEnds.blocks,
      RTIME_EPOCH ≤ b.m_tmStart ∧ b.m_tmStart < b.m_tmEnd ∧ b.m_tmEnd < 2 ^ 31 := by
    rw [blocks_monthEnds]
    decide
  refine ⟨?_, fun b hb => ?_, htime.imp fun {a b} hle t h => ?_⟩
  · rw [blocks_monthEnds]
    decide
  · obtain ⟨hstart, hnonempty, hlong⟩ := hsound b hb
    exact ⟨hstart, hnonempty, hlong⟩
  · exact (h.1.2.trans_le (hle.trans h.2.1)).false

theorem roundTrips_iff_monthEnds : RoundTrips 2 2 monthEnds ↔ monthEnds.blocks = [] ∨ Fits 2 monthEnds.blocks :=
  roundTrips_iff monthEnds 2 2 publishable_monthEnds

/-- The end of January takes an entry for February, and the third block is lost. -/
theorem not_roundTrips_monthEnds : Publishable 2 monthEnds.blocks ∧
    (touchedMonths monthEnds.blocks).card ≤ (2 : ULONG).toNat ∧ ¬ RoundTrips 2 2 monthEnds := by
  refine ⟨publishable_monthEnds, ?_, ?_⟩
  · have hmonths : ∀ b ∈ monthEnds.blocks, b.startMonth = monthOfRTime (b.m_tmEnd - 1) ∧
        (b.startMonth = 1970 * 12 ∨ b.startMonth = 1970 * 12 + 2) := by
      rw [blocks_monthEnds]
      decide +kernel
    have hsub : touchedMonths monthEnds.blocks ⊆ {1970 * 12, 1970 * 12 + 2} := by
      intro n hn
      obtain ⟨b, hb, hn⟩ := Finset.mem_biUnion.mp hn
      obtain ⟨hend, hstart⟩ := hmonths b (List.mem_toFinset.mp hb)
      obtain ⟨hle, hle'⟩ := Finset.mem_Icc.mp hn
      rw [Finset.mem_insert, Finset.mem_singleton]
      omega
    exact (Finset.card_le_card hsub).trans (by decide)
  · rintro (hnil | ⟨props, hprops, -, hcovers⟩)
    · rw [blocks_monthEnds] at hnil
      cases hnil
    · have hcreate : createFBProp 2 2 monthEnds = some (.hrSuccess,
          some ⟨[0x7b21, 0x7b22, 0x7b23], [[⟨43200, 44640⟩], [⟨0, 0⟩], [⟨0, 1440⟩]]⟩) := by
        decide +kernel
      rw [hcreate] at hprops
      obtain rfl := Option.some.inj (Prod.mk.inj (Option.some.inj hprops)).2
      have hparse : (parseFBEvents 2 ⟨[0x7b21, 0x7b22, 0x7b23],
          [[⟨43200, 44640⟩], [⟨0, 0⟩], [⟨0, 1440⟩]]⟩ .new).2.m_FBMap =
            [⟨194117760, 194119200, 2⟩, ⟨194159520, 194160960, 2⟩] := by
        decide +kernel
      have hlost := (hcovers 194162400).mpr
        ⟨⟨194162400, 194163840, 2⟩, by simp [blocks_monthEnds], rfl, by decide, by decide⟩
      rw [hparse] at hlost
      obtain ⟨b, hb, -, hbt⟩ := hlost
      have hends : ∀ b ∈ [(⟨194117760, 194119200, 2⟩ : FBBlock_1), ⟨194159520, 194160960, 2⟩],
          b.m_tmEnd ≤ 194162400 := by
        decide
      exact (hbt.2.trans_le (hends b hb)).false

end Zcp.FreeBusy
