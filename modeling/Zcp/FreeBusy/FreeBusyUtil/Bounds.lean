import Zcp.Lib.Guarded
import Zcp.FreeBusy.FreeBusyUtil.Writing

/-!
# The arrays of a free/busy property

`CreateFBProp` starts an entry for the month of the start of a block, and one for each later month of it.
An `Advance` says how many entries a block needs; `createFBProp_inside_iff` says for which blocks all
writes are inside the arrays.
-/

namespace Zcp.FreeBusy

open Zcp.Lib Zcp.Common

/-! ## Entries that blocks need -/

def FBBlock_1.tmStart (b : FBBlock_1) : Tm := gmtimeSafe (rTimeToUnixTime (BitVec.ofInt 32 b.m_tmStart))

def FBBlock_1.tmEnd (b : FBBlock_1) : Tm := gmtimeSafe (rTimeToUnixTime (BitVec.ofInt 32 b.m_tmEnd))

/-- The entries that a block needs: one for the month of its start, if it is later than the last month
before, and some for later months. -/
structure Advance where
  opens : Bool
  later : ℕ
deriving DecidableEq, Repr

/-- What a block needs, with the year and the month in which the block before it ends. -/
def FBBlock_1.advance (b : FBBlock_1) (last : ℤ × ℤ) : Advance where
  opens := b.tmStart.tm_year > last.1 ∨ b.tmStart.tm_mon > last.2
  later :=
    if b.tmEnd.tm_year > b.tmStart.tm_year ∨ b.tmEnd.tm_mon > b.tmStart.tm_mon then
      (diffYearMonthToMonth b.tmStart b.tmEnd - 1).toNat + 1
    else 0

def FBBlock_1.lastMonth (b : FBBlock_1) : ℤ × ℤ := (b.tmEnd.tm_year, b.tmEnd.tm_mon)

/-- What blocks need, one after another. -/
def advances : ℤ × ℤ → List FBBlock_1 → List Advance
  | _, [] => []
  | last, b :: blocks => b.advance last :: advances b.lastMonth blocks

/-- The number of entries that blocks need. -/
def entriesOf (as : List Advance) : ℕ := (as.map fun a => a.opens.toNat + a.later).sum

/-- Blocks that may all have an event in one entry: none but the first starts an entry, and none but the
first and the last ends in a later one. -/
def SameEntry (run : List Advance) : Prop :=
  (∀ a ∈ run.tail, a.opens = false) ∧ ∀ a ∈ run.tail.dropLast, a.later = 0

namespace Advance

variable (a : Advance) (f : ℕ × ℕ) (ulMonths : ℕ)

/-- The number of entries and the number of events in the last one, with the first event of a block. -/
def start : ℕ × ℕ := if a.opens then (f.1 + 1, 1) else (f.1, f.2 + 1)

/-- The same after the block. The whole months stop when there are `ulMonths` entries. -/
def finish : ℕ × ℕ :=
  if a.later = 0 then a.start f
  else ((a.start f).1 + min (a.later - 1) (ulMonths - (a.start f).1) + 1, 1)

theorem start_le_finish : (a.start f).1 ≤ (a.finish f ulMonths).1 := by
  unfold finish
  split
  · exact le_rfl
  · exact le_self_add.trans le_self_add

theorem one_le_start : 1 ≤ (a.start f).2 := by
  unfold start
  split
  · exact le_rfl
  · exact Nat.succ_pos _

theorem finish_le : (a.finish f ulMonths).2 ≤ (a.start f).2 := by
  unfold finish
  split
  · exact le_rfl
  · exact a.one_le_start f

end Advance

/-! ## Steps of the writer -/

section Steps

variable {sizes : FBPropSizes} {entries : List FBMonth} {n c : ℕ}

/-- There are some entries, and some events in the last one. -/
def Filled (entries : List FBMonth) (f : ℕ × ℕ) : Prop :=
  entries.length = f.1 ∧ ∀ m ∈ entries.getLast?, m.lpbin.length = f.2

/-- Opening a month needs room for one more entry, and leaves that entry with no events in it. -/
theorem openMonth_guarded (tm_year tm_mon : ℤ) (h : entries.length = n) :
    Guarded (sizes.Entries (n + 1)) (Filled · (n + 1, 0)) (openMonth sizes tm_year tm_mon entries) := by
  rw [openMonth, h]
  refine Guarded.guard ⟨?_, ?_⟩
  · rw [List.length_append, h]
    rfl
  · intro m hm
    rw [List.getLast?_concat] at hm
    exact Option.some.inj hm ▸ rfl

/-- Adding an event needs an entry that is open and room in it for one more event, and changes no other count. -/
theorem addEvent_guarded (fbEvent : SfbEvent) (h : Filled entries (n, c)) :
    Guarded (n ≠ 0 ∧ sizes.Events (c + 1)) (Filled · (n, c + 1)) (addEvent sizes fbEvent entries) := by
  obtain ⟨hlength, hlast⟩ := h
  unfold addEvent
  rcases entries.eq_nil_or_concat' with rfl | ⟨front, m, rfl⟩
  · exact Guarded.none.congr (iff_of_false id fun h => h.1 hlength.symm)
  · have hm : m.lpbin.length = c := hlast m List.getLast?_concat
    have hn : n ≠ 0 := by
      rintro rfl
      exact absurd hlength (by simp)
    rw [List.getLast?_concat, List.dropLast_concat]
    dsimp only
    rw [hm]
    refine (Guarded.guard ⟨?_, ?_⟩).congr (and_iff_right hn).symm
    · rw [← hlength, List.length_append, List.length_append]
      rfl
    · intro m' hm'
      rw [List.getLast?_concat] at hm'
      rw [← Option.some.inj hm', List.length_append, hm]
      rfl

/-- Whole months need an entry each, up to `ulMonths` entries. -/
theorem wholeMonths_guarded (k : ℕ) (tmTmp : ℤ × ℤ) (h : entries.length = n) (hfits : sizes.Entries n)
    (hevents : sizes.Events 1) : Guarded (sizes.Entries (n + min k (sizes.ulMonths.toNat - n)))
      (fun r => r.2.length = n + min k (sizes.ulMonths.toNat - n)) (wholeMonths sizes k tmTmp entries) := by
  induction k generalizing tmTmp entries n with
  | zero => exact (Guarded.some (by simpa using h)).congr (by simpa using hfits)
  | succ k ih =>
    rw [wholeMonths, h]
    by_cases hroom : n < sizes.ulMonths.toNat
    · have hcount : n + min (k + 1) (sizes.ulMonths.toNat - n) =
          n + 1 + min k (sizes.ulMonths.toNat - (n + 1)) := by omega
      rw [if_pos hroom, hcount]
      refine ((openMonth_guarded _ _ h).bind fun hnext e he => (addEvent_guarded _ he).bind fun _ e' he' =>
        ih (nextMonth tmTmp) he'.1 hnext).congr ?_
      constructor
      · rintro ⟨-, -, hall⟩
        exact hall
      · intro hall
        exact ⟨hall.mono (Nat.le_add_right _ _), ⟨n.succ_ne_zero, hevents⟩, hall⟩
    · have hcount : n + min (k + 1) (sizes.ulMonths.toNat - n) = n := by omega
      rw [if_neg hroom, hcount]
      exact (Guarded.some (Q := fun r : (ℤ × ℤ) × List FBMonth => r.2.length = n) h).congr (iff_of_true trivial hfits)

theorem severalMonths_guarded {tmStart tmEnd : Tm} (h : Filled entries (n, c)) (hfits : sizes.Entries n) {k : ℕ}
    (hk : k = n + min (diffYearMonthToMonth tmStart tmEnd - 1).toNat (sizes.ulMonths.toNat - n) + 1) :
    Guarded ((n ≠ 0 ∧ sizes.Events (c + 1)) ∧ sizes.Entries k) (Filled · (k, 0))
      (severalMonths sizes tmStart tmEnd entries) := by
  subst hk
  refine ((addEvent_guarded _ h).bind fun hevent e he => (wholeMonths_guarded _ _ he.1 hfits
    (hevent.2.mono (Nat.le_add_left 1 c))).bind fun _ r hr => openMonth_guarded _ _ hr).congr ?_
  exact and_congr_right fun _ => and_iff_right_of_imp fun hall => hall.mono (Nat.le_succ _)

/-- All writes for a block are inside the arrays. -/
def Advance.Fits (a : Advance) (sizes : FBPropSizes) (f : ℕ × ℕ) : Prop :=
  (a.start f).1 ≠ 0 ∧ sizes.Events (a.start f).2 ∧ sizes.Entries (a.finish f sizes.ulMonths.toNat).1

/-- The month a block starts in is opened only if it is later than the last one, and only then is room needed for
it. -/
theorem firstMonth_guarded {tmStart : Tm} {st : FBPropState} (h : Filled st.entries (n, c))
    {a : Advance} (ha : a.opens = decide (tmStart.tm_year > st.ulLastYear ∨ tmStart.tm_mon > st.ulLastMonth)) :
    Guarded (a.opens = true → sizes.Entries (n + 1))
      (Filled · ((a.start (n, c)).1, (a.start (n, c)).2 - 1)) (firstMonth sizes tmStart st) := by
  unfold Advance.start
  by_cases hopens : tmStart.tm_year > st.ulLastYear ∨ tmStart.tm_mon > st.ulLastMonth
  · rw [ha, decide_eq_true hopens, firstMonth, if_pos hopens]
    exact (openMonth_guarded _ _ h.1).congr (by simp)
  · rw [ha, decide_eq_false hopens, firstMonth, if_neg hopens]
    exact (Guarded.some (Q := (Filled · (n, c))) h).congr (by simp)

/-- The months behind the first one need room for an entry each; the events in them are the first ones of their
months. -/
theorem laterMonths_guarded {b : FBBlock_1} {last : ℤ × ℤ} {a : Advance} (ha : b.advance last = a)
    (f : ℕ × ℕ) (h : Filled entries ((a.start f).1, (a.start f).2 - 1)) (hfits : sizes.Entries (a.start f).1) :
    Guarded (a.later ≠ 0 → a.Fits sizes f)
      (fun r => Filled r.2 ((a.finish f sizes.ulMonths.toNat).1, (a.finish f sizes.ulMonths.toNat).2 - 1))
      (laterMonths sizes b.tmStart b.tmEnd entries) := by
  subst ha
  unfold Advance.Fits
  by_cases hspans : b.tmEnd.tm_year > b.tmStart.tm_year ∨ b.tmEnd.tm_mon > b.tmStart.tm_mon
  · have hlater : (b.advance last).later = (diffYearMonthToMonth b.tmStart b.tmEnd - 1).toNat + 1 :=
      if_pos hspans
    rw [laterMonths, if_pos hspans, Advance.finish, hlater, if_neg (Nat.succ_ne_zero _)]
    refine ((severalMonths_guarded h hfits rfl).map fun e he => he).congr ?_
    rw [Nat.sub_add_cancel (Advance.one_le_start _ f)]
    exact and_assoc.trans (imp_iff_right (Nat.succ_ne_zero _)).symm
  · have hlater : (b.advance last).later = 0 := if_neg hspans
    rw [laterMonths, if_neg hspans, Advance.finish, hlater, if_pos rfl]
    refine (Guarded.some (Q := fun r : SHORT × List FBMonth => Filled r.2 _) h).congr ?_
    exact iff_of_true trivial fun hne => absurd rfl hne

/-- The steps for one block. -/
theorem writeBlock_guarded {b : FBBlock_1} {st : FBPropState} {f : ℕ × ℕ} (h : Filled st.entries f)
    (hfits : sizes.Entries f.1) {a : Advance} (ha : b.advance (st.ulLastYear, st.ulLastMonth) = a) :
    Guarded (a.Fits sizes f) (fun st' => Filled st'.entries (a.finish f sizes.ulMonths.toNat) ∧
        (st'.ulLastYear, st'.ulLastMonth) = b.lastMonth) (writeBlock sizes b st) := by
  have hstart (hopens : a.opens = true → sizes.Entries (f.1 + 1)) : sizes.Entries (a.start f).1 := by
    unfold Advance.start
    split_ifs with ho
    · exact hopens ho
    · exact hfits
  have hpos : 1 ≤ (a.finish f sizes.ulMonths.toNat).2 := by
    unfold Advance.finish
    split_ifs
    · exact a.one_le_start f
    · exact le_rfl
  have hwrite : Guarded ((a.opens = true → sizes.Entries (f.1 + 1)) ∧ (a.later ≠ 0 → a.Fits sizes f) ∧
      ((a.finish f sizes.ulMonths.toNat).1 ≠ 0 ∧ sizes.Events (a.finish f sizes.ulMonths.toNat).2) ∧ True)
      (fun st' => Filled st'.entries (a.finish f sizes.ulMonths.toNat) ∧
        (st'.ulLastYear, st'.ulLastMonth) = b.lastMonth) (writeBlock sizes b st) := by
    refine (firstMonth_guarded h (congrArg Advance.opens ha.symm)).bind fun hopens e he => ?_
    refine (laterMonths_guarded ha f he (hstart hopens)).bind fun _ r hr => ?_
    refine Guarded.bind (by simpa only [Nat.sub_add_cancel hpos] using addEvent_guarded _ hr)
      fun _ e' he' => ?_
    exact Guarded.some ⟨he', rfl⟩
  refine hwrite.congr ?_
  constructor
  · rintro ⟨hopens, hlater, ⟨hne, hevents⟩, -⟩
    by_cases hzero : a.later = 0
    · have hfinish : a.finish f sizes.ulMonths.toNat = a.start f := if_pos hzero
      rw [hfinish] at hne hevents
      exact ⟨hne, hevents, hfinish ▸ hstart hopens⟩
    · exact hlater hzero
  · rintro ⟨hne, hevents, hentries⟩
    have hle := a.start_le_finish f sizes.ulMonths.toNat
    refine ⟨fun hopens => ?_, fun _ => ⟨hne, hevents, hentries⟩, ⟨by omega, ?_⟩, trivial⟩
    · have hsucc : (a.start f).1 = f.1 + 1 := by rw [Advance.start, if_pos hopens]
      exact hsucc ▸ hentries.mono hle
    · exact hevents.mono (a.finish_le f sizes.ulMonths.toNat)

/-! ## Runs of the writer -/

/-- All blocks that the loop reaches fit. -/
def AllFit (sizes : FBPropSizes) : ℕ × ℕ → List Advance → Prop
  | _, [] => True
  | f, a :: as =>
    f.1 ≤ sizes.ulMonths.toNat → a.Fits sizes f ∧ AllFit sizes (a.finish f sizes.ulMonths.toNat) as

theorem AllFit.of_lt {f : ℕ × ℕ} (h : sizes.ulMonths.toNat < f.1) (as : List Advance) : AllFit sizes f as := by
  cases as with
  | nil => trivial
  | cons a as => exact fun hle => absurd hle (not_le.mpr h)

/-- The blocks of the status that a property is about. -/
def wanted (fbStatus : ℕ) (blocks : List FBBlock_1) : List FBBlock_1 :=
  blocks.filter fun b => b.m_fbstatus = fbStatus ∨ fbStatus = fbZarafaAllBusy

/-- No write is outside the arrays exactly if each block that the loop reaches fits behind the ones before it. -/
theorem writeBlocks_isSome_iff (hmonths : sizes.ulMonths.toNat < 2 ^ 31) (fbStatus : ℕ)
    (blocks : List FBBlock_1) {st : FBPropState} {f : ℕ × ℕ} (h : Filled st.entries f) (hfits : sizes.Entries f.1) :
    (writeBlocks sizes fbStatus blocks st).isSome ↔
      AllFit sizes f (advances (st.ulLastYear, st.ulLastMonth) (wanted fbStatus blocks)) := by
  have hrunning (st : FBPropState) {f : ℕ × ℕ} (h : Filled st.entries f) :
      st.iMonth < sizes.ulMonths.toInt ↔ f.1 ≤ sizes.ulMonths.toNat := by
    rw [FBPropState.iMonth, h.1, BitVec.toInt_eq_toNat_of_lt (by omega)]
    omega
  induction blocks generalizing st f with
  | nil => exact iff_of_true rfl trivial
  | cons b blocks ih =>
    rw [writeBlocks]
    by_cases hrun : st.iMonth < sizes.ulMonths.toInt
    · rw [if_pos hrun]
      by_cases hwanted : b.m_fbstatus = fbStatus ∨ fbStatus = fbZarafaAllBusy
      · have hcons : wanted fbStatus (b :: blocks) = b :: wanted fbStatus blocks :=
          List.filter_cons_of_pos (by simpa using hwanted)
        have hblock := writeBlock_guarded h hfits (b := b) rfl
        rw [if_pos hwanted, hcons, advances, AllFit, imp_iff_right ((hrunning st h).mp hrun)]
        cases hst' : writeBlock sizes b st with
        | none =>
          rw [hst'] at hblock
          exact iff_of_false (by simp) fun hall => Bool.false_ne_true (hblock.isSome_iff.mpr hall.1)
        | some st' =>
          rw [hst'] at hblock
          obtain ⟨hfilled, hlast⟩ := hblock.result st' rfl
          have hblockFits := hblock.isSome_iff.mp rfl
          rw [and_iff_right hblockFits, ← hlast]
          exact ih hfilled hblockFits.2.2
      · have hskip : wanted fbStatus (b :: blocks) = wanted fbStatus blocks :=
          List.filter_cons_of_neg (by simpa using hwanted)
        rw [if_neg hwanted, hskip]
        exact ih h hfits
    · rw [if_neg hrun]
      exact iff_of_true rfl (.of_lt (not_le.mp fun hle => hrun ((hrunning st h).mpr hle)) _)

end Steps

/-! ## Entries and events after some blocks -/

/-- The numbers after some blocks, when no write has been outside. -/
def fill (ulMonths : ℕ) (before : List Advance) : ℕ × ℕ := before.foldl (fun f a => a.finish f ulMonths) (0, 0)

theorem fill_concat (ulMonths : ℕ) (before : List Advance) (a : Advance) :
    fill ulMonths (before ++ [a]) = a.finish (fill ulMonths before) ulMonths := by
  rw [fill, List.foldl_concat, fill]

theorem entriesOf_append (as bs : List Advance) : entriesOf (as ++ bs) = entriesOf as + entriesOf bs := by
  rw [entriesOf, List.map_append, List.sum_append, entriesOf, entriesOf]

theorem entriesOf_cons (a : Advance) (as : List Advance) :
    entriesOf (a :: as) = a.opens.toNat + a.later + entriesOf as := by
  rw [entriesOf, List.map_cons, List.sum_cons, entriesOf]

theorem Advance.start_fst (a : Advance) (f : ℕ × ℕ) : (a.start f).1 = f.1 + a.opens.toNat := by
  unfold start
  cases a.opens <;> rfl

/-- Up to `ulMonths` entries, no whole month is left out. -/
theorem Advance.finish_fst (a : Advance) {f : ℕ × ℕ} {ulMonths : ℕ} (h : f.1 + (a.opens.toNat + a.later) ≤ ulMonths) :
    (a.finish f ulMonths).1 = f.1 + (a.opens.toNat + a.later) := by
  unfold finish
  split_ifs with hzero
  · rw [a.start_fst, hzero]
    rfl
  · show (a.start f).1 + min (a.later - 1) (ulMonths - (a.start f).1) + 1 = _
    rw [a.start_fst]
    omega

/-- A block that needs more entries than months were asked for leaves more of them than that. -/
theorem Advance.lt_finish_fst (a : Advance) {f : ℕ × ℕ} {ulMonths : ℕ}
    (h : ulMonths < f.1 + (a.opens.toNat + a.later)) : ulMonths < (a.finish f ulMonths).1 := by
  unfold finish
  split_ifs with hzero
  · rw [a.start_fst]
    omega
  · show ulMonths < (a.start f).1 + min (a.later - 1) (ulMonths - (a.start f).1) + 1
    rw [a.start_fst]
    omega

/-- As long as the blocks need no more entries than months were asked for, that many are there after them; otherwise
there are more than were asked for. -/
theorem fill_fst (ulMonths : ℕ) (before : List Advance) :
    (entriesOf before ≤ ulMonths → (fill ulMonths before).1 = entriesOf before) ∧
      (ulMonths < entriesOf before → ulMonths < (fill ulMonths before).1) := by
  induction before using List.reverseRecOn with
  | nil => exact ⟨fun _ => rfl, fun h => absurd h (Nat.not_lt_zero _)⟩
  | append_singleton before a ih =>
    obtain ⟨hle, hlt⟩ := ih
    have hsum : entriesOf (before ++ [a]) = entriesOf before + (a.opens.toNat + a.later) := by
      rw [entriesOf_append, entriesOf_cons]
      rfl
    rw [fill_concat, hsum]
    constructor
    · intro hfit
      have hbefore := hle (by omega)
      rw [a.finish_fst (by omega), hbefore]
    · intro hfull
      by_cases hbefore : entriesOf before ≤ ulMonths
      · exact a.lt_finish_fst (by rw [hle hbefore]; exact hfull)
      · have hmore := hlt (not_le.mp hbefore)
        exact a.lt_finish_fst (by omega)

theorem fill_le_iff (ulMonths : ℕ) (before : List Advance) :
    (fill ulMonths before).1 ≤ ulMonths ↔ entriesOf before ≤ ulMonths := by
  obtain ⟨hle, hlt⟩ := fill_fst ulMonths before
  constructor
  · intro h
    exact not_lt.mp fun h' => absurd (hlt h') (not_lt.mpr h)
  · intro h
    exact (hle h).trans_le h

/-- The blocks that are reached, one by one. -/
theorem allFit_iff (sizes : FBPropSizes) (before as : List Advance) :
    AllFit sizes (fill sizes.ulMonths.toNat before) as ↔ ∀ mid a after, as = mid ++ a :: after →
      entriesOf (before ++ mid) ≤ sizes.ulMonths.toNat →
        a.Fits sizes (fill sizes.ulMonths.toNat (before ++ mid)) := by
  induction as generalizing before with
  | nil => exact iff_of_true trivial fun mid a after h => absurd h (by simp)
  | cons a as ih =>
    rw [AllFit, fill_le_iff, ← fill_concat, ih]
    constructor
    · intro h mid a' after heq hreached
      have hbefore : entriesOf before ≤ sizes.ulMonths.toNat := by
        rw [entriesOf_append] at hreached
        omega
      cases mid with
      | nil =>
        obtain ⟨rfl, -⟩ := List.cons.inj heq
        rw [List.append_nil]
        exact (h hbefore).1
      | cons m mid =>
        obtain ⟨rfl, hrest⟩ := List.cons.inj heq
        have hmid := (h hbefore).2 mid a' after hrest
        rw [List.append_assoc, List.singleton_append] at hmid
        exact hmid hreached
    · intro h hbefore
      refine ⟨?_, fun mid a' after heq hreached => ?_⟩
      · have hfirst := h [] a as rfl
        rw [List.append_nil] at hfirst
        exact hfirst hbefore
      · have hlater := h (a :: mid) a' after (by rw [heq, List.cons_append])
        rw [List.append_assoc, List.singleton_append] at hreached ⊢
        exact hlater hreached

/-! ## Events in one entry -/

/-- One more block may share the entry if it starts none of its own and the block before it, unless that is the
first, does not end in a later one. -/
theorem sameEntry_concat (run : List Advance) (b a : Advance) : SameEntry (run ++ [b] ++ [a]) ↔
      SameEntry (run ++ [b]) ∧ a.opens = false ∧ (run ≠ [] → b.later = 0) := by
  unfold SameEntry
  cases run with
  | nil => simp
  | cons c run =>
    rw [List.cons_append, List.cons_append, List.tail_cons, List.tail_cons, List.dropLast_concat,
      List.dropLast_concat, List.forall_mem_append, List.forall_mem_append, List.forall_mem_append]
    constructor
    · rintro ⟨⟨⟨hrun, hb⟩, ha⟩, hlater, hblater⟩
      exact ⟨⟨⟨hrun, hb⟩, hlater⟩, ha a (List.mem_singleton_self a),
        fun _ => hblater b (List.mem_singleton_self b)⟩
    · rintro ⟨⟨⟨hrun, hb⟩, hlater⟩, ha, hblater⟩
      refine ⟨⟨⟨hrun, hb⟩, fun m hm => ?_⟩, hlater, fun m hm => ?_⟩
      · exact List.mem_singleton.mp hm ▸ ha
      · exact List.mem_singleton.mp hm ▸ hblater (List.cons_ne_nil c run)

/-- Blocks that may share an entry do not have more events than it. -/
theorem run_length_le (ulMonths : ℕ) (front run : List Advance) (a : Advance) (h : SameEntry (run ++ [a])) :
    run.length + 1 ≤ (a.start (fill ulMonths (front ++ run))).2 := by
  induction run using List.reverseRecOn generalizing a with
  | nil => exact a.one_le_start _
  | append_singleton run b ih =>
    obtain ⟨hsame, hopens, hlater⟩ := (sameEntry_concat run b a).mp h
    have hstart : (a.start (fill ulMonths (front ++ (run ++ [b])))).2 =
        (b.finish (fill ulMonths (front ++ run)) ulMonths).2 + 1 := by
      rw [Advance.start, hopens, ← List.append_assoc, fill_concat]
      rfl
    rw [hstart, List.length_append, List.length_singleton]
    by_cases hzero : b.later = 0
    · rw [Advance.finish, if_pos hzero]
      exact Nat.succ_le_succ (ih b hsame)
    · obtain rfl : run = [] := not_not.mp fun hne => hzero (hlater hne)
      rw [Advance.finish, if_neg hzero]
      exact le_rfl

/-- The events of an entry come from blocks that share it. -/
theorem exists_run (ulMonths : ℕ) (before : List Advance) (a : Advance) :
    ∃ front run, before = front ++ run ∧ SameEntry (run ++ [a]) ∧
      run.length + 1 = (a.start (fill ulMonths before)).2 := by
  have hsingle : SameEntry ([] ++ [a]) := ⟨by simp, by simp⟩
  induction before using List.reverseRecOn generalizing a with
  | nil =>
    refine ⟨[], [], rfl, hsingle, ?_⟩
    unfold Advance.start
    split <;> rfl
  | append_singleton before b ih =>
    by_cases hopens : a.opens = true
    · refine ⟨before ++ [b], [], (List.append_nil _).symm, hsingle, ?_⟩
      rw [Advance.start, if_pos hopens]
      rfl
    · have hstart : (a.start (fill ulMonths (before ++ [b]))).2 =
          (b.finish (fill ulMonths before) ulMonths).2 + 1 := by
        rw [Advance.start, if_neg hopens, fill_concat]
      rw [hstart]
      have hnot : a.opens = false := Bool.not_eq_true _ ▸ hopens
      by_cases hzero : b.later = 0
      · obtain ⟨front, run, rfl, hsame, hcount⟩ := ih b ⟨by simp, by simp⟩
        refine ⟨front, run ++ [b], List.append_assoc .., ?_, ?_⟩
        · exact (sameEntry_concat run b a).mpr ⟨hsame, hnot, fun _ => hzero⟩
        · rw [Advance.finish, if_pos hzero, ← hcount, List.length_append]
          rfl
      · refine ⟨before, [b], rfl, ?_, ?_⟩
        · exact (sameEntry_concat [] b a).mpr ⟨⟨by simp, by simp⟩, hnot, fun hne => absurd rfl hne⟩
        · rw [Advance.finish, if_neg hzero]
          rfl

/-! ## Writes inside the arrays -/

/-- The entries for which both arrays have room. Their sizes are given to the allocator in 32 bits. -/
def entryRoom (ulMonths : ULONG) : ℕ :=
  min ((ulMonths + 1).toNat * 4 % 2 ^ 32 / 4) ((ulMonths + 1).toNat * 16 % 2 ^ 32 / 16)

/-- The events for which an entry has room. -/
def eventRoom (size : ℕ) : ℕ := ((BitVec.ofNat 32 size + 1) * 4).toNat / 4

theorem entries_iff (sizes : FBPropSizes) (n : ℕ) : sizes.Entries n ↔ n ≤ entryRoom sizes.ulMonths := by
  unfold FBPropSizes.Entries entryRoom
  omega

theorem entryRoom_le (ulMonths : ULONG) : entryRoom ulMonths ≤ ulMonths.toNat + 1 := by
  unfold entryRoom
  rw [BitVec.toNat_add]
  have hone : (1 : ULONG).toNat = 1 := rfl
  rw [hone]
  omega

/-- The blocks do not need more than the arrays have. -/
structure StaysInside (ulMonths : ULONG) (size : ℕ) (as : List Advance) : Prop where
  /-- The first block starts an entry. -/
  first : ∀ a ∈ as.head?, a.opens = true
  /-- No block starts the entry after `ulMonths` others and also ends in a later one. -/
  full : ∀ before a after, as = before ++ a :: after → entriesOf before = ulMonths.toNat →
    a.opens = true → a.later = 0
  /-- Where the sizes of the arrays do not fit in 32 bits, there is room for all entries. -/
  wrapped : entryRoom ulMonths ≤ ulMonths.toNat → entriesOf as ≤ entryRoom ulMonths
  /-- An entry has room for the events of blocks that share it. -/
  events : ∀ front run a after, as = front ++ run ++ a :: after → SameEntry (run ++ [a]) →
    entriesOf (front ++ run) ≤ ulMonths.toNat → run.length + 1 ≤ eventRoom size

section Inside

variable {sizes : FBPropSizes} {as : List Advance}

/-- Each block that is reached finds an entry exactly if the first of all blocks starts one. -/
theorem starts_iff (ulMonths : ℕ) : (∀ before a after, as = before ++ a :: after → entriesOf before ≤ ulMonths →
      (a.start (fill ulMonths before)).1 ≠ 0) ↔ ∀ a ∈ as.head?, a.opens = true := by
  constructor
  · intro h a ha
    cases as with
    | nil => cases ha
    | cons b as =>
      obtain rfl : b = a := Option.some.inj ha
      have hfirst := h [] b as rfl (Nat.zero_le _)
      rw [b.start_fst] at hfirst
      cases hopens : b.opens with
      | true => rfl
      | false => exact absurd (by rw [hopens]; rfl) hfirst
  · rintro h before a after rfl hreached
    rw [a.start_fst, (fill_fst ulMonths before).1 hreached]
    cases before with
    | nil =>
      rw [h a rfl]
      exact Nat.succ_ne_zero 0
    | cons b before =>
      rw [entriesOf_cons, h b rfl]
      have hone : true.toNat = 1 := rfl
      omega

/-- One entry more than `ulMonths`, unless a block starts it and ends in a later one. -/
theorem Advance.finish_fst_le (a : Advance) {f : ℕ × ℕ} {ulMonths : ℕ} (h : f.1 ≤ ulMonths)
    (hfull : f.1 = ulMonths → a.opens = true → a.later = 0) : (a.finish f ulMonths).1 ≤ ulMonths + 1 := by
  have hopens : a.opens.toNat ≤ 1 := Bool.toNat_le a.opens
  unfold finish
  split_ifs with hzero
  · rw [a.start_fst]
    omega
  · show (a.start f).1 + min (a.later - 1) (ulMonths - (a.start f).1) + 1 ≤ ulMonths + 1
    have hlt : (a.start f).1 ≤ ulMonths := by
      rw [a.start_fst]
      cases ho : a.opens with
      | false => exact h
      | true =>
        have hne : f.1 ≠ ulMonths := fun heq => hzero (hfull heq ho)
        show f.1 + 1 ≤ ulMonths
        omega
    omega

/-- There is room for the entries of the blocks that are reached exactly if no block starts the entry behind the
last month and also ends in a later one and, where the sizes wrap, there is room for the entries of all blocks. -/
theorem rooms_iff : (∀ before a after, as = before ++ a :: after → entriesOf before ≤ sizes.ulMonths.toNat →
      sizes.Entries (a.finish (fill sizes.ulMonths.toNat before) sizes.ulMonths.toNat).1) ↔
    (∀ before a after, as = before ++ a :: after → entriesOf before = sizes.ulMonths.toNat →
      a.opens = true → a.later = 0) ∧
    (entryRoom sizes.ulMonths ≤ sizes.ulMonths.toNat → entriesOf as ≤ entryRoom sizes.ulMonths) := by
  have hle := entryRoom_le sizes.ulMonths
  simp only [entries_iff]
  generalize sizes.ulMonths.toNat = ulMonths at *
  generalize entryRoom sizes.ulMonths = room at *
  constructor
  · intro h
    refine ⟨fun before a after heq hbefore hopens => ?_, fun hwrapped => ?_⟩
    · by_contra hzero
      have hfits := h before a after heq hbefore.le
      rw [Advance.finish, if_neg hzero] at hfits
      have hstart : (a.start (fill ulMonths before)).1 = ulMonths + 1 := by
        rw [a.start_fst, (fill_fst ulMonths before).1 hbefore.le, hbefore, hopens]
        rfl
      have hfits : (a.start (fill ulMonths before)).1 +
          min (a.later - 1) (ulMonths - (a.start (fill ulMonths before)).1) + 1 ≤ room := hfits
      omega
    · have hall (before after : List Advance) (heq : as = before ++ after) : entriesOf before ≤ room := by
        induction before using List.reverseRecOn generalizing after with
        | nil => exact Nat.zero_le _
        | append_singleton before a ih =>
          rw [List.append_assoc, List.singleton_append] at heq
          have hbefore := ih (a :: after) heq
          have hfits := h before a after heq (hbefore.trans hwrapped)
          by_contra hmore
          rw [entriesOf_append, entriesOf_cons] at hmore
          have hzero : entriesOf [] = 0 := rfl
          by_cases hcut : entriesOf before + (a.opens.toNat + a.later) ≤ ulMonths
          · rw [a.finish_fst (by rw [(fill_fst ulMonths before).1 (by omega)]; exact hcut),
              (fill_fst ulMonths before).1 (by omega)] at hfits
            omega
          · have hlt : ulMonths < (a.finish (fill ulMonths before) ulMonths).1 :=
              a.lt_finish_fst (by rw [(fill_fst ulMonths before).1 (by omega)]; omega)
            omega
      exact hall as [] (List.append_nil as).symm
  · rintro ⟨hfull, hwrapped⟩ before a after heq hreached
    have hcount := (fill_fst ulMonths before).1 hreached
    by_cases hroom : room ≤ ulMonths
    · have htotal := hwrapped hroom
      rw [heq, entriesOf_append, entriesOf_cons] at htotal
      rw [a.finish_fst (by omega), hcount]
      omega
    · refine (a.finish_fst_le (hcount.trans_le hreached) fun hU => ?_).trans (by omega)
      exact hfull before a after heq (hcount.symm.trans hU)

end Inside

/-- All blocks fit exactly when they stay inside the arrays. -/
theorem allFit_iff_staysInside (ulMonths : ULONG) (size : ℕ) (as : List Advance) :
    AllFit ⟨ulMonths, (BitVec.ofNat 32 size + 1) * 4⟩ (0, 0) as ↔ StaysInside ulMonths size as := by
  have hevents (n : ℕ) : FBPropSizes.Events ⟨ulMonths, (BitVec.ofNat 32 size + 1) * 4⟩ n ↔ n ≤ eventRoom size := by
    unfold eventRoom
    show n * 4 ≤ ((BitVec.ofNat 32 size + 1) * 4).toNat ↔ _
    omega
  have hall := allFit_iff ⟨ulMonths, (BitVec.ofNat 32 size + 1) * 4⟩ [] as
  have hrooms := @rooms_iff ⟨ulMonths, (BitVec.ofNat 32 size + 1) * 4⟩ as
  refine hall.trans ?_
  constructor
  · intro h
    obtain ⟨hfull, hwrapped⟩ := hrooms.mp fun before a after heq hreached => (h before a after heq hreached).2.2
    refine ⟨(starts_iff ulMonths.toNat).mp fun before a after heq hreached =>
      (h before a after heq hreached).1, hfull, hwrapped, fun front run a after heq hsame hreached => ?_⟩
    have hfits := (h (front ++ run) a after heq hreached).2.1
    exact (run_length_le ulMonths.toNat front run a hsame).trans ((hevents _).mp hfits)
  · intro h before a after heq hreached
    refine ⟨(starts_iff ulMonths.toNat).mpr h.first before a after heq hreached, ?_,
      hrooms.mpr ⟨h.full, h.wrapped⟩ before a after heq hreached⟩
    obtain ⟨front, run, rfl, hsame, hcount⟩ := exists_run ulMonths.toNat before a
    exact (hevents _).mpr (hcount ▸ h.events front run a after heq hsame hreached)

/-- `CreateFBProp` never writes behind an array exactly when the wanted blocks stay inside. From `2 ^ 31`
months on, the loop ends at once. -/
theorem createFBProp_inside_iff (fbStatus : ℕ) (ulMonths : ULONG) (l : ECFBBlockList) :
    createFBProp fbStatus ulMonths l ≠ none ↔ 2 ^ 31 ≤ ulMonths.toNat ∨
      StaysInside ulMonths l.size (advances (0, 0) (wanted fbStatus l.blocks)) := by
  have hsome : createFBProp fbStatus ulMonths l ≠ none ↔
      (writeBlocks ⟨ulMonths, (BitVec.ofNat 32 l.size + 1) * 4⟩ fbStatus l.blocks ⟨[], 0, 0, false⟩).isSome := by
    unfold createFBProp
    dsimp only
    cases writeBlocks ⟨ulMonths, (BitVec.ofNat 32 l.size + 1) * 4⟩ fbStatus l.blocks ⟨[], 0, 0, false⟩ with
    | none => simp
    | some st =>
      refine iff_of_true ?_ rfl
      show (if st.bFound then _ else _) ≠ none
      split_ifs <;> exact Option.some_ne_none _
  rw [hsome]
  by_cases hmonths : ulMonths.toNat < 2 ^ 31
  · rw [writeBlocks_isSome_iff hmonths fbStatus l.blocks (f := (0, 0)) ⟨rfl, fun m hm => absurd hm (by simp)⟩
      ⟨Nat.zero_le _, Nat.zero_le _⟩, allFit_iff_staysInside]
    exact (or_iff_right (not_le.mpr hmonths)).symm
  · refine iff_of_true ?_ (.inl (not_lt.mp hmonths))
    have hneg : ¬ (⟨[], 0, 0, false⟩ : FBPropState).iMonth < ulMonths.toInt := by
      show ¬ ((0 : ℕ) : ℤ) - 1 < ulMonths.toInt
      rw [BitVec.toInt_eq_toNat_cond]
      omega
    rw [writeBlocks_stop hneg]
    rfl

/-- A block in January 2015, and one from February to March. -/
def overMonths : ECFBBlockList :=
  (ECFBBlockList.new.add ⟨217749600, 217749660, 2⟩).add ⟨217794240, 217834560, 2⟩

/-- The second block starts the second entry and needs a third one. -/
theorem createFBProp_overMonths : createFBProp 2 1 overMonths = none := by decide +kernel

end Zcp.FreeBusy
