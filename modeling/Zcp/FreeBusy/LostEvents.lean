import Zcp.FreeBusy.PublishFreeBusy

/-!
# Lost events of the free/busy merge

Of the events at one instant `HrMergeBlocks` keeps the last one. Where the event of a block is lost,
some statuses of the blocks are merged wrong, so that the end points decide whether blocks are merged
right (`hrMergeBlocks_merged_iff`): they have to be apart, and not more of them may lie in a block than
the output has room for.
-/

namespace Zcp.FreeBusy

open Zcp.Lib

/-! ## Which events are lost -/

variable {b : FBBlock_1}

section Marked

/-- The blocks at these times, all of status 1. -/
def tentative (times : List (ℤ × ℤ)) : List FBBlock_1 := times.map fun p => ⟨p.1, p.2, 1⟩

/-- One block of status 2 among blocks of status 1. -/
def marked (before : List (ℤ × ℤ)) (p : ℤ × ℤ) (after : List (ℤ × ℤ)) : List FBBlock_1 :=
  tentative before ++ ⟨p.1, p.2, 2⟩ :: tentative after

theorem times_tentative (times : List (ℤ × ℤ)) : (tentative times).map FBBlock_1.times = times := by
  rw [tentative, List.map_map]
  exact List.map_id _

theorem times_marked (before : List (ℤ × ℤ)) (p : ℤ × ℤ) (after : List (ℤ × ℤ)) :
    (marked before p after).map FBBlock_1.times = before ++ p :: after := by
  rw [marked, List.map_append, List.map_cons, times_tentative, times_tentative]
  rfl

theorem mem_marked (before : List (ℤ × ℤ)) (p : ℤ × ℤ) (after : List (ℤ × ℤ)) :
    (⟨p.1, p.2, 2⟩ : FBBlock_1) ∈ marked before p after :=
  List.mem_append_right _ List.mem_cons_self

theorem status_tentative {times : List (ℤ × ℤ)} (hb : b ∈ tentative times) : b.m_fbstatus = 1 := by
  obtain ⟨p, -, rfl⟩ := List.mem_map.mp hb
  rfl

/-- At an end point of a later block, all events are of later blocks. -/
theorem exists_later {before after : List FBBlock_1} (hb : b ∈ after) {x : TSARRAY}
    (hx : x ∈ timestamps (before ++ after)) (ht : b.m_tmStart = x.tsTime ∨ b.m_tmEnd = x.tsTime) :
    ∃ c ∈ after, x = c.startItem ∨ x = c.endItem := by
  induction after using List.reverseRecOn with
  | nil => cases hb
  | append_singleton after c ih =>
    have hs := sorted_timestamps (before ++ after)
    rw [← List.append_assoc, timestamps_append, setTimestamp, setTimestamp,
      OrderedMap.mem_set (hs.set _), OrderedMap.mem_set hs] at hx
    rcases hx with rfl | ⟨rfl | ⟨hx, hstart⟩, hend⟩
    · exact ⟨c, by simp, .inr rfl⟩
    · exact ⟨c, by simp, .inl rfl⟩
    · -- an event that is left is at no end point of the last block
      rcases List.mem_append.mp hb with hb | hb
      · obtain ⟨d, hd, hxd⟩ := ih hb hx
        exact ⟨d, List.mem_append_left _ hd, hxd⟩
      · rw [List.mem_singleton.mp hb] at ht
        rcases ht with ht | ht
        · exact absurd ht.symm hstart
        · exact absurd ht.symm hend

variable {before after : List (ℤ × ℤ)} {p : ℤ × ℤ}

/-- Every event of status 2 is of the marked block. -/
theorem eq_of_mem_marked {x : TSARRAY} (hx : x ∈ timestamps (marked before p after)) :
    x.ulStatus = 1 ∨ x = FBBlock_1.startItem ⟨p.1, p.2, 2⟩ ∨ x = FBBlock_1.endItem ⟨p.1, p.2, 2⟩ := by
  obtain ⟨b, hb, hxb⟩ := exists_of_mem_timestamps hx
  have hstatus : x.ulStatus = b.m_fbstatus := by
    rcases hxb with rfl | rfl
    · rfl
    · rfl
  rcases List.mem_append.mp hb with hb | hb
  · exact .inl (hstatus.trans (status_tentative hb))
  · rcases List.mem_cons.mp hb with rfl | hb
    · exact .inr hxb
    · exact .inl (hstatus.trans (status_tentative hb))

/-- At an end point of a later block, no event is of the marked block. -/
theorem status_eq_one {q : ℤ × ℤ} (hq : q ∈ after) {x : TSARRAY}
    (hx : x ∈ timestamps (marked before p after)) (ht : q.1 = x.tsTime ∨ q.2 = x.tsTime) : x.ulStatus = 1 := by
  rw [marked, List.append_cons] at hx
  obtain ⟨c, hc, hxc⟩ := exists_later (List.mem_map_of_mem hq) hx ht
  have hone := status_tentative hc
  rcases hxc with rfl | rfl
  · exact hone
  · exact hone

end Marked

/-! ## What is read of the statuses -/

section Statuses

variable {st : MergeState} {x : TSARRAY} {l : List TSARRAY} {v : ℕ}

/-- The block that a step adds ends at the event and has a status of the vector. -/
theorem mem_step (hb : b ∈ (st.step x).vcFBblocks) :
    b ∈ st.vcFBblocks ∨ b.m_tmEnd = x.tsTime ∧ b.m_fbstatus = st.vctStatus.foldr max 0 := by
  have hadd (h : b ∈ (st.addBlock x.tsTime).vcFBblocks) :
      b ∈ st.vcFBblocks ∨ b.m_tmEnd = x.tsTime ∧ b.m_fbstatus = st.vctStatus.foldr max 0 := by
    rw [MergeState.addBlock] at h
    simp only [getLast_insertionSort] at h
    split_ifs at h
    · rcases List.mem_append.mp h with h | h
      · exact .inl h
      · rw [List.mem_singleton.mp h]
        exact .inr ⟨rfl, rfl⟩
    · exact .inl h
  rw [MergeState.step] at hb
  cases hx : x.ulType with
  | START_TIME =>
    simp only [hx] at hb
    split_ifs at hb
    · exact hadd hb
    · exact .inl hb
  | END_TIME =>
    simp only [hx] at hb
    split_ifs at hb
    · exact hadd hb
    · exact .inl hb

/-- A start adds its status, and an end takes one away. -/
theorem mem_vctStatus_step :
    (x.ulType = .START_TIME → (v ∈ (st.step x).vctStatus ↔ v ∈ st.vctStatus ∨ v = x.ulStatus)) ∧
      (x.ulType = .END_TIME → (v ∈ (st.step x).vctStatus → v ∈ st.vctStatus) ∧
        (v ≠ x.ulStatus → (v ∈ (st.step x).vctStatus ↔ v ∈ st.vctStatus))) := by
  have hadd : v ∈ (st.addBlock x.tsTime).vctStatus ↔ v ∈ st.vctStatus := List.mem_insertionSort _
  rw [MergeState.step]
  constructor
  · intro hx
    simp only [hx, List.mem_append, List.mem_singleton]
    split_ifs
    · rw [hadd]
    · rfl
  · intro hx
    simp only [hx]
    split_ifs
    · exact ⟨fun h => hadd.mp (List.mem_of_mem_erase h), fun h => (List.mem_erase_of_ne h).trans hadd⟩
    · exact ⟨List.mem_of_mem_erase, List.mem_erase_of_ne⟩

/-- Without a start of a greater status, no greater status is shown. -/
theorem foldl_status_le (hl : ∀ x ∈ l, x.ulType = .START_TIME → x.ulStatus ≤ v)
    (hvct : ∀ s ∈ st.vctStatus, s ≤ v) (hout : ∀ b ∈ st.vcFBblocks, b.m_fbstatus ≤ v) :
    ∀ b ∈ (l.foldl MergeState.step st).vcFBblocks, b.m_fbstatus ≤ v := by
  induction l generalizing st with
  | nil => exact hout
  | cons x l ih =>
    rw [List.forall_mem_cons] at hl
    refine ih hl.2 (fun s hs => ?_) (fun b hb => ?_)
    · cases hx : x.ulType with
      | START_TIME =>
        rcases (mem_vctStatus_step.1 hx).mp hs with hs | rfl
        · exact hvct s hs
        · exact hl.1 hx
      | END_TIME => exact hvct s ((mem_vctStatus_step.2 hx).1 hs)
    · rcases mem_step hb with hb | ⟨-, hb⟩
      · exact hout b hb
      · rw [hb]
        exact foldr_max_le.mpr hvct

/-- Without an end of a status, the status stays. -/
theorem mem_foldl_of_mem (hl : ∀ x ∈ l, x.ulType = .END_TIME → x.ulStatus ≠ v)
    (hv : v ∈ st.vctStatus) : v ∈ (l.foldl MergeState.step st).vctStatus := by
  induction l generalizing st with
  | nil => exact hv
  | cons x l ih =>
    rw [List.forall_mem_cons] at hl
    refine ih hl.2 ?_
    cases hx : x.ulType with
    | START_TIME => exact (mem_vctStatus_step.1 hx).mpr (.inl hv)
    | END_TIME => exact ((mem_vctStatus_step.2 hx).2 (hl.1 hx).symm).mpr hv

/-- With a start of a status and no end of it, the status is in the vector at the end. -/
theorem mem_foldl (hl : ∀ x ∈ l, x.ulType = .END_TIME → x.ulStatus ≠ v) (hx : x ∈ l)
    (hstart : x.ulType = .START_TIME) (hv : x.ulStatus = v) : v ∈ (l.foldl MergeState.step st).vctStatus := by
  obtain ⟨l₁, l₂, rfl⟩ := List.append_of_mem hx
  rw [List.foldl_append, List.foldl_cons]
  refine mem_foldl_of_mem (fun y hy => hl y (by simp [hy])) ?_
  exact (mem_vctStatus_step.1 hstart).mpr (.inr hv.symm)

theorem tsLastTime_step : (st.step x).tsLastTime = x.tsTime := by
  rw [MergeState.step]
  cases x.ulType with
  | START_TIME => rfl
  | END_TIME => rfl

/-- The last instant is not before any event. -/
theorem le_tsLastTime (st : MergeState) (hl : OrderedMap.Sorted TSARRAY.tsTime l) (hx : x ∈ l) :
    x.tsTime ≤ (l.foldl MergeState.step st).tsLastTime := by
  rcases l.eq_nil_or_concat' with rfl | ⟨l, y, rfl⟩
  · cases hx
  · rw [List.foldl_append, List.foldl_cons, List.foldl_nil, tsLastTime_step]
    rcases List.mem_append.mp hx with hx | hx
    · exact ((List.pairwise_append.mp hl).2.2 x hx y List.mem_cons_self).le
    · rw [List.mem_singleton.mp hx]

/-- Every block ends at an event. -/
theorem exists_end (hb : b ∈ (l.foldl MergeState.step st).vcFBblocks) :
    b ∈ st.vcFBblocks ∨ ∃ x ∈ l, b.m_tmEnd = x.tsTime := by
  induction l generalizing st with
  | nil => exact .inl hb
  | cons x l ih =>
    rcases ih hb with hb | ⟨y, hy, hby⟩
    · rcases mem_step hb with hb | ⟨hb, -⟩
      · exact .inl hb
      · exact .inr ⟨x, List.mem_cons_self, hb⟩
    · exact .inr ⟨y, List.mem_cons_of_mem _ hy, hby⟩

end Statuses

/-! ## What a lost event does -/

variable {out : List FBBlock_1}

section Lost

variable {before after : List (ℤ × ℤ)} {p : ℤ × ℤ}

variable {t : ℤ}

theorem le_statusAt {v : ℕ} (hout : ∀ b ∈ out, b.m_fbstatus ≤ v) : statusAt out t ≤ v := by
  rw [statusAt]
  cases hb : out.find? (·.Contains t) with
  | none => exact Nat.zero_le v
  | some b => exact hout b (List.mem_of_find?_eq_some hb)

theorem le_highestStatus {blocks : List FBBlock_1} (hb : b ∈ blocks)
    (ht : b.Contains t) : b.m_fbstatus ≤ highestStatus blocks t := by
  refine foldr_max_le.mp le_rfl _ (List.mem_map_of_mem ?_)
  exact List.mem_filter.mpr ⟨hb, decide_eq_true ht⟩

/-- Where the marked block does not contain the instant, the highest status is at most 1. -/
theorem highestStatus_le_one (ht : ¬ (p.1 ≤ t ∧ t < p.2)) : highestStatus (marked before p after) t ≤ 1 := by
  refine foldr_max_le.mpr fun s hs => ?_
  obtain ⟨b, hb, rfl⟩ := List.mem_map.mp hs
  obtain ⟨hb, hc⟩ := List.mem_filter.mp hb
  rcases List.mem_append.mp hb with hb | hb
  · exact (status_tentative hb).le
  · rcases List.mem_cons.mp hb with rfl | hb
    · exact absurd (of_decide_eq_true hc) ht
    · exact (status_tentative hb).le

/-- If the start of the marked block is lost, its status is never shown. -/
theorem startItem_mem_of_merged (hp : p.1 < p.2)
    (hm : Merged (marked before p after) (mergedBlocks (marked before p after))) :
    FBBlock_1.startItem ⟨p.1, p.2, 2⟩ ∈ timestamps (marked before p after) := by
  by_contra hlost
  have hout : ∀ b ∈ mergedBlocks (marked before p after), b.m_fbstatus ≤ 1 := by
    refine foldl_status_le (fun x hx hstart => ?_) (by simp) (by simp)
    rcases eq_of_mem_marked hx with hone | rfl | rfl
    · exact hone.le
    · exact absurd hx hlost
    · cases hstart
  have hshown := hm.status p.1
  have hle := le_statusAt (t := p.1) hout
  have hge : 2 ≤ highestStatus (marked before p after) p.1 :=
    le_highestStatus (mem_marked before p after) ⟨le_rfl, hp⟩
  omega

/-- If the end of the marked block is lost and a block ends later, its status is shown after its end. -/
theorem endItem_mem_of_merged (hpos : ∀ q ∈ before ++ p :: after, q.1 < q.2)
    (hm : Merged (marked before p after) (mergedBlocks (marked before p after)))
    {q : ℤ × ℤ} (hq : q ∈ before ++ p :: after) (hpq : p.2 < q.2) :
    FBBlock_1.endItem ⟨p.1, p.2, 2⟩ ∈ timestamps (marked before p after) := by
  by_contra hlost
  have hstart := startItem_mem_of_merged (hpos p (by simp)) hm
  have hsorted := sorted_timestamps (marked before p after)
  rw [← times_marked] at hpos hq
  replace hpos : ∀ b ∈ marked before p after, b.m_tmStart < b.m_tmEnd :=
    fun b hb => hpos b.times (List.mem_map_of_mem hb)
  obtain ⟨c, hc, rfl⟩ := List.mem_map.mp hq
  -- the last event is the end of a block, and it is later than the lost one
  obtain ⟨past, x, hts⟩ : ∃ past x, timestamps (marked before p after) = past ++ [x] := by
    rcases (timestamps (marked before p after)).eq_nil_or_concat' with hnil | h
    · rw [hnil] at hstart
      cases hstart
    · exact h
  obtain ⟨⟨d, hd, rfl⟩, hbefore⟩ := exists_endItem_last hpos hts
  have hlast : p.2 < d.m_tmEnd := by
    obtain ⟨y, hy, hyc⟩ := (exists_tsTime_eq hc).2
    rw [hts, List.mem_append, List.mem_singleton] at hy
    have hle : c.m_tmEnd ≤ d.m_tmEnd := by
      rcases hy with hy | rfl
      · exact hyc ▸ (hbefore y hy).le
      · exact hyc.ge
    exact hpq.trans_le hle
  have hpast (y : TSARRAY) (hy : y ∈ timestamps (marked before p after))
      (hne : y ≠ d.endItem) : y ∈ past := by
    rw [hts, List.mem_append, List.mem_singleton] at hy
    exact hy.resolve_right hne
  rw [hts, OrderedMap.Sorted, List.pairwise_append] at hsorted
  obtain ⟨st, hst⟩ : ∃ st, past.foldl MergeState.step ⟨0, [], 0, []⟩ = st := ⟨_, rfl⟩
  have hnext : p.2 ≤ st.tsLastTime := by
    obtain ⟨y, hy, hyp⟩ := (exists_tsTime_eq (mem_marked before p after)).2
    have hne : y ≠ d.endItem := by
      rintro rfl
      exact hlast.ne hyp.symm
    have hle := le_tsLastTime ⟨0, [], 0, []⟩ hsorted.1 (hpast y hy hne)
    rw [hst] at hle
    exact hyp.ge.trans hle
  have hlt : st.tsLastTime < d.m_tmEnd := by
    rcases past.eq_nil_or_concat' with rfl | ⟨past, y, rfl⟩
    · cases hpast _ hstart (by rintro ⟨⟩)
    · rw [← hst, List.foldl_append, List.foldl_cons, List.foldl_nil, tsLastTime_step]
      exact hbefore y (by simp)
  have hmem : 2 ∈ st.vctStatus := by
    rw [← hst]
    refine mem_foldl (fun y hy hend => ?_) (hpast _ hstart (by rintro ⟨⟩)) rfl rfl
    rcases eq_of_mem_marked (hts ▸ List.mem_append_left _ hy) with hone | rfl | rfl
    · rw [hone]
      decide
    · cases hend
    · exact absurd (hts ▸ List.mem_append_left _ hy) hlost
  have hge : 2 ≤ st.vctStatus.foldr max 0 := foldr_max_le.mp le_rfl 2 hmem
  have hends : ∀ b ∈ st.vcFBblocks, b.m_tmEnd ≤ st.tsLastTime := by
    intro b hb
    rw [← hst] at hb
    rcases exists_end hb with hb | ⟨y, hy, hby⟩
    · cases hb
    · exact hst ▸ hby ▸ le_tsLastTime ⟨0, [], 0, []⟩ hsorted.1 hy
  have hout : mergedBlocks (marked before p after) =
      st.vcFBblocks ++ [⟨st.tsLastTime, d.m_tmEnd, st.vctStatus.foldr max 0⟩] := by
    rw [mergedBlocks, hts, List.foldl_append, hst, List.foldl_cons, List.foldl_nil, MergeState.step,
      MergeState.addBlock]
    simp only [FBBlock_1.endItem, getLast_insertionSort, hlt.ne, ne_eq, not_false_eq_true, if_true]
    rw [if_pos (by omega)]
  have hshown := hm.status st.tsLastTime
  rw [hout, statusAt_concat_inside hends le_rfl hlt] at hshown
  have hle : highestStatus (marked before p after) st.tsLastTime ≤ 1 :=
    highestStatus_le_one (by omega)
  omega

end Lost

/-- A list that is not pairwise related has a value that is not related to a later one. -/
theorem exists_not_rel {α : Type*} {R : α → α → Prop} {l : List α} (h : ¬ l.Pairwise R) :
    ∃ l₁ a l₂, l = l₁ ++ a :: l₂ ∧ ∃ b ∈ l₂, ¬ R a b := by
  induction l with
  | nil => exact absurd List.Pairwise.nil h
  | cons a l ih =>
    by_cases ha : ∀ b ∈ l, R a b
    · have hl : ¬ l.Pairwise R := fun hl => h (List.pairwise_cons.mpr ⟨ha, hl⟩)
      obtain ⟨l₁, c, l₂, rfl, hb⟩ := ih hl
      exact ⟨a :: l₁, c, l₂, rfl, hb⟩
    · push Not at ha
      exact ⟨[], a, l, rfl, ha⟩

/-! ## The room for the output -/

/-- The end points that lie in a block. -/
def coveredEnds (times : List (ℤ × ℤ)) : Finset ℤ :=
  (endPoints times).filter fun t => ∃ p ∈ times, p.1 ≤ t ∧ t < p.2

/-- The memory for the output has room for the blocks at these times, whatever their statuses are. -/
def OutputFits (times : List (ℤ × ℤ)) : Prop := FBBlock_1.sizeof * (coveredEnds times).card < 2 ^ 32

theorem hrMergeBlocks_eq_some_iff {lpFbBlocks : List FBBlock_1} : hrMergeBlocks lpFbBlocks = some out ↔
      out = mergedBlocks lpFbBlocks ∧ FBBlock_1.sizeof * (mergedBlocks lpFbBlocks).length < 2 ^ 32 := by
  have hroom (n : ℕ) : n ≤ n % 2 ^ 32 ↔ n < 2 ^ 32 := by omega
  rw [hrMergeBlocks]
  simp only [hroom]
  split_ifs with hfits
  · rw [Option.some_inj, eq_comm, and_iff_left hfits]
  · exact iff_of_false (by simp) fun h => hfits h.2

/-- A status is shown at covered end points only. -/
theorem length_merged_le {blocks : List FBBlock_1} (h : Merged blocks out) (hsharp : Sharp blocks out) :
    out.length ≤ (coveredEnds (blocks.map FBBlock_1.times)).card := by
  rw [length_merged h hsharp]
  refine Finset.card_le_card fun t ht => ?_
  obtain ⟨hend, hstatus⟩ := Finset.mem_filter.mp ht
  rw [← h.status t, statusAt_ne_zero hsharp.busy] at hstatus
  obtain ⟨b, hb, hc⟩ := hstatus
  refine Finset.mem_filter.mpr ⟨hend, ?_⟩
  by_contra hnone
  have hfree : highestStatus blocks t ≤ 0 := by
    refine foldr_max_le.mpr fun s hs => ?_
    obtain ⟨a, ha, rfl⟩ := List.mem_map.mp hs
    obtain ⟨ha, hcontains⟩ := List.mem_filter.mp ha
    exact absurd ⟨a.times, List.mem_map_of_mem ha, of_decide_eq_true hcontains⟩ hnone
  have hshown := (statusAt_ne_zero hsharp.busy).mpr ⟨b, hb, hc⟩
  rw [h.status t] at hshown
  exact hshown (Nat.le_zero.mp hfree)

/-- At all of them when no block is free. -/
theorem card_coveredEnds_le {times : List (ℤ × ℤ)} (h : Merged (tentative times) out)
    (hsharp : Sharp (tentative times) out) : (coveredEnds times).card ≤ out.length := by
  rw [length_merged h hsharp, times_tentative]
  refine Finset.card_le_card fun t ht => ?_
  obtain ⟨hend, p, hp, hc⟩ := Finset.mem_filter.mp ht
  refine Finset.mem_filter.mpr ⟨hend, ?_⟩
  have hone : 1 ≤ highestStatus (tentative times) t :=
    le_highestStatus (b := ⟨p.1, p.2, 1⟩) (List.mem_map_of_mem hp) hc
  exact Nat.one_le_iff_ne_zero.mp hone

/-- Blocks are merged right for all their statuses if and only if their end points are apart and the output has
room. -/
theorem hrMergeBlocks_merged_iff (times : List (ℤ × ℤ)) (hlen : times.length < 2 ^ 32)
    (hpos : ∀ p ∈ times, p.1 < p.2) : (∀ lpFbBlocks : List FBBlock_1, lpFbBlocks.map FBBlock_1.times = times →
      ∃ out, hrMergeBlocks lpFbBlocks = some out ∧ Merged lpFbBlocks out) ↔ ApartEnds times ∧ OutputFits times := by
  have hgood {lpFbBlocks : List FBBlock_1} (htimes : lpFbBlocks.map FBBlock_1.times = times)
      (hap : ApartEnds times) : Merged lpFbBlocks (mergedBlocks lpFbBlocks) ∧
        Sharp lpFbBlocks (mergedBlocks lpFbBlocks) := by
    subst htimes
    rw [List.length_map] at hlen
    exact mergedBlocks_of_apart hlen (fun b hb => hpos b.times (List.mem_map_of_mem hb)) hap
  constructor
  · intro hall
    have hap : ApartEnds times := by
      by_contra hap
      obtain ⟨before, p, after, rfl, q, hq, hpq⟩ := exists_not_rel hap
      obtain ⟨out, hout, hm⟩ := hall (marked before p after) (times_marked before p after)
      obtain ⟨rfl, -⟩ := hrMergeBlocks_eq_some_iff.mp hout
      have hstart := startItem_mem_of_merged (hpos p (by simp)) hm
      refine hpq ⟨fun h => ?_, fun h => ?_, fun h => ?_, fun h c hc => ?_⟩
      · cases status_eq_one hq hstart (.inl h.symm)
      · cases status_eq_one hq hstart (.inr h.symm)
      · -- the other block starts at the end of this one and so ends later
        have hqlt := hpos q (by simp [hq])
        have hend := endItem_mem_of_merged hpos hm (q := q) (by simp [hq]) (h ▸ hqlt)
        cases status_eq_one hq hend (.inl h)
      · by_contra hlt
        have hend := endItem_mem_of_merged hpos hm hc (not_le.mp hlt)
        cases status_eq_one hq hend (.inr h.symm)
    obtain ⟨out, hout, -⟩ := hall (tentative times) (times_tentative times)
    obtain ⟨-, hroom⟩ := hrMergeBlocks_eq_some_iff.mp hout
    obtain ⟨hm, hsharp⟩ := hgood (times_tentative times) hap
    exact ⟨hap, (Nat.mul_le_mul_left _ (card_coveredEnds_le hm hsharp)).trans_lt hroom⟩
  · rintro ⟨hap, hfits⟩ lpFbBlocks htimes
    obtain ⟨hm, hsharp⟩ := hgood htimes hap
    have hle := length_merged_le hm hsharp
    rw [htimes] at hle
    exact ⟨_, hrMergeBlocks_eq_some_iff.mpr ⟨rfl, (Nat.mul_le_mul_left _ hle).trans_lt hfits⟩, hm⟩

/-- Three blocks, of which two overlap and two end together at last. -/
theorem hrMergeBlocks_merged_iff_three :
    (∀ lpFbBlocks : List FBBlock_1, lpFbBlocks.map FBBlock_1.times = [(1, 4), (2, 9), (8, 9)] →
      ∃ out, hrMergeBlocks lpFbBlocks = some out ∧ Merged lpFbBlocks out) ↔
        ApartEnds [(1, 4), (2, 9), (8, 9)] ∧ OutputFits [(1, 4), (2, 9), (8, 9)] :=
  hrMergeBlocks_merged_iff _ (by decide) (by decide)

/-- Two blocks with the same start: the end of the first one closes the only start that is left. -/
theorem hrMergeBlocks_sameStart : ∃ out, hrMergeBlocks [⟨1, 3, 2⟩, ⟨1, 5, 2⟩] = some out ∧
    ¬ Merged [⟨1, 3, 2⟩, ⟨1, 5, 2⟩] out := by
  refine ⟨[⟨1, 3, 2⟩], by decide, fun h => ?_⟩
  have h3 := h.status 3
  revert h3
  decide

end Zcp.FreeBusy
