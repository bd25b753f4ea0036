import Zcp.FreeBusy.FreeBusyUtil.Months

/-!
# Reading events into a block list

`ParseFBEvents` adds the interval of an event, or glues it to the block that ends where it starts. The
blocks never cover more than the intervals (`covers_read`), and for intervals in the order of time they
cover as much (`covers_readAll`).
-/

namespace Zcp.FreeBusy

open Zcp.Lib Zcp.Common

/-- A block of a status contains a minute. -/
def Covers (s : ℕ) (blocks : List FBBlock_1) (t : ℤ) : Prop :=
  ∃ b ∈ blocks, b.m_fbstatus = s ∧ b.Contains t

/-- An interval contains a minute. -/
def InInterval (t : ℤ) (i : ℤ × ℤ) : Prop := i.1 ≤ t ∧ t < i.2

section Reading

variable {s : ℕ} {t : ℤ}

theorem covers_nil : ¬ Covers s [] t := by
  rintro ⟨b, hb, -⟩
  cases hb

theorem covers_append {l₁ l₂ : List FBBlock_1} : Covers s (l₁ ++ l₂) t ↔ Covers s l₁ t ∨ Covers s l₂ t := by
  unfold Covers
  constructor
  · rintro ⟨b, hb, h⟩
    exact (List.mem_append.mp hb).imp (fun hb => ⟨b, hb, h⟩) fun hb => ⟨b, hb, h⟩
  · rintro (⟨b, hb, h⟩ | ⟨b, hb, h⟩)
    · exact ⟨b, List.mem_append_left _ hb, h⟩
    · exact ⟨b, List.mem_append_right _ hb, h⟩

variable {b : FBBlock_1}

theorem covers_singleton : Covers s [b] t ↔ b.m_fbstatus = s ∧ b.Contains t := by
  simp [Covers]

/-! ## No more than the intervals -/

variable {m : List FBBlock_1}

theorem covers_insert (hm : OrderedMap.Sorted FBBlock_1.m_tmStart m) (h : Covers s (ECFBBlockList.insert b m) t) :
    Covers s m t ∨ InInterval t (b.m_tmStart, b.m_tmEnd) := by
  obtain ⟨c, hc, hst, hct⟩ := h
  unfold ECFBBlockList.insert at hc
  split_ifs at hc
  · exact .inl ⟨c, hc, hst, hct⟩
  · rcases (OrderedMap.mem_set hm).mp hc with rfl | ⟨hc, -⟩
    · exact .inr hct
    · exact .inl ⟨c, hc, hst, hct⟩

theorem covers_mergeEnd (h : Covers s (ECFBBlockList.mergeEnd b m) t) :
    Covers s m t ∨ InInterval t (b.m_tmStart, b.m_tmEnd) := by
  induction m with
  | nil => exact .inl h
  | cons a m ih =>
    rw [ECFBBlockList.mergeEnd] at h
    split_ifs at h with heq
    · obtain ⟨c, hc, hst, hct⟩ := h
      rcases List.mem_cons.mp hc with rfl | hc
      · by_cases hin : t < a.m_tmEnd
        · exact .inl ⟨a, List.mem_cons_self, hst, hct.1, hin⟩
        · exact .inr ⟨heq ▸ not_lt.mp hin, hct.2⟩
      · exact .inl ⟨c, List.mem_cons_of_mem _ hc, hst, hct⟩
    · obtain ⟨c, hc, hst, hct⟩ := h
      rcases List.mem_cons.mp hc with rfl | hc
      · exact .inl ⟨c, List.mem_cons_self, hst, hct⟩
      · rcases ih ⟨c, hc, hst, hct⟩ with ⟨c', hc', h'⟩ | h'
        · exact .inl ⟨c', List.mem_cons_of_mem _ hc', h'⟩
        · exact .inr h'

theorem covers_merge {l : ECFBBlockList} (h : Covers s (l.merge b).2.m_FBMap t) :
    Covers s l.m_FBMap t ∨ InInterval t (b.m_tmStart, b.m_tmEnd) := by
  unfold ECFBBlockList.merge at h
  split_ifs at h
  · exact covers_mergeEnd h
  · exact .inl h

variable {st : ℤ × ECFBBlockList}

theorem covers_readEvent {e : LONG × SfbEvent} {s' : ℕ} (h : Covers s (readEvent s' st e).2.m_FBMap t) :
    Covers s st.2.m_FBMap t ∨ InInterval t (readInterval e) := by
  unfold readEvent at h
  dsimp only at h
  split_ifs at h
  · exact covers_merge h
  · exact covers_insert st.2.sorted h

/-- The blocks cover no more than the intervals of the events. -/
theorem covers_read {events : List (LONG × SfbEvent)} {s' : ℕ}
    (h : Covers s (events.foldl (readEvent s') st).2.m_FBMap t) :
    Covers s st.2.m_FBMap t ∨ ∃ e ∈ events, InInterval t (readInterval e) := by
  induction events generalizing st with
  | nil => exact .inl h
  | cons e events ih =>
    rcases ih h with h | ⟨e', he', h⟩
    · exact (covers_readEvent h).imp_right fun h => ⟨e, List.mem_cons_self, h⟩
    · exact .inr ⟨e', List.mem_cons_of_mem _ he', h⟩

/-! ## As much as the intervals -/

/-- The blocks that were read from intervals in the order of time: each starts behind the end of the one
before, and `e` is the end of the last one. -/
structure ReadTo (s : ℕ) (m : List FBBlock_1) (e : ℤ) : Prop where
  status : ∀ b ∈ m, b.m_fbstatus = s
  nonempty : ∀ b ∈ m, b.m_tmStart < b.m_tmEnd
  apart : m.Pairwise fun a b => a.m_tmEnd < b.m_tmStart
  last : ∀ b ∈ m, b.m_tmEnd ≤ e
  ends : m ≠ [] → ∃ b ∈ m, b.m_tmEnd = e

theorem insert_of_forall_lt (h : ∀ a ∈ m, a.m_tmStart < b.m_tmStart) : ECFBBlockList.insert b m = m ++ [b] := by
  have hset : ∀ l : List FBBlock_1, (∀ a ∈ l, a.m_tmStart < b.m_tmStart) →
      OrderedMap.set FBBlock_1.m_tmStart b l = l ++ [b] := by
    intro l hl
    induction l with
    | nil => rfl
    | cons a l ih =>
      obtain ⟨ha, hl⟩ := List.forall_mem_cons.mp hl
      rw [OrderedMap.set, if_neg ha.le.not_gt, if_neg ha.ne', ih hl]
      rfl
  have hnone : OrderedMap.get FBBlock_1.m_tmStart b.m_tmStart m = none :=
    OrderedMap.get_eq_none.mpr fun a ha => (h a ha).ne
  rw [ECFBBlockList.insert, hnone, if_neg (by decide), hset m h]

variable {e : ℤ}

/-- Adding an interval behind the last block. -/
theorem ReadTo.add (h : ReadTo s m e) (hst : b.m_fbstatus = s) (hb : b.m_tmStart < b.m_tmEnd) (he : e < b.m_tmStart) :
    ECFBBlockList.insert b m = m ++ [b] ∧ ReadTo s (m ++ [b]) b.m_tmEnd := by
  refine ⟨insert_of_forall_lt fun a ha => ?_, ?_⟩
  · exact (h.nonempty a ha).trans ((h.last a ha).trans_lt he)
  · refine ⟨?_, ?_, ?_, ?_, fun _ => ⟨b, by simp, rfl⟩⟩
    · exact List.forall_mem_append.mpr ⟨h.status, by simpa using hst⟩
    · exact List.forall_mem_append.mpr ⟨h.nonempty, by simpa using hb⟩
    · refine List.pairwise_append.mpr ⟨h.apart, List.pairwise_singleton _ _, fun a ha c hc => ?_⟩
      rw [List.mem_singleton.mp hc]
      exact (h.last a ha).trans_lt he
    · refine List.forall_mem_append.mpr ⟨fun a ha => ?_, by simp⟩
      exact (h.last a ha).trans (he.le.trans hb.le)

/-- The block that ends at the end of all is the last one. -/
theorem ReadTo.eq_concat (h : ReadTo s m e) (hne : m ≠ []) :
    ∃ m' b, m = m' ++ [b] ∧ b.m_tmEnd = e ∧ ∀ a ∈ m', a.m_tmEnd < b.m_tmStart := by
  obtain ⟨m', b, rfl⟩ := (List.eq_nil_or_concat' m).resolve_left hne
  have hapart := (List.pairwise_append.mp h.apart).2.2
  refine ⟨m', b, rfl, ?_, fun a ha => hapart a ha b (by simp)⟩
  obtain ⟨c, hc, hce⟩ := h.ends (by simp)
  rcases List.mem_append.mp hc with hc | hc
  · have hlt := hapart c hc b (by simp)
    have hb := h.nonempty b (by simp)
    have hle := h.last b (by simp)
    omega
  · rw [List.mem_singleton.mp hc] at hce
    exact hce

theorem mergeEnd_concat {a : FBBlock_1} (ha : a.m_tmEnd = b.m_tmStart) (hm : ∀ c ∈ m, c.m_tmEnd ≠ b.m_tmStart) :
    ECFBBlockList.mergeEnd b (m ++ [a]) = m ++ [{ a with m_tmEnd := b.m_tmEnd }] := by
  induction m with
  | nil => exact if_pos ha
  | cons c m ih =>
    obtain ⟨hc, hm⟩ := List.forall_mem_cons.mp hm
    rw [List.cons_append, ECFBBlockList.mergeEnd, if_neg hc, ih hm]
    rfl

/-- Gluing an interval to the last block. -/
theorem ReadTo.merge {l : ECFBBlockList} (h : ReadTo s l.m_FBMap e) (hne : l.m_FBMap ≠ [])
    (hb : b.m_tmStart ≤ b.m_tmEnd) (he : e = b.m_tmStart) :
    ReadTo s (l.merge b).2.m_FBMap b.m_tmEnd ∧ (l.merge b).2.m_FBMap ≠ [] ∧ ∀ t, Covers s (l.merge b).2.m_FBMap t ↔
        Covers s l.m_FBMap t ∨ InInterval t (b.m_tmStart, b.m_tmEnd) := by
  obtain ⟨m, a, hm, ha, hbefore⟩ := h.eq_concat hne
  have hstart : a.m_tmStart < a.m_tmEnd := h.nonempty a (by simp [hm])
  have hlt {c : FBBlock_1} (hc : c ∈ m) : c.m_tmEnd < b.m_tmStart := by
    have hca := hbefore c hc
    omega
  have hmerged : (l.merge b).2.m_FBMap = m ++ [{ a with m_tmEnd := b.m_tmEnd }] := by
    have hany : l.m_FBMap.any (fun c => c.m_tmEnd = b.m_tmStart) = true := by
      rw [List.any_eq_true]
      exact ⟨a, by simp [hm], by simpa using ha.trans he⟩
    rw [ECFBBlockList.merge, if_pos hany]
    show ECFBBlockList.mergeEnd b l.m_FBMap = _
    rw [hm]
    exact mergeEnd_concat (ha.trans he) fun c hc => (hlt hc).ne
  rw [hmerged]
  rw [hm] at h ⊢
  refine ⟨⟨?_, ?_, ?_, ?_, fun _ => ⟨_, List.mem_append_right _ (List.mem_singleton_self _), rfl⟩⟩,
    by simp, fun t => ?_⟩
  · obtain ⟨hst, hst'⟩ := List.forall_mem_append.mp h.status
    exact List.forall_mem_append.mpr ⟨hst, by simpa using hst'⟩
  · obtain ⟨hn, -⟩ := List.forall_mem_append.mp h.nonempty
    refine List.forall_mem_append.mpr ⟨hn, ?_⟩
    rw [List.forall_mem_singleton]
    show a.m_tmStart < b.m_tmEnd
    omega
  · refine List.pairwise_append.mpr ⟨(List.pairwise_append.mp h.apart).1,
      List.pairwise_singleton _ _, fun c hc d hd => ?_⟩
    rw [List.mem_singleton.mp hd]
    exact hbefore c hc
  · refine List.forall_mem_append.mpr ⟨fun c hc => ?_, by simp⟩
    exact (hlt hc).le.trans hb
  · have hst : a.m_fbstatus = s := h.status a (by simp)
    rw [covers_append, covers_append, covers_singleton, covers_singleton, or_assoc]
    refine or_congr_right ?_
    unfold FBBlock_1.Contains InInterval
    dsimp only
    rw [and_iff_right hst, and_iff_right hst]
    omega

/-- An interval comes after the end of the one before, or starts there. -/
def Follows (e : ℤ) (i : ℤ × ℤ) : Prop := e < i.1 ∧ i.1 < i.2 ∨ e = i.1 ∧ i.1 ≤ i.2

/-- The intervals are in the order of time. -/
def InOrder : ℤ → List (ℤ × ℤ) → Prop
  | _, [] => True
  | e, i :: is => Follows e i ∧ InOrder i.2 is

/-- Reading one interval behind others. -/
theorem ReadTo.readEvent (h : ReadTo s st.2.m_FBMap st.1)
    {e : LONG × SfbEvent} (hfollows : Follows st.1 (readInterval e))
    (hfirst : st.2.m_FBMap = [] → st.1 < (readInterval e).1) : (readEvent s st e).1 = (readInterval e).2 ∧
      ReadTo s (readEvent s st e).2.m_FBMap (readInterval e).2 ∧ (readEvent s st e).2.m_FBMap ≠ [] ∧
      ∀ t, Covers s (readEvent s st e).2.m_FBMap t ↔ Covers s st.2.m_FBMap t ∨ InInterval t (readInterval e) := by
  obtain ⟨e', l⟩ := st
  unfold Zcp.FreeBusy.readEvent
  dsimp only at *
  by_cases heq : e' = eventTime e.1 e.2.rtmStart
  · rw [if_pos heq]
    have hne : l.m_FBMap ≠ [] := fun hnil => (hfirst hnil).ne heq
    have hle : eventTime e.1 e.2.rtmStart ≤ eventTime e.1 e.2.rtmEnd :=
      hfollows.elim (fun h => h.2.le) fun h => h.2
    obtain ⟨hread, hne', hcovers⟩ := h.merge hne
      (b := ⟨eventTime e.1 e.2.rtmStart, eventTime e.1 e.2.rtmEnd, s⟩) hle heq
    exact ⟨rfl, hread, hne', hcovers⟩
  · rw [if_neg heq]
    obtain ⟨hlt, hlt'⟩ := hfollows.resolve_right fun h => heq h.1
    obtain ⟨hinsert, hread⟩ := h.add
      (b := ⟨eventTime e.1 e.2.rtmStart, eventTime e.1 e.2.rtmEnd, s⟩) rfl hlt' hlt
    refine ⟨rfl, ?_, ?_, fun t => ?_⟩
    · show ReadTo s (ECFBBlockList.insert _ l.m_FBMap) _
      rw [hinsert]
      exact hread
    · show ECFBBlockList.insert _ l.m_FBMap ≠ []
      rw [hinsert]
      simp
    · show Covers s (ECFBBlockList.insert _ l.m_FBMap) t ↔ _
      rw [hinsert, covers_append, covers_singleton, and_iff_right rfl]
      rfl

/-- The blocks cover the intervals of events that are in the order of time. -/
theorem covers_readAll {events : List (LONG × SfbEvent)}
    (h : ReadTo s st.2.m_FBMap st.1) (horder : InOrder st.1 (events.map readInterval))
    (hfirst : st.2.m_FBMap = [] → ∀ e ∈ events.head?, st.1 < (readInterval e).1) :
    ∀ t, Covers s (events.foldl (readEvent s) st).2.m_FBMap t ↔
      Covers s st.2.m_FBMap t ∨ ∃ e ∈ events, InInterval t (readInterval e) := by
  induction events generalizing st with
  | nil =>
    intro t
    simp
  | cons e events ih =>
    obtain ⟨hfollows, horder⟩ := horder
    obtain ⟨hend, hread, hne, hcovers⟩ := h.readEvent hfollows fun hnil => hfirst hnil e rfl
    rw [← hend] at hread horder
    intro t
    rw [List.foldl_cons, ih hread horder (fun hnil => absurd hnil hne) t, hcovers, or_assoc]
    simp only [List.mem_cons, exists_eq_or_imp]

end Reading

end Zcp.FreeBusy
