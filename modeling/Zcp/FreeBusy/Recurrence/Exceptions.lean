import Zcp.FreeBusy.Recurrence.Blob
import Zcp.FreeBusy.Recurrence.Days
import Zcp.M4lcommon.RecurrenceState.Recovery

/-!
# Deleted and moved occurrences

A modification deletes the day of the occurrence as well, and `getDeletedExceptions` takes one deletion back for each
exception. `HrGetRecurrenceState` leaves the end of the sorted list behind the different days, so that a day that was
moved can be there once more when other days were deleted repeatedly.
-/

namespace Zcp.FreeBusy.Recurrence

open Zcp.Lib Zcp.Common Zcp.M4lcommon RecurrenceState

/-! ## The end of a sorted list -/

variable {l : List UInt}

/-- An element of a sorted list is behind the first `k` of them if more than `k` are not larger. -/
theorem mem_drop_iff (hsorted : l.Pairwise (· ≤ ·)) {x : UInt} (hx : x ∈ l) (k : ℕ) :
    x ∈ l.drop k ↔ k < l.countP (· ≤ x) := by
  induction l generalizing k with
  | nil => exact absurd hx List.not_mem_nil
  | cons a l ih =>
    obtain ⟨hle, hsorted⟩ := List.pairwise_cons.mp hsorted
    cases k with
    | zero => exact iff_of_true hx (List.countP_pos_iff.mpr ⟨x, hx, by simp⟩)
    | succ k =>
      rw [List.drop_succ_cons]
      by_cases hmem : x ∈ l
      · rw [ih hsorted hmem, List.countP_cons_of_pos (by simpa using hle x hmem)]
        omega
      · obtain rfl : x = a := (List.mem_cons.mp hx).resolve_right hmem
        -- the others are larger
        have hnone : l.countP (· ≤ x) = 0 := by
          refine List.countP_eq_zero.mpr fun y hy => ?_
          have hne : x.toNat ≠ y.toNat := fun h => hmem (BitVec.eq_of_toNat_eq h ▸ hy)
          have hxy : x.toNat ≤ y.toNat := hle y hy
          rw [decide_eq_true_eq]
          intro hyx
          have hyx : y.toNat ≤ x.toNat := hyx
          omega
        rw [List.countP_cons_of_pos (by simp), hnone]
        exact iff_of_false (fun h => hmem (List.mem_of_mem_drop h)) (by omega)

/-- What `sort` and `unique` leave of an element: once, and once more for each time that it is at the end. -/
theorem count_sortUnique {d : UInt} (hd : d ∈ l) : (sortUnique l).count d =
      1 + ((l.insertionSort (· ≤ ·)).drop (l.insertionSort (· ≤ ·)).dedup.length).count d := by
  have hmem : d ∈ (l.insertionSort (· ≤ ·)).dedup := List.mem_dedup.mpr ((List.mem_insertionSort _).mpr hd)
  rw [sortUnique_eq, List.count_append, List.count_eq_one_of_mem (List.nodup_dedup _) hmem]

/-- Whether an element is at the end. -/
theorem mem_end_iff {d : UInt} (hd : d ∈ l) :
    d ∈ (l.insertionSort (· ≤ ·)).drop (l.insertionSort (· ≤ ·)).dedup.length ↔
      l.toFinset.card < l.countP (· ≤ d) := by
  have hperm := List.perm_insertionSort (· ≤ ·) l
  rw [mem_drop_iff (sorted_insertionSort l) ((List.mem_insertionSort _).mpr hd), hperm.countP_eq,
    hperm.dedup.length_eq, ← List.card_toFinset]

/-! ## Times -/

/-- A time that has a relative time: from 1601 on, for 2 ^ 31 minutes. -/
def Representable (t : ℤ) : Prop := -11644473600 ≤ t ∧ t < -11644473600 + 60 * 2 ^ 31

instance : DecidablePred Representable := fun _ => inferInstanceAs (Decidable (_ ∧ _))

/-- A time becomes a number of minutes of 31 bits, the minutes since 1601 where these fit. -/
theorem toInt_toRTime (t : ℤ) :
    0 ≤ (toRTime t).toInt ∧ (toRTime t).toInt < 2 ^ 31 ∧ (toRTime t).toInt = unixTimeToRTime t := by
  have hbounds : 0 ≤ unixTimeToRTime t ∧ unixTimeToRTime t < 2 ^ 31 := by
    unfold unixTimeToRTime
    omega
  have htoInt : (toRTime t).toInt = unixTimeToRTime t := by
    rw [toRTime, BitVec.toInt_ofInt]
    exact Int.bmod_eq_of_le (by omega) (by omega)
  omega

theorem representable_rTimeToUnixTime (t : ℤ) : Representable (rTimeToUnixTime (toRTime t)) := by
  obtain ⟨hlow, hhigh, -⟩ := toInt_toRTime t
  rw [rTimeToUnixTime_eq]
  unfold Representable
  omega

variable {t : ℤ}

/-- The relative time of a whole minute. -/
theorem toInt_toRTime_minute (ht : Representable t) (hminute : 60 ∣ t) :
    (toRTime t).toInt * 60 = t + 11644473600 := by
  obtain ⟨hlow, hhigh⟩ := ht
  obtain ⟨m, rfl⟩ := hminute
  have hfile : 60 * m * 10000000 + NANOSECS_BETWEEN_EPOCHS + UnitsPerHalfMinute =
      (m + 194074560) * 600000000 + 300000000 := by
    unfold NANOSECS_BETWEEN_EPOCHS UnitsPerHalfMinute
    ring
  have hwrap : ((m + 194074560) * 600000000 + 300000000) % 2 ^ 64 = (m + 194074560) * 600000000 + 300000000 :=
    Int.emod_eq_of_lt (by omega) (by omega)
  rw [(toInt_toRTime _).2.2, unixTimeToRTime, hfile, hwrap, UnitsPerMinute]
  omega

theorem rTimeToUnixTime_toRTime (ht : Representable t) (hminute : 60 ∣ t) : rTimeToUnixTime (toRTime t) = t := by
  rw [rTimeToUnixTime_eq, toInt_toRTime_minute ht hminute]
  omega

/-! ## The calls and what is reported of them -/

namespace ExceptionCall

/-- The original start of the occurrence that a call is about. -/
def original : ExceptionCall → ℤ
  | addDeletedException tDelete => tDelete
  | addModifiedException _ _ tOriginalStart => tOriginalStart

/-- The day of the occurrence, from 1970 on. -/
def day (c : ExceptionCall) : ℤ := c.original / 86400

def isDeletion : ExceptionCall → Bool
  | addDeletedException _ => true
  | addModifiedException _ _ _ => false

/-- The time that is recorded: the day of a deletion, the original start of a modification. -/
def recorded (c : ExceptionCall) : ℤ := if c.isDeletion then c.day * 86400 else c.original

end ExceptionCall

/-- The modifications among some calls. -/
def modifications (calls : List ExceptionCall) : List ExceptionCall := calls.filter fun c => !c.isDeletion

/-- The deleted days are reported with the start of the series, and the original starts of the modified occurrences. -/
structure ReportsExceptions (r : Recurrence) (calls : List ExceptionCall) (r' : Recurrence) : Prop where
  deleted : ∀ t, t ∈ r'.getDeletedExceptions ↔
    ∃ c ∈ calls, c.isDeletion ∧ t = c.day * 86400 + r.getStartTimeOffset.toNat
  modified : r'.getModifiedOccurrences = (modifications calls).map ExceptionCall.original

/-- All that is recorded has a relative time. -/
def AllRepresentable (calls : List ExceptionCall) : Prop := ∀ c ∈ calls, Representable c.recorded

instance : DecidablePred AllRepresentable := fun calls =>
  inferInstanceAs (Decidable (∀ c ∈ calls, Representable c.recorded))

/-- Occurrences start at whole minutes. -/
def WholeMinutes (calls : List ExceptionCall) : Prop := ∀ c ∈ calls, 60 ∣ c.original

instance : DecidablePred WholeMinutes := fun calls => inferInstanceAs (Decidable (∀ c ∈ calls, 60 ∣ c.original))

/-- The start of the day of a relative time. -/
def dayOfRTime (rtime : UInt) : UInt := rtime - rtime % 1440

/-- The dates that are left when each exception has taken one back. -/
def deletedDates (r : Recurrence) : List UInt :=
  r.m_sRecState.lstDeletedInstanceDates.diff
    ((r.m_sRecState.lstExceptions.map Exception.ulOriginalStartDate).map dayOfRTime)

theorem getDeletedExceptions_eq (r : Recurrence) :
    r.getDeletedExceptions = (deletedDates r).map fun d => rTimeToUnixTime d + r.getStartTimeOffset.toNat := by
  rw [deletedDates, List.diff_eq_foldl, List.foldl_map, List.foldl_map]
  rfl

theorem getModifiedOccurrences_eq (r : Recurrence) : r.getModifiedOccurrences =
    (r.m_sRecState.lstExceptions.map Exception.ulOriginalStartDate).map fun d => rTimeToUnixTime d := by
  rw [List.map_map]
  rfl

/-! ### One call -/

section

variable {c c' : ExceptionCall}

theorem toNat_toRTime_minute (ht : Representable t) (hminute : 60 ∣ t) :
    ((toRTime t).toNat : ℤ) * 60 = t + 11644473600 := by
  have htoInt := toInt_toRTime_minute ht hminute
  obtain ⟨hlow, hhigh, -⟩ := toInt_toRTime t
  rw [BitVec.toInt_eq_toNat_cond] at hlow hhigh htoInt
  split_ifs at hlow hhigh htoInt <;> omega

/-- With its time, the day of an occurrence has a relative time. -/
theorem representable_day (hc : Representable c.recorded) : Representable (c.day * 86400) := by
  unfold ExceptionCall.recorded at hc
  split_ifs at hc
  · exact hc
  · unfold Representable ExceptionCall.day at *
    omega

/-- The date that a call puts into the list of deleted instances is the midnight of its day. -/
theorem deletedDate_eq (hc : Representable c.recorded) : c.deletedDate = toRTime (c.day * 86400) := by
  obtain ⟨hlow, hhigh⟩ := representable_day hc
  have hstart : startOfDay c.original = c.day * 86400 := by
    have hday : InRange c.day := by
      unfold InRange
      omega
    have htime := startOfDay_day hday (Int.emod_nonneg c.original (by decide)) (Int.emod_lt_of_pos c.original (by decide))
    rwa [ExceptionCall.day, Int.ediv_mul_add_emod] at htime
  rw [← hstart]
  cases c <;> rfl

theorem toNat_deletedDate (hc : Representable c.recorded) : (c.deletedDate.toNat : ℤ) = (c.day + 134774) * 1440 := by
  have h := toNat_toRTime_minute (representable_day hc) ⟨c.day * 1440, by ring⟩
  rw [← deletedDate_eq hc] at h
  omega

theorem rTimeToUnixTime_deletedDate (hc : Representable c.recorded) : rTimeToUnixTime c.deletedDate = c.day * 86400 := by
  rw [deletedDate_eq hc, rTimeToUnixTime_toRTime (representable_day hc) ⟨c.day * 1440, by ring⟩]

theorem deletedDate_le_iff (hc : Representable c.recorded) (hc' : Representable c'.recorded) :
    c.deletedDate ≤ c'.deletedDate ↔ c.day ≤ c'.day := by
  have h := toNat_deletedDate hc
  have h' := toNat_deletedDate hc'
  rw [BitVec.le_def]
  omega

theorem deletedDate_inj (hc : Representable c.recorded) (hc' : Representable c'.recorded) :
    c.deletedDate = c'.deletedDate ↔ c.day = c'.day := by
  have h := toNat_deletedDate hc
  have h' := toNat_deletedDate hc'
  rw [BitVec.toNat_eq]
  omega

/-- The exception of a modification is found by the day that is deleted with it. -/
theorem dayOfRTime_original (hc : Representable c.recorded) (hmodification : c.isDeletion = false)
    (hminute : 60 ∣ c.original) : dayOfRTime (toRTime c.original) = c.deletedDate := by
  have hdate := toNat_deletedDate hc
  rw [ExceptionCall.recorded, hmodification, if_neg Bool.false_ne_true] at hc
  have horiginal := toNat_toRTime_minute hc hminute
  apply BitVec.eq_of_toNat_eq
  rw [dayOfRTime, BitVec.toNat_sub_of_le, BitVec.toNat_umod]
  · show (toRTime c.original).toNat - (toRTime c.original).toNat % 1440 = _
    unfold ExceptionCall.day at hdate
    omega
  · rw [BitVec.le_def, BitVec.toNat_umod]
    exact Nat.mod_le _ _

end

/-! ### All calls -/

section

variable {r r' : Recurrence} {calls : List ExceptionCall}

theorem mem_modifications {c : ExceptionCall} : c ∈ modifications calls ↔ c ∈ calls ∧ c.isDeletion = false := by
  simp [modifications]

/-- What the lists of a recurrence have of some calls: the original starts of the modifications, in the order of the
calls, and the deleted days, in any order and any number. -/
structure Holds (r : Recurrence) (calls : List ExceptionCall) (r' : Recurrence) : Prop where
  originals : r'.m_sRecState.lstExceptions.map Exception.ulOriginalStartDate =
    (modifications calls).map fun c => toRTime c.original
  mem_deleted : ∀ d, d ∈ r'.m_sRecState.lstDeletedInstanceDates ↔ ∃ c ∈ calls, d = c.deletedDate
  offset : r'.m_sRecState.ulStartTimeOffset = r.m_sRecState.ulStartTimeOffset

theorem Holds.deletedDates_eq (h : Holds r calls r') (hall : AllRepresentable calls) (hminutes : WholeMinutes calls) :
    deletedDates r' =
      r'.m_sRecState.lstDeletedInstanceDates.diff ((modifications calls).map ExceptionCall.deletedDate) := by
  rw [deletedDates, h.originals, List.map_map]
  congr 1
  refine List.map_congr_left fun c hc => ?_
  obtain ⟨hc, hmodification⟩ := mem_modifications.mp hc
  exact dayOfRTime_original (hall c hc) hmodification (hminutes c hc)

/-- All is reported as it should be if and only if it has a relative time and the dates that are left are those of the
deletions. -/
theorem Holds.reportsExceptions_iff (h : Holds r calls r') (hminutes : WholeMinutes calls) :
    ReportsExceptions r calls r' ↔ AllRepresentable calls ∧
      ∀ d, d ∈ deletedDates r' ↔ ∃ c ∈ calls, c.isDeletion ∧ d = c.deletedDate := by
  have hoffset : r'.getStartTimeOffset = r.getStartTimeOffset := congrArg (· * 60) h.offset
  have hsub : ∀ d ∈ deletedDates r', ∃ c ∈ calls, d = c.deletedDate := fun d hd =>
    (h.mem_deleted d).mp (List.diff_subset _ _ hd)
  -- distinct days are reported as distinct times
  have hinj : ∀ d d' : UInt, rTimeToUnixTime d = rTimeToUnixTime d' → d = d' := fun d d' heq => by
    rw [rTimeToUnixTime_eq, rTimeToUnixTime_eq] at heq
    exact BitVec.toInt_inj.mp (by omega)
  have hdate : ∀ c : ExceptionCall, Representable (rTimeToUnixTime c.deletedDate) := fun c => by
    cases c <;> exact representable_rTimeToUnixTime _
  constructor
  · rintro ⟨hdeleted, hmodified⟩
    rw [getDeletedExceptions_eq, hoffset] at hdeleted
    -- a time that is reported is a recorded one
    have hall : AllRepresentable calls := by
      intro c hc
      cases hdeletion : c.isDeletion with
      | true =>
        rw [ExceptionCall.recorded, if_pos hdeletion]
        obtain ⟨d, hd, htime⟩ := List.mem_map.mp ((hdeleted _).mpr ⟨c, hc, hdeletion, rfl⟩)
        obtain ⟨c', -, rfl⟩ := hsub d hd
        rw [← add_right_cancel htime]
        exact hdate c'
      | false =>
        rw [ExceptionCall.recorded, hdeletion, if_neg Bool.false_ne_true]
        rw [getModifiedOccurrences_eq, h.originals, List.map_map] at hmodified
        have htime := List.map_inj_left.mp hmodified c (mem_modifications.mpr ⟨hc, hdeletion⟩)
        rw [← htime]
        exact representable_rTimeToUnixTime _
    refine ⟨hall, fun d => ?_⟩
    constructor
    · intro hd
      obtain ⟨c, hc, hdeletion, htime⟩ := (hdeleted _).mp (List.mem_map_of_mem hd)
      rw [← rTimeToUnixTime_deletedDate (hall c hc)] at htime
      exact ⟨c, hc, hdeletion, hinj _ _ (add_right_cancel htime)⟩
    · rintro ⟨c, hc, hdeletion, rfl⟩
      obtain ⟨d, hd, htime⟩ := List.mem_map.mp ((hdeleted _).mpr ⟨c, hc, hdeletion, rfl⟩)
      rw [← rTimeToUnixTime_deletedDate (hall c hc)] at htime
      rwa [← hinj _ _ (add_right_cancel htime)]
  · rintro ⟨hall, hleft⟩
    constructor
    · intro t
      rw [getDeletedExceptions_eq, hoffset, List.mem_map]
      constructor
      · rintro ⟨d, hd, rfl⟩
        obtain ⟨c, hc, hdeletion, rfl⟩ := (hleft d).mp hd
        exact ⟨c, hc, hdeletion, by rw [rTimeToUnixTime_deletedDate (hall c hc)]⟩
      · rintro ⟨c, hc, hdeletion, rfl⟩
        exact ⟨_, (hleft _).mpr ⟨c, hc, hdeletion, rfl⟩, by rw [rTimeToUnixTime_deletedDate (hall c hc)]⟩
    · rw [getModifiedOccurrences_eq, h.originals, List.map_map]
      refine List.map_congr_left fun c hc => ?_
      obtain ⟨hc, hmodification⟩ := mem_modifications.mp hc
      have htime := hall c hc
      rw [ExceptionCall.recorded, hmodification, if_neg Bool.false_ne_true] at htime
      exact rTimeToUnixTime_toRTime htime (hminutes c hc)

/-! ### Before writing -/

/-- From a series without exceptions, the exceptions after the calls are the modifications, in the order of the
calls. -/
theorem NoExceptions.originals (hfresh : NoExceptions r) (calls : List ExceptionCall) :
    (r.run calls).m_sRecState.lstExceptions.map Exception.ulOriginalStartDate =
      (modifications calls).map fun c => toRTime c.original := by
  induction calls using List.reverseRecOn with
  | nil => exact congrArg (List.map Exception.ulOriginalStartDate) hfresh.exceptions
  | append_singleton calls c ih =>
    rw [Recurrence.run, List.foldl_append]
    cases c with
    | addDeletedException tDelete =>
      rw [modifications, List.filter_append]
      exact ih.trans (by rw [modifications]; simp [ExceptionCall.isDeletion])
    | addModifiedException tStart tEnd tOriginalStart =>
      have hmore : modifications (calls ++ [.addModifiedException tStart tEnd tOriginalStart]) =
          modifications calls ++ [.addModifiedException tStart tEnd tOriginalStart] := by
        simp [modifications, ExceptionCall.isDeletion]
      rw [hmore, List.map_append, ← ih]
      show (_ ++ [_] : List Exception).map _ = _
      rw [List.map_append]
      rfl

theorem NoExceptions.holds (hfresh : NoExceptions r) (calls : List ExceptionCall) : Holds r calls (r.run calls) where
  originals := hfresh.originals calls
  mem_deleted d := by
    rw [(hfresh.run calls).deleted, List.mem_map]
    exact exists_congr fun c => and_congr_right fun _ => eq_comm
  offset := by
    have hframe := congrArg RecurrenceState.ulStartTimeOffset (hfresh.run calls).frame
    exact hframe

/-- The dates of the calls are those of the deletions and those of the modifications. -/
theorem perm_deletedDates (calls : List ExceptionCall) : (calls.map ExceptionCall.deletedDate).Perm
    ((calls.filter ExceptionCall.isDeletion).map ExceptionCall.deletedDate ++
      (modifications calls).map ExceptionCall.deletedDate) := by
  rw [← List.map_append]
  exact (List.filter_append_perm _ calls).symm.map _

/-- Without the blob all that has a relative time is reported. -/
theorem NoExceptions.reports_run_iff (hfresh : NoExceptions r) (hminutes : WholeMinutes calls) :
    ReportsExceptions r calls (r.run calls) ↔ AllRepresentable calls := by
  rw [(hfresh.holds calls).reportsExceptions_iff hminutes, and_iff_left_iff_imp]
  intro hall d
  rw [(hfresh.holds calls).deletedDates_eq hall hminutes, (hfresh.run calls).deleted, ← List.count_pos_iff,
    List.count_diff, (perm_deletedDates calls).count_eq, List.count_append, Nat.add_sub_cancel, List.count_pos_iff,
    List.mem_map]
  simp only [List.mem_filter, and_assoc]
  exact exists_congr fun c => and_congr_right fun _ => and_congr_right fun _ => eq_comm

/-! ### Behind `sort` and `unique` -/

/-- Each original day is deleted any number of times or modified once. -/
structure EachOnce (calls : List ExceptionCall) : Prop where
  modified : ((modifications calls).map ExceptionCall.day).Nodup
  apart : ∀ c ∈ calls, ∀ c' ∈ calls, c.isDeletion → c'.isDeletion = false → c.day ≠ c'.day

/-- The days up to each modified one, counted as often as they are there, are not more than the different days. -/
def RepeatsFit (calls : List ExceptionCall) : Prop :=
  ∀ c ∈ modifications calls,
    (calls.map ExceptionCall.day).countP (· ≤ c.day) ≤ (calls.map ExceptionCall.day).toFinset.card

instance : DecidablePred RepeatsFit := fun calls =>
  inferInstanceAs (Decidable (∀ c ∈ modifications calls,
    (calls.map ExceptionCall.day).countP (· ≤ c.day) ≤ (calls.map ExceptionCall.day).toFinset.card))

theorem countP_deletedDate (hall : AllRepresentable calls) {c : ExceptionCall} (hc : c ∈ calls) :
    (calls.map ExceptionCall.deletedDate).countP (· ≤ c.deletedDate) =
      (calls.map ExceptionCall.day).countP (· ≤ c.day) := by
  rw [List.countP_map, List.countP_map]
  refine List.countP_congr fun c' hc' => ?_
  simp only [Function.comp_apply, decide_eq_true_eq]
  exact deletedDate_le_iff (hall c' hc') (hall c hc)

/-- There are as many different deleted dates as there are different days among the calls. -/
theorem card_deletedDate (hall : AllRepresentable calls) :
    (calls.map ExceptionCall.deletedDate).toFinset.card = (calls.map ExceptionCall.day).toFinset.card := by
  have himage : (calls.map ExceptionCall.deletedDate).toFinset =
      (calls.map ExceptionCall.day).toFinset.image fun d => toRTime (d * 86400) := by
    ext d
    simp only [List.mem_toFinset, List.mem_map, Finset.mem_image, exists_exists_and_eq_and]
    exact exists_congr fun c => and_congr_right fun hc => by rw [deletedDate_eq (hall c hc)]
  rw [himage, Finset.card_image_of_injOn]
  intro d hd d' hd' heq
  obtain ⟨c, hc, rfl⟩ := List.mem_map.mp (List.mem_toFinset.mp (Finset.mem_coe.mp hd))
  obtain ⟨c', hc', rfl⟩ := List.mem_map.mp (List.mem_toFinset.mp (Finset.mem_coe.mp hd'))
  dsimp only at heq
  rw [← deletedDate_eq (hall c hc), ← deletedDate_eq (hall c' hc')] at heq
  exact (deletedDate_inj (hall c hc) (hall c' hc')).mp heq

/-- The dates of the modifications are different ones, and none of them is deleted. -/
theorem EachOnce.nodup_dates (honce : EachOnce calls) (hall : AllRepresentable calls) :
    ((modifications calls).map ExceptionCall.deletedDate).Nodup := by
  have hpairwise := List.pairwise_map.mp honce.modified
  refine List.pairwise_map.mpr (hpairwise.imp_of_mem fun hc hc' hne heq => hne ?_)
  exact (deletedDate_inj (hall _ (mem_modifications.mp hc).1) (hall _ (mem_modifications.mp hc').1)).mp heq

/-- When the lists have been sorted, a modified day that is at the end is reported as deleted. -/
theorem reports_sorted_iff (honce : EachOnce calls) (hminutes : WholeMinutes calls) (h : Holds r calls r')
    (hsorted : r'.m_sRecState.lstDeletedInstanceDates = sortUnique (calls.map ExceptionCall.deletedDate)) :
    ReportsExceptions r calls r' ↔ AllRepresentable calls ∧ RepeatsFit calls := by
  rw [h.reportsExceptions_iff hminutes]
  refine and_congr_right fun hall => ?_
  rw [h.deletedDates_eq hall hminutes, hsorted]
  have hnodup := honce.nodup_dates hall
  have hmem : ∀ d, d ∈ (sortUnique (calls.map ExceptionCall.deletedDate)).diff
      ((modifications calls).map ExceptionCall.deletedDate) ↔
      ((modifications calls).map ExceptionCall.deletedDate).count d <
        (sortUnique (calls.map ExceptionCall.deletedDate)).count d := fun d => by
    rw [← List.count_pos_iff, List.count_diff]
    omega
  -- a modified date is left when it is at the end
  have hmodified : ∀ c ∈ modifications calls,
      c.deletedDate ∈ (sortUnique (calls.map ExceptionCall.deletedDate)).diff
        ((modifications calls).map ExceptionCall.deletedDate) ↔
      (calls.map ExceptionCall.day).toFinset.card < (calls.map ExceptionCall.day).countP (· ≤ c.day) := by
    intro c hc
    have hcalls := (mem_modifications.mp hc).1
    have hd := List.mem_map_of_mem (f := ExceptionCall.deletedDate) hcalls
    rw [hmem, List.count_eq_one_of_mem hnodup (List.mem_map_of_mem hc), count_sortUnique hd, lt_add_iff_pos_right,
      List.count_pos_iff, mem_end_iff hd, card_deletedDate hall, countP_deletedDate hall hcalls]
  constructor
  · intro hleft c hc
    by_contra hmany
    obtain ⟨c', hc', hdeletion, heq⟩ := (hleft c.deletedDate).mp ((hmodified c hc).mpr (not_le.mp hmany))
    obtain ⟨hcalls, hmodification⟩ := mem_modifications.mp hc
    exact honce.apart c' hc' c hcalls hdeletion hmodification
      ((deletedDate_inj (hall c hcalls) (hall c' hc')).mp heq).symm
  · intro hfit d
    constructor
    · intro hd
      obtain ⟨c, hc, rfl⟩ := List.mem_map.mp (mem_sortUnique.mp (List.diff_subset _ _ hd))
      cases hdeletion : c.isDeletion with
      | true => exact ⟨c, hc, hdeletion, rfl⟩
      | false =>
        have hmodification := mem_modifications.mpr ⟨hc, hdeletion⟩
        exact absurd ((hmodified c hmodification).mp hd) (not_lt.mpr (hfit c hmodification))
    · rintro ⟨c, hc, hdeletion, rfl⟩
      have hnone : ((modifications calls).map ExceptionCall.deletedDate).count c.deletedDate = 0 := by
        rw [List.count_eq_zero, List.mem_map]
        rintro ⟨c', hc', heq⟩
        obtain ⟨hcalls, hmodification⟩ := mem_modifications.mp hc'
        exact honce.apart c hc c' hcalls hdeletion hmodification
          ((deletedDate_inj (hall c' hcalls) (hall c hc)).mp heq).symm
      rw [hmem, hnone, List.count_pos_iff]
      exact mem_sortUnique.mpr (List.mem_map_of_mem hc)

/-! ### Writing the blob and reading it back -/

/-- `HrLoadRecurrenceState`. -/
def hrLoadRecurrenceState (conv : Converter) (junk : UInt) (r : Recurrence) (lpData : List UInt8) (ulFlags : UInt) :
    Option (RecurrenceState.HRESULT × Recurrence) :=
  (r.m_sRecState.parseBlob conv junk lpData ulFlags).map fun res => (res.1, { r with m_sRecState := res.2 })

/-- What the constructors and `ParseBlob` leave in the fields that are written in 16 bits, and in the reserved blocks,
whose sizes are read as an `int`. -/
structure Plain (s : RecurrenceState) : Prop where
  short : ∀ x ∈ [s.ulReaderVersion, s.ulWriterVersion, s.ulCalendarType], x.toNat < 2 ^ 16
  reservedBlock1 : s.strReservedBlock1.length < 2 ^ 31
  reservedBlock2 : s.strReservedBlock2.length < 2 ^ 31

/-- The exceptions that some calls have added are without a change. -/
theorem NoExceptions.unchanged (hfresh : NoExceptions r) (calls : List ExceptionCall) :
    (∀ e ∈ (r.run calls).m_sRecState.lstExceptions, ∃ rStart rEnd rOrig, e = newException rStart rEnd rOrig) ∧
      ∀ e ∈ (r.run calls).m_sRecState.lstExtendedExceptions,
        ∃ rStart rEnd rOrig, e = ⟨0, [], [], rStart, rEnd, rOrig, [], [], []⟩ := by
  induction calls using List.reverseRecOn with
  | nil =>
    rw [Recurrence.run, List.foldl_nil, hfresh.exceptions, hfresh.extended]
    simp
  | append_singleton calls c ih =>
    rw [Recurrence.run, List.foldl_append]
    cases c with
    | addDeletedException tDelete => exact ih
    | addModifiedException tStart tEnd tOriginalStart =>
      constructor
      · intro e he
        rcases List.mem_append.mp he with he | he
        · exact ih.1 e he
        · exact ⟨_, _, _, List.mem_singleton.mp he⟩
      · intro e he
        rcases List.mem_append.mp he with he | he
        · exact ih.2 e he
        · exact ⟨_, _, _, List.mem_singleton.mp he⟩

theorem length_modifications (calls : List ExceptionCall) :
    (calls.filterMap ExceptionCall.modifiedDate).length = (modifications calls).length := by
  induction calls with
  | nil => rfl
  | cons c calls ih =>
    cases c with
    | addDeletedException tDelete => exact ih
    | addModifiedException tStart tEnd tOriginalStart => exact congrArg Nat.succ ih

variable {conv : Converter} {blob : List UInt8}

/-- What a successful `HrGetRecurrenceState` has written. -/
theorem NoExceptions.written (hfresh : NoExceptions r)
    (hwrite : (r.run calls).hrGetRecurrenceState conv = some (.hrSuccess, r', blob)) :
    Valid r.m_sRecState ∧ blobSize (r.run calls).m_sRecState < 2 ^ 32 ∧
      ∃ first, r' = (r.run calls).withCounts first ∧ r'.m_sRecState.getBlob conv = some (.hrSuccess, blob) := by
  have hvalid : Valid r.m_sRecState := by
    by_contra hinvalid
    have hsame : ¬ Valid (r.run calls).m_sRecState := by
      rw [← (hfresh.run calls).frame] at hinvalid
      exact hinvalid
    rw [hrGetRecurrenceState, if_pos hsame] at hwrite
    cases hwrite
  obtain ⟨hsize, first, hfirst, rfl, -⟩ := ((hfresh.run calls).hrGetRecurrenceState hvalid conv r' blob).mp hwrite
  refine ⟨hvalid, hsize, first, rfl, ?_⟩
  rw [hrGetRecurrenceState, if_neg (not_not.mpr ((hfresh.run calls).valid hvalid)), hfirst, Option.bind_eq_bind,
    Option.bind_some] at hwrite
  obtain ⟨⟨hr, data⟩, hget, hsame⟩ := Option.bind_eq_some_iff.mp hwrite
  cases hsame
  exact hget

theorem Added.plain (h : Added r calls r') (hplain : Plain r.m_sRecState) (hvalid : Valid r.m_sRecState) :
    Plain r'.m_sRecState ∧ Valid r'.m_sRecState := by
  rw [← h.frame] at hplain hvalid
  exact ⟨⟨hplain.short, hplain.reservedBlock1, hplain.reservedBlock2⟩, hvalid⟩

/-- After the calls the counts are those of the lists, so that the blob can be written and read back if it is not
too large and has fewer than 65536 exceptions. -/
theorem NoExceptions.wellFormed (hfresh : NoExceptions r) (hplain : Plain r.m_sRecState) (hvalid : Valid r.m_sRecState)
    (hsize : blobSize (r.run calls).m_sRecState < 2 ^ 32) (hcount : (modifications calls).length < 2 ^ 16)
    (first : UInt) : WellFormed ((r.run calls).withCounts first).m_sRecState := by
  have hadded := hfresh.run calls
  obtain ⟨hexceptions, hextendeds⟩ := hfresh.unchanged calls
  obtain ⟨hplain, hfrequency, hpattern, -⟩ := hadded.plain hplain hvalid
  have hbound := four_mul_length_le_blobSize (r.run calls).m_sRecState
  have hcounts : (BitVec.ofNat 32 (sortUnique (r.run calls).m_sRecState.lstModifiedInstanceDates).length).toNat =
      (modifications calls).length := by
    rw [length_sortUnique, hadded.modified, length_modifications, BitVec.toNat_ofNat]
    exact Nat.mod_eq_of_lt (by omega)
  have hlength : (r.run calls).m_sRecState.lstExceptions.length = (modifications calls).length :=
    hadded.exceptions_length.trans (length_modifications calls)
  constructor
  · show (BitVec.ofNat 32 (sortUnique (r.run calls).m_sRecState.lstDeletedInstanceDates).length).toNat =
      (sortUnique (r.run calls).m_sRecState.lstDeletedInstanceDates).length
    rw [length_sortUnique, BitVec.toNat_ofNat]
    exact Nat.mod_eq_of_lt (by omega)
  · show (BitVec.ofNat 32 (sortUnique (r.run calls).m_sRecState.lstModifiedInstanceDates).length).toNat =
      (sortUnique (r.run calls).m_sRecState.lstModifiedInstanceDates).length
    rw [length_sortUnique, BitVec.toNat_ofNat]
    exact Nat.mod_eq_of_lt (by omega)
  · exact hcounts.trans hlength.symm
  · exact hadded.exceptions_length.trans hadded.extended_length.symm
  · have hshort := hplain.short
    simp only [List.forall_mem_cons] at hshort ⊢
    refine ⟨hshort.1, hshort.2.1, ?_, ?_, hshort.2.2.1, ?_, by simp⟩
    · show (r.run calls).m_sRecState.ulRecurFrequency.toNat < 2 ^ 16
      rcases hfrequency with h | h | h | h <;> rw [h] <;> decide
    · show (r.run calls).m_sRecState.ulPatternType.toNat < 2 ^ 16
      rcases hpattern with h | h | h | h | h | h | h | h <;> rw [h] <;> decide
    · exact hcounts.trans_lt hcount
  · intro e he
    obtain ⟨rStart, rEnd, rOrig, rfl⟩ := hexceptions e he
    exact Nat.two_pow_pos 16
  · intro e he
    obtain ⟨rStart, rEnd, rOrig, rfl⟩ := hexceptions e he
    exact ⟨Nat.two_pow_pos 16, Nat.two_pow_pos 16⟩
  · intro e he
    obtain ⟨rStart, rEnd, rOrig, rfl⟩ := hextendeds e he
    exact ⟨Nat.two_pow_pos 16, Nat.two_pow_pos 16⟩
  · intro e he
    obtain ⟨rStart, rEnd, rOrig, rfl⟩ := hextendeds e he
    exact ⟨fun _ h => absurd h List.not_mem_nil, fun _ h => absurd h List.not_mem_nil⟩

/-- What is written is read back as long as the number of exceptions fits in 16 bits. -/
theorem NoExceptions.restored (hfresh : NoExceptions r) (hplain : Plain r.m_sRecState) (hconv : InverseOnBmp conv)
    (hwrite : (r.run calls).hrGetRecurrenceState conv = some (.hrSuccess, r', blob))
    (hcount : (modifications calls).length < 2 ^ 16) (junk ulFlags : UInt) (old : RecurrenceState) :
    ∃ rs, parseBlob conv junk old blob ulFlags = some (.hrSuccess, rs) ∧ Restored r'.m_sRecState rs := by
  obtain ⟨hvalid, hsize, first, rfl, hget⟩ := hfresh.written hwrite
  have hextendeds := (hfresh.unchanged calls).2
  obtain ⟨hplain', -⟩ := (hfresh.run calls).plain hplain hvalid
  have hfits : RecurrenceState.BlobFits ((r.run calls).withCounts first).m_sRecState := by
    refine ⟨by rwa [blobSize_withCounts], hplain'.reservedBlock1, fun ji hji => ?_, hplain'.reservedBlock2⟩
    obtain ⟨rStart, rEnd, rOrig, hi⟩ := hextendeds ji.2 (List.of_mem_zip hji).2
    rw [hi]
    exact ⟨fun _ => Nat.two_pow_pos 31, Nat.two_pow_pos 31, fun _ => Nat.two_pow_pos 31⟩
  obtain ⟨blob', hget', rs, hparse, hrestored⟩ :=
    (parseBlob_getBlob_iff conv hconv junk ulFlags old _ (hfresh.wellFormed hplain hvalid hsize hcount first)).mpr hfits
  obtain rfl : blob = blob' := (Prod.mk.inj (Option.some.inj (hget.symm.trans hget'))).2
  exact ⟨rs, hparse, hrestored⟩

/-- The lists that are written have what the calls have added. -/
theorem NoExceptions.holds_withCounts (hfresh : NoExceptions r) (calls : List ExceptionCall) (first : UInt) :
    Holds r calls ((r.run calls).withCounts first) where
  originals := hfresh.originals calls
  mem_deleted d := mem_sortUnique.trans ((hfresh.holds calls).mem_deleted d)
  offset := (hfresh.holds calls).offset

/-- What the lists of a series say about the calls is still there when the series was written and read back. -/
theorem Holds.restored (h : Holds r calls r') {rs : RecurrenceState} (hrestored : Restored r'.m_sRecState rs)
    (m_ulMonth : UInt) : Holds r calls ⟨rs, m_ulMonth⟩ where
  originals := by
    rw [← h.originals, ← List.forall₂_eq_eq_eq, List.forall₂_map_left_iff, List.forall₂_map_right_iff]
    exact hrestored.exceptions.flip.imp fun _ _ hexception => hexception.always.2.2.1
  mem_deleted d := by rw [← h.mem_deleted, ← hrestored.deletedDates]
  offset := by
    have hoffset := congrArg (fun l => l.getD 17 0) hrestored.header
    exact hoffset.trans h.offset

/-- Behind the blob, a modified day must not be at the end of the sorted list. -/
theorem NoExceptions.reports_load_iff (hfresh : NoExceptions r) (hplain : Plain r.m_sRecState)
    (hconv : InverseOnBmp conv) (honce : EachOnce calls) (hminutes : WholeMinutes calls)
    (hwrite : (r.run calls).hrGetRecurrenceState conv = some (.hrSuccess, r', blob))
    (hcount : (modifications calls).length < 2 ^ 16) (junk ulFlags : UInt) (old : Recurrence) :
    (∃ r'', hrLoadRecurrenceState conv junk old blob ulFlags = some (.hrSuccess, r'') ∧ ReportsExceptions r calls r'') ↔
      AllRepresentable calls ∧ RepeatsFit calls := by
  obtain ⟨rs, hparse, hrestored⟩ := hfresh.restored hplain hconv hwrite hcount junk ulFlags old.m_sRecState
  obtain ⟨-, -, first, rfl, -⟩ := hfresh.written hwrite
  have hload : hrLoadRecurrenceState conv junk old blob ulFlags = some (.hrSuccess, ⟨rs, old.m_ulMonth⟩) := by
    rw [hrLoadRecurrenceState, hparse]
    rfl
  have hholds := (hfresh.holds_withCounts calls first).restored hrestored old.m_ulMonth
  have hsorted : rs.lstDeletedInstanceDates = sortUnique (calls.map ExceptionCall.deletedDate) := by
    rw [hrestored.deletedDates, ← (hfresh.run calls).deleted]
    rfl
  rw [← reports_sorted_iff honce hminutes hholds hsorted]
  constructor
  · rintro ⟨r'', hload', hreports⟩
    cases hload.symm.trans hload'
    exact hreports
  · exact fun hreports => ⟨_, hload, hreports⟩

end

/-- The blob can be written, and what is read back of it reports the exceptions. -/
def ReportsBehindBlob (conv : Converter) (junk ulFlags : UInt) (old r : Recurrence) (calls : List ExceptionCall) : Prop :=
  ∃ r' blob r'', (r.run calls).hrGetRecurrenceState conv = some (.hrSuccess, r', blob) ∧
    hrLoadRecurrenceState conv junk old blob ulFlags = some (.hrSuccess, r'') ∧ ReportsExceptions r calls r''

/-- What a series and the calls on it must be like for the blob. Its frequency, pattern and end have one of the checked
values, there is no division by a period of 0, the size fits in 32 bits and the number of modifications in 16, and
not more days up to each modified one were given than there are different ones. -/
structure BlobReports (r : Recurrence) (calls : List ExceptionCall) : Prop where
  valid : Valid r.m_sRecState
  period : PeriodFits r.m_sRecState
  size : blobSize (r.run calls).m_sRecState < 2 ^ 32
  count : (modifications calls).length < 2 ^ 16
  representable : AllRepresentable calls
  repeats : RepeatsFit calls

/-- The blob is written just when the values are checked ones, there is no division by 0 and the size fits. -/
theorem NoExceptions.exists_written_iff {r : Recurrence} (hfresh : NoExceptions r) (conv : Converter)
    (calls : List ExceptionCall) : (∃ r' blob, (r.run calls).hrGetRecurrenceState conv = some (.hrSuccess, r', blob)) ↔
      Valid r.m_sRecState ∧ PeriodFits r.m_sRecState ∧ blobSize (r.run calls).m_sRecState < 2 ^ 32 := by
  have hadded := hfresh.run calls
  constructor
  · rintro ⟨r', blob, hwrite⟩
    have hvalid := (hfresh.written hwrite).1
    exact ⟨hvalid, (hadded.exists_written_iff hvalid conv).mp ⟨r', blob, hwrite⟩⟩
  · rintro ⟨hvalid, hfits⟩
    exact (hadded.exists_written_iff hvalid conv).mpr hfits

/-- **Deleted and moved occurrences are told apart** by the recurrence itself whenever all days and times have a relative
time, and behind the blob if and only if, in addition, this can be written, the number of modifications fits and the
repeated days do. -/
theorem reports_iff (conv : Converter) (hconv : InverseOnBmp conv) (junk ulFlags : UInt) (old r : Recurrence)
    (hfresh : NoExceptions r) (hplain : Plain r.m_sRecState) (calls : List ExceptionCall) (honce : EachOnce calls)
    (hminutes : WholeMinutes calls) : (ReportsExceptions r calls (r.run calls) ↔ AllRepresentable calls) ∧
      (ReportsBehindBlob conv junk ulFlags old r calls ↔ BlobReports r calls) := by
  refine ⟨hfresh.reports_run_iff hminutes, ?_⟩
  constructor
  · rintro ⟨r', blob, r'', hwrite, hload, hreports⟩
    obtain ⟨hvalid, hperiod, hsize⟩ := (hfresh.exists_written_iff conv calls).mp ⟨r', blob, hwrite⟩
    have hcount : (modifications calls).length < 2 ^ 16 := by
      obtain ⟨⟨hr, rs⟩, hparse, hsame⟩ := Option.map_eq_some_iff.mp hload
      cases hsame
      -- all exceptions that are read are counted in 16 bits
      have hlt := parseBlob_exceptions_lt hparse
      have hlength := congrArg List.length hreports.modified
      rw [getModifiedOccurrences_eq, List.length_map, List.length_map, List.length_map] at hlength
      exact hlength ▸ hlt
    obtain ⟨hrepresentable, hrepeats⟩ :=
      (hfresh.reports_load_iff hplain hconv honce hminutes hwrite hcount junk ulFlags old).mp ⟨r'', hload, hreports⟩
    exact ⟨hvalid, hperiod, hsize, hcount, hrepresentable, hrepeats⟩
  · rintro ⟨hvalid, hperiod, hsize, hcount, hrepresentable, hrepeats⟩
    obtain ⟨r', blob, hwrite⟩ := (hfresh.exists_written_iff conv calls).mpr ⟨hvalid, hperiod, hsize⟩
    obtain ⟨r'', hload, hreports⟩ := (hfresh.reports_load_iff hplain hconv honce hminutes hwrite hcount junk ulFlags
      old).mpr ⟨hrepresentable, hrepeats⟩
    exact ⟨r', blob, r'', hwrite, hload, hreports⟩

/-- A day deleted so many times, and a later one moved by an hour. -/
def deletedAndMoved (n : ℕ) : List ExceptionCall :=
  List.replicate n (.addDeletedException 1425254400) ++ [.addModifiedException 1425430800 1425434400 1425427200]

theorem plain_everyDay : Plain everyDay.m_sRecState where
  short := by
    have hversion : (0x3004 : UInt).toNat < 2 ^ 16 := by decide
    refine List.forall_mem_cons.mpr ⟨hversion, List.forall_mem_cons.mpr ⟨hversion, ?_⟩⟩
    exact List.forall_mem_singleton.mpr (Nat.two_pow_pos 16)
  reservedBlock1 := Nat.two_pow_pos 31
  reservedBlock2 := Nat.two_pow_pos 31

/-- Once is not too much. -/
theorem reports_iff_once : ReportsBehindBlob ucs2 0 0 everyDay everyDay (deletedAndMoved 1) := by
  refine (reports_iff ucs2 inverseOnBmp_ucs2 0 0 everyDay everyDay noExceptions_everyDay plain_everyDay
    (deletedAndMoved 1) ⟨by decide +kernel, by decide +kernel⟩ (by decide +kernel)).2.mpr ?_
  exact ⟨by decide, .inr (by decide), by decide +kernel, by decide, by decide +kernel, by decide +kernel⟩

/-- Behind a day that is deleted twice, the moved day is reported as deleted. -/
theorem not_reports_twice : (∃ r' blob,
    (everyDay.run (deletedAndMoved 2)).hrGetRecurrenceState ucs2 = some (.hrSuccess, r', blob)) ∧
      ¬ ReportsBehindBlob ucs2 0 0 everyDay everyDay (deletedAndMoved 2) := by
  refine ⟨(noExceptions_everyDay.exists_written_iff ucs2 (deletedAndMoved 2)).mpr
    ⟨by decide, .inr (by decide), by decide +kernel⟩, ?_⟩
  rintro ⟨r', blob, r'', hwrite, hload⟩
  have hright := (noExceptions_everyDay.reports_load_iff plain_everyDay inverseOnBmp_ucs2
    ⟨by decide +kernel, by decide +kernel⟩ (by decide +kernel) hwrite (by decide +kernel) 0 0 everyDay).mp ⟨r'', hload⟩
  exact absurd hright.2 (by decide +kernel)

end Zcp.FreeBusy.Recurrence
