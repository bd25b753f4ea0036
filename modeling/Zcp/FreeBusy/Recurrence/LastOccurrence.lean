import Zcp.FreeBusy.Recurrence

/-!
# The last occurrence

With `last`, `HrGetItems` walks backward over the days of a daily or weekly recurrence and stops at the
first valid one. `lastAgrees_iff` says when this is the latest of all occurrences.
-/

namespace Zcp.FreeBusy.Recurrence

open Zcp.Lib Zcp.Common Zcp.M4lcommon

variable (r : Recurrence) (q : ItemQuery)

/-! ## The days that are added -/

/-- A day whose occurrence is added. -/
def validDay (d : ℤ) : Bool :=
  r.isOccurrenceValid (utcToLocal q.tsStart q.ttZinfo) (utcToLocal q.tsEnd q.ttZinfo)
    (d + r.getStartTimeOffset.toNat)

/-- The start of the occurrence on a day. -/
def occrStart (d : ℤ) : ℤ := localToUTC (d + r.getStartTimeOffset.toNat) q.ttZinfo

/-- The occurrence on a day. -/
def occurrence (d : ℤ) : OccrInfo where
  fbBlock :=
    { m_tmStart := unixTimeToRTime (r.occrStart q d)
      m_tmEnd := unixTimeToRTime (localToUTC (d + r.getEndTimeOffset.toNat) q.ttZinfo)
      m_fbstatus := q.ulBusyStatus.toNat }
  tBaseDate := r.occrStart q d

/-- An array of occurrences has a size of 32 bits. -/
def ArrayFits (n : ℕ) : Prop := sizeofOccrInfo * n < 2 ^ 32

instance : DecidablePred ArrayFits := fun _ => inferInstanceAs (Decidable (_ < _))

theorem ArrayFits.mono {m n : ℕ} (h : ArrayFits n) (hmn : m ≤ n) : ArrayFits m :=
  (Nat.mul_le_mul_left _ hmn).trans_lt h

variable {r q} {l l' : List OccrInfo}

theorem addValidOccr_eq (d : ℤ) : addValidOccr (r.occrStart q d) (localToUTC (d + r.getEndTimeOffset.toNat) q.ttZinfo)
      q.ulBusyStatus l = if ArrayFits (l.length + 1) then some (l ++ [r.occurrence q d]) else none :=
  rfl

theorem checkAddValidOccr_of_valid {d : ℤ} (hd : r.validDay q d = true) : r.checkAddValidOccr q d l =
      if ArrayFits (l.length + 1) then some (true, l ++ [r.occurrence q d]) else none := by
  unfold validDay at hd
  rw [checkAddValidOccr, if_pos hd]
  show (addValidOccr (r.occrStart q d) _ _ l).bind (fun l => some (true, l)) = _
  rw [addValidOccr_eq]
  split_ifs <;> rfl

theorem checkAddValidOccr_of_not_valid {d : ℤ} (hd : ¬ r.validDay q d = true) :
    r.checkAddValidOccr q d l = some (false, l) := by
  unfold validDay at hd
  rw [checkAddValidOccr, if_neg hd]

/-- The first loop adds all valid days. -/
theorem addAll_eq (days : List ℤ) (l : List OccrInfo) : r.addAll q days l =
      if days.filter (r.validDay q) = [] ∨ ArrayFits (l.length + (days.filter (r.validDay q)).length)
      then some (l ++ (days.filter (r.validDay q)).map (r.occurrence q)) else none := by
  induction days generalizing l with
  | nil => simp [addAll]
  | cons d days ih =>
    unfold addAll at ih ⊢
    rw [List.foldlM_cons]
    by_cases hd : r.validDay q d = true
    · rw [checkAddValidOccr_of_valid hd, List.filter_cons_of_pos hd]
      by_cases hroom : ArrayFits (l.length + 1)
      · rw [if_pos hroom]
        show List.foldlM _ (l ++ [r.occurrence q d]) days = _
        rw [ih]
        simp only [List.length_append, List.length_cons, List.length_nil, List.append_assoc,
          List.map_cons, List.singleton_append, reduceCtorEq, false_or]
        apply if_congr ?_ rfl rfl
        rw [show l.length + (0 + 1) + (days.filter (r.validDay q)).length =
          l.length + ((days.filter (r.validDay q)).length + 1) by omega]
        refine or_iff_right_of_imp fun hnil => ?_
        rw [hnil]
        exact hroom
      · rw [if_neg hroom, if_neg]
        · rfl
        · rintro (hnil | hfits)
          · cases hnil
          · refine hroom (hfits.mono ?_)
            rw [List.length_cons]
            omega
    · rw [checkAddValidOccr_of_not_valid hd, List.filter_cons_of_neg hd]
      exact ih l

/-- The second loop adds the first valid day. -/
theorem addFirst_eq (days : List ℤ) (l : List OccrInfo) :
    r.addFirst q days l = match days.find? (r.validDay q) with
      | none => some (false, l)
      | some d =>
        if ArrayFits (l.length + 1) then some (true, l ++ [r.occurrence q d]) else none := by
  induction days with
  | nil => rfl
  | cons d days ih =>
    rw [addFirst]
    by_cases hd : r.validDay q d = true
    · rw [checkAddValidOccr_of_valid hd, List.find?_cons_of_pos hd]
      dsimp only
      split_ifs <;> rfl
    · rw [checkAddValidOccr_of_not_valid hd, List.find?_cons_of_neg hd]
      exact ih

/-! ## The two loops -/

/-- The first instants of the passes of a loop. -/
def passes (tsNow : ℤ) (stride n : ℕ) : List ℤ :=
  (List.range n).map fun (k : ℕ) => tsNow + k * stride

theorem passes_succ (tsNow : ℤ) (stride n : ℕ) :
    passes tsNow stride (n + 1) = tsNow :: passes (tsNow + stride) stride n := by
  unfold passes
  rw [List.range_succ_eq_map, List.map_cons, List.map_map]
  refine congrArg₂ _ (by simp) (List.map_congr_left fun k _ => ?_)
  show tsNow + ((k + 1 : ℕ) : ℤ) * stride = tsNow + stride + k * stride
  push_cast
  ring

theorem passes_concat (tsNow : ℤ) (stride n : ℕ) :
    passes tsNow stride (n + 1) = passes tsNow stride n ++ [tsNow + n * stride] := by
  unfold passes
  rw [List.range_succ, List.map_append, List.map_singleton]

variable {days : ℤ → List ℤ} {stride : ℕ}

/-- The forward loop adds the valid days of all its passes. -/
theorem forward_eq {n : ℕ} {tsNow : ℤ} (hin : ∀ k < n, tsNow + k * stride ≤ r.dayEnd q)
    (hout : r.dayEnd q < tsNow + n * stride) (fuel : ℕ) (l : List OccrInfo) : r.forward q days stride fuel tsNow l =
      if n < fuel then r.addAll q ((passes tsNow stride n).flatMap days) l else none := by
  induction n generalizing tsNow fuel l with
  | zero =>
    cases fuel with
    | zero => rfl
    | succ fuel =>
      rw [forward, if_neg (by simpa using hout), if_pos fuel.succ_pos]
      rfl
  | succ n ih =>
    cases fuel with
    | zero => rfl
    | succ fuel =>
      have hin' : ∀ k < n, tsNow + stride + k * stride ≤ r.dayEnd q := by
        intro k hk
        have h := hin (k + 1) (by omega)
        push_cast at h
        linarith
      have hout' : r.dayEnd q < tsNow + stride + n * stride := by
        push_cast at hout
        linarith
      rw [forward, if_pos (by simpa using hin 0 n.succ_pos), passes_succ, List.flatMap_cons]
      have happend (l : List OccrInfo) : r.addAll q
          (days tsNow ++ (passes (tsNow + stride) stride n).flatMap days) l =
          (r.addAll q (days tsNow) l).bind (r.addAll q ((passes (tsNow + stride) stride n).flatMap days)) :=
        List.foldlM_append
      rw [happend]
      show (r.addAll q (days tsNow) l).bind _ = _
      simp only [ih hin' hout', Nat.add_lt_add_iff_right]
      split_ifs
      · rfl
      · exact Option.bind_fun_none _

/-- The first instants of the passes of the backward loop. -/
def passesBack (tsNow : ℤ) (stride n : ℕ) : List ℤ :=
  (List.range n).map fun (k : ℕ) => tsNow - k * stride

theorem passesBack_succ (tsNow : ℤ) (stride n : ℕ) :
    passesBack tsNow stride (n + 1) = tsNow :: passesBack (tsNow - stride) stride n := by
  unfold passesBack
  rw [List.range_succ_eq_map, List.map_cons, List.map_map]
  refine congrArg₂ _ (by simp) (List.map_congr_left fun k _ => ?_)
  show tsNow - ((k + 1 : ℕ) : ℤ) * stride = tsNow - stride - k * stride
  push_cast
  ring

theorem reverse_passes (tsNow : ℤ) (stride n : ℕ) :
    (passes tsNow stride (n + 1)).reverse = passesBack (tsNow + n * stride) stride (n + 1) := by
  induction n with
  | zero => simp [passes, passesBack]
  | succ n ih =>
    have hbefore : tsNow + ((n + 1 : ℕ) : ℤ) * stride - stride = tsNow + n * stride := by
      push_cast
      ring
    rw [passes_concat, List.reverse_append, ih, passesBack_succ _ _ (n + 1), hbefore]
    rfl

theorem addFirst_append (days₁ days₂ : List ℤ) (l : List OccrInfo) : r.addFirst q (days₁ ++ days₂) l =
      (r.addFirst q days₁ l).bind fun p => if p.1 then some p else r.addFirst q days₂ p.2 := by
  induction days₁ generalizing l with
  | nil => rfl
  | cons d days ih =>
    rw [List.cons_append, addFirst, addFirst]
    cases r.checkAddValidOccr q d l with
    | none => rfl
    | some p =>
      show (if p.1 = true then _ else _) = Option.bind (if p.1 = true then _ else _) _
      split_ifs with hfound
      · rfl
      · exact ih p.2

/-- The backward loop adds the first valid day of all its passes. -/
theorem backward_eq {n : ℕ} {tsNow : ℤ} (hin : ∀ k < n, r.dayStart ≤ tsNow - k * stride)
    (hout : tsNow - n * stride < r.dayStart) {fuel : ℕ} {l : List OccrInfo}
    (hfuel : n < fuel ∨ r.backward q days stride fuel tsNow l ≠ none) : r.backward q days stride fuel tsNow l =
      (r.addFirst q ((passesBack tsNow stride n).flatMap fun t => (days t).reverse) l).map Prod.snd := by
  induction n generalizing tsNow fuel l with
  | zero =>
    cases fuel with
    | zero => exact absurd rfl (hfuel.resolve_left (Nat.lt_irrefl _))
    | succ fuel =>
      rw [backward, if_neg (by simpa using hout)]
      rfl
  | succ n ih =>
    cases fuel with
    | zero => exact absurd rfl (hfuel.resolve_left (Nat.not_lt_zero _))
    | succ fuel =>
      have hin' : ∀ k < n, r.dayStart ≤ tsNow - stride - k * stride := by
        intro k hk
        have h := hin (k + 1) (by omega)
        push_cast at h
        linarith
      have hout' : tsNow - stride - n * stride < r.dayStart := by
        push_cast at hout
        linarith
      have hstart : tsNow ≥ r.dayStart := by simpa using hin 0 n.succ_pos
      rw [passesBack_succ, List.flatMap_cons, addFirst_append]
      rw [backward, if_pos hstart] at hfuel ⊢
      cases hfirst : r.addFirst q (days tsNow).reverse l with
      | none => rfl
      | some p =>
        rw [hfirst] at hfuel
        show (if p.1 = true then _ else _) = Option.map Prod.snd (if p.1 = true then _ else _)
        change n + 1 < fuel + 1 ∨ (if p.1 = true then _ else _) ≠ none at hfuel
        split_ifs at hfuel ⊢ with hfound
        · rfl
        · exact ih hin' hout' (hfuel.imp_left Nat.lt_of_succ_lt_succ)

/-! ## Both walks -/

variable (r q days stride)

/-- The passes of the forward loop. -/
def passCount : ℕ := if r.dayEnd q < r.dayStart then 0 else (r.dayEnd q - r.dayStart).toNat / stride + 1

/-- The passes of the backward loop. Where the range ends before the start date, but by less than a
stride, the remainder is negative and the loop starts with the start date. -/
def passCountBack : ℕ :=
  if r.dayEnd q < r.dayStart then if r.dayStart - r.dayEnd q < stride then 1 else 0
  else (r.dayEnd q - r.dayStart).toNat / stride + 1

/-- The valid days of some passes from the start date on. -/
def validDays (n : ℕ) : List ℤ :=
  ((passes r.dayStart stride n).flatMap days).filter (r.validDay q)

variable {r q days stride}

theorem walk_forward (hstride : 0 < stride) (fuel : ℕ) (l : List OccrInfo) : r.walk q days stride false fuel l =
      if r.passCount q stride < fuel then
        r.addAll q ((passes r.dayStart stride (r.passCount q stride)).flatMap days) l
      else none := by
  refine forward_eq ?_ ?_ fuel l
  · intro k hk
    unfold passCount at hk
    split_ifs at hk with hend
    · exact absurd hk (Nat.not_lt_zero _)
    · have hmul := (Nat.le_div_iff_mul_le hstride).mp (Nat.lt_succ_iff.mp hk)
      zify at hmul
      omega
  · unfold passCount
    split_ifs with hend
    · simpa using hend
    · have hmul := Nat.lt_div_mul_add (a := (r.dayEnd q - r.dayStart).toNat) hstride
      zify at hmul
      push_cast
      linarith [Int.toNat_of_nonneg (sub_nonneg.mpr (not_lt.mp hend))]

theorem reverse_flatMap_passes (n : ℕ) : ((passes r.dayStart stride (n + 1)).flatMap days).reverse =
      (passesBack (r.dayStart + n * stride) stride (n + 1)).flatMap fun t => (days t).reverse := by
  rw [List.reverse_flatMap, reverse_passes]
  rfl

/-- The backward loop starts with the last of its passes. -/
theorem walk_backward (hstride : 0 < stride) {fuel : ℕ} {l : List OccrInfo}
    (hfuel : r.passCountBack q stride < fuel ∨ r.walk q days stride true fuel l ≠ none) :
    r.walk q days stride true fuel l = (r.addFirst q
      ((passes r.dayStart stride (r.passCountBack q stride)).flatMap days).reverse l).map Prod.snd := by
  have hpos : (0 : ℤ) < stride := by exact_mod_cast hstride
  have hwalk : r.walk q days stride true fuel l = r.backward q days stride fuel
      (r.dayEnd q - (r.dayEnd q - r.dayStart).tmod stride) l := if_neg hstride.ne'
  rw [hwalk] at hfuel ⊢
  unfold passCountBack at hfuel ⊢
  -- an end before the start: at most one pass, which the remainder decides
  by_cases hend : r.dayEnd q < r.dayStart
  · have htop : r.dayEnd q - (r.dayEnd q - r.dayStart).tmod stride =
        r.dayStart - stride * ((r.dayStart - r.dayEnd q) / stride) := by
      have hmod : (r.dayEnd q - r.dayStart).tmod stride = -((r.dayStart - r.dayEnd q) % stride) := by
        rw [← Int.tmod_eq_emod_of_nonneg (by omega), ← Int.neg_tmod, neg_sub]
      have hdiv := Int.emod_add_mul_ediv (r.dayStart - r.dayEnd q) stride
      rw [hmod]
      linarith
    rw [if_pos hend] at hfuel ⊢
    rw [htop] at hfuel ⊢
    split_ifs at hfuel ⊢ with hnear
    · rw [Int.ediv_eq_zero_of_lt (by omega) hnear, mul_zero, sub_zero] at hfuel ⊢
      rw [reverse_flatMap_passes, Nat.cast_zero, zero_mul, add_zero]
      refine backward_eq ?_ ?_ hfuel
      · intro k hk
        rw [Nat.lt_one_iff.mp hk]
        simp
      · push_cast
        linarith
    · refine backward_eq (n := 0) ?_ ?_ hfuel
      · intro k hk
        exact absurd hk (Nat.not_lt_zero _)
      · have hquot : 0 < (r.dayStart - r.dayEnd q) / stride :=
          (Int.le_ediv_iff_mul_le hpos).mpr (by omega)
        have hmul := mul_pos hpos hquot
        push_cast
        linarith
  · have hnonneg : 0 ≤ r.dayEnd q - r.dayStart := by omega
    have htop : r.dayEnd q - (r.dayEnd q - r.dayStart).tmod stride = r.dayStart +
        ((r.dayEnd q - r.dayStart).toNat / stride : ℕ) * stride := by
      have hdiv := Int.emod_add_mul_ediv (r.dayEnd q - r.dayStart) stride
      rw [Int.tmod_eq_emod_of_nonneg hnonneg, Int.natCast_ediv, Int.toNat_of_nonneg hnonneg]
      linarith
    rw [if_neg hend] at hfuel ⊢
    rw [htop] at hfuel ⊢
    rw [reverse_flatMap_passes]
    refine backward_eq ?_ ?_ hfuel
    · intro k hk
      have hmul : (k * stride : ℤ) ≤ ((r.dayEnd q - r.dayStart).toNat / stride : ℕ) * stride := by
        gcongr
        omega
      linarith
    · push_cast
      linarith

theorem addFirst_reverse (days : List ℤ) (l : List OccrInfo) :
    (r.addFirst q days.reverse l).map Prod.snd =
      match (days.filter (r.validDay q)).getLast? with
      | none => some l
      | some d => if ArrayFits (l.length + 1) then some (l ++ [r.occurrence q d]) else none := by
  rw [addFirst_eq, ← List.head?_filter, List.filter_reverse, List.head?_reverse]
  cases (days.filter (r.validDay q)).getLast? with
  | none => rfl
  | some d =>
    dsimp only
    split_ifs <;> rfl

/-! ## What is promised -/

variable (r q)

/-- `HrGetItems` reports some occurrences. -/
def Reports (last : Bool) (lppOccrInfo reported : List OccrInfo) : Prop :=
  ∃ fuel r', r.hrGetItems q last fuel lppOccrInfo = some (r', lppOccrInfo ++ reported)

/-- An occurrence is the latest of some occurrences. -/
def Latest (o : OccrInfo) (reported : List OccrInfo) : Prop :=
  o ∈ reported ∧ ∀ p ∈ reported, p.tBaseDate ≤ o.tBaseDate

/-- With `last`, nothing is reported where nothing is reported without it, and otherwise only the latest
occurrence. -/
def LastAgrees (lppOccrInfo : List OccrInfo) : Prop :=
  ∃ reported lastReported, r.Reports q false lppOccrInfo reported ∧
    r.Reports q true lppOccrInfo lastReported ∧
    (reported = [] ∧ lastReported = [] ∨ ∃ o, lastReported = [o] ∧ Latest o reported)

/-- The days of one pass of the loop of a recurrence. -/
def daysOfPass : ℤ → List ℤ :=
  if r.getFrequency = .WEEKLY then r.week
  else if r.m_sRecState.ulPatternType = 0 then fun tsNow => [tsNow]
  else weekdayOnly

/-- The seconds between two passes of the loop of a recurrence. -/
def strideOfPass : ℕ :=
  if r.getFrequency = .WEEKLY then (r.m_sRecState.ulPeriod * 604800).toNat
  else if r.m_sRecState.ulPatternType = 0 then (r.m_sRecState.ulPeriod * 60).toNat
  else 60 * 1440

/-- The passes are apart, the range does not end less than a pass before a start date whose first pass
has a valid day, the occurrences fit in an array, and none starts after that of the last valid day. -/
structure LastFits (lppOccrInfo : List OccrInfo) : Prop where
  stride : 0 < r.strideOfPass
  early : r.dayEnd q < r.dayStart → r.dayStart - r.dayEnd q < r.strideOfPass →
    ∀ d ∈ r.daysOfPass r.dayStart, ¬ r.validDay q d = true
  fits : r.validDays q r.daysOfPass r.strideOfPass (r.passCount q r.strideOfPass) = [] ∨
    ArrayFits (lppOccrInfo.length +
      (r.validDays q r.daysOfPass r.strideOfPass (r.passCount q r.strideOfPass)).length)
  latest : ∀ d ∈ r.validDays q r.daysOfPass r.strideOfPass (r.passCount q r.strideOfPass),
    ∀ e ∈ (r.validDays q r.daysOfPass r.strideOfPass (r.passCount q r.strideOfPass)).getLast?,
      r.occrStart q d ≤ r.occrStart q e

variable {r q}

theorem exists_normalized_eq : ∃ ulPeriod, r.normalized = r.withPeriod ulPeriod := by
  unfold normalized
  cases r.getFrequency <;> exact ⟨_, rfl⟩

/-- Only the period is normalized. -/
theorem normalized_spec : r.normalized.getFrequency = r.getFrequency ∧
    r.normalized.m_sRecState.lstExceptions = r.m_sRecState.lstExceptions := by
  obtain ⟨ulPeriod, hnorm⟩ := @exists_normalized_eq r
  rw [hnorm]
  unfold withPeriod
  split_ifs <;> exact ⟨rfl, rfl⟩

/-- A daily or weekly recurrence is one walk. -/
theorem patternItems_eq (hfreq : r.getFrequency = .DAILY ∨ r.getFrequency = .WEEKLY) (last : Bool)
    (fuel : ℕ) (l : List OccrInfo) :
    r.patternItems q last fuel l = r.walk q r.daysOfPass r.strideOfPass last fuel l := by
  unfold patternItems daysOfPass strideOfPass
  rcases hfreq with hfreq | hfreq
  · have hdaily : ¬ FreqType.DAILY = FreqType.WEEKLY := by decide
    rw [hfreq, if_neg hdaily, if_neg hdaily]
    dsimp only
    unfold dailyItems
    by_cases htype : r.m_sRecState.ulPatternType = 0
    · rw [if_pos htype, if_pos htype, if_pos htype]
    · rw [if_neg htype, if_neg htype, if_neg htype]
  · rw [hfreq, if_pos rfl, if_pos rfl]
    rfl

theorem addExceptions_of_nil (hexc : r.m_sRecState.lstExceptions = []) (l : List OccrInfo) :
    r.addExceptions q l = some l := by
  rw [addExceptions, hexc]
  rfl

theorem hrGetItems_eq (hfreq : r.getFrequency = .DAILY ∨ r.getFrequency = .WEEKLY)
    (hexc : r.m_sRecState.lstExceptions = []) (last : Bool) (fuel : ℕ) (l : List OccrInfo) :
    r.hrGetItems q last fuel l = (r.normalized.walk q r.normalized.daysOfPass
      r.normalized.strideOfPass last fuel l).map fun l => (r.normalized, l) := by
  obtain ⟨hsame, hsameExc⟩ := @normalized_spec r
  rw [← hsame] at hfreq
  rw [← hsameExc] at hexc
  unfold hrGetItems
  dsimp only
  rw [patternItems_eq hfreq]
  simp only [addExceptions_of_nil hexc]
  generalize r.normalized.walk q r.normalized.daysOfPass r.normalized.strideOfPass last fuel l = l'
  cases l' <;> rfl

/-- What is reported without `last`. -/
theorem reports_false_iff (hfreq : r.getFrequency = .DAILY ∨ r.getFrequency = .WEEKLY)
    (hexc : r.m_sRecState.lstExceptions = []) {n : ℕ} {V : List ℤ} (hstride : 0 < r.normalized.strideOfPass)
    (hn : n = r.normalized.passCount q r.normalized.strideOfPass)
    (hV : V = r.normalized.validDays q r.normalized.daysOfPass r.normalized.strideOfPass n)
    {old reported : List OccrInfo} : r.Reports q false old reported ↔
      (V = [] ∨ ArrayFits (old.length + V.length)) ∧ reported = V.map (r.normalized.occurrence q) := by
  unfold Reports
  simp only [hrGetItems_eq hfreq hexc, walk_forward hstride, addAll_eq, ← hn]
  rw [validDays] at hV
  rw [← hV]
  constructor
  · rintro ⟨fuel, r', h⟩
    split_ifs at h with hfuel hfits
    · exact ⟨hfits, (List.append_cancel_left (Prod.mk.inj (Option.some.inj h)).2).symm⟩
    · cases h
    · cases h
  · rintro ⟨hfits, rfl⟩
    refine ⟨n + 1, r.normalized, ?_⟩
    rw [if_pos n.lt_succ_self, if_pos hfits]
    rfl

/-- What is reported with `last`. -/
theorem reports_true_iff (hfreq : r.getFrequency = .DAILY ∨ r.getFrequency = .WEEKLY)
    (hexc : r.m_sRecState.lstExceptions = []) {n : ℕ} {V : List ℤ} (hstride : 0 < r.normalized.strideOfPass)
    (hn : n = r.normalized.passCountBack q r.normalized.strideOfPass)
    (hV : V = r.normalized.validDays q r.normalized.daysOfPass r.normalized.strideOfPass n)
    {old reported : List OccrInfo} : r.Reports q true old reported ↔ (V = [] ∧ reported = []) ∨
      ∃ d ∈ V.getLast?, ArrayFits (old.length + 1) ∧ reported = [r.normalized.occurrence q d] := by
  have hresult : r.Reports q true old reported ↔ (match V.getLast? with
      | none => some old
      | some d => if ArrayFits (old.length + 1) then some (old ++ [r.normalized.occurrence q d])
        else none) = some (old ++ reported) := by
    unfold Reports
    simp only [hrGetItems_eq hfreq hexc]
    rw [hV, validDays, ← addFirst_reverse, hn]
    constructor
    · rintro ⟨fuel, r', h⟩
      obtain ⟨l, hl, heq⟩ := Option.map_eq_some_iff.mp h
      rw [← walk_backward hstride (.inr (by rw [hl]; exact Option.some_ne_none _)), hl,
        (Prod.mk.inj heq).2]
    · intro h
      refine ⟨r.normalized.passCountBack q r.normalized.strideOfPass + 1, r.normalized, ?_⟩
      rw [walk_backward hstride (.inl (Nat.lt_succ_self _)), h]
      rfl
  rw [hresult]
  cases hlast : V.getLast? with
  | none =>
    rw [List.getLast?_eq_none_iff.mp hlast]
    simp
  | some d =>
    have hne : V ≠ [] := by
      rintro rfl
      cases hlast
    dsimp only
    split_ifs with hfits
    · simp [hne, hfits, eq_comm]
    · simp [hne, hfits]

/-- The latest of the occurrences on some days is the one on the last day, if no other one starts
later. -/
theorem latest_iff {V : List ℤ} {d : ℤ} (hd : V.getLast? = some d) :
    Latest (r.occurrence q d) (V.map (r.occurrence q)) ↔ ∀ d' ∈ V, r.occrStart q d' ≤ r.occrStart q d := by
  have hmem : d ∈ V := List.mem_of_getLast? hd
  constructor
  · intro h d' hd'
    exact h.2 _ (List.mem_map_of_mem hd')
  · intro h
    refine ⟨List.mem_map_of_mem hmem, fun p hp => ?_⟩
    obtain ⟨d', hd', rfl⟩ := List.mem_map.mp hp
    exact h d' hd'

/-- Where the range ends before the start date, nothing is reported without `last`. -/
theorem agrees_early_iff (hend : r.dayEnd q < r.dayStart) (days : ℤ → List ℤ) (stride : ℕ) :
    r.validDays q days stride (r.passCountBack q stride) = [] ↔
      (r.dayStart - r.dayEnd q < stride → ∀ d ∈ days r.dayStart, ¬ r.validDay q d = true) := by
  unfold passCountBack validDays
  rw [if_pos hend]
  split_ifs with hnear
  · simp [passes, hnear]
  · simp [passes, hnear]

/-- The last occurrence agrees with all occurrences if and only if `LastFits` holds. -/
theorem lastAgrees_iff (r : Recurrence) (q : ItemQuery) (lppOccrInfo : List OccrInfo)
    (hfreq : r.getFrequency = .DAILY ∨ r.getFrequency = .WEEKLY) (hexc : r.m_sRecState.lstExceptions = []) :
    r.LastAgrees q lppOccrInfo ↔ r.normalized.LastFits q lppOccrInfo := by
  -- with a stride of 0 the loops never end
  rcases Nat.eq_zero_or_pos r.normalized.strideOfPass with hzero | hstride
  · constructor
    · rintro ⟨-, lastReported, -, ⟨fuel, r', h⟩, -⟩
      rw [hrGetItems_eq hfreq hexc, hzero] at h
      cases h
    · intro h
      exact absurd hzero h.stride.ne'
  have hall {reported : List OccrInfo} : r.Reports q false lppOccrInfo reported ↔ _ :=
    reports_false_iff hfreq hexc hstride rfl rfl
  have hlast {reported : List OccrInfo} : r.Reports q true lppOccrInfo reported ↔ _ :=
    reports_true_iff hfreq hexc hstride rfl rfl
  -- a range that ends before it starts has no pass forward, but one backward
  by_cases hend : r.normalized.dayEnd q < r.normalized.dayStart
  · have hnone : r.normalized.validDays q r.normalized.daysOfPass r.normalized.strideOfPass
        (r.normalized.passCount q r.normalized.strideOfPass) = [] := by
      rw [passCount, if_pos hend]
      rfl
    have hearly := agrees_early_iff hend r.normalized.daysOfPass r.normalized.strideOfPass
    rw [hnone] at hall
    constructor
    · rintro ⟨reported, lastReported, hr, hl, hagree⟩
      obtain ⟨-, rfl⟩ := hall.mp hr
      refine ⟨hstride, fun _ => hearly.mp ?_, .inl hnone, by simp [hnone]⟩
      rcases hagree with ⟨-, rfl⟩ | ⟨o, -, ho, -⟩
      · rcases hlast.mp hl with ⟨hnil, -⟩ | ⟨d, -, -, hnil⟩
        · exact hnil
        · cases hnil
      · cases ho
    · intro h
      exact ⟨[], [], hall.mpr ⟨.inl rfl, rfl⟩, hlast.mpr (.inl ⟨hearly.mpr (h.early hend), rfl⟩),
        .inl ⟨rfl, rfl⟩⟩
  · have hsame : r.normalized.passCountBack q r.normalized.strideOfPass =
        r.normalized.passCount q r.normalized.strideOfPass := by
      unfold passCountBack passCount
      rw [if_neg hend, if_neg hend]
    rw [hsame] at hlast
    have hfits : r.normalized.LastFits q lppOccrInfo ↔ _ ∧ _ :=
      ⟨fun h => ⟨h.fits, h.latest⟩, fun h => ⟨hstride, fun h' => absurd h' hend, h.1, h.2⟩⟩
    rw [hfits]
    generalize r.normalized.validDays q r.normalized.daysOfPass r.normalized.strideOfPass
      (r.normalized.passCount q r.normalized.strideOfPass) = V at hall hlast
    -- without a valid day both report nothing; else the last one is compared with the latest
    rcases V.eq_nil_or_concat with rfl | ⟨V', d, hV⟩
    · refine iff_of_true ⟨[], [], hall.mpr ⟨.inl rfl, rfl⟩, hlast.mpr (.inl ⟨rfl, rfl⟩),
        .inl ⟨rfl, rfl⟩⟩ ⟨.inl rfl, by simp⟩
    · have hne : V ≠ [] := by simp [hV]
      have hd : V.getLast? = some d := by simp [hV]
      constructor
      · rintro ⟨reported, lastReported, hr, hl, hagree⟩
        obtain ⟨hfits, rfl⟩ := hall.mp hr
        refine ⟨hfits, fun d' hd' e he => ?_⟩
        rcases hlast.mp hl with ⟨hnil, -⟩ | ⟨e', he', -, rfl⟩
        · exact absurd hnil hne
        · cases hd.symm.trans he
          cases hd.symm.trans he'
          rcases hagree with ⟨hnil, -⟩ | ⟨o, ho, hlatest⟩
          · exact absurd (List.map_eq_nil_iff.mp hnil) hne
          · rw [← List.singleton_inj.mp ho] at hlatest
            exact (latest_iff hd).mp hlatest d' hd'
      · rintro ⟨hfits, hlatest⟩
        have hroom : ArrayFits (lppOccrInfo.length + 1) := by
          refine (hfits.resolve_left hne).mono ?_
          have hpos := List.length_pos_of_ne_nil hne
          omega
        exact ⟨_, _, hall.mpr ⟨hfits, rfl⟩, hlast.mpr (.inr ⟨d, hd, hroom, rfl⟩),
          .inr ⟨_, rfl, (latest_iff hd).mpr fun d' hd' => hlatest d' hd' d hd⟩⟩

/-- A meeting on Sunday the 29th of March 2015 from 0:00 to 0:30, the last one of its weekly
recurrence. -/
def sundayMeeting : Recurrence where
  m_sRecState :=
    { ulReaderVersion := 0x3004
      ulWriterVersion := 0x3004
      ulRecurFrequency := RF_WEEKLY
      ulPatternType := 1
      ulCalendarType := 0
      ulFirstDateTime := 0
      ulPeriod := 1
      ulSlidingFlag := 0
      ulWeekDays := 1
      ulDayOfMonth := 0
      ulWeekNumber := 0
      ulEndType := ET_DATE
      ulOccurrenceCount := 1
      ulFirstDOW := 1
      ulDeletedInstanceCount := 0
      lstDeletedInstanceDates := []
      ulModifiedInstanceCount := 0
      lstModifiedInstanceDates := []
      ulStartDate := 217867680
      ulEndDate := 217867680
      ulReaderVersion2 := 0x3006
      ulWriterVersion2 := 0x3009
      ulStartTimeOffset := 0
      ulEndTimeOffset := 30
      ulExceptionCount := 0
      lstExceptions := []
      strReservedBlock1 := []
      lstExtendedExceptions := []
      strReservedBlock2 := [] }
  m_ulMonth := 0

/-- The year 2015, two hours ahead of UTC, with a summer time that starts at midnight of that Sunday. -/
def summerQuery : ItemQuery where
  tsStart := 1420070400
  tsEnd := 1451606400
  ttZinfo :=
    { lBias := -120
      lStdBias := 0
      lDstBias := -60
      wStdYear := 0
      stStdDate := ⟨0, 10, 0, 5, 0, 0, 0, 0⟩
      wDstYear := 0
      stDstDate := ⟨0, 3, 0, 5, 0, 0, 0, 0⟩ }
  ulBusyStatus := 2

theorem lastAgrees_iff_sunday :
    sundayMeeting.LastAgrees summerQuery [] ↔ sundayMeeting.normalized.LastFits summerQuery [] :=
  lastAgrees_iff sundayMeeting summerQuery [] (.inr rfl) rfl

/-- The end date is converted to UTC in summer time and back in winter time. So the range ends on the
Saturday before, and only the backward loop visits the Sunday. -/
theorem not_lastAgrees_sunday : ¬ sundayMeeting.LastAgrees summerQuery [] := by
  have hfreq : sundayMeeting.getFrequency = .DAILY ∨ sundayMeeting.getFrequency = .WEEKLY := .inr rfl
  have hstride : 0 < sundayMeeting.normalized.strideOfPass := by decide
  have hall : sundayMeeting.normalized.validDays summerQuery sundayMeeting.normalized.daysOfPass
      sundayMeeting.normalized.strideOfPass (sundayMeeting.normalized.passCount summerQuery
        sundayMeeting.normalized.strideOfPass) = [] := by
    decide +kernel
  have hlast : sundayMeeting.normalized.validDays summerQuery sundayMeeting.normalized.daysOfPass
      sundayMeeting.normalized.strideOfPass (sundayMeeting.normalized.passCountBack summerQuery
        sundayMeeting.normalized.strideOfPass) ≠ [] := by
    decide +kernel
  rintro ⟨reported, lastReported, hr, hl, hagree⟩
  obtain ⟨-, rfl⟩ := (reports_false_iff hfreq rfl hstride rfl hall.symm).mp hr
  rcases (reports_true_iff hfreq rfl hstride rfl rfl).mp hl with ⟨hnil, -⟩ | ⟨d, -, -, rfl⟩
  · exact hlast hnil
  · rcases hagree with ⟨-, hnil⟩ | ⟨o, -, ho, -⟩
    · cases hnil
    · cases ho

end Zcp.FreeBusy.Recurrence
