import Zcp.Lib.ByteReader.Keeps
import Zcp.Lib.ByteReader.Restores
import Zcp.M4lcommon.RecurrenceState.RoundTrip

/-!
# Blobs that are cut off

`ParseBlob` keeps what it has read of a blob that is cut off, and makes the extended exceptions that were not read from
the exceptions. It makes as many as have been announced, which can be more than it has read.
-/

namespace Zcp.M4lcommon.RecurrenceState

open Zcp.Lib

/-! ## The parts of a blob -/

/-- The fields up to `ulEndDate`. -/
def readDates : Parse Unit := do
  shortField fun x rs => { rs with ulReaderVersion := x }
  shortField fun x rs => { rs with ulWriterVersion := x }
  shortField fun x rs => { rs with ulRecurFrequency := x }
  shortField fun x rs => { rs with ulPatternType := x }
  shortField fun x rs => { rs with ulCalendarType := x }
  longField fun x rs => { rs with ulFirstDateTime := x }
  longField fun x rs => { rs with ulPeriod := x }
  longField fun x rs => { rs with ulSlidingFlag := x }
  readPattern (← ByteReader.get).rs.ulPatternType
  longField fun x rs => { rs with ulEndType := x }
  longField fun x rs => { rs with ulOccurrenceCount := x }
  longField fun x rs => { rs with ulFirstDOW := x }
  longField fun x rs => { rs with ulDeletedInstanceCount := x }
  ByteReader.times (longField fun x rs =>
      { rs with lstDeletedInstanceDates := rs.lstDeletedInstanceDates ++ [x] })
    (← ByteReader.get).rs.ulDeletedInstanceCount.toNat
  longField fun x rs => { rs with ulModifiedInstanceCount := x }
  ByteReader.times (longField fun x rs =>
      { rs with lstModifiedInstanceDates := rs.lstModifiedInstanceDates ++ [x] })
    (← ByteReader.get).rs.ulModifiedInstanceCount.toNat
  longField fun x rs => { rs with ulStartDate := x }
  longField fun x rs => { rs with ulEndDate := x }

/-- What has been read of a task is valid. -/
def markTask (ulFlags : UInt) : Parse Unit :=
  ByteReader.modify fun st =>
    if ulFlags &&& RECURRENCE_STATE_TASKS != 0 then { st with bReadValid := true } else st

/-- The fields behind `ulEndDate`, with the number of exceptions. -/
def readTimes : Parse Unit := do
  longField fun x rs => { rs with ulReaderVersion2 := x }
  longField fun x rs => { rs with ulWriterVersion2 := x }
  longField fun x rs => { rs with ulStartTimeOffset := x }
  longField fun x rs => { rs with ulEndTimeOffset := x }
  shortField fun x rs => { rs with ulExceptionCount := x }

/-- The exceptions that were announced. -/
def readExceptions (junk : UInt) : Parse Unit := do
  ByteReader.times (readException junk) (← ByteReader.get).rs.ulExceptionCount.toNat

/-- What is behind the exceptions. -/
def readExtendeds (conv : Converter) (junk : UInt) : Parse Unit := do
  ByteReader.modify fun st => { st with bReadValid := true }
  let ulReservedBlock1Size ← READLONG
  let _ ← readBytes (fun x rs => { rs with strReservedBlock1 := x }) ulReservedBlock1Size
  ByteReader.each (readExtended conv junk) (← ByteReader.get).rs.lstExceptions

/-- The last part. -/
def readEnd : Parse Unit := do
  ByteReader.modify fun st => { st with bExtended := true }
  let ulReservedBlock2Size ← READLONG
  let _ ← readBytes (fun x rs => { rs with strReservedBlock2 := x }) ulReservedBlock2Size
  pure ()

theorem readHeader_eq (ulFlags : UInt) :
    readHeader ulFlags = readDates >>= fun _ => markTask ulFlags >>= fun _ => readTimes := by
  simp only [readHeader, readDates, markTask, readTimes, ByteReader.bind_assoc]

theorem readBlob_eq (conv : Converter) (junk ulFlags : UInt) :
    readBlob conv junk ulFlags = readDates >>= fun _ => markTask ulFlags >>= fun _ => readTimes >>= fun _ =>
      readExceptions junk >>= fun _ => readExtendeds conv junk >>= fun _ => readEnd := by
  simp only [readBlob, readHeader_eq, readExceptions, readExtendeds, readEnd, ByteReader.bind_assoc]

/-! ## What the parts change -/

section

variable {τ : Type} {f : ParseState → τ}

theorem keeps_readNumber (n : ℕ) : Keeps id (readNumber n) := by
  refine (Keeps.left id).bind fun left => (Keeps.get id).bind fun st => ?_
  apply Keeps.ite
  · exact Keeps.ite (Keeps.stop id _) (Keeps.stop id _)
  · exact (Keeps.take id n).bind fun _ => Keeps.pure id _

theorem keeps_READSHORT : Keeps id READSHORT := keeps_readNumber 2

theorem keeps_READLONG : Keeps id READLONG := keeps_readNumber 4

theorem keeps_set {g : RecurrenceState → RecurrenceState} (h : ∀ st, f { st with rs := g st.rs } = f st) :
    Keeps f (set g) :=
  Keeps.modify h

theorem keeps_readBytes {g : List UInt8 → RecurrenceState → RecurrenceState}
    (h : ∀ x st, f { st with rs := g x st.rs } = f st) (len : UInt) : Keeps f (readBytes g len) := by
  refine (Keeps.left f).bind fun left => (Keeps.take f _).bind fun bytes => (keeps_set (h bytes)).bind fun _ => ?_
  exact Keeps.ite (Keeps.stop f _) (Keeps.pure f _)

theorem keeps_READSTRING (len : UInt) : Keeps id (READSTRING len) := keeps_readBytes (fun _ _ => rfl) len

theorem keeps_shortField {g : UInt → RecurrenceState → RecurrenceState}
    (h : ∀ x st, f { st with rs := g x st.rs } = f st) : Keeps f (shortField g) :=
  (keeps_READSHORT.of_id f).bind fun x => keeps_set (h x)

theorem keeps_longField {g : UInt → RecurrenceState → RecurrenceState}
    (h : ∀ x st, f { st with rs := g x st.rs } = f st) : Keeps f (longField g) :=
  (keeps_READLONG.of_id f).bind fun x => keeps_set (h x)

theorem keeps_readIf {α : Type} {c : Prop} [Decidable c] (old : α) {p : Parse α} (hp : Keeps f p) :
    Keeps f (readIf c old p) :=
  Keeps.ite hp (Keeps.pure f old)

end

/-- What the exceptions are made good from. -/
def recoveryPart (st : ParseState) : Bool × Bool × List Exception × List ExtendedException × UInt :=
  (st.bReadValid, st.bExtended, st.rs.lstExceptions, st.rs.lstExtendedExceptions, st.rs.ulExceptionCount)

theorem keeps_readPattern (ulPatternType : UInt) : Keeps recoveryPart (readPattern ulPatternType) := by
  apply Keeps.ite (Keeps.pure recoveryPart ())
  apply Keeps.ite (keeps_longField fun _ _ => rfl)
  apply Keeps.ite (keeps_longField fun _ _ => rfl)
  apply Keeps.ite _ (Keeps.pure recoveryPart ())
  exact (keeps_longField fun _ _ => rfl).bind fun _ => keeps_longField fun _ _ => rfl

/-- Reading the dates changes nothing that matters for the recovery. -/
theorem keeps_readDates : Keeps recoveryPart readDates := by
  refine (keeps_shortField fun _ _ => rfl).bind fun _ => ?_
  refine (keeps_shortField fun _ _ => rfl).bind fun _ => ?_
  refine (keeps_shortField fun _ _ => rfl).bind fun _ => ?_
  refine (keeps_shortField fun _ _ => rfl).bind fun _ => ?_
  refine (keeps_shortField fun _ _ => rfl).bind fun _ => ?_
  refine (keeps_longField fun _ _ => rfl).bind fun _ => ?_
  refine (keeps_longField fun _ _ => rfl).bind fun _ => ?_
  refine (keeps_longField fun _ _ => rfl).bind fun _ => ?_
  refine (Keeps.get recoveryPart).bind fun st => (keeps_readPattern _).bind fun _ => ?_
  refine (keeps_longField fun _ _ => rfl).bind fun _ => ?_
  refine (keeps_longField fun _ _ => rfl).bind fun _ => ?_
  refine (keeps_longField fun _ _ => rfl).bind fun _ => ?_
  refine (keeps_longField fun _ _ => rfl).bind fun _ => ?_
  refine (Keeps.get recoveryPart).bind fun st => (Keeps.times (keeps_longField fun _ _ => rfl) _).bind fun _ => ?_
  refine (keeps_longField fun _ _ => rfl).bind fun _ => ?_
  refine (Keeps.get recoveryPart).bind fun st => (Keeps.times (keeps_longField fun _ _ => rfl) _).bind fun _ => ?_
  exact (keeps_longField fun _ _ => rfl).bind fun _ => keeps_longField fun _ _ => rfl

/-- The same without the number of exceptions. -/
def listPart (st : ParseState) : Bool × Bool × List Exception × List ExtendedException :=
  (st.bReadValid, st.bExtended, st.rs.lstExceptions, st.rs.lstExtendedExceptions)

theorem keeps_readTimes : Keeps listPart readTimes := by
  refine (keeps_longField fun _ _ => rfl).bind fun _ => ?_
  refine (keeps_longField fun _ _ => rfl).bind fun _ => ?_
  refine (keeps_longField fun _ _ => rfl).bind fun _ => ?_
  exact (keeps_longField fun _ _ => rfl).bind fun _ => keeps_shortField fun _ _ => rfl

/-- The number of exceptions is the last field: where it is not read, the old one stays. -/
theorem readTimes_error {bytes rest : List UInt8} {st st' : ParseState} {e : ReadStop}
    (h : readTimes bytes st = (.error e, rest, st')) : recoveryPart st' = recoveryPart st := by
  have hoffsets : Keeps recoveryPart (longField (fun x rs => { rs with ulReaderVersion2 := x }) >>= fun _ =>
      longField (fun x rs => { rs with ulWriterVersion2 := x }) >>= fun _ =>
      longField (fun x rs => { rs with ulStartTimeOffset := x }) >>= fun _ =>
      longField (fun x rs => { rs with ulEndTimeOffset := x }) >>= fun _ => READSHORT) := by
    refine (keeps_longField fun _ _ => rfl).bind fun _ => ?_
    refine (keeps_longField fun _ _ => rfl).bind fun _ => ?_
    refine (keeps_longField fun _ _ => rfl).bind fun _ => ?_
    exact (keeps_longField fun _ _ => rfl).bind fun _ => keeps_READSHORT.of_id recoveryPart
  have heq : readTimes = (longField (fun x rs => { rs with ulReaderVersion2 := x }) >>= fun _ =>
      longField (fun x rs => { rs with ulWriterVersion2 := x }) >>= fun _ =>
      longField (fun x rs => { rs with ulStartTimeOffset := x }) >>= fun _ =>
      longField (fun x rs => { rs with ulEndTimeOffset := x }) >>= fun _ => READSHORT) >>= fun x =>
      set fun rs => { rs with ulExceptionCount := x } := by
    simp only [readTimes, shortField, ByteReader.bind_assoc]
  rw [heq] at h
  rcases hrun : (longField (fun x rs => { rs with ulReaderVersion2 := x }) >>= fun _ =>
      longField (fun x rs => { rs with ulWriterVersion2 := x }) >>= fun _ =>
      longField (fun x rs => { rs with ulStartTimeOffset := x }) >>= fun _ =>
      longField (fun x rs => { rs with ulEndTimeOffset := x }) >>= fun _ => READSHORT) bytes st with ⟨e' | x, bytes', st₁⟩
  · cases (bind_error hrun).symm.trans h
    exact hoffsets.error hrun
  · cases (bind_ok hrun).symm.trans h

/-! ## Exceptions -/

theorem keeps_readString : Keeps id readString := by
  refine keeps_READSHORT.bind fun _ => keeps_READSHORT.bind fun len => ?_
  exact keeps_READSTRING len

theorem keeps_readBlock : Keeps id readBlock := keeps_READLONG.bind fun len => keeps_READSTRING len

theorem keeps_readWide (conv : Converter) : Keeps id (readWide conv) := by
  refine keeps_READSHORT.bind fun len => (keeps_READSTRING _).bind fun strBytes => ?_
  exact Keeps.pure id _

/-- Reading an exception does not touch the object before it adds the exception. -/
theorem readException_raises (junk : UInt) :
    Raises (fun st : ParseState => (st.bReadValid, st.bExtended, st.rs.lstExtendedExceptions, st.rs.ulExceptionCount))
      (fun st => st.rs.lstExceptions.length) (readException junk) 1 := by
  refine Raises.after keeps_READLONG fun _ => Raises.after keeps_READLONG fun _ => ?_
  refine Raises.after keeps_READLONG fun _ => Raises.after keeps_READSHORT fun _ => ?_
  refine Raises.after (keeps_readIf _ keeps_readString) fun _ => ?_
  refine Raises.after (keeps_readIf _ keeps_READLONG) fun _ => ?_
  refine Raises.after (keeps_readIf _ keeps_READLONG) fun _ => ?_
  refine Raises.after (keeps_readIf _ keeps_READLONG) fun _ => ?_
  refine Raises.after (keeps_readIf _ keeps_readString) fun _ => ?_
  refine Raises.after (keeps_readIf _ keeps_READLONG) fun _ => ?_
  refine Raises.after (keeps_readIf _ keeps_READLONG) fun _ => ?_
  refine Raises.after (keeps_readIf _ keeps_READLONG) fun _ => ?_
  refine Raises.after (keeps_readIf _ keeps_READLONG) fun _ => ?_
  exact Raises.modify (fun _ => rfl) fun _ => List.length_append

/-- Reading an extended exception adds it. -/
theorem readExtended_raises (conv : Converter) (junk : UInt) (e : Exception) :
    Raises (fun st : ParseState => (st.bReadValid, st.bExtended, st.rs.lstExceptions, st.rs.ulExceptionCount))
      (fun st => st.rs.lstExtendedExceptions.length) (readExtended conv junk e) 1 := by
  have hhighlight : Keeps id (do
      let ulChangeHighlightSize ← READLONG
      let ulChangeHighlightValue ← READLONG
      let strReserved ← READSTRING (ulChangeHighlightSize - 4)
      pure (ulChangeHighlightValue, strReserved)) :=
    keeps_READLONG.bind fun _ => keeps_READLONG.bind fun _ => (keeps_READSTRING _).bind fun _ => Keeps.pure id _
  have htimes : Keeps id (do
      let ulStartDateTime ← READLONG
      let ulEndDateTime ← READLONG
      let ulOriginalStartDate ← READLONG
      pure (ulStartDateTime, ulEndDateTime, ulOriginalStartDate)) :=
    keeps_READLONG.bind fun _ => keeps_READLONG.bind fun _ => keeps_READLONG.bind fun _ => Keeps.pure id _
  refine Raises.after (Keeps.get id) fun st => Raises.after (keeps_readIf _ hhighlight) fun _ => ?_
  refine Raises.after keeps_readBlock fun _ => Raises.after (keeps_readIf _ htimes) fun _ => ?_
  refine Raises.after (keeps_readIf _ (keeps_readWide conv)) fun _ => ?_
  refine Raises.after (keeps_readIf _ (keeps_readWide conv)) fun _ => ?_
  refine Raises.after (keeps_readIf _ keeps_readBlock) fun _ => ?_
  exact Raises.modify (fun _ => rfl) fun _ => List.length_append

/-! ## The end -/

/-- There is a result, and a result that can be used has as many extended exceptions as exceptions. -/
def Matches (result : Option (HRESULT × RecurrenceState)) : Prop :=
  ∃ hr rs', result = some (hr, rs') ∧
    (hr = .hrSuccess ∨ hr = .MAPI_W_ERRORS_RETURNED → rs'.lstExceptions.length = rs'.lstExtendedExceptions.length)

/-- What has to be true in front of the end: extended exceptions that are missing are made for all exceptions that were
announced. -/
def Ready (st : ParseState) : Prop :=
  st.bReadValid = true →
    if st.bExtended = true then st.rs.lstExceptions.length = st.rs.lstExtendedExceptions.length
    else st.rs.ulExceptionCount.toNat = st.rs.lstExceptions.length

theorem mapM_eq_some {α β : Type} {f : α → Option β} {g : α → β} {l : List α} (h : ∀ a ∈ l, f a = some (g a)) :
    l.mapM f = some (l.map g) := by
  induction l with
  | nil => rfl
  | cons a l ih =>
    obtain ⟨ha, hl⟩ := List.forall_mem_cons.mp h
    rw [List.mapM_cons, ha, ih hl]
    rfl

/-- Where one entry has no value, there is no result. -/
theorem mapM_eq_none {α β : Type} {f : α → Option β} {l : List α} {a : α} (ha : a ∈ l) (hf : f a = none) :
    l.mapM f = none := by
  induction l with
  | nil => cases ha
  | cons b l ih =>
    rw [List.mapM_cons]
    rcases List.mem_cons.mp ha with rfl | ha
    · rw [hf]
      rfl
    · rw [ih ha]
      cases f b <;> rfl

/-- What is kept of a blob that was cut matches exactly if the parse was ready for the recovery. -/
theorem matches_finish_iff (conv : Converter) (st : ParseState) :
    Matches (finish conv .MAPI_E_NOT_FOUND st) ↔ Ready st := by
  by_cases hvalid : st.bReadValid = true
  · have hready : Ready st ↔
        if st.bExtended = true then st.rs.lstExceptions.length = st.rs.lstExtendedExceptions.length
        else st.rs.ulExceptionCount.toNat = st.rs.lstExceptions.length :=
      ⟨fun h => h hvalid, fun h _ => h⟩
    rw [hready, finish, if_pos ⟨HRESULT.noConfusion, hvalid⟩]
    by_cases hextended : st.bExtended = true
    · rw [if_pos hextended, if_pos hextended]
      constructor
      · rintro ⟨hr, rs', hsome, hlengths⟩
        cases hsome
        exact hlengths (.inr rfl)
      · exact fun h => ⟨_, _, rfl, fun _ => h⟩
    · rw [if_neg hextended, if_neg hextended]
      by_cases hle : st.rs.ulExceptionCount.toNat ≤ st.rs.lstExceptions.length
      · have hsome : ((List.range st.rs.ulExceptionCount.toNat).mapM fun i =>
            st.rs.lstExceptions[i]?.map (syncExtended conv)) =
            some ((List.range st.rs.ulExceptionCount.toNat).map fun i =>
              syncExtended conv (st.rs.lstExceptions.getD i (Exception.unset 0))) := by
          apply mapM_eq_some
          intro i hi
          have hlt : i < st.rs.lstExceptions.length := (List.mem_range.mp hi).trans_le hle
          rw [List.getD_eq_getElem?_getD, List.getElem?_eq_getElem hlt]
          rfl
        rw [hsome]
        constructor
        · rintro ⟨hr, rs', hresult, hlengths⟩
          cases hresult
          have hsame := hlengths (.inr rfl)
          rw [List.length_map, List.length_range] at hsame
          exact hsame.symm
        · intro hsame
          refine ⟨_, _, rfl, fun _ => ?_⟩
          rw [List.length_map, List.length_range]
          exact hsame.symm
      · have hnone : ((List.range st.rs.ulExceptionCount.toNat).mapM fun i =>
            st.rs.lstExceptions[i]?.map (syncExtended conv)) = none := by
          apply mapM_eq_none (List.mem_range.mpr (Nat.not_le.mp hle))
          rw [List.getElem?_eq_none le_rfl, Option.map_none]
        rw [hnone]
        refine iff_of_false ?_ (by omega)
        rintro ⟨hr, rs', hresult, -⟩
        cases hresult
  · rw [finish, if_neg fun h => hvalid h.2]
    refine iff_of_true ⟨_, _, rfl, ?_⟩ fun h => absurd h hvalid
    rintro (h | h)
    · cases h
    · cases h

/-! ## Behind the exceptions -/

section

variable {conv : Converter} {junk : UInt} {bytes rest : List UInt8} {st st' : ParseState} {e : ReadStop}

/-- All exceptions that were announced are there. -/
theorem readExceptions_ok (h : readExceptions junk bytes st = (.ok (), rest, st')) :
    (st'.bReadValid, st'.bExtended, st'.rs.lstExtendedExceptions, st'.rs.ulExceptionCount) =
        (st.bReadValid, st.bExtended, st.rs.lstExtendedExceptions, st.rs.ulExceptionCount) ∧
      st'.rs.lstExceptions.length = st.rs.lstExceptions.length + st.rs.ulExceptionCount.toNat :=
  have hraises := (readException_raises junk).times st.rs.ulExceptionCount.toNat
  ⟨hraises.keeps.ok h, hraises.ok h⟩

/-- Some are missing. -/
theorem readExceptions_error (h : readExceptions junk bytes st = (.error e, rest, st')) :
    (st'.bReadValid, st'.bExtended, st'.rs.lstExtendedExceptions, st'.rs.ulExceptionCount) =
        (st.bReadValid, st.bExtended, st.rs.lstExtendedExceptions, st.rs.ulExceptionCount) ∧
      st'.rs.lstExceptions.length < st.rs.lstExceptions.length + st.rs.ulExceptionCount.toNat :=
  have hraises := (readException_raises junk).times st.rs.ulExceptionCount.toNat
  ⟨hraises.keeps.error h, hraises.error h⟩

/-- The exceptions and their number, and that there are no extended ones yet. -/
def countedPart (st : ParseState) : Bool × List Exception × UInt :=
  (st.bExtended, st.rs.lstExceptions, st.rs.ulExceptionCount)

/-- Reading the extended exceptions changes nothing that has been counted. -/
theorem keeps_readExtendeds (conv : Converter) (junk : UInt) : Keeps countedPart (readExtendeds conv junk) := by
  apply Keeps.bind
  · exact Keeps.modify fun _ => rfl
  · intro _
    refine (keeps_READLONG.of_id countedPart).bind fun len => (keeps_readBytes (fun _ _ => rfl) len).bind fun _ => ?_
    refine (Keeps.get countedPart).bind fun st₁ => Keeps.each ?_ _
    intro iterExceptions bytes s
    have hkeeps := (readExtended_raises conv junk iterExceptions).keeps bytes s
    exact congrArg (fun t : Bool × Bool × List Exception × UInt => t.2) hkeeps

/-- As many extended exceptions as exceptions are read. -/
theorem readExtendeds_ok (h : readExtendeds conv junk bytes st = (.ok (), rest, st')) :
    st'.rs.lstExtendedExceptions.length = st.rs.lstExtendedExceptions.length + st'.rs.lstExceptions.length := by
  have hfront : Keeps (fun st : ParseState => (st.rs.lstExceptions, st.rs.lstExtendedExceptions))
      (ByteReader.modify (fun st => { st with bReadValid := true }) >>= fun _ => READLONG >>= fun len =>
        readBytes (fun x rs => { rs with strReservedBlock1 := x }) len) := by
    apply Keeps.bind
    · exact Keeps.modify fun _ => rfl
    · exact fun _ => (keeps_READLONG.of_id _).bind fun len => keeps_readBytes (fun _ _ => rfl) len
  have heq : readExtendeds conv junk = (ByteReader.modify (fun st => { st with bReadValid := true }) >>= fun _ =>
      READLONG >>= fun len => readBytes (fun x rs => { rs with strReservedBlock1 := x }) len) >>= fun _ =>
      ByteReader.get >>= fun st => ByteReader.each (readExtended conv junk) st.rs.lstExceptions := by
    simp only [readExtendeds, ByteReader.bind_assoc]
  rw [heq] at h
  rcases hrun : (ByteReader.modify (fun st => { st with bReadValid := true }) >>= fun _ => READLONG >>= fun len =>
      readBytes (fun x rs => { rs with strReservedBlock1 := x }) len : Parse _) bytes st with ⟨e | x, bytes', st₁⟩
  · cases (bind_error hrun).symm.trans h
  · have heach : ByteReader.each (readExtended conv junk) st₁.rs.lstExceptions bytes' st₁ = (.ok (), rest, st') :=
      (bind_ok hrun).symm.trans h
    have hraises := Raises.each (readExtended_raises conv junk) st₁.rs.lstExceptions
    have hexceptions := congrArg (fun t : Bool × Bool × List Exception × UInt => t.2.2.1) (hraises.keeps.ok heach)
    have hsame := congrArg (fun t : List Exception × List ExtendedException => t.2) (hfront.ok hrun)
    dsimp only at hexceptions hsame
    rw [hraises.ok heach, hsame, hexceptions]

theorem keeps_readEnd : Keeps (fun st : ParseState => (st.rs.lstExceptions, st.rs.lstExtendedExceptions)) readEnd := by
  apply Keeps.bind
  · exact Keeps.modify fun _ => rfl
  · intro _
    refine (keeps_READLONG.of_id _).bind fun len => ?_
    exact (keeps_readBytes (fun _ _ => rfl) len).bind fun _ => Keeps.pure _ _

/-- The last part starts with the mark. -/
theorem readEnd_bExtended (bytes : List UInt8) (st : ParseState) : (readEnd bytes st).2.2.bExtended = true := by
  have hkeeps : Keeps (fun st : ParseState => st.bExtended) (READLONG >>= fun len =>
      readBytes (fun x rs => { rs with strReservedBlock2 := x }) len >>= fun _ => (pure () : Parse Unit)) := by
    refine (keeps_READLONG.of_id _).bind fun len => ?_
    exact (keeps_readBytes (fun _ _ => rfl) len).bind fun _ => Keeps.pure _ _
  exact hkeeps bytes { st with bExtended := true }

end

/-! ## Any blob -/

/-- The variables at the start: what an earlier blob has left is there, but for the lists. -/
def initial (rs : RecurrenceState) (lpData : List UInt8) : ParseState :=
  ⟨lpData.length, { rs with
    lstDeletedInstanceDates := []
    lstModifiedInstanceDates := []
    lstExceptions := []
    lstExtendedExceptions := [] }, false, false⟩

/-- The bytes that are left behind a first part are too few for a second part. -/
def CutBehind (first second : Parse Unit) (st : ParseState) (lpData : List UInt8) : Prop :=
  ∃ bytes st', first lpData st = (.ok (), bytes, st') ∧ (second bytes st').1 = .error .short

/-- No exception is looked for outside of the list, and a result that can be used has as many extended exceptions as
exceptions, unless a byte behind the data is read. -/
def KeepsLists (conv : Converter) (junk : UInt) (rs : RecurrenceState) (lpData : List UInt8) (ulFlags : UInt) : Prop :=
  (readBlob conv junk ulFlags lpData (initial rs lpData)).1 ≠ .error .outside →
    Matches (parseBlob conv junk rs lpData ulFlags)

/-- A task is not cut off between `ulEndDate` and the number of exceptions, unless the object had none before, nor in
its exceptions. -/
structure Recovers (junk : UInt) (rs : RecurrenceState) (lpData : List UInt8) (ulFlags : UInt) : Prop where
  times : ulFlags &&& RECURRENCE_STATE_TASKS ≠ 0 →
    CutBehind (readDates >>= fun _ => markTask ulFlags) readTimes (initial rs lpData) lpData →
      rs.ulExceptionCount = 0
  exceptions : ulFlags &&& RECURRENCE_STATE_TASKS ≠ 0 →
    ¬ CutBehind (readHeader ulFlags) (readExceptions junk) (initial rs lpData) lpData

section

variable {conv : Converter} {junk ulFlags : UInt} {rs : RecurrenceState} {lpData rest : List UInt8} {st : ParseState}

/-- Behind a part that is too short, the end makes the lists good or not. -/
theorem keepsLists_of_error {e : ReadStop}
    (h : readBlob conv junk ulFlags lpData (initial rs lpData) = (.error e, rest, st)) :
    KeepsLists conv junk rs lpData ulFlags ↔ (e = .short → Ready st) := by
  cases e with
  | short =>
    have hparse : parseBlob conv junk rs lpData ulFlags = finish conv .MAPI_E_NOT_FOUND st := by
      unfold initial at h
      rw [parseBlob, h]
    rw [KeepsLists, h, hparse, matches_finish_iff]
    exact ⟨fun hready _ => hready (fun hout => by cases hout), fun hready _ => hready rfl⟩
  | outside =>
    rw [KeepsLists, h]
    exact ⟨fun _ hshort => absurd hshort (by decide), fun _ hinside => absurd rfl hinside⟩

/-- A blob that is read as a whole keeps its lists when both lists of exceptions are of one length. -/
theorem keepsLists_of_ok (h : readBlob conv junk ulFlags lpData (initial rs lpData) = (.ok (), rest, st))
    (hready : Ready st) (hsame : st.rs.lstExceptions.length = st.rs.lstExtendedExceptions.length) :
    KeepsLists conv junk rs lpData ulFlags := by
  intro _
  unfold initial at h
  cases rest with
  | nil =>
    have hparse : parseBlob conv junk rs lpData ulFlags = finish conv .hrSuccess st := by rw [parseBlob, h]
    rw [hparse, finish, if_neg fun hfailed => hfailed.1 rfl]
    exact ⟨_, _, rfl, fun _ => hsame⟩
  | cons b rest =>
    have hparse : parseBlob conv junk rs lpData ulFlags = finish conv .MAPI_E_NOT_FOUND st := by rw [parseBlob, h]
    rw [hparse]
    exact (matches_finish_iff conv st).mpr hready

/-- Behind the exceptions nothing can go wrong any more. -/
theorem ready_of_counted {result : Except ReadStop Unit} {bytes : List UInt8} {st' : ParseState}
    (hextended : st.bExtended = false) (hnone : st.rs.lstExtendedExceptions = [])
    (hcount : st.rs.ulExceptionCount.toNat = st.rs.lstExceptions.length)
    (h : (readExtendeds conv junk >>= fun _ => readEnd) bytes st = (result, rest, st')) :
    Ready st' ∧ (result = .ok () → st'.rs.lstExceptions.length = st'.rs.lstExtendedExceptions.length) := by
  rcases hrun : readExtendeds conv junk bytes st with ⟨e | ⟨⟩, bytes', st₁⟩
  · obtain ⟨rfl, hrest⟩ := Prod.mk.inj ((bind_error hrun).symm.trans h)
    obtain ⟨-, rfl⟩ := Prod.mk.inj hrest
    obtain ⟨hextended₁, hlists⟩ := Prod.mk.inj ((keeps_readExtendeds conv junk).error hrun)
    obtain ⟨hexceptions, hcount₁⟩ := Prod.mk.inj hlists
    refine ⟨fun _ => ?_, nofun⟩
    rw [hextended₁, hextended, hexceptions, hcount₁]
    exact hcount
  · have hend : readEnd bytes' st₁ = (result, rest, st') := (bind_ok hrun).symm.trans h
    have hkeeps := keeps_readEnd bytes' st₁
    have hmark := readEnd_bExtended bytes' st₁
    rw [hend] at hkeeps hmark
    obtain ⟨hexceptions, hextendeds⟩ := Prod.mk.inj hkeeps
    dsimp only at hexceptions hextendeds hmark
    have hlength := readExtendeds_ok hrun
    have hsame : st'.rs.lstExceptions.length = st'.rs.lstExtendedExceptions.length := by
      rw [hexceptions, hextendeds, hlength, hnone, List.length_nil, zero_add]
    refine ⟨fun _ => ?_, fun _ => hsame⟩
    rw [if_pos hmark]
    exact hsame

/-- The variables behind `ulEndDate`. -/
theorem recoveryPart_markTask {bytes : List UInt8} {st' : ParseState}
    (h : readDates lpData (initial rs lpData) = (.ok (), bytes, st)) (hmark : markTask ulFlags bytes st = (.ok (), rest, st')) :
    recoveryPart st' = (ulFlags &&& RECURRENCE_STATE_TASKS != 0, false, [], [], rs.ulExceptionCount) := by
  have hdates : recoveryPart st = (false, false, [], [], rs.ulExceptionCount) := keeps_readDates.ok h
  have hst : st' = if ulFlags &&& RECURRENCE_STATE_TASKS != 0 then { st with bReadValid := true } else st := by
    cases hmark
    rfl
  rw [hst]
  cases htask : ulFlags &&& RECURRENCE_STATE_TASKS != 0 with
  | true =>
    rw [if_pos rfl]
    have hrest := congrArg Prod.snd hdates
    exact Prod.ext rfl hrest
  | false =>
    rw [if_neg Bool.false_ne_true]
    exact hdates

/-- A blob is cut off in its dates: nothing has been read of it. -/
theorem keepsLists_of_dates {e : ReadStop} (h : readDates lpData (initial rs lpData) = (.error e, rest, st)) :
    KeepsLists conv junk rs lpData ulFlags ∧ Recovers junk rs lpData ulFlags := by
  have hblob : readBlob conv junk ulFlags lpData (initial rs lpData) = (.error e, rest, st) := by
    rw [readBlob_eq]
    exact bind_error h
  have hvalid : st.bReadValid = false := congrArg Prod.fst (keeps_readDates.error h)
  constructor
  · refine (keepsLists_of_error hblob).mpr fun _ hread => ?_
    rw [hvalid] at hread
    cases hread
  · constructor
    · rintro - ⟨bytes, st', hfirst, -⟩
      cases (bind_error h).symm.trans hfirst
    · rintro - ⟨bytes, st', hfirst, -⟩
      rw [readHeader_eq] at hfirst
      cases (bind_error h).symm.trans hfirst

/-- A blob is cut off in front of the number of exceptions. -/
theorem keepsLists_of_times {e : ReadStop} {bytes : List UInt8} {st' : ParseState}
    (hfirst : (readDates >>= fun _ => markTask ulFlags) lpData (initial rs lpData) = (.ok (), bytes, st))
    (hpart : recoveryPart st = (ulFlags &&& RECURRENCE_STATE_TASKS != 0, false, [], [], rs.ulExceptionCount))
    (h : readTimes bytes st = (.error e, rest, st')) :
    KeepsLists conv junk rs lpData ulFlags ↔ Recovers junk rs lpData ulFlags := by
  have hblob : readBlob conv junk ulFlags lpData (initial rs lpData) = (.error e, rest, st') := by
    rw [readBlob_eq, ← ByteReader.bind_assoc]
    exact (bind_ok hfirst).trans (bind_error h)
  have hheader : readHeader ulFlags lpData (initial rs lpData) = (.error e, rest, st') := by
    rw [readHeader_eq, ← ByteReader.bind_assoc]
    exact (bind_ok hfirst).trans h
  have hpart' := (readTimes_error h).trans hpart
  have hvalid : st'.bReadValid = (ulFlags &&& RECURRENCE_STATE_TASKS != 0) := congrArg Prod.fst hpart'
  have hextended : st'.bExtended = false := congrArg (fun t => t.2.1) hpart'
  have hexceptions : st'.rs.lstExceptions = [] := congrArg (fun t => t.2.2.1) hpart'
  have hcount : st'.rs.ulExceptionCount = rs.ulExceptionCount := congrArg (fun t => t.2.2.2.2) hpart'
  have hready : Ready st' ↔ (ulFlags &&& RECURRENCE_STATE_TASKS ≠ 0 → rs.ulExceptionCount = 0) := by
    rw [Ready, hvalid, hextended, hexceptions, hcount, if_neg Bool.false_ne_true, bne_iff_ne]
    have hzero : rs.ulExceptionCount.toNat = ([] : List Exception).length ↔ rs.ulExceptionCount = 0 :=
      ⟨fun h => BitVec.eq_of_toNat_eq h, fun h => congrArg BitVec.toNat h⟩
    rw [hzero]
  rw [keepsLists_of_error hblob, hready]
  constructor
  · intro hshort
    constructor
    · rintro htask ⟨bytes', st₁, hfirst', hcut⟩
      cases hfirst.symm.trans hfirst'
      rw [h] at hcut
      exact hshort (Except.error.inj hcut) htask
    · rintro - ⟨bytes', st₁, hfirst', -⟩
      cases hheader.symm.trans hfirst'
  · rintro hrecovers rfl htask
    exact hrecovers.times htask ⟨bytes, st, hfirst, by rw [h]⟩

/-- A blob is cut off behind the number of exceptions. -/
theorem keepsLists_of_header {bytes : List UInt8}
    (hheader : readHeader ulFlags lpData (initial rs lpData) = (.ok (), bytes, st))
    (hpart : listPart st = (ulFlags &&& RECURRENCE_STATE_TASKS != 0, false, [], []))
    (htimes : ¬ CutBehind (readDates >>= fun _ => markTask ulFlags) readTimes (initial rs lpData) lpData) :
    KeepsLists conv junk rs lpData ulFlags ↔ Recovers junk rs lpData ulFlags := by
  have hblob : readBlob conv junk ulFlags lpData (initial rs lpData) =
      (readExceptions junk >>= fun _ => readExtendeds conv junk >>= fun _ => readEnd) bytes st := by
    rw [readBlob_eq, ← ByteReader.bind_assoc, ← ByteReader.bind_assoc, ByteReader.bind_assoc readDates, ← readHeader_eq]
    exact bind_ok hheader
  have hvalid : st.bReadValid = (ulFlags &&& RECURRENCE_STATE_TASKS != 0) := congrArg Prod.fst hpart
  have hextended : st.bExtended = false := congrArg (fun t => t.2.1) hpart
  have hexceptions : st.rs.lstExceptions = [] := congrArg (fun t => t.2.2.1) hpart
  have hextendeds : st.rs.lstExtendedExceptions = [] := congrArg (fun t => t.2.2.2) hpart
  -- the header was read, so only a cut behind it can matter
  have hcut : CutBehind (readHeader ulFlags) (readExceptions junk) (initial rs lpData) lpData ↔
      (readExceptions junk bytes st).1 = .error .short := by
    constructor
    · rintro ⟨bytes', st₁, hheader', hcut⟩
      cases hheader.symm.trans hheader'
      exact hcut
    · exact fun hcut => ⟨bytes, st, hheader, hcut⟩
  have hrecovers : Recovers junk rs lpData ulFlags ↔
      (ulFlags &&& RECURRENCE_STATE_TASKS ≠ 0 → (readExceptions junk bytes st).1 ≠ .error .short) := by
    constructor
    · exact fun h htask hshort => h.exceptions htask (hcut.mpr hshort)
    · exact fun h => ⟨fun _ hbehind => absurd hbehind htimes, fun htask hbehind => h htask (hcut.mp hbehind)⟩
  rw [hrecovers]
  rcases hrun : readExceptions junk bytes st with ⟨e | ⟨⟩, rest, st'⟩
  · rw [bind_error hrun] at hblob
    obtain ⟨hkept, hless⟩ := readExceptions_error hrun
    have hvalid' : st'.bReadValid = (ulFlags &&& RECURRENCE_STATE_TASKS != 0) := (congrArg Prod.fst hkept).trans hvalid
    have hextended' : st'.bExtended = false := (congrArg (fun t => t.2.1) hkept).trans hextended
    have hcount : st'.rs.ulExceptionCount = st.rs.ulExceptionCount := congrArg (fun t => t.2.2.2) hkept
    rw [hexceptions, List.length_nil, zero_add, ← hcount] at hless
    -- fewer exceptions than announced: not ready, unless it is no task
    have hready : Ready st' ↔ ¬ ulFlags &&& RECURRENCE_STATE_TASKS ≠ 0 := by
      rw [Ready, hvalid', hextended', if_neg Bool.false_ne_true, bne_iff_ne]
      exact ⟨fun h htask => hless.ne' (h htask), fun h htask => absurd htask h⟩
    rw [keepsLists_of_error hblob, hready]
    constructor
    · rintro hshort htask h
      exact hshort (Except.error.inj h) htask
    · rintro h rfl htask
      exact h htask rfl
  · rw [bind_ok hrun] at hblob
    obtain ⟨hkept, hlength⟩ := readExceptions_ok hrun
    have hextended' : st'.bExtended = false := (congrArg (fun t => t.2.1) hkept).trans hextended
    have hextendeds' : st'.rs.lstExtendedExceptions = [] := (congrArg (fun t => t.2.2.1) hkept).trans hextendeds
    have hcount : st'.rs.ulExceptionCount = st.rs.ulExceptionCount := congrArg (fun t => t.2.2.2) hkept
    rw [hexceptions, List.length_nil, zero_add, ← hcount] at hlength
    refine iff_of_true ?_ fun _ => nofun
    rcases hend : (readExtendeds conv junk >>= fun _ => readEnd) rest st' with ⟨e | ⟨⟩, rest', st₁⟩
    · rw [hend] at hblob
      obtain ⟨hready, -⟩ := ready_of_counted hextended' hextendeds' hlength.symm hend
      exact (keepsLists_of_error hblob).mpr fun _ => hready
    · rw [hend] at hblob
      obtain ⟨hready, hsame⟩ := ready_of_counted hextended' hextendeds' hlength.symm hend
      exact keepsLists_of_ok hblob hready (hsame rfl)

end

/-- The lists match if and only if a blob of a task is not cut off where exceptions are missing. -/
theorem parseBlob_keepsLists_iff (conv : Converter) (junk : UInt) (rs : RecurrenceState) (lpData : List UInt8)
    (ulFlags : UInt) : KeepsLists conv junk rs lpData ulFlags ↔ Recovers junk rs lpData ulFlags := by
  rcases hdates : readDates lpData (initial rs lpData) with ⟨e | ⟨⟩, bytes, st⟩
  · have hboth : KeepsLists conv junk rs lpData ulFlags ∧ Recovers junk rs lpData ulFlags := keepsLists_of_dates hdates
    exact iff_of_true hboth.1 hboth.2
  · rcases hmark : markTask ulFlags bytes st with ⟨e | ⟨⟩, bytes', st'⟩
    · cases hmark
    · have hpart := recoveryPart_markTask hdates hmark
      have hfirst : (readDates >>= fun _ => markTask ulFlags) lpData (initial rs lpData) = (.ok (), bytes', st') :=
        (bind_ok hdates).trans hmark
      rcases htimes : readTimes bytes' st' with ⟨e | ⟨⟩, rest, st₁⟩
      · exact keepsLists_of_times hfirst hpart htimes
      · apply keepsLists_of_header
        · rw [readHeader_eq, ← ByteReader.bind_assoc]
          exact (bind_ok hfirst).trans htimes
        · have hlists : listPart st' = (ulFlags &&& RECURRENCE_STATE_TASKS != 0, false, [], []) :=
            congrArg (fun t => (t.1, t.2.1, t.2.2.1, t.2.2.2.1)) hpart
          exact (keeps_readTimes.ok htimes).trans hlists
        · rintro ⟨bytes₁, st₂, hfirst', hcut⟩
          cases hfirst.symm.trans hfirst'
          rw [htimes] at hcut
          cases hcut

/-! ## The number of exceptions -/

section

variable {conv : Converter} {junk ulFlags : UInt} {rs rs' : RecurrenceState} {bytes rest lpData : List UInt8}
  {st st' : ParseState}

/-- A value of two bytes is less than `2 ^ 16`. -/
theorem READSHORT_lt {x : UInt} (h : READSHORT bytes st = (.ok x, rest, st')) : x.toNat < 2 ^ 16 := by
  by_cases hleft : bytes.length < 2
  · have hread : READSHORT bytes st = (if st.ulLen - bytes.length + 2 < 2 ^ 32 then ByteReader.stop .short
        else ByteReader.stop .outside : Parse UInt) bytes st := by
      show (if bytes.length < 2 then _ else _ : Parse UInt) bytes st = _
      rw [if_pos hleft]
    rw [hread] at h
    split_ifs at h
    · cases h
    · cases h
  · have hread : READSHORT bytes st = (.ok (BitVec.ofNat 32 (ofLittleEndian (bytes.take 2))), bytes.drop 2, st) := by
      show (if bytes.length < 2 then _ else _ : Parse UInt) bytes st = _
      rw [if_neg hleft]
      rfl
    obtain ⟨hx, -⟩ := Prod.mk.inj (hread.symm.trans h)
    obtain rfl := Except.ok.inj hx
    have hlt := ofLittleEndian_lt (bytes.take 2)
    rw [List.length_take_of_le (not_lt.mp hleft)] at hlt
    rw [BitVec.toNat_ofNat]
    exact (Nat.mod_le _ _).trans_lt hlt

/-- The number of exceptions is read from 16 bits. -/
theorem readTimes_lt (h : readTimes bytes st = (.ok (), rest, st')) : st'.rs.ulExceptionCount.toNat < 2 ^ 16 := by
  unfold readTimes at h
  obtain ⟨_, _, _, -, h⟩ := exists_of_bind_ok h
  obtain ⟨_, _, _, -, h⟩ := exists_of_bind_ok h
  obtain ⟨_, _, _, -, h⟩ := exists_of_bind_ok h
  obtain ⟨_, _, _, -, h⟩ := exists_of_bind_ok h
  obtain ⟨x, _, _, hx, h⟩ := exists_of_bind_ok h
  cases h
  exact READSHORT_lt hx

/-- A blob that is read to its end has less than 2 ^ 16 exceptions. -/
theorem parseBlob_exceptions_lt (h : parseBlob conv junk rs lpData ulFlags = some (.hrSuccess, rs')) :
    rs'.lstExceptions.length < 2 ^ 16 := by
  rcases hblob : readBlob conv junk ulFlags lpData (initial rs lpData) with ⟨e | ⟨⟩, rest, st⟩
  · unfold initial at hblob
    rw [parseBlob, hblob] at h
    cases e with
    | short => exact absurd h (finish_error (by decide) st rs')
    | outside => cases h
  · have hst : rs' = st.rs := by
      unfold initial at hblob
      rw [parseBlob, hblob] at h
      cases rest with
      | nil =>
        have hfinish : finish conv .hrSuccess st = some (.hrSuccess, rs') := h
        rw [finish, if_neg fun hfailed => hfailed.1 rfl] at hfinish
        exact (Prod.mk.inj (Option.some.inj hfinish)).2.symm
      | cons b rest => exact absurd h (finish_error (by decide) st rs')
    rw [hst]
    rw [readBlob_eq] at hblob
    obtain ⟨_, bytes₁, st₁, hdates, hblob⟩ := exists_of_bind_ok hblob
    obtain ⟨_, bytes₂, st₂, hmark, hblob⟩ := exists_of_bind_ok hblob
    obtain ⟨_, bytes₃, st₃, htimes, hblob⟩ := exists_of_bind_ok hblob
    obtain ⟨_, bytes₄, st₄, hexceptions, hblob⟩ := exists_of_bind_ok hblob
    obtain ⟨_, bytes₅, st₅, hextendeds, hend⟩ := exists_of_bind_ok hblob
    have hnone : st₃.rs.lstExceptions = [] := by
      have hpart := recoveryPart_markTask hdates hmark
      have hlists := keeps_readTimes.ok htimes
      exact (congrArg (fun t => t.2.2.1) hlists).trans (congrArg (fun t => t.2.2.1) hpart)
    have hlength := (readExceptions_ok hexceptions).2
    rw [hnone, List.length_nil, zero_add] at hlength
    have hkept : st.rs.lstExceptions = st₄.rs.lstExceptions :=
      (congrArg Prod.fst (keeps_readEnd.ok hend)).trans
        (congrArg (fun t => t.2.1) ((keeps_readExtendeds conv junk).ok hextendeds))
    rw [hkept, hlength]
    exact readTimes_lt htimes

end

/-- A blob that ends behind the number of its exceptions, of which there is one. -/
def oneException : List UInt8 := List.replicate 66 0 ++ [1, 0]

/-- The parser looks for the exception in a list that is empty. -/
theorem not_keepsLists_oneException : ¬ KeepsLists ucs2 0 (deletedDates []) oneException RECURRENCE_STATE_TASKS := by
  intro hkeeps
  have hshort : (readBlob ucs2 0 RECURRENCE_STATE_TASKS oneException (initial (deletedDates []) oneException)).1 =
      .error .short := by decide +kernel
  have hnone : parseBlob ucs2 0 (deletedDates []) oneException RECURRENCE_STATE_TASKS = none := by decide +kernel
  obtain ⟨hr, rs', hsome, -⟩ := hkeeps (by rw [hshort]; nofun)
  rw [hnone] at hsome
  cases hsome

end Zcp.M4lcommon.RecurrenceState
