import Zcp.Common.ECSerializer

/-!
# Skipping in a stream

`ECStreamSerializer::Skip` and `Flush`, over an `IStream` that chooses how much a `Read` returns. At the end of
a stream `Read` succeeds without a byte, which is no progress for the loop of `Skip`; and `Skip` is the only
reader that leaves `m_ulRead` as it is.
-/

namespace Zcp.Common.ECStreamSerializer

/-- An error of an `IStream`. -/
abbrev StreamError := { hr : BitVec 32 // hr ≠ 0 }

/-- How an `IStream` reads. A `Read` returns some of the bytes that are left; when none is left, it succeeds without
one or fails. -/
structure IStream where
  portion : (left asked : ℕ) → ℕ
  ends : Option StreamError
  portion_le_left : ∀ left asked, portion left asked ≤ left
  portion_le_asked : ∀ left asked, portion left asked ≤ asked
  portion_pos : ∀ left asked, 0 < left → 0 < asked → 0 < portion left asked

/-- The bytes of the stream that are left, and the number of bytes that the serializer has counted. -/
structure Reading where
  bytes : List UInt8
  m_ulRead : BitVec 32

namespace IStream

variable (stream : IStream)

/-- `IStream::Read`: the bytes and the rest of the stream. -/
def Read (bytes : List UInt8) (cb : ℕ) : Except StreamError (List UInt8 × List UInt8) :=
  match bytes, stream.ends with
  | [], some hr => .error hr
  | bytes, _ => .ok (bytes.take (stream.portion bytes.length cb), bytes.drop (stream.portion bytes.length cb))

end IStream

variable (stream : IStream)

/-- The loop of `Skip`; `none` when it is still running. -/
def skipLoop (goal : ℕ) : (fuel total : ℕ) → Reading → Option (Except StreamError Unit × Reading)
  | 0, total, st => if total < goal then none else some (.ok (), st)
  | fuel + 1, total, st =>
    if total < goal then
      match stream.Read st.bytes (min 4096 (goal - total)) with
      | .error er => some (.error er, st)
      | .ok (buffer, rest) => skipLoop goal fuel (total + buffer.length) { st with bytes := rest }
    else some (.ok (), st)

/-- `ECStreamSerializer::Skip`. The product is a `size_t`. -/
def Skip (fuel : ℕ) (size nmemb : BitVec 64) (st : Reading) : Option (Except StreamError Unit × Reading) :=
  skipLoop stream (nmemb * size).toNat fuel 0 st

/-- `ECStreamSerializer::Flush`; `none` when it is still running. -/
def Flush : (fuel : ℕ) → Reading → Option (Except StreamError Unit × Reading)
  | 0, _ => none
  | fuel + 1, st =>
    match stream.Read st.bytes 16384 with
    | .error er => some (.error er, st)
    | .ok (buf, rest) =>
      let st := { bytes := rest, m_ulRead := st.m_ulRead + BitVec.ofNat 32 buf.length }
      if buf.length < 16384 then some (.ok (), st) else Flush fuel st

/-! ## What they should do -/

/-- The bytes that have been consumed are counted. -/
def CountsRead (st st' : Reading) : Prop :=
  st'.m_ulRead = st.m_ulRead + BitVec.ofNat 32 (st.bytes.length - st'.bytes.length)

/-- `Skip` ends, with success just when all bytes have been consumed, and counts them. -/
def SkipsAll (size nmemb : BitVec 64) (st : Reading) : Prop :=
  ∃ fuel er st', Skip stream fuel size nmemb st = some (er, st') ∧
    (er = .ok () ↔ st.bytes.length - st'.bytes.length = size.toNat * nmemb.toNat) ∧ CountsRead st st'

/-- `Flush` ends and counts what it has consumed. -/
def Flushes (st : Reading) : Prop := ∃ fuel er st', Flush stream fuel st = some (er, st') ∧ CountsRead st st'

variable {stream} {goal fuel total : ℕ} {st : Reading}

/-! ## Reading -/

theorem read_end {er : StreamError} (h : stream.ends = some er) (cb : ℕ) : stream.Read [] cb = .error er := by
  simp only [IStream.Read, h]

theorem read_ok {bytes : List UInt8} (h : bytes ≠ [] ∨ stream.ends = none) (cb : ℕ) : stream.Read bytes cb =
      .ok (bytes.take (stream.portion bytes.length cb), bytes.drop (stream.portion bytes.length cb)) := by
  unfold IStream.Read
  split
  · rename_i hr hends
    rcases h with h | h
    · exact absurd rfl h
    · rw [hends] at h
      cases h
  · rfl

theorem length_portion (bytes : List UInt8) (cb : ℕ) :
    (bytes.take (stream.portion bytes.length cb)).length = stream.portion bytes.length cb :=
  List.length_take_of_le (stream.portion_le_left _ _)

/-! ## Skip -/

theorem skipLoop_done (h : goal ≤ total) (fuel : ℕ) (st : Reading) :
    skipLoop stream goal fuel total st = some (.ok (), st) := by
  cases fuel <;> rw [skipLoop, if_neg (not_lt.mpr h)]

/-- One turn, when there is something to read or the stream has no error to end with. -/
theorem skipLoop_turn (h : total < goal) (hread : st.bytes ≠ [] ∨ stream.ends = none) (fuel : ℕ) :
    skipLoop stream goal (fuel + 1) total st =
      skipLoop stream goal fuel (total + stream.portion st.bytes.length (min 4096 (goal - total)))
        { st with bytes := st.bytes.drop (stream.portion st.bytes.length (min 4096 (goal - total))) } := by
  rw [skipLoop, if_pos h, read_ok hread]
  simp only [length_portion]

/-- What is there is skipped. -/
theorem skipLoop_reaches (htotal : total ≤ goal) (h : goal - total ≤ st.bytes.length) :
    ∃ fuel, skipLoop stream goal fuel total st =
      some (.ok (), { st with bytes := st.bytes.drop (goal - total) }) := by
  induction hn : goal - total using Nat.strong_induction_on generalizing total st with
  | _ n ih =>
    by_cases hlt : total < goal
    · have hleft : 0 < st.bytes.length := by omega
      have hne : st.bytes ≠ [] := List.ne_nil_of_length_pos hleft
      have hpos := stream.portion_pos st.bytes.length (min 4096 (goal - total)) hleft (by omega)
      have hasked := stream.portion_le_asked st.bytes.length (min 4096 (goal - total))
      have hhave := stream.portion_le_left st.bytes.length (min 4096 (goal - total))
      generalize hk : stream.portion st.bytes.length (min 4096 (goal - total)) = k at hpos hasked hhave
      have hk' : k ≤ goal - total := hasked.trans (Nat.min_le_right _ _)
      obtain ⟨fuel, hfuel⟩ := @ih (goal - (total + k)) (by omega) _
        { st with bytes := st.bytes.drop k } (by omega)
        (by rw [List.length_drop]; omega) rfl
      refine ⟨fuel + 1, ?_⟩
      rw [skipLoop_turn hlt (.inl hne), hk, hfuel, List.drop_drop]
      have hsum : k + (goal - (total + k)) = n := by omega
      rw [hsum]
    · have hzero : n = 0 := by omega
      refine ⟨0, ?_⟩
      rw [skipLoop_done (not_lt.mp hlt), hzero, List.drop_zero]

/-- A stream that fails at its end ends the loop. -/
theorem skipLoop_fails {er : StreamError} (hends : stream.ends = some er) (h : st.bytes.length < goal - total) :
    ∃ fuel, skipLoop stream goal fuel total st = some (.error er, { st with bytes := [] }) := by
  induction hn : st.bytes.length using Nat.strong_induction_on generalizing total st with
  | _ n ih =>
    have hlt : total < goal := by omega
    by_cases hnil : st.bytes = []
    · refine ⟨1, ?_⟩
      rw [skipLoop, if_pos hlt, hnil, read_end hends, ← hnil]
    · have hleft : 0 < st.bytes.length := List.length_pos_of_ne_nil hnil
      have hpos := stream.portion_pos st.bytes.length (min 4096 (goal - total)) hleft (by omega)
      have hhave := stream.portion_le_left st.bytes.length (min 4096 (goal - total))
      generalize hk : stream.portion st.bytes.length (min 4096 (goal - total)) = k at hpos hhave
      have hlen : (st.bytes.drop k).length = n - k := by rw [List.length_drop, hn]
      obtain ⟨fuel, hfuel⟩ := @ih (n - k) (by omega) (total + k)
        { st with bytes := st.bytes.drop k } (by rw [hlen]; omega) hlen
      refine ⟨fuel + 1, ?_⟩
      rw [skipLoop_turn hlt (.inl hnil), hk, hfuel]

/-- At the end of any other stream the loop goes on forever. -/
theorem skipLoop_hangs (hends : stream.ends = none) (h : st.bytes.length < goal - total) (fuel : ℕ) :
    skipLoop stream goal fuel total st = none := by
  induction fuel generalizing total st with
  | zero => rw [skipLoop, if_pos (by omega)]
  | succ fuel ih =>
    rw [skipLoop_turn (by omega) (.inr hends)]
    apply ih
    have hhave := stream.portion_le_left st.bytes.length (min 4096 (goal - total))
    rw [List.length_drop]
    omega

theorem skipLoop_mono {r : Except StreamError Unit × Reading} (h : skipLoop stream goal fuel total st = some r)
    {fuel' : ℕ} (hle : fuel ≤ fuel') : skipLoop stream goal fuel' total st = some r := by
  induction fuel generalizing fuel' total st with
  | zero =>
    rw [skipLoop] at h
    split_ifs at h with hlt
    rw [skipLoop_done (not_lt.mp hlt), h]
  | succ fuel ih =>
    obtain ⟨fuel', rfl⟩ : ∃ k, fuel' = k + 1 := ⟨fuel' - 1, by omega⟩
    rw [skipLoop] at h ⊢
    split_ifs at h ⊢
    · split at h
      · exact h
      · exact ih h (Nat.le_of_succ_le_succ hle)
    · exact h

theorem skipLoop_det {r r' : Except StreamError Unit × Reading} {fuel' : ℕ}
    (h : skipLoop stream goal fuel total st = some r) (h' : skipLoop stream goal fuel' total st = some r') : r = r' :=
  Option.some_inj.mp
    ((skipLoop_mono h (Nat.le_max_left fuel fuel')).symm.trans (skipLoop_mono h' (Nat.le_max_right fuel fuel')))

/-! ## Flush -/

theorem CountsRead.trans {st₁ st₂ : Reading} (h₁ : CountsRead st st₁) (h₂ : CountsRead st₁ st₂)
    (hle₁ : st₁.bytes.length ≤ st.bytes.length) (hle₂ : st₂.bytes.length ≤ st₁.bytes.length) : CountsRead st st₂ := by
  unfold CountsRead at *
  have hsum : st.bytes.length - st₂.bytes.length =
      st.bytes.length - st₁.bytes.length + (st₁.bytes.length - st₂.bytes.length) := by omega
  rw [h₂, h₁, hsum, BitVec.ofNat_add, BitVec.add_assoc]

/-- `Flush` reads whole buffers until one is not filled. -/
theorem flush_ends (stream : IStream) (st : Reading) : ∃ fuel er st', Flush stream fuel st = some (er, st') ∧
    st'.bytes.length ≤ st.bytes.length ∧ CountsRead st st' := by
  have hself : CountsRead st st := by
    rw [CountsRead, Nat.sub_self]
    exact (BitVec.add_zero _).symm
  induction hn : st.bytes.length using Nat.strong_induction_on generalizing st with
  | _ n ih =>
    by_cases hread : st.bytes ≠ [] ∨ stream.ends = none
    · generalize hk : stream.portion st.bytes.length 16384 = k
      have hhave : k ≤ st.bytes.length := hk ▸ stream.portion_le_left _ _
      have hlen : (st.bytes.take k).length = k := List.length_take_of_le hhave
      have hdrop : (st.bytes.drop k).length = n - k := by rw [List.length_drop, hn]
      let st₁ : Reading := { bytes := st.bytes.drop k, m_ulRead := st.m_ulRead + BitVec.ofNat 32 k }
      have hcount : CountsRead st st₁ := by
        show st.m_ulRead + BitVec.ofNat 32 k = _
        rw [hdrop, hn]
        congr 2
        omega
      have hturn : ∀ fuel, Flush stream (fuel + 1) st =
          if k < 16384 then some (.ok (), st₁) else Flush stream fuel st₁ := by
        intro fuel
        rw [Flush, read_ok hread]
        simp only [hk, hlen]
        rfl
      by_cases hshort : k < 16384
      · refine ⟨1, .ok (), st₁, by rw [hturn, if_pos hshort], ?_, hcount⟩
        show (st.bytes.drop k).length ≤ n
        omega
      · have hself₁ : CountsRead st₁ st₁ := by
          rw [CountsRead, Nat.sub_self]
          exact (BitVec.add_zero _).symm
        obtain ⟨fuel, er, st', hflush, hle, hrest⟩ := ih (n - k) (by omega) st₁ hself₁ hdrop
        have hle₁ : st₁.bytes.length = n - k := hdrop
        exact ⟨fuel + 1, er, st', by rw [hturn, if_neg hshort, hflush], by omega,
          hcount.trans hrest (by omega) (by omega)⟩
    · push Not at hread
      obtain ⟨hnil, hends⟩ := hread
      obtain ⟨er, hends⟩ := Option.ne_none_iff_exists'.mp hends
      refine ⟨1, .error er, st, ?_, by omega, hself⟩
      rw [Flush, hnil, read_end hends]

/-! ## When `Skip` does -/

theorem counted_drop_iff (st : Reading) {n : ℕ} (h : n ≤ st.bytes.length) :
    CountsRead st { st with bytes := st.bytes.drop n } ↔ 2 ^ 32 ∣ n := by
  have hcount : st.bytes.length - (st.bytes.drop n).length = n := by
    rw [List.length_drop]
    omega
  unfold CountsRead
  rw [hcount, left_eq_add, ← BitVec.toNat_inj, BitVec.toNat_ofNat]
  exact (Nat.dvd_iff_mod_eq_zero).symm

/-- `Flush` is right. `Skip` is right just when it has nothing to count: a multiple of 2^32 bytes that are there, none
for example, or as many before the stream fails. -/
theorem skip_flush_iff (stream : IStream) (size nmemb : BitVec 64) (st : Reading) :
    SkipsAll stream size nmemb st ∧ Flushes stream st ↔
      (nmemb * size).toNat ≤ st.bytes.length ∧ (nmemb * size).toNat = size.toNat * nmemb.toNat ∧
          2 ^ 32 ∣ (nmemb * size).toNat ∨
        st.bytes.length < (nmemb * size).toNat ∧ stream.ends.isSome ∧ 2 ^ 32 ∣ st.bytes.length := by
  have hflush : Flushes stream st := by
    obtain ⟨fuel, er, st', h, -, hcount⟩ := flush_ends stream st
    exact ⟨fuel, er, st', h, hcount⟩
  rw [and_iff_left hflush]
  unfold SkipsAll Skip
  have hproduct : (nmemb * size).toNat ≤ size.toNat * nmemb.toNat := by
    rw [BitVec.toNat_mul, Nat.mul_comm]
    exact Nat.mod_le _ _
  generalize (nmemb * size).toNat = goal at hproduct
  by_cases henough : goal ≤ st.bytes.length
  · obtain ⟨fuel, hskip⟩ := @skipLoop_reaches stream goal 0 st (Nat.zero_le goal) henough
    rw [Nat.sub_zero] at hskip
    have hconsumed : st.bytes.length - (st.bytes.drop goal).length = goal := by
      rw [List.length_drop]
      omega
    constructor
    · rintro ⟨fuel', er, st', h, hok, hcount⟩
      cases skipLoop_det hskip h
      exact .inl ⟨henough, hconsumed.symm.trans (hok.mp rfl), (counted_drop_iff st henough).mp hcount⟩
    · rintro (⟨-, hexact, hdvd⟩ | ⟨hshort, -⟩)
      · exact ⟨fuel, _, _, hskip, iff_of_true rfl (hconsumed.trans hexact), (counted_drop_iff st henough).mpr hdvd⟩
      · omega
  · have hshort : st.bytes.length < goal - 0 := by omega
    cases hends : stream.ends with
    | none =>
      constructor
      · rintro ⟨fuel', er, st', h, -⟩
        rw [skipLoop_hangs hends hshort] at h
        cases h
      · rintro (⟨henough', -⟩ | ⟨-, hsome, -⟩)
        · exact absurd henough' henough
        · cases hsome
    | some er =>
      obtain ⟨fuel, hskip⟩ := skipLoop_fails hends hshort
      have hall : st.bytes.drop st.bytes.length = [] := List.drop_length
      have hiff := counted_drop_iff st le_rfl
      rw [hall] at hiff
      constructor
      · rintro ⟨fuel', er', st', h, -, hcount⟩
        cases skipLoop_det hskip h
        exact .inr ⟨by omega, rfl, hiff.mp hcount⟩
      · rintro (⟨henough', -⟩ | ⟨-, -, hdvd⟩)
        · exact absurd henough' henough
        · refine ⟨fuel, _, _, hskip, iff_of_false nofun ?_, hiff.mpr hdvd⟩
          show st.bytes.length - 0 ≠ _
          omega

/-- A stream over memory. -/
def memoryStream : IStream where
  portion := min
  ends := none
  portion_le_left := Nat.min_le_left
  portion_le_asked := Nat.min_le_right
  portion_pos _ _ hleft hasked := Nat.lt_min.mpr ⟨hleft, hasked⟩

/-- At the end of a stream not even one byte is skipped. -/
theorem not_skipsAll_empty : ¬ ∀ (stream : IStream) (size nmemb : BitVec 64) (st : Reading),
    SkipsAll stream size nmemb st ∧ Flushes stream st := by
  intro h
  obtain ⟨⟨fuel, er, st', hskip, -⟩, -⟩ := h memoryStream 1 1 ⟨[], 0⟩
  rw [Skip, skipLoop_hangs rfl (by decide)] at hskip
  cases hskip

end Zcp.Common.ECStreamSerializer
