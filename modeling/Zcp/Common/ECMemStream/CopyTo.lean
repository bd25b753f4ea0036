import Zcp.Common.ECMemStream.Refinement

/-!
# Copying a stream

`ECMemStream::CopyTo` offers the target what is left again and again and goes on by what the target says it has written,
whether the write has succeeded or not. It offers no more bytes than the low 32 bits of the length that is asked for:
once these are zero while there are more bytes to copy, it offers nothing and never ends.
-/

namespace Zcp.Common

/-- The stream that is copied to. `Write` gets the bytes and the value that `ulWritten` has before the call, and leaves
its own state, whether it has succeeded, and the value of `ulWritten`, which is between 0 and the bytes it got: a `Write`
that leaves a greater value of the call before is none of these. -/
structure TargetStream (σ : Type) where
  write : σ → List UInt8 → ℕ → σ × Bool × ℕ
  written_le : ∀ s pv ulWritten, (write s pv ulWritten).2.2 ≤ pv.length

/-- What `CopyTo` leaves. -/
structure CopyResult (σ : Type) where
  pcbRead : ℕ
  pcbWritten : ℕ
  stream : ECMemStream
  pstm : σ

variable {σ : Type} (target : TargetStream σ)

/-- The loop of `CopyTo`, with a bound on the number of writes: `ulOffset` and the target behind it. -/
def copyLoop (b : ECMemBlock) : ℕ → (cb ulOffset ulWritten : ℕ) → σ → Option (ℕ × σ)
  | 0, _, _, _, _ => none
  | fuel + 1, cb, ulOffset, ulWritten, pstm =>
    if cb ≠ 0 ∧ b.cbCurrent > ulOffset then do
      let pv ← ECMemBlock.copyFrom b.lpCurrent ulOffset (min (b.cbCurrent - ulOffset) (cb % 2 ^ 32))
      let (pstm, _, ulWritten) := target.write pstm pv ulWritten
      copyLoop b fuel ((cb + (2 ^ 64 - ulWritten)) % 2 ^ 64) ((ulOffset + ulWritten) % 2 ^ 32) ulWritten pstm
    else some (ulOffset, pstm)

/-- `ECMemStream::CopyTo`. -/
def copyTo (b : ECMemBlock) (fuel : ℕ) (stream : ECMemStream) (pstm : σ) (cb : ℕ) : Option (CopyResult σ) := do
  let low := stream.liPos % 2 ^ 32
  let (ulOffset, pstm) ← copyLoop target b fuel cb low 0 pstm
  let copied := (ulOffset + (2 ^ 32 - low)) % 2 ^ 32
  some ⟨copied, copied, { stream with liPos := ulOffset }, pstm⟩

/-! ## What a copy is for -/

/-- The bytes that a copy should deliver. -/
def toCopy (bytes : List UInt8) (cursor cb : ℕ) : List UInt8 := (bytes.drop cursor).take cb

/-- Every write takes all bytes it gets. -/
def TargetStream.AcceptsAll : Prop := ∀ s pv ulWritten, (target.write s pv ulWritten).2.2 = pv.length

/-- Offered bytes again and again, each time those it has not yet taken, the target takes all of them. -/
inductive TargetStream.Takes : σ → List UInt8 → ℕ → Prop where
  | done (pstm : σ) (ulWritten : ℕ) : Takes pstm [] ulWritten
  | more (pstm : σ) (pv : List UInt8) (ulWritten : ℕ) (hne : pv ≠ [])
      (rest : Takes (target.write pstm pv ulWritten).1 (pv.drop (target.write pstm pv ulWritten).2.2)
        (target.write pstm pv ulWritten).2.2) : Takes pstm pv ulWritten

/-- The copy of a target that takes everything: one write delivers the bytes, when there are any. -/
def delivered (bytes : List UInt8) (stream : ECMemStream) (pstm : σ) (cb : ℕ) : CopyResult σ :=
  let pv := toCopy bytes stream.liPos cb
  ⟨pv.length, pv.length, { stream with liPos := stream.liPos + pv.length },
    if pv = [] then pstm else (target.write pstm pv 0).1⟩

/-- `CopyTo` ends, and it delivers the bytes to a target that takes everything. -/
def Copies (b : ECMemBlock) (bytes : List UInt8) (stream : ECMemStream) (pstm : σ) (cb : ℕ) : Prop :=
  ∃ fuel res, copyTo target b fuel stream pstm cb = some res ∧
    (target.AcceptsAll → res = delivered target bytes stream pstm cb)

/-- The low 32 bits of the length reach up to the end of the stream, when the length has more bits than these. -/
def LowBitsReach (cb left : ℕ) : Prop := cb < 2 ^ 32 ∨ left ≤ cb % 2 ^ 32

/-! ## The loop -/

section Loop

variable {target} {ulFlags : UInt32} {b : ECMemBlock} {bytes : List UInt8} {committed : Option (List UInt8)}

theorem length_toCopy (bytes : List UInt8) (cursor cb : ℕ) :
    (toCopy bytes cursor cb).length = min cb (bytes.length - cursor) := by
  rw [toCopy, List.length_take, List.length_drop]

/-- What is left behind the first bytes. -/
theorem drop_toCopy (bytes : List UInt8) (cursor cb n : ℕ) :
    (toCopy bytes cursor cb).drop n = toCopy bytes (cursor + n) (cb - n) := by
  rw [toCopy, toCopy, List.drop_take, List.drop_drop]

variable {n ulOffset : ℕ}

/-- The bytes of a block. -/
theorem copyFrom_eq (h : SharedBlock.Holds ulFlags b bytes committed) (hn : ulOffset + n ≤ bytes.length) :
    ECMemBlock.copyFrom b.lpCurrent ulOffset n = some ((bytes.drop ulOffset).take n) := by
  have hle := h.le
  rw [ECMemBlock.copyFrom, h.length_current, if_pos (by omega), h.current, List.drop_append_of_le_length (by omega),
    List.take_append_of_le_length]
  rw [List.length_drop]
  omega

variable {cb ulWritten : ℕ}

/-- One turn of the loop. -/
theorem copyLoop_succ (h : SharedBlock.Holds ulFlags b bytes committed) (hcb : cb < 2 ^ 64) (hne : cb ≠ 0)
    (hlt : ulOffset < bytes.length) (pstm : σ) {pv : List UInt8} (hpv : pv = toCopy bytes ulOffset (cb % 2 ^ 32))
    (hn : n = (target.write pstm pv ulWritten).2.2) (fuel : ℕ) :
    n ≤ cb % 2 ^ 32 ∧ ulOffset + n ≤ bytes.length ∧ copyLoop target b (fuel + 1) cb ulOffset ulWritten pstm =
      copyLoop target b fuel (cb - n) (ulOffset + n) n (target.write pstm pv ulWritten).1 := by
  have hlen := h.lt
  have hle := h.le
  have hwritten := target.written_le pstm pv ulWritten
  have hlength := length_toCopy bytes ulOffset (cb % 2 ^ 32)
  rw [← hn, hpv, hlength] at hwritten
  refine ⟨by omega, by omega, ?_⟩
  have hfits : ulOffset + min (bytes.length - ulOffset) (cb % 2 ^ 32) ≤ bytes.length := by omega
  have hcopy := copyFrom_eq h hfits
  have hpv' : (bytes.drop ulOffset).take (min (bytes.length - ulOffset) (cb % 2 ^ 32)) = pv := by
    rw [hpv, toCopy, ← List.length_drop, min_comm, ← List.take_eq_take_min]
  have hncb : n ≤ cb := (by omega : n ≤ cb % 2 ^ 32).trans (Nat.mod_le _ _)
  have hcb' : (cb + (2 ^ 64 - n)) % 2 ^ 64 = cb - n := by
    rw [show cb + (2 ^ 64 - n) = cb - n + 2 ^ 64 by omega, Nat.add_mod_right, Nat.mod_eq_of_lt (by omega)]
  have hoffset : (ulOffset + n) % 2 ^ 32 = ulOffset + n := Nat.mod_eq_of_lt (by omega)
  rw [copyLoop, if_pos ⟨hne, by rw [h.cbCurrent]; exact hlt⟩, h.cbCurrent, hcopy, hpv']
  show copyLoop target b fuel ((cb + (2 ^ 64 - (target.write pstm pv ulWritten).2.2)) % 2 ^ 64)
    ((ulOffset + (target.write pstm pv ulWritten).2.2) % 2 ^ 32) _ _ = _
  rw [← hn, hcb', hoffset]

theorem copyLoop_end (h : SharedBlock.Holds ulFlags b bytes committed)
    (hend : toCopy bytes ulOffset cb = []) (pstm : σ) (fuel : ℕ) :
    copyLoop target b (fuel + 1) cb ulOffset ulWritten pstm = some (ulOffset, pstm) := by
  have hlength := length_toCopy bytes ulOffset cb
  rw [hend, List.length_nil] at hlength
  rw [copyLoop, if_neg]
  rw [h.cbCurrent]
  omega

/-- While the low bits of the length reach the end of the stream, what is offered is all that is left. -/
theorem toCopy_low (hlow : LowBitsReach cb (bytes.length - ulOffset)) :
    toCopy bytes ulOffset (cb % 2 ^ 32) = toCopy bytes ulOffset cb := by
  rcases hlow with hcb | hleft
  · rw [Nat.mod_eq_of_lt hcb]
  · rw [toCopy, toCopy, List.take_of_length_le, List.take_of_length_le]
    · rw [List.length_drop]
      exact hleft.trans (Nat.mod_le _ _)
    · rw [List.length_drop]
      exact hleft

theorem LowBitsReach.next (hlow : LowBitsReach cb (bytes.length - ulOffset)) (hn : n ≤ cb % 2 ^ 32) :
    LowBitsReach (cb - n) (bytes.length - (ulOffset + n)) := by
  rcases hlow with hcb | hleft
  · exact .inl (by omega)
  · exact .inr (by omega)

/-- The loop ends when the target takes all bytes. -/
theorem copyLoop_of_takes (h : SharedBlock.Holds ulFlags b bytes committed) {pstm : σ} {pv : List UInt8}
    (htakes : target.Takes pstm pv ulWritten) (hcb : cb < 2 ^ 64)
    (hlow : LowBitsReach cb (bytes.length - ulOffset)) (hpv : pv = toCopy bytes ulOffset cb) :
    ∃ fuel res, copyLoop target b fuel cb ulOffset ulWritten pstm = some res := by
  induction htakes generalizing cb ulOffset with
  | done pstm ulWritten => exact ⟨1, _, copyLoop_end h hpv.symm pstm 0⟩
  | more pstm pv ulWritten hne rest ih =>
    have hlength := length_toCopy bytes ulOffset cb
    rw [← hpv] at hlength
    have hpos := List.length_pos_of_ne_nil hne
    obtain ⟨n, hn⟩ : ∃ n, n = (target.write pstm pv ulWritten).2.2 := ⟨_, rfl⟩
    have hturn := copyLoop_succ h hcb (by omega) (by omega) pstm (hpv.trans (toCopy_low hlow).symm) hn
    rw [← hn] at ih
    have hrest : pv.drop n = toCopy bytes (ulOffset + n) (cb - n) := by rw [hpv, drop_toCopy]
    obtain ⟨fuel, res, hres⟩ := ih (by omega) (hlow.next (hturn 0).1) hrest
    exact ⟨fuel + 1, res, (hturn fuel).2.2.trans hres⟩

/-- When the loop ends, the target has taken all bytes. -/
theorem takes_of_copyLoop (h : SharedBlock.Holds ulFlags b bytes committed) {fuel : ℕ} {pstm : σ}
    {res : ℕ × σ} (hloop : copyLoop target b fuel cb ulOffset ulWritten pstm = some res) (hcb : cb < 2 ^ 64)
    (hlow : LowBitsReach cb (bytes.length - ulOffset)) : target.Takes pstm (toCopy bytes ulOffset cb) ulWritten := by
  induction fuel generalizing cb ulOffset ulWritten pstm with
  | zero => cases hloop
  | succ fuel ih =>
    by_cases hend : toCopy bytes ulOffset cb = []
    · rw [hend]
      exact .done pstm ulWritten
    · have hlength := length_toCopy bytes ulOffset cb
      have hpos := List.length_pos_of_ne_nil hend
      obtain ⟨n, hn⟩ : ∃ n, n = (target.write pstm (toCopy bytes ulOffset cb) ulWritten).2.2 := ⟨_, rfl⟩
      obtain ⟨hle, hoff, hturn⟩ := copyLoop_succ h hcb (by omega) (by omega) pstm (toCopy_low hlow).symm hn fuel
      rw [hturn] at hloop
      refine .more pstm _ ulWritten hend ?_
      rw [← hn, drop_toCopy]
      exact ih hloop (by omega) (hlow.next hle)

/-- When the low bits of the length do not reach the end of the stream, the loop never ends. -/
theorem copyLoop_never (h : SharedBlock.Holds ulFlags b bytes committed) (hcb : cb < 2 ^ 64)
    (hlow : ¬ LowBitsReach cb (bytes.length - ulOffset)) (fuel ulWritten : ℕ) (pstm : σ) :
    copyLoop target b fuel cb ulOffset ulWritten pstm = none := by
  induction fuel generalizing cb ulOffset ulWritten pstm with
  | zero => rfl
  | succ fuel ih =>
    rw [LowBitsReach] at hlow
    have hlt : ulOffset < bytes.length := by omega
    obtain ⟨hle, hoff, hturn⟩ := copyLoop_succ h hcb (by omega) hlt pstm rfl rfl fuel
    rw [hturn]
    refine ih (by omega) ?_ _ _
    rw [LowBitsReach]
    omega

/-- One write is enough for a target that takes everything. -/
theorem copyLoop_acceptsAll (h : SharedBlock.Holds ulFlags b bytes committed) (haccepts : target.AcceptsAll)
    (hcb : cb < 2 ^ 64) (hlow : LowBitsReach cb (bytes.length - ulOffset)) (pstm : σ) {fuel : ℕ} {res : ℕ × σ}
    (hloop : copyLoop target b fuel cb ulOffset 0 pstm = some res) :
    res = (ulOffset + (toCopy bytes ulOffset cb).length,
      if toCopy bytes ulOffset cb = [] then pstm else (target.write pstm (toCopy bytes ulOffset cb) 0).1) := by
  cases fuel with
  | zero => cases hloop
  | succ fuel =>
    by_cases hend : toCopy bytes ulOffset cb = []
    · rw [copyLoop_end h hend] at hloop
      rw [if_pos hend, hend]
      exact (Option.some.inj hloop).symm
    · have hlength := length_toCopy bytes ulOffset cb
      have hpos := List.length_pos_of_ne_nil hend
      have hn := (haccepts pstm (toCopy bytes ulOffset cb) 0).symm
      obtain ⟨hle, hoff, hturn⟩ := copyLoop_succ h hcb (by omega) (by omega) pstm (toCopy_low hlow).symm hn fuel
      rw [hturn] at hloop
      cases fuel with
      | zero => cases hloop
      | succ fuel =>
        have hrest : toCopy bytes (ulOffset + (toCopy bytes ulOffset cb).length)
            (cb - (toCopy bytes ulOffset cb).length) = [] := by
          rw [← drop_toCopy, List.drop_length]
        rw [copyLoop_end h hrest] at hloop
        rw [if_neg hend]
        exact (Option.some.inj hloop).symm

/-! ## The copy -/

variable {stream : ECMemStream}

/-- `CopyTo` ends and delivers what it should if and only if the low 32 bits of the length reach the end of the stream
or the length has no others, and the target takes all bytes in the end. -/
theorem copies_iff (h : SharedBlock.Holds ulFlags b bytes committed) (hcursor : stream.liPos ≤ bytes.length) {cb : ℕ}
    (hcb : cb < 2 ^ 64) (pstm : σ) :
    Copies target b bytes stream pstm cb ↔ LowBitsReach cb (bytes.length - stream.liPos) ∧
      target.Takes pstm (toCopy bytes stream.liPos cb) 0 := by
  have hlen := h.lt
  have hle := h.le
  have hlowPart : stream.liPos % 2 ^ 32 = stream.liPos := by omega
  constructor
  · rintro ⟨fuel, res, hcopy, -⟩
    rw [copyTo, hlowPart] at hcopy
    obtain ⟨looped, hloop, -⟩ := Option.bind_eq_some_iff.mp hcopy
    by_cases hlow : LowBitsReach cb (bytes.length - stream.liPos)
    · exact ⟨hlow, takes_of_copyLoop h hloop hcb hlow⟩
    · rw [copyLoop_never h hcb hlow] at hloop
      cases hloop
  · rintro ⟨hlow, htakes⟩
    obtain ⟨fuel, looped, hloop⟩ := copyLoop_of_takes h htakes hcb hlow rfl
    refine ⟨fuel, _, by rw [copyTo, hlowPart, hloop]; rfl, fun haccepts => ?_⟩
    have hlength := length_toCopy bytes stream.liPos cb
    rw [copyLoop_acceptsAll h haccepts hcb hlow pstm hloop, delivered]
    have hcopied : (stream.liPos + (toCopy bytes stream.liPos cb).length + (2 ^ 32 - stream.liPos)) % 2 ^ 32 =
        (toCopy bytes stream.liPos cb).length := by
      omega
    rw [hcopied]

end Loop

/-! ## A stream that collects -/

/-- A target that keeps all bytes it gets. -/
def collecting : TargetStream (List UInt8) where
  write collected pv _ := (collected ++ pv, true, pv.length)
  written_le _ _ _ := le_rfl

/-- A length of all ones copies what is left. -/
theorem copies_all : Copies collecting (.create [65, 66] 0) [65, 66] ⟨1, false⟩ [] (2 ^ 64 - 1) :=
  (copies_iff (SharedBlock.Holds.create (by decide) 0) (by decide) (by decide) []).mpr
    ⟨.inr (by decide), .more _ _ _ (by decide) (.done _ _)⟩

/-- Asked for 4 GiB, the copy of a stream of one byte never ends. -/
theorem not_copies_wrapped : ¬ Copies collecting (.create [65] 0) [65] ⟨0, false⟩ [] (2 ^ 32) := by
  rintro ⟨fuel, res, hcopy, -⟩
  have hlow : ¬ LowBitsReach (2 ^ 32) (([65] : List UInt8).length - 0) := by
    rw [LowBitsReach]
    decide
  have hnever : copyLoop collecting (.create [65] 0) fuel (2 ^ 32) 0 0 [] = none :=
    copyLoop_never (SharedBlock.Holds.create (by decide) 0) (by decide) hlow fuel 0 []
  rw [copyTo] at hcopy
  change (copyLoop collecting _ fuel (2 ^ 32) 0 0 [] >>= _) = some res at hcopy
  rw [hnever] at hcopy
  cases hcopy

end Zcp.Common
