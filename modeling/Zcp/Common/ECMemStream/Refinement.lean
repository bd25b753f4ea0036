import Mathlib.Tactic.Common
import Zcp.Common.ECMemStream
import Zcp.Lib.PaddedArray

/-!
# Streams as cursors on an array

Streams that share a block should be cursors on one growable array of bytes, which is filled with zeros where
it grows, with a committed copy of it when they are transacted. `run_refines` says when they are: a read must
not start behind the end, where the difference to the end wraps, an allocation must not reach 4 GiB when it
grows, and a seek must not lead to a negative position.
-/

namespace Zcp.Common

open Zcp.Lib

/-- Cursors on an array of bytes, with the committed array of transacted streams. -/
structure ByteStreams where
  bytes : List UInt8
  committed : Option (List UInt8)
  cursors : List ℕ
deriving DecidableEq, Repr

namespace ByteStreams

/-- One cursor on the bytes of a buffer. -/
def create (buffer : List UInt8) (ulFlags : UInt32) : ByteStreams :=
  ⟨buffer, if ulFlags &&& STGM_TRANSACTED ≠ 0 then some buffer else none, [0]⟩

variable (v : ByteStreams)

/-- Where a seek leads to. -/
def target (dlibmove : ℤ) (dwOrigin : SeekOrigin) (cursor size : ℕ) : ℤ :=
  match dwOrigin with
  | .SEEK_SET => dlibmove
  | .SEEK_CUR => cursor + dlibmove
  | .SEEK_END => size + dlibmove
  | .other => cursor

/-- A call on a cursor. -/
def call (s cursor : ℕ) : StreamOp → StreamAnswer × ByteStreams
  | .read cb =>
    let pv := (v.bytes.drop cursor).take cb
    (.read pv, { v with cursors := v.cursors.set s (cursor + pv.length) })
  | .write pv => (.written pv.length,
      { v with
        bytes := PaddedArray.overwrite 0 v.bytes cursor pv
        cursors := v.cursors.set s (cursor + pv.length) })
  | .seek dlibmove dwOrigin =>
    let cursor := min (target dlibmove dwOrigin cursor v.bytes.length).toNat v.bytes.length
    (.position cursor, { v with cursors := v.cursors.set s cursor })
  | .setSize libNewSize => (.hrSuccess, { v with bytes := v.bytes.takeD libNewSize 0 })
  | .commit lpCommitFunc =>
    (match lpCommitFunc with
      | none => .hrSuccess
      | some hr => .committed hr,
      { v with committed := v.committed.map fun _ => v.bytes })
  | .revert =>
    (.hrSuccess, { v with bytes := v.committed.getD v.bytes, cursors := v.cursors.set s 0 })
  | .clone => (.hrSuccess, { v with cursors := v.cursors ++ [0] })

def step (op : ℕ × StreamOp) : StreamAnswer × ByteStreams :=
  match v.cursors[op.1]? with
  | none => (.hrSuccess, v)
  | some cursor => v.call op.1 cursor op.2

/-- Calls one after the other, with their answers. -/
def run : ByteStreams → List (ℕ × StreamOp) → List StreamAnswer × ByteStreams
  | v, [] => ([], v)
  | v, op :: ops =>
    let (answer, v) := v.step op
    let (answers, v) := run v ops
    (answer :: answers, v)

end ByteStreams

namespace SharedBlock

/-- What the streams stand for. -/
def view (m : SharedBlock) : ByteStreams where
  bytes := m.lpMemBlock.lpCurrent.take m.lpMemBlock.cbCurrent
  committed := if m.ulFlags &&& STGM_TRANSACTED ≠ 0 then
    some (m.lpMemBlock.lpOriginal.take m.lpMemBlock.cbOriginal) else none
  cursors := m.streams.map ECMemStream.liPos

/-! ## Calls that are refined -/

/-- Sizes and positions are below `2 ^ 32`, and offsets are signed numbers of 64 bits. -/
def InRange (m : SharedBlock) (op : ℕ × StreamOp) : Prop :=
  ∀ stream, m.streams[op.1]? = some stream → match op.2 with
    | .read cb => cb < 2 ^ 32
    | .write pv => stream.liPos + pv.length < 2 ^ 32
    | .seek dlibmove _ => -2 ^ 63 ≤ dlibmove ∧ dlibmove < 2 ^ 63
    | .setSize libNewSize => libNewSize < 2 ^ 32
    | _ => True

/-- A read of any bytes starts at most at the end, an allocation stays below 4 GiB when it grows, and a seek
leads to no negative position, except when all positions are 0. -/
def Meets (m : SharedBlock) (op : ℕ × StreamOp) : Prop :=
  ∀ stream, m.streams[op.1]? = some stream → match op.2 with
    | .read cb => stream.liPos ≤ m.lpMemBlock.cbCurrent ∨ cb = 0
    | .write pv => m.lpMemBlock.cbTotal < stream.liPos + pv.length →
        m.lpMemBlock.cbTotal +
          ((stream.liPos + pv.length) / EC_MEMBLOCK_SIZE + 1) * EC_MEMBLOCK_SIZE < 2 ^ 32
    | .seek dlibmove dwOrigin =>
        0 ≤ ByteStreams.target dlibmove dwOrigin stream.liPos m.lpMemBlock.cbCurrent ∨
          m.lpMemBlock.cbCurrent = 0
    | _ => True

/-- A property of the state and the call holds for all calls of a run. -/
def Always (P : SharedBlock → ℕ × StreamOp → Prop) : SharedBlock → List (ℕ × StreamOp) → Prop
  | _, [] => True
  | m, op :: ops => P m op ∧ ∀ answer m', m.step op = some (answer, m') → Always P m' ops

/-! ## The memory of the array -/

/-- The block holds the array, with zeros behind it, and the committed array. -/
structure Holds (ulFlags : UInt32) (b : ECMemBlock) (bytes : List UInt8)
    (committed : Option (List UInt8)) : Prop where
  flags : b.ulFlags = ulFlags
  current : b.lpCurrent = bytes ++ List.replicate (b.cbTotal - bytes.length) 0
  cbCurrent : b.cbCurrent = bytes.length
  le : bytes.length ≤ b.cbTotal
  lt : b.cbTotal < 2 ^ 32
  transacted : b.ulFlags &&& STGM_TRANSACTED ≠ 0 → committed = some b.lpOriginal
  direct : b.ulFlags &&& STGM_TRANSACTED = 0 → committed = none
  original : b.cbOriginal = b.lpOriginal.length
  original_lt : b.cbOriginal < 2 ^ 32

namespace Holds

variable {ulFlags : UInt32} {b : ECMemBlock} {bytes : List UInt8} {committed : Option (List UInt8)}

theorem length_current (h : Holds ulFlags b bytes committed) : b.lpCurrent.length = b.cbTotal := by
  have hle := h.le
  rw [h.current, List.length_append, List.length_replicate]
  omega

theorem create {buffer : List UInt8} (hlen : buffer.length < 2 ^ 32) (ulFlags : UInt32) :
    Holds ulFlags (.create buffer ulFlags) buffer
      (if ulFlags &&& STGM_TRANSACTED ≠ 0 then some buffer else none) := by
  refine ⟨rfl, ?_, rfl, le_rfl, hlen, fun h => ?_, fun h => ?_, rfl, ?_⟩
  · show buffer = buffer ++ List.replicate (buffer.length - buffer.length) 0
    rw [Nat.sub_self, List.replicate_zero, List.append_nil]
  · change ulFlags &&& STGM_TRANSACTED ≠ 0 at h
    rw [if_pos h]
    show some buffer = some (if _ then _ else _)
    rw [if_pos h]
  · change ulFlags &&& STGM_TRANSACTED = 0 at h
    rw [if_neg (not_not_intro h)]
  · show (if _ then _ else _ : List UInt8).length < 2 ^ 32
    split_ifs
    · exact hlen
    · decide

/-- A read up to the end gives the bytes of the array. -/
theorem readAt (h : Holds ulFlags b bytes committed) {ulPos cb : ℕ} (hpos : ulPos < 2 ^ 32)
    (hmeets : ulPos ≤ b.cbCurrent ∨ cb = 0) : b.readAt ulPos cb = some ((bytes.drop ulPos).take cb) := by
  have hle := h.le
  have hlt := h.lt
  rw [ECMemBlock.readAt]
  rcases hmeets with hmeets | rfl
  · rw [h.cbCurrent] at hmeets ⊢
    have hwrap : (bytes.length + (2 ^ 32 - ulPos)) % 2 ^ 32 = bytes.length - ulPos := by omega
    have hmin : (if cb < bytes.length - ulPos then cb else bytes.length - ulPos) =
        min cb (bytes.length - ulPos) := by
      split_ifs <;> omega
    rw [hwrap, hmin, ECMemBlock.copyFrom, h.length_current, if_pos (by omega), h.current,
      List.drop_append_of_le_length hmeets, List.take_append_of_le_length (by
        rw [List.length_drop]
        omega), ← List.length_drop, ← List.take_eq_take_min]
  · have hzero : (if 0 < (b.cbCurrent + (2 ^ 32 - ulPos)) % 2 ^ 32 then 0
        else (b.cbCurrent + (2 ^ 32 - ulPos)) % 2 ^ 32) = 0 := by
      split_ifs <;> omega
    rw [hzero, ECMemBlock.copyFrom, if_pos (.inl rfl), List.take_zero, List.take_zero]

/-- An allocation that stays below 4 GiB grows by zeros. -/
theorem grow (h : Holds ulFlags b bytes committed) {dsize : ℕ} (hmeets : b.cbTotal < dsize →
      b.cbTotal + (dsize / EC_MEMBLOCK_SIZE + 1) * EC_MEMBLOCK_SIZE < 2 ^ 32) :
    ∃ b', b.grow dsize = some b' ∧ Holds ulFlags b' bytes committed ∧ dsize ≤ b'.cbTotal := by
  have hle := h.le
  rw [ECMemBlock.grow]
  by_cases hdsize : b.cbTotal < dsize
  · have hsize := hmeets hdsize
    have hmod := Nat.mod_eq_of_lt hsize
    rw [EC_MEMBLOCK_SIZE] at hsize hmod ⊢
    rw [if_pos hdsize]
    dsimp only
    rw [hmod, if_neg (by omega)]
    refine ⟨_, rfl, ⟨h.flags, ?_, h.cbCurrent, ?_, hsize, h.transacted, h.direct, h.original,
      h.original_lt⟩, ?_⟩
    · show b.lpCurrent ++ List.replicate _ 0 = _
      rw [h.current, List.append_assoc, List.replicate_append_replicate]
      congr 2
      dsimp only
      omega
    · show bytes.length ≤ b.cbTotal + _
      omega
    · show dsize ≤ b.cbTotal + _
      omega
  · rw [if_neg hdsize]
    exact ⟨b, rfl, h, Nat.le_of_not_lt hdsize⟩

/-- A write stores its bytes in the array. -/
theorem writeAt (h : Holds ulFlags b bytes committed) {ulPos : ℕ} {pv : List UInt8}
    (hpos : ulPos + pv.length < 2 ^ 32) (hmeets : b.cbTotal < ulPos + pv.length →
      b.cbTotal + ((ulPos + pv.length) / EC_MEMBLOCK_SIZE + 1) * EC_MEMBLOCK_SIZE < 2 ^ 32) :
    ∃ b', b.writeAt ulPos pv = some b' ∧ Holds ulFlags b' (PaddedArray.overwrite 0 bytes ulPos pv) committed := by
  obtain ⟨b₁, hgrow, h₁, hfits⟩ := h.grow hmeets
  have hlength := PaddedArray.length_overwrite (z := (0 : UInt8)) bytes ulPos pv
  have hle := h₁.le
  have hcopied := PaddedArray.overwrite_pad (z := (0 : UInt8)) (l := bytes)
    (k := b₁.cbTotal - bytes.length) (show ulPos + pv.length ≤ _ by omega)
  have hcopy : ECMemBlock.copyTo b₁.lpCurrent ulPos pv =
      some (PaddedArray.overwrite 0 bytes ulPos pv ++
        List.replicate (b₁.cbTotal - (PaddedArray.overwrite 0 bytes ulPos pv).length) 0) := by
    have hrest : b₁.cbTotal - bytes.length - (ulPos + pv.length - bytes.length) =
        b₁.cbTotal - (PaddedArray.overwrite 0 bytes ulPos pv).length := by
      omega
    rw [← hrest, ← hcopied, ← h₁.current, ECMemBlock.copyTo, h₁.length_current]
    by_cases hempty : pv = []
    · rw [if_pos hempty, hempty, List.append_nil, List.length_nil, Nat.add_zero,
        List.take_append_drop]
    · rw [if_neg hempty, if_pos hfits]
  have hwrite : b.writeAt ulPos pv = some { b₁ with
      lpCurrent := PaddedArray.overwrite 0 bytes ulPos pv ++
        List.replicate (b₁.cbTotal - (PaddedArray.overwrite 0 bytes ulPos pv).length) 0
      cbCurrent := if ulPos + pv.length > b₁.cbCurrent then ulPos + pv.length else b₁.cbCurrent } := by
    rw [ECMemBlock.writeAt]
    simp only [Nat.mod_eq_of_lt hpos, hgrow, Option.bind_eq_bind, Option.bind_some, hcopy]
  refine ⟨_, hwrite, h₁.flags, rfl, ?_, ?_, h₁.lt, h₁.transacted, h₁.direct, h₁.original,
    h₁.original_lt⟩
  · show (if _ then _ else _) = _
    rw [h₁.cbCurrent, hlength]
    by_cases hlong : ulPos + pv.length > bytes.length
    · rw [if_pos hlong, max_eq_right (Nat.le_of_lt hlong)]
    · rw [if_neg hlong, max_eq_left (Nat.le_of_not_gt hlong)]
  · show _ ≤ b₁.cbTotal
    omega

/-- A commit copies the array. -/
theorem commit (h : Holds ulFlags b bytes committed) :
    ∃ b', b.commit = some b' ∧ Holds ulFlags b' bytes (committed.map fun _ => bytes) := by
  have hle := h.le
  have hlt := h.lt
  rw [ECMemBlock.commit]
  by_cases htransacted : b.ulFlags &&& STGM_TRANSACTED ≠ 0
  · have hcopy : ECMemBlock.copyFrom b.lpCurrent 0 b.cbCurrent = some bytes := by
      rw [ECMemBlock.copyFrom, h.length_current, h.cbCurrent, if_pos (by omega), List.drop_zero,
        h.current, List.take_left]
    rw [if_pos htransacted, hcopy, h.transacted htransacted]
    refine ⟨_, rfl, h.flags, h.current, h.cbCurrent, h.le, h.lt, fun _ => rfl, ?_, h.cbCurrent, ?_⟩
    · exact fun h => absurd h htransacted
    · show b.cbCurrent < 2 ^ 32
      rw [h.cbCurrent]
      omega
  · rw [if_neg htransacted, h.direct (not_not.mp htransacted)]
    refine ⟨b, rfl, h.flags, h.current, h.cbCurrent, h.le, h.lt, fun h => absurd h htransacted, ?_,
      h.original, h.original_lt⟩
    exact fun _ => rfl

/-- A revert takes the committed array. -/
theorem revert (h : Holds ulFlags b bytes committed) :
    ∃ b', b.revert = some b' ∧ Holds ulFlags b' (committed.getD bytes) committed := by
  rw [ECMemBlock.revert]
  by_cases htransacted : b.ulFlags &&& STGM_TRANSACTED ≠ 0
  · have hcopy : ECMemBlock.copyFrom b.lpOriginal 0 b.cbOriginal = some b.lpOriginal := by
      rw [ECMemBlock.copyFrom, h.original, if_pos (by omega), List.drop_zero, List.take_length]
    have hcommitted := h.transacted htransacted
    rw [if_pos htransacted, hcopy, hcommitted]
    refine ⟨_, rfl, h.flags, ?_, h.original, h.original.ge, h.original_lt, fun _ => rfl, ?_,
      h.original, h.original_lt⟩
    · show b.lpOriginal = b.lpOriginal ++ List.replicate (b.cbOriginal - b.lpOriginal.length) 0
      rw [h.original, Nat.sub_self, List.replicate_zero, List.append_nil]
    · exact fun h => absurd h htransacted
  · have hcommitted := h.direct (not_not.mp htransacted)
    rw [if_neg htransacted, hcommitted]
    rw [hcommitted] at h
    exact ⟨b, rfl, h⟩

/-- A new size cuts the array, or fills it with zeros. -/
theorem setSize (h : Holds ulFlags b bytes committed) {ulSize : ℕ} (hsize : ulSize < 2 ^ 32) :
    ∃ b', b.setSize ulSize = some b' ∧ Holds ulFlags b' (bytes.takeD ulSize 0) committed := by
  have hle := h.le
  have hmin : (if ulSize < b.cbCurrent then ulSize else b.cbCurrent) = min ulSize bytes.length := by
    rw [h.cbCurrent]
    split_ifs <;> omega
  have hcopy : ECMemBlock.copyFrom b.lpCurrent 0 (min ulSize bytes.length) =
      some (bytes.take ulSize) := by
    rw [ECMemBlock.copyFrom, h.length_current, if_pos (by omega), List.drop_zero, h.current,
      List.take_append_of_le_length (by omega), ← List.take_eq_take_min]
  rw [ECMemBlock.setSize, hmin, hcopy]
  refine ⟨_, rfl, h.flags, ?_, ?_, ?_, hsize, h.transacted, h.direct, h.original, h.original_lt⟩
  · show bytes.take ulSize ++ List.replicate (ulSize - b.cbCurrent) 0 =
      bytes.takeD ulSize 0 ++ List.replicate (ulSize - (bytes.takeD ulSize 0).length) 0
    rw [List.takeD_length, Nat.sub_self, List.replicate_zero, List.append_nil, PaddedArray.takeD_eq,
      h.cbCurrent]
  · exact (List.takeD_length ulSize bytes 0).symm
  · exact (List.takeD_length ulSize bytes 0).le

end Holds

/-! ## Calls -/

/-- The streams are the cursors on the array that the block holds. -/
structure Simulates (m : SharedBlock) (v : ByteStreams) : Prop where
  holds : Holds m.ulFlags m.lpMemBlock v.bytes v.committed
  cursors : v.cursors = m.streams.map ECMemStream.liPos
  lt : ∀ stream ∈ m.streams, stream.liPos < 2 ^ 32
  writable : m.ulFlags &&& STGM_WRITE ≠ 0

namespace Simulates

variable {m : SharedBlock} {v : ByteStreams}

/-- The block and one cursor change together. -/
theorem update (h : Simulates m v) {b : ECMemBlock} {bytes : List UInt8}
    {committed : Option (List UInt8)} (hb : Holds m.ulFlags b bytes committed) (s : ℕ)
    (stream : ECMemStream) (hlt : stream.liPos < 2 ^ 32) :
    Simulates (m.update b s stream) ⟨bytes, committed, v.cursors.set s stream.liPos⟩ where
  holds := hb
  cursors := by
    show v.cursors.set s stream.liPos = (m.streams.set s stream).map ECMemStream.liPos
    rw [h.cursors, List.map_set]
  lt other hmem := by
    rcases List.mem_or_eq_of_mem_set hmem with hmem | rfl
    · exact h.lt other hmem
    · exact hlt
  writable := h.writable

/-- The cursor of a stream that stays where it is. -/
theorem set_self (h : Simulates m v) {s : ℕ} {stream : ECMemStream} (hs : m.streams[s]? = some stream) :
    v.cursors.set s stream.liPos = v.cursors := by
  have hcursor : v.cursors[s]? = some stream.liPos := by
    rw [h.cursors, List.getElem?_map, hs, Option.map_some]
  obtain ⟨hlt, hget⟩ := List.getElem?_eq_some_iff.mp hcursor
  rw [← hget, List.set_getElem_self]

/-- The two seeks agree when the second one leads to no negative position. -/
theorem seekTo_eq {dlibmove : ℤ} {dwOrigin : SeekOrigin} {liPos ulSize : ℕ} (hpos : liPos < 2 ^ 32)
    (hsize : ulSize < 2 ^ 32) (hrange : -2 ^ 63 ≤ dlibmove ∧ dlibmove < 2 ^ 63)
    (hmeets : 0 ≤ ByteStreams.target dlibmove dwOrigin liPos ulSize ∨ ulSize = 0) :
    seekTo dlibmove dwOrigin liPos ulSize = min (ByteStreams.target dlibmove dwOrigin liPos ulSize).toNat ulSize := by
  cases dwOrigin with
  | SEEK_SET =>
    simp only [seekTo, ByteStreams.target] at hmeets ⊢
    split_ifs <;> omega
  | SEEK_CUR =>
    simp only [seekTo, ByteStreams.target] at hmeets ⊢
    split_ifs <;> omega
  | SEEK_END =>
    simp only [seekTo, ByteStreams.target] at hmeets ⊢
    split_ifs <;> omega
  | other =>
    simp only [seekTo, ByteStreams.target] at hmeets ⊢
    split_ifs <;> omega

theorem call_commit (h : Simulates m v) {s : ℕ} {stream : ECMemStream}
    (hs : m.streams[s]? = some stream) (hlt : stream.liPos < 2 ^ 32) (lpCommitFunc : Option UInt32) :
    ∃ m', m.commitStream s stream lpCommitFunc = some ((v.call s stream.liPos (.commit lpCommitFunc)).1, m') ∧
      Simulates m' (v.call s stream.liPos (.commit lpCommitFunc)).2 := by
  obtain ⟨b, hcommit, hb⟩ := h.holds.commit
  have hnext := h.update hb s { stream with fDirty := false } hlt
  rw [h.set_self hs] at hnext
  unfold commitStream
  rw [hcommit]
  exact ⟨_, rfl, hnext⟩

/-- A call that meets the condition does on the block what it does on the array. -/
theorem call (h : Simulates m v) {s : ℕ} {stream : ECMemStream} (hs : m.streams[s]? = some stream)
    (op : StreamOp) (hrange : m.InRange (s, op)) (hmeets : m.Meets (s, op)) :
    ∃ m', m.call s stream op = some ((v.call s stream.liPos op).1, m') ∧
      Simulates m' (v.call s stream.liPos op).2 := by
  have hlt := h.lt stream (List.mem_of_getElem? hs)
  have hle := h.holds.le
  have htotal := h.holds.lt
  have hmod := Nat.mod_eq_of_lt hlt
  have hrange := hrange stream hs
  have hmeets := hmeets stream hs
  cases op with
  | read cb =>
    have hread := h.holds.readAt hlt hmeets
    have hlength : stream.liPos + ((v.bytes.drop stream.liPos).take cb).length < 2 ^ 32 := by
      rw [List.length_take, List.length_drop]
      omega
    rw [SharedBlock.call, hmod, hread]
    simp only [Option.bind_eq_bind, Option.bind_some]
    rw [Nat.mod_eq_of_lt (hlength.trans (by decide))]
    exact ⟨_, rfl, h.update h.holds s _ hlength⟩
  | write pv =>
    obtain ⟨b, hwrite, hb⟩ := h.holds.writeAt hrange hmeets
    have hpos : (stream.liPos + pv.length) % 2 ^ 64 = stream.liPos + pv.length :=
      Nat.mod_eq_of_lt (Nat.lt_trans hrange (by decide))
    rw [SharedBlock.call, if_neg h.writable, hmod, hwrite]
    simp only [Option.bind_eq_bind, Option.bind_some, hpos]
    have hnext := h.update hb s ⟨stream.liPos + pv.length, true⟩ hrange
    split_ifs with hdirect
    · -- the commit of a direct stream keeps the array and the position
      -- a direct stream is committed at once, from its new position
      have hin := (List.getElem?_eq_some_iff.mp hs).1
      have hs' : (m.update b s ⟨stream.liPos + pv.length, true⟩).streams[s]? =
          some ⟨stream.liPos + pv.length, true⟩ := by
        show (m.streams.set s _)[s]? = _
        rw [List.getElem?_set_self hin]
      obtain ⟨m', hcommit, hnext'⟩ := hnext.call_commit hs' hrange none
      have hflags : m.lpMemBlock.ulFlags &&& STGM_TRANSACTED = 0 := by
        rw [h.holds.flags]
        exact hdirect.1
      refine ⟨m', by rw [hcommit]; rfl, ?_⟩
      simp only [ByteStreams.call] at hnext' ⊢
      rwa [h.holds.direct hflags] at hnext' ⊢
    · exact ⟨_, rfl, hnext⟩
  | seek dlibmove dwOrigin =>
    rw [h.holds.cbCurrent] at hmeets
    have hseek := seekTo_eq hlt (Nat.lt_of_le_of_lt hle htotal) hrange hmeets
    have hnext := h.update h.holds s { stream with
      liPos := min (ByteStreams.target dlibmove dwOrigin stream.liPos v.bytes.length).toNat
        v.bytes.length } (by
        dsimp only
        omega)
    rw [SharedBlock.call, h.holds.cbCurrent, hseek]
    exact ⟨_, rfl, hnext⟩
  | setSize libNewSize =>
    obtain ⟨b, hsize, hb⟩ := h.holds.setSize hrange
    have hnext := h.update hb s { stream with fDirty := true } hlt
    rw [h.set_self hs] at hnext
    rw [SharedBlock.call, if_neg h.writable, Nat.mod_eq_of_lt hrange, hsize]
    exact ⟨_, rfl, hnext⟩
  | commit lpCommitFunc => exact h.call_commit hs hlt lpCommitFunc
  | revert =>
    obtain ⟨b, hrevert, hb⟩ := h.holds.revert
    rw [SharedBlock.call, hrevert]
    exact ⟨_, rfl, h.update hb s { stream with liPos := 0 } (Nat.two_pow_pos 32)⟩
  -- the new cursor starts at 0, whatever the position of the stream is
  | clone =>
    refine ⟨{ m with streams := m.streams ++ [⟨0, false⟩] }, rfl, h.holds, ?_, ?_, h.writable⟩
    · show v.cursors ++ [0] = (m.streams ++ [(⟨0, false⟩ : ECMemStream)]).map ECMemStream.liPos
      rw [List.map_append, h.cursors]
      rfl
    · intro other hmem
      rcases List.mem_append.mp hmem with hmem | hmem
      · exact h.lt other hmem
      · rw [List.mem_singleton.mp hmem]
        decide

/-- A call on any stream, or on none. -/
theorem step (h : Simulates m v) {op : ℕ × StreamOp} (hrange : m.InRange op) (hmeets : m.Meets op) :
    ∃ m', m.step op = some ((v.step op).1, m') ∧ Simulates m' (v.step op).2 := by
  have hcursor : v.cursors[op.1]? = m.streams[op.1]?.map ECMemStream.liPos := by
    rw [h.cursors, List.getElem?_map]
  rw [SharedBlock.step, ByteStreams.step, hcursor]
  cases hs : m.streams[op.1]? with
  | none => exact ⟨m, rfl, h⟩
  | some stream => exact h.call hs op.2 hrange hmeets

theorem run (h : Simulates m v) {ops : List (ℕ × StreamOp)} (hrange : Always InRange m ops)
    (hmeets : Always Meets m ops) : ∃ m', m.run ops = some ((v.run ops).1, m') ∧ Simulates m' (v.run ops).2 := by
  induction ops generalizing m v with
  | nil => exact ⟨m, rfl, h⟩
  | cons op ops ih =>
    obtain ⟨m₁, hstep, h₁⟩ := h.step hrange.1 hmeets.1
    obtain ⟨m', hrun, h'⟩ := ih h₁ (hrange.2 _ _ hstep) (hmeets.2 _ _ hstep)
    refine ⟨m', ?_, h'⟩
    rw [SharedBlock.run, hstep]
    simp only [Option.bind_eq_bind, Option.bind_some, hrun]
    rfl

theorem view_eq (h : Simulates m v) : m.view = v := by
  have hbytes : m.lpMemBlock.lpCurrent.take m.lpMemBlock.cbCurrent = v.bytes := by
    rw [h.holds.current, h.holds.cbCurrent, List.take_left]
  have hcommitted : (if m.ulFlags &&& STGM_TRANSACTED ≠ 0 then
      some (m.lpMemBlock.lpOriginal.take m.lpMemBlock.cbOriginal) else none) = v.committed := by
    have htransacted := h.holds.transacted
    have hdirect := h.holds.direct
    rw [h.holds.flags] at htransacted hdirect
    split_ifs with hflags
    · rw [htransacted hflags, h.holds.original, List.take_length]
    · exact (hdirect (not_not.mp hflags)).symm
  rw [view, hbytes, hcommitted, ← h.cursors]

theorem create {buffer : List UInt8} (hlen : buffer.length < 2 ^ 32) {ulFlags : UInt32}
    (hwrite : ulFlags &&& STGM_WRITE ≠ 0) : Simulates (.create buffer ulFlags) (.create buffer ulFlags) where
  holds := Holds.create hlen ulFlags
  cursors := rfl
  lt stream hmem := by
    rw [List.mem_singleton.mp hmem]
    decide
  writable := hwrite

end Simulates

/-- Streams that share a block answer as cursors on an array of bytes do, and no call touches memory outside
of what has been allocated. -/
theorem run_refines {buffer : List UInt8} (hlen : buffer.length < 2 ^ 32) {ulFlags : UInt32}
    (hwrite : ulFlags &&& STGM_WRITE ≠ 0) {ops : List (ℕ × StreamOp)}
    (hrange : Always InRange (create buffer ulFlags) ops) (hmeets : Always Meets (create buffer ulFlags) ops) :
    ∃ m, (create buffer ulFlags).run ops = some (((ByteStreams.create buffer ulFlags).run ops).1, m) ∧
      m.view = ((ByteStreams.create buffer ulFlags).run ops).2 := by
  obtain ⟨m, hrun, h⟩ := (Simulates.create hlen hwrite).run hrange hmeets
  exact ⟨m, hrun, h.view_eq⟩

/-! ## A shared stream that is cut -/

/-- A stream and its clone write, seek, cut and read, and go back to what was committed. -/
def sharedEdits : List (ℕ × StreamOp) :=
  [(0, .clone), (1, .write [9, 9]), (0, .seek (-2) .SEEK_END), (1, .setSize 4), (0, .read 9), (0, .revert),
    (1, .read 9)]

theorem Always.imp {P Q : SharedBlock → ℕ × StreamOp → Prop} (h : ∀ m op, P m op → Q m op)
    {ops : List (ℕ × StreamOp)} : ∀ {m : SharedBlock}, Always P m ops → Always Q m ops := by
  induction ops with
  | nil => exact fun _ => trivial
  | cons op ops ih => exact fun hall => ⟨h _ _ hall.1, fun answer m' hstep => ih (hall.2 answer m' hstep)⟩

/-- One call after the other is evaluated; none of them leaves the bytes that were allocated at first. -/
theorem always_sharedEdits : Always (fun m op => InRange m op ∧ Meets m op)
    (create [1, 2, 3, 4, 5] (STGM_WRITE ||| STGM_TRANSACTED)) sharedEdits := by
  refine ⟨⟨fun _ _ => trivial, fun _ _ => trivial⟩, ?_⟩
  rintro answer m ⟨⟩
  refine ⟨⟨by rintro stream ⟨⟩; decide, by rintro stream ⟨⟩; decide⟩, ?_⟩
  rintro answer m ⟨⟩
  refine ⟨⟨by rintro stream ⟨⟩; decide, by rintro stream ⟨⟩; decide⟩, ?_⟩
  rintro answer m ⟨⟩
  refine ⟨⟨by rintro stream ⟨⟩; decide, by rintro stream ⟨⟩; trivial⟩, ?_⟩
  rintro answer m ⟨⟩
  refine ⟨⟨by rintro stream ⟨⟩; decide, by rintro stream ⟨⟩; decide⟩, ?_⟩
  rintro answer m ⟨⟩
  refine ⟨⟨fun _ _ => trivial, fun _ _ => trivial⟩, ?_⟩
  rintro answer m ⟨⟩
  exact ⟨⟨by rintro stream ⟨⟩; decide, by rintro stream ⟨⟩; decide⟩, fun _ _ _ => trivial⟩

theorem run_refines_edits : ∃ m, (create [1, 2, 3, 4, 5] (STGM_WRITE ||| STGM_TRANSACTED)).run sharedEdits =
        some (((ByteStreams.create [1, 2, 3, 4, 5] (STGM_WRITE ||| STGM_TRANSACTED)).run sharedEdits).1, m) ∧
      m.view = ((ByteStreams.create [1, 2, 3, 4, 5] (STGM_WRITE ||| STGM_TRANSACTED)).run sharedEdits).2 :=
  run_refines (by decide) (by decide) (always_sharedEdits.imp fun _ _ => And.left)
    (always_sharedEdits.imp fun _ _ => And.right)

/-- A stream at its end, and the block is cut to nothing before the next read. -/
def readBehindEnd : List (ℕ × StreamOp) :=
  [(0, .seek 0 .SEEK_END), (0, .setSize 0), (0, .read 1)]

/-- All sizes and positions are small, and the read touches memory outside of the block. -/
theorem not_refines_behindEnd : ¬ (Always InRange (create [1, 2, 3, 4, 5] STGM_WRITE) readBehindEnd →
      ∃ m, (create [1, 2, 3, 4, 5] STGM_WRITE).run readBehindEnd =
        some (((ByteStreams.create [1, 2, 3, 4, 5] STGM_WRITE).run readBehindEnd).1, m)) := by
  intro h
  have hrange : Always InRange (create [1, 2, 3, 4, 5] STGM_WRITE) readBehindEnd := by
    refine ⟨fun _ _ => (by decide : -2 ^ 63 ≤ (0 : ℤ) ∧ (0 : ℤ) < 2 ^ 63), ?_⟩
    rintro answer m ⟨⟩
    refine ⟨fun _ _ => (by decide : 0 < 2 ^ 32), ?_⟩
    rintro answer m ⟨⟩
    exact ⟨fun _ _ => (by decide : 1 < 2 ^ 32), fun _ _ _ => trivial⟩
  obtain ⟨m, hrun⟩ := h hrange
  have hnone : (create [1, 2, 3, 4, 5] STGM_WRITE).run readBehindEnd = none := by decide +kernel
  exact nomatch hnone.symm.trans hrun

end SharedBlock

end Zcp.Common
