import Mathlib.Data.UInt
import Mathlib.Logic.Function.Basic

/-!
# Streams in memory

`ECMemBlock` and `ECMemStream` of `common/ECMemStream.cpp`. The streams that are cloned from one stream share
its block and have a position each. Lengths and positions in a block are `ULONG`s, so that their sums and
differences are taken modulo `2 ^ 32`. A call that touches memory outside of an allocation has no outcome
(`none`); allocating memory succeeds.
-/

namespace Zcp.Common

def EC_MEMBLOCK_SIZE : ℕ := 8192

def STGM_WRITE : UInt32 := 0x1

def STGM_SHARE_EXCLUSIVE : UInt32 := 0x10

def STGM_TRANSACTED : UInt32 := 0x10000

/-- `ECMemBlock`. The lists are what has been allocated. -/
structure ECMemBlock where
  lpCurrent : List UInt8
  cbCurrent : ℕ
  cbTotal : ℕ
  lpOriginal : List UInt8
  cbOriginal : ℕ
  ulFlags : UInt32
deriving DecidableEq, Repr

namespace ECMemBlock

/-- `memcpy` from a position of an allocation. -/
def copyFrom (memory : List UInt8) (ulPos ulLen : ℕ) : Option (List UInt8) :=
  if ulLen = 0 ∨ ulPos + ulLen ≤ memory.length then some ((memory.drop ulPos).take ulLen) else none

/-- `memcpy` to a position of an allocation. -/
def copyTo (memory : List UInt8) (ulPos : ℕ) (buffer : List UInt8) : Option (List UInt8) :=
  if buffer = [] then some memory
  else if ulPos + buffer.length ≤ memory.length then
    some (memory.take ulPos ++ buffer ++ memory.drop (ulPos + buffer.length))
  else none

/-- The constructor. -/
def create (buffer : List UInt8) (ulFlags : UInt32) : ECMemBlock :=
  let original := if ulFlags &&& STGM_TRANSACTED ≠ 0 then buffer else []
  ⟨buffer, buffer.length, buffer.length, original, original.length, ulFlags⟩

variable (b : ECMemBlock)

/-- `ReadAt`: the bytes that are copied to the buffer. -/
def readAt (ulPos ulLen : ℕ) : Option (List UInt8) :=
  let ulToRead := (b.cbCurrent + (2 ^ 32 - ulPos)) % 2 ^ 32
  let ulToRead := if ulLen < ulToRead then ulLen else ulToRead
  copyFrom b.lpCurrent ulPos ulToRead

/-- The part of `WriteAt` that enlarges the allocation. Where the new size has wrapped, `memset` is told to
clear nearly 4 GiB, or `realloc` has freed the block. -/
def grow (dsize : ℕ) : Option ECMemBlock :=
  if b.cbTotal < dsize then
    let newsize := (b.cbTotal + (dsize / EC_MEMBLOCK_SIZE + 1) * EC_MEMBLOCK_SIZE) % 2 ^ 32
    if newsize < b.cbTotal ∨ newsize = 0 then none
    else some { b with
      lpCurrent := b.lpCurrent ++ List.replicate (newsize - b.cbTotal) 0
      cbTotal := newsize }
  else some b

/-- `WriteAt`, which writes all bytes of the buffer. -/
def writeAt (ulPos : ℕ) (buffer : List UInt8) : Option ECMemBlock := do
  let dsize := (ulPos + buffer.length) % 2 ^ 32
  let b ← b.grow dsize
  let lpCurrent ← copyTo b.lpCurrent ulPos buffer
  some { b with lpCurrent, cbCurrent := if dsize > b.cbCurrent then dsize else b.cbCurrent }

def commit : Option ECMemBlock :=
  if b.ulFlags &&& STGM_TRANSACTED ≠ 0 then do
    let lpOriginal ← copyFrom b.lpCurrent 0 b.cbCurrent
    some { b with lpOriginal, cbOriginal := b.cbCurrent }
  else some b

def revert : Option ECMemBlock :=
  if b.ulFlags &&& STGM_TRANSACTED ≠ 0 then do
    let lpCurrent ← copyFrom b.lpOriginal 0 b.cbOriginal
    some { b with lpCurrent, cbCurrent := b.cbOriginal, cbTotal := b.cbOriginal }
  else some b

def setSize (ulSize : ℕ) : Option ECMemBlock := do
  let copied ← copyFrom b.lpCurrent 0 (if ulSize < b.cbCurrent then ulSize else b.cbCurrent)
  some { b with
    lpCurrent := copied ++ List.replicate (ulSize - b.cbCurrent) 0
    cbCurrent := ulSize
    cbTotal := ulSize }

end ECMemBlock

/-- What a stream has of its own: the position, an unsigned number of 64 bits, and if it has written. -/
structure ECMemStream where
  liPos : ℕ
  fDirty : Bool
deriving DecidableEq, Repr

/-- Where a seek starts. Other values do not move the position. -/
inductive SeekOrigin where
  | SEEK_SET
  | SEEK_CUR
  | SEEK_END
  | other
deriving DecidableEq, Repr

/-- What a call answers. -/
inductive StreamAnswer where
  | hrSuccess
  | MAPI_E_NO_ACCESS
  /-- The bytes that have been read. -/
  | read (pv : List UInt8)
  /-- The number of bytes that have been written. -/
  | written (cbWritten : ℕ)
  /-- The new position. -/
  | position (liPos : ℕ)
  /-- What the commit function of the streams answers. -/
  | committed (hr : UInt32)
deriving DecidableEq, Repr

/-- A call on one of the streams that share a block. The commit function gets a clone that it may read;
its answer comes with the call. -/
inductive StreamOp where
  | read (cb : ℕ)
  | write (pv : List UInt8)
  | seek (dlibmove : ℤ) (dwOrigin : SeekOrigin)
  | setSize (libNewSize : ℕ)
  | commit (lpCommitFunc : Option UInt32)
  | revert
  | clone

/-- A block, the flags and the streams that share it. -/
structure SharedBlock where
  lpMemBlock : ECMemBlock
  ulFlags : UInt32
  streams : List ECMemStream
deriving DecidableEq, Repr

namespace SharedBlock

/-- `ECMemStream::Create`: one stream on a new block. -/
def create (buffer : List UInt8) (ulFlags : UInt32) : SharedBlock :=
  ⟨.create buffer ulFlags, ulFlags, [⟨0, false⟩]⟩

variable (m : SharedBlock)

/-- The block and one stream after a call. -/
def update (lpMemBlock : ECMemBlock) (s : ℕ) (stream : ECMemStream) : SharedBlock :=
  { m with lpMemBlock, streams := m.streams.set s stream }

/-- The position after a seek. It is unsigned, so that it is never below 0; a negative sum is a huge one. -/
def seekTo (dlibmove : ℤ) (dwOrigin : SeekOrigin) (liPos ulSize : ℕ) : ℕ :=
  let liPos := match dwOrigin with
    | .SEEK_SET => (dlibmove % 2 ^ 64).toNat
    | .SEEK_CUR => ((liPos + dlibmove) % 2 ^ 64).toNat
    | .SEEK_END => ((ulSize + dlibmove) % 2 ^ 64).toNat
    | .other => liPos
  if liPos > ulSize then ulSize else liPos

/-- `Commit`. -/
def commitStream (s : ℕ) (stream : ECMemStream) (lpCommitFunc : Option UInt32) :
    Option (StreamAnswer × SharedBlock) := do
  let lpMemBlock ← m.lpMemBlock.commit
  let answer := match lpCommitFunc with
    | none => .hrSuccess
    | some hr => .committed hr
  some (answer, m.update lpMemBlock s { stream with fDirty := false })

/-- A call on a stream. -/
def call (s : ℕ) (stream : ECMemStream) : StreamOp → Option (StreamAnswer × SharedBlock)
  | .read cb => do
    let pv ← m.lpMemBlock.readAt (stream.liPos % 2 ^ 32) cb
    some (.read pv, m.update m.lpMemBlock s
      { stream with liPos := (stream.liPos + pv.length) % 2 ^ 64 })
  | .write pv =>
    if m.ulFlags &&& STGM_WRITE = 0 then some (.MAPI_E_NO_ACCESS, m)
    else do
      let lpMemBlock ← m.lpMemBlock.writeAt (stream.liPos % 2 ^ 32) pv
      let stream : ECMemStream := ⟨(stream.liPos + pv.length) % 2 ^ 64, true⟩
      let m := m.update lpMemBlock s stream
      -- a direct stream that others can see commits at once; the answer of the commit is not looked at
      if m.ulFlags &&& STGM_TRANSACTED = 0 ∧ m.ulFlags &&& STGM_SHARE_EXCLUSIVE = 0 then do
        let (_, m) ← m.commitStream s stream none
        some (.written pv.length, m)
      else some (.written pv.length, m)
  | .seek dlibmove dwOrigin =>
    let liPos := seekTo dlibmove dwOrigin stream.liPos m.lpMemBlock.cbCurrent
    some (.position liPos, m.update m.lpMemBlock s { stream with liPos })
  | .setSize libNewSize =>
    if m.ulFlags &&& STGM_WRITE = 0 then some (.MAPI_E_NO_ACCESS, m)
    else do
      let lpMemBlock ← m.lpMemBlock.setSize (libNewSize % 2 ^ 32)
      some (.hrSuccess, m.update lpMemBlock s { stream with fDirty := true })
  | .commit lpCommitFunc => m.commitStream s stream lpCommitFunc
  | .revert => do
    let lpMemBlock ← m.lpMemBlock.revert
    some (.hrSuccess, m.update lpMemBlock s { stream with liPos := 0 })
  | .clone => some (.hrSuccess, { m with streams := m.streams ++ [⟨0, false⟩] })

/-- A call on the stream with a number. Without such a stream there is no call. -/
def step (op : ℕ × StreamOp) : Option (StreamAnswer × SharedBlock) :=
  match m.streams[op.1]? with
  | none => some (.hrSuccess, m)
  | some stream => m.call op.1 stream op.2

/-- Calls one after the other, with their answers. -/
def run : SharedBlock → List (ℕ × StreamOp) → Option (List StreamAnswer × SharedBlock)
  | m, [] => some ([], m)
  | m, op :: ops => do
    let (answer, m) ← m.step op
    let (answers, m) ← run m ops
    some (answer :: answers, m)

end SharedBlock

end Zcp.Common
