import Zcp.Lib.Endian
import Zcp.Lib.Memory

/-!
# Compressed RTF

`mapi4linux/src/rtf.cpp`: the decompression. Sizes and offsets are numbers of 32 bits, pointers of 64 bits, so that the
end of the work buffer does not wrap where its size does.
-/

namespace Zcp.Mapi4linux

open Zcp.Lib

/-- The characters a string starts a document with. -/
def lpPrebuf : List UInt8 :=
  ("\x7b\\rtf1\\ansi\\mac\\deff0\\deftab720\x7b\\fonttbl;\x7d" ++
    "\x7b\\f0\\fnil \\froman \\fswiss \\fmodern \\fscript " ++
    "\\fdecor MS Sans SerifSymbolArialTimes New RomanCourier" ++
    "\x7b\\colortbl\\red0\\green0\\blue0\n\r\\par " ++
    "\\pard\\plain\\f0\\fs20\\b\\i\\u\\tab\\tx").toList.map fun c => UInt8.ofNat c.toNat

def prebufSize : ℕ := 207

theorem length_append_of {s t : String} {m n : ℕ} (hs : s.length = m) (ht : t.length = n) :
    (s ++ t).length = m + n := by
  rw [String.length_append, hs, ht]

theorem length_lpPrebuf : lpPrebuf.length = prebufSize := by
  -- the length of a literal is the length of its characters; evaluating its bytes would take long
  have h1 : "\x7b\\rtf1\\ansi\\mac\\deff0\\deftab720\x7b\\fonttbl;\x7d".length = 42 := String.length_ofList
  have h2 : "\x7b\\f0\\fnil \\froman \\fswiss \\fmodern \\fscript ".length = 44 := String.length_ofList
  have h3 : "\\fdecor MS Sans SerifSymbolArialTimes New RomanCourier".length = 54 := String.length_ofList
  have h4 : "\x7b\\colortbl\\red0\\green0\\blue0\n\r\\par ".length = 35 := String.length_ofList
  have h5 : "\\pard\\plain\\f0\\fs20\\b\\i\\u\\tab\\tx".length = 32 := String.length_ofList
  have h := length_append_of (length_append_of (length_append_of (length_append_of h1 h2) h3) h4) h5
  exact (List.length_map _).trans (String.length_toList.trans h)

def UNCOMPRESSED_MAGIC : ℕ := 0x414c454d

def COMPRESSED_MAGIC : ℕ := 0x75465a4c

/-- `sizeof(RTFHeader)`. -/
def sizeofRTFHeader : ℕ := 16

structure RTFHeader where
  ulCompressedSize : ℕ
  ulUncompressedSize : ℕ
  ulMagic : ℕ
  ulChecksum : ℕ
deriving DecidableEq, Repr

/-- A number of 32 bits in memory. -/
def readUInt (lpSrc : Block) (i : ℕ) : Except Stop ℕ := do
  let bytes ← lpSrc.copyFrom i 4
  pure (ofLittleEndian bytes)

def readHeader (lpSrc : Block) : Except Stop RTFHeader := do
  let ulCompressedSize ← readUInt lpSrc 0
  let ulUncompressedSize ← readUInt lpSrc 4
  let ulMagic ← readUInt lpSrc 8
  let ulChecksum ← readUInt lpSrc 12
  pure { ulCompressedSize, ulUncompressedSize, ulMagic, ulChecksum }

def rtf_get_uncompressed_length (lpData : Block) (ulSize : ℕ) : Except Stop ℕ :=
  if ulSize < sizeofRTFHeader then pure 0
  else do
    let lpHeader ← readHeader lpData
    pure lpHeader.ulUncompressedSize

/-! ## The loop -/

/-- The variables of the loop. The pointers are positions in `lpBuffer` and in `lpStart`. -/
structure Decompression where
  lpBuffer : Block
  lpWrite : ℕ
  lpSrc : ℕ
  ulFlags : BitVec 32
  ulFlagNr : BitVec 32

namespace Decompression

/-- The allocated size, and what offsets are compared with. -/
def bufferSize (ulUncompressedSize : ℕ) : ℕ := (ulUncompressedSize + prebufSize) % 2 ^ 32

/-- The flag that is next, and the position behind it. -/
def nextFlags (lpStart : Block) (d : Decompression) : Except Stop Decompression :=
  if d.ulFlagNr % 8 = 0 then do
    let c ← lpStart.read d.lpSrc
    pure { d with ulFlags := c.toBitVec.signExtend 32, lpSrc := d.lpSrc + 1, ulFlagNr := d.ulFlagNr + 1 }
  else pure { d with ulFlags := d.ulFlags >>> 1, ulFlagNr := d.ulFlagNr + 1 }

/-- Copy bytes that have been written before. -/
def copyBytes (ulUncompressedSize : ℕ) : ℕ → ℕ → Decompression → Except Stop Decompression
  | 0, _, d => pure d
  | ulSize + 1, ulOffset, d =>
    if d.lpWrite < ulUncompressedSize + prebufSize ∧ ulOffset < bufferSize ulUncompressedSize then do
      let c ← d.lpBuffer.read ulOffset
      let lpBuffer ← d.lpBuffer.write d.lpWrite c
      copyBytes ulUncompressedSize ulSize ((ulOffset + 1) % 2 ^ 32) { d with lpBuffer, lpWrite := d.lpWrite + 1 }
    else pure d

/-- The offset of a reference: one that is behind the write pointer goes back one window. -/
def referenceOffset (lpWrite ulOffset : ℕ) : ℕ :=
  let ulOffset := (lpWrite / 4096 * 4096 + ulOffset) % 2 ^ 32
  if ulOffset > lpWrite % 2 ^ 32 then (ulOffset + (2 ^ 32 - 4096)) % 2 ^ 32 else ulOffset

/-- A reference to existing data. -/
def reference (ulUncompressedSize : ℕ) (lpStart : Block) (d : Decompression) : Except Stop Decompression := do
  let c1 ← lpStart.read d.lpSrc
  let c2 ← lpStart.read (d.lpSrc + 1)
  let ulOffset := c1.toNat <<< 4 ||| c2.toNat >>> 4
  let ulSize := (c2.toNat &&& 0xf) + 2
  copyBytes ulUncompressedSize ulSize (referenceOffset d.lpWrite ulOffset) { d with lpSrc := d.lpSrc + 2 }

/-- A byte as it is. -/
def literal (lpStart : Block) (d : Decompression) : Except Stop Decompression := do
  let c ← lpStart.read d.lpSrc
  let lpBuffer ← d.lpBuffer.write d.lpWrite c
  pure { d with lpBuffer, lpWrite := d.lpWrite + 1, lpSrc := d.lpSrc + 1 }

/-- The body of the loop, which is left with the work buffer. -/
def body (ulUncompressedSize ulBufSize : ℕ) (lpStart : Block) (d : Decompression) :
    Except Stop (Decompression ⊕ Block) :=
  if d.lpWrite < ulUncompressedSize + prebufSize then do
    let d ← nextFlags lpStart d
    if ulBufSize ≤ d.lpSrc then pure (.inr d.lpBuffer)
    else if d.ulFlags &&& 1 ≠ 0 then
      if ulBufSize ≤ d.lpSrc + 2 then pure (.inr d.lpBuffer)
      else do
        let d ← reference ulUncompressedSize lpStart d
        pure (.inl d)
    else do
      let d ← literal lpStart d
      if ulBufSize ≤ d.lpSrc then pure (.inr d.lpBuffer)
      else pure (.inl d)
  else pure (.inr d.lpBuffer)

/-- The state in front of the loop. -/
def start (lpBuffer : Block) : Decompression := ⟨lpBuffer, prebufSize, sizeofRTFHeader, 0, 0⟩

end Decompression

/-- `rtf_decompress`, with the destination that it leaves. The work buffer holds `junk` at first. -/
def rtf_decompress (junk : ℕ → UInt8) (lpDest lpSrc : Block) (ulBufSize : ℕ) : Except Stop (ℕ × Block) :=
  if ulBufSize < sizeofRTFHeader then pure (1, lpDest)
  else do
    let lpHeader ← readHeader lpSrc
    if lpHeader.ulMagic = UNCOMPRESSED_MAGIC then do
      let bytes ← lpSrc.copyFrom sizeofRTFHeader (ulBufSize - sizeofRTFHeader)
      let lpDest ← lpDest.copyTo bytes
      pure (0, lpDest)
    else if lpHeader.ulMagic = COMPRESSED_MAGIC then do
      let lpBuffer ← (Block.mk (Decompression.bufferSize lpHeader.ulUncompressedSize) junk).copyTo lpPrebuf
      let lpBuffer ← loop (Decompression.body lpHeader.ulUncompressedSize ulBufSize lpSrc) (ulBufSize + 1)
        (Decompression.start lpBuffer)
      let bytes ← lpBuffer.copyFrom prebufSize lpHeader.ulUncompressedSize
      let lpDest ← lpDest.copyTo bytes
      pure (0, lpDest)
    else pure (1, lpDest)

end Zcp.Mapi4linux
