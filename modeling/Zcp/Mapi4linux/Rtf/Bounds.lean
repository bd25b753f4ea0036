import Zcp.Mapi4linux.Rtf

/-!
# Decompression stays in its buffers

The loop keeps to the buffers when its work buffer has the size that its end is computed from, and when there is a
first flag byte.
-/

namespace Zcp.Mapi4linux

open Zcp.Lib

namespace Decompression

section

variable {ulUncompressedSize ulBufSize : ℕ} (lpStart : Block) {d : Decompression}

theorem nextFlags_ok (h : d.lpSrc < lpStart.size) :
    ∃ d', nextFlags lpStart d = .ok d' ∧ d'.lpBuffer = d.lpBuffer ∧ d'.lpWrite = d.lpWrite ∧ d.lpSrc ≤ d'.lpSrc := by
  rw [nextFlags]
  by_cases hflag : d.ulFlagNr % 8 = 0
  · rw [if_pos hflag, Block.read_of_lt h]
    exact ⟨_, rfl, rfl, rfl, Nat.le_succ _⟩
  · rw [if_neg hflag]
    exact ⟨_, rfl, rfl, rfl, le_rfl⟩

/-- Bytes are copied between positions that are below the size. -/
theorem copyBytes_ok (hfits : ulUncompressedSize + prebufSize < 2 ^ 32) (ulSize ulOffset : ℕ)
    (h : d.lpBuffer.size = ulUncompressedSize + prebufSize) :
    ∃ d', copyBytes ulUncompressedSize ulSize ulOffset d = .ok d' ∧
      d'.lpBuffer.size = ulUncompressedSize + prebufSize ∧ d'.lpSrc = d.lpSrc := by
  induction ulSize generalizing ulOffset d with
  | zero => exact ⟨d, rfl, h, rfl⟩
  | succ ulSize ih =>
    rw [copyBytes]
    by_cases hin : d.lpWrite < ulUncompressedSize + prebufSize ∧ ulOffset < bufferSize ulUncompressedSize
    · have hoffset : ulOffset < d.lpBuffer.size := by
        rw [h, ← Nat.mod_eq_of_lt hfits]
        exact hin.2
      have hwrite : d.lpWrite < d.lpBuffer.size := by
        rw [h]
        exact hin.1
      rw [if_pos hin, Block.read_of_lt hoffset]
      show ∃ d', (d.lpBuffer.write d.lpWrite (d.lpBuffer.byte ulOffset) >>= _) = .ok d' ∧ _
      rw [Block.write_of_lt hwrite]
      exact ih _ h
    · rw [if_neg hin]
      exact ⟨d, rfl, h, rfl⟩

theorem reference_ok (hfits : ulUncompressedSize + prebufSize < 2 ^ 32)
    (h : d.lpBuffer.size = ulUncompressedSize + prebufSize) (hsrc : d.lpSrc + 1 < lpStart.size) :
    ∃ d', reference ulUncompressedSize lpStart d = .ok d' ∧
      d'.lpBuffer.size = ulUncompressedSize + prebufSize ∧ d'.lpSrc = d.lpSrc + 2 := by
  rw [reference, Block.read_of_lt (by omega), Block.read_of_lt hsrc]
  exact copyBytes_ok hfits _ _ h

theorem literal_ok (hsrc : d.lpSrc < lpStart.size) (hwrite : d.lpWrite < d.lpBuffer.size) :
    ∃ d', literal lpStart d = .ok d' ∧ d'.lpBuffer.size = d.lpBuffer.size ∧ d'.lpSrc = d.lpSrc + 1 := by
  rw [literal, Block.read_of_lt hsrc]
  show ∃ d', (d.lpBuffer.write d.lpWrite (lpStart.byte d.lpSrc) >>= _) = .ok d' ∧ _
  rw [Block.write_of_lt hwrite]
  exact ⟨_, rfl, rfl, rfl⟩

/-- What holds at the start of each round: where bytes are missing, there is another byte of the source. -/
structure Inside (ulUncompressedSize ulBufSize : ℕ) (d : Decompression) : Prop where
  size : d.lpBuffer.size = ulUncompressedSize + prebufSize
  lpSrc : d.lpWrite < ulUncompressedSize + prebufSize → d.lpSrc < ulBufSize

theorem inside_start (lpBuffer : Block) (hbody : ulUncompressedSize = 0 ∨ sizeofRTFHeader < ulBufSize)
    (hsize : lpBuffer.size = ulUncompressedSize + prebufSize) :
    Inside ulUncompressedSize ulBufSize (start lpBuffer) where
  size := hsize
  lpSrc := by
    intro hmore
    have hmore : prebufSize < ulUncompressedSize + prebufSize := hmore
    show sizeofRTFHeader < ulBufSize
    omega

/-- A round stays inside, and moves forward in the source when it does not leave the loop. -/
theorem body_ok (hfits : ulUncompressedSize + prebufSize < 2 ^ 32) (hsize : lpStart.size = ulBufSize)
    (h : Inside ulUncompressedSize ulBufSize d) :
    (∃ d', body ulUncompressedSize ulBufSize lpStart d = .ok (.inl d') ∧ Inside ulUncompressedSize ulBufSize d' ∧
        ulBufSize - d'.lpSrc < ulBufSize - d.lpSrc) ∨
      ∃ lpBuffer, body ulUncompressedSize ulBufSize lpStart d = .ok (.inr lpBuffer) ∧
        lpBuffer.size = ulUncompressedSize + prebufSize := by
  rw [body]
  by_cases hwrite : d.lpWrite < ulUncompressedSize + prebufSize
  · have hsrc := h.lpSrc hwrite
    obtain ⟨d₁, hd₁, hbuffer, hwrite₁, hle⟩ := nextFlags_ok lpStart (show d.lpSrc < lpStart.size by omega)
    have hsize₁ : d₁.lpBuffer.size = ulUncompressedSize + prebufSize := by rw [hbuffer, h.size]
    rw [if_pos hwrite, hd₁]
    show (∃ d', (if ulBufSize ≤ d₁.lpSrc then _ else _) = _ ∧ _) ∨ ∃ lpBuffer, (if ulBufSize ≤ d₁.lpSrc then _ else _) = _ ∧ _
    by_cases hend : ulBufSize ≤ d₁.lpSrc
    · rw [if_pos hend]
      exact .inr ⟨_, rfl, hsize₁⟩
    · rw [if_neg hend]
      by_cases hflag : d₁.ulFlags &&& 1 ≠ 0
      · rw [if_pos hflag]
        by_cases hshort : ulBufSize ≤ d₁.lpSrc + 2
        · rw [if_pos hshort]
          exact .inr ⟨_, rfl, hsize₁⟩
        · obtain ⟨d₂, hd₂, hsize₂, hsrc₂⟩ := reference_ok lpStart hfits hsize₁ (by omega)
          rw [if_neg hshort, hd₂]
          exact .inl ⟨d₂, rfl, ⟨hsize₂, fun _ => by omega⟩, by omega⟩
      · obtain ⟨d₂, hd₂, hsize₂, hsrc₂⟩ := literal_ok lpStart (show d₁.lpSrc < lpStart.size by omega) (by omega)
        rw [if_neg hflag, hd₂]
        show (∃ d', (if ulBufSize ≤ d₂.lpSrc then _ else _) = _ ∧ _) ∨
          ∃ lpBuffer, (if ulBufSize ≤ d₂.lpSrc then _ else _) = _ ∧ _
        by_cases hend₂ : ulBufSize ≤ d₂.lpSrc
        · rw [if_pos hend₂]
          exact .inr ⟨_, rfl, hsize₂.trans hsize₁⟩
        · rw [if_neg hend₂]
          exact .inl ⟨d₂, rfl, ⟨hsize₂.trans hsize₁, fun _ => by omega⟩, by omega⟩
  · rw [if_neg hwrite]
    exact .inr ⟨_, rfl, h.size⟩

/-- The loop ends, with a buffer of the same size. -/
theorem loop_ok (hfits : ulUncompressedSize + prebufSize < 2 ^ 32) (hsize : lpStart.size = ulBufSize)
    (h : Inside ulUncompressedSize ulBufSize d) :
    ∃ lpBuffer, loop (body ulUncompressedSize ulBufSize lpStart) (ulBufSize + 1) d = .ok lpBuffer ∧
      lpBuffer.size = ulUncompressedSize + prebufSize :=
  loop_spec (Inside ulUncompressedSize ulBufSize) (fun d => ulBufSize - d.lpSrc) _
    (fun _ => body_ok lpStart hfits hsize) (ulBufSize + 1) d h (by omega)

end

end Decompression

/-! ## The header -/

theorem readUInt_ok {lpSrc : Block} {i : ℕ} (h : i + 4 ≤ lpSrc.size) :
    ∃ v, readUInt lpSrc i = .ok v ∧ v < 2 ^ 32 := by
  rw [readUInt, Block.copyFrom_of_le h]
  refine ⟨_, rfl, ?_⟩
  apply (ofLittleEndian_lt _).trans_eq
  rw [List.length_map, List.length_range]
  rfl

theorem readHeader_ok {lpSrc : Block} (h : sizeofRTFHeader ≤ lpSrc.size) :
    ∃ lpHeader, readHeader lpSrc = .ok lpHeader ∧ lpHeader.ulUncompressedSize < 2 ^ 32 := by
  have hsize : 16 ≤ lpSrc.size := h
  obtain ⟨v₀, hv₀, -⟩ := readUInt_ok (i := 0) (show 0 + 4 ≤ lpSrc.size by omega)
  obtain ⟨v₁, hv₁, hlt⟩ := readUInt_ok (i := 4) (show 4 + 4 ≤ lpSrc.size by omega)
  obtain ⟨v₂, hv₂, -⟩ := readUInt_ok (i := 8) (show 8 + 4 ≤ lpSrc.size by omega)
  obtain ⟨v₃, hv₃, -⟩ := readUInt_ok (i := 12) (show 12 + 4 ≤ lpSrc.size by omega)
  rw [readHeader, hv₀, hv₁, hv₂, hv₃]
  exact ⟨_, rfl, hlt⟩

/-! ## The buffers -/

/-- The run ends without touching a byte behind the end of a buffer. -/
def InBounds (junk : ℕ → UInt8) (lpDest lpSrc : Block) (ulBufSize : ℕ) : Prop :=
  ∃ result, rtf_decompress junk lpDest lpSrc ulBufSize = .ok result

/-- The sizes of a document fit: a body that is copied is not longer than the destination; a body that is decompressed
has a work buffer whose size does not wrap, and is not empty if something is expected. -/
structure SizesFit (lpHeader : RTFHeader) (ulBufSize : ℕ) : Prop where
  copied : lpHeader.ulMagic = UNCOMPRESSED_MAGIC → ulBufSize - sizeofRTFHeader ≤ lpHeader.ulUncompressedSize
  decompressed : lpHeader.ulMagic = COMPRESSED_MAGIC → lpHeader.ulUncompressedSize + prebufSize < 2 ^ 32 ∧
    (lpHeader.ulUncompressedSize = 0 ∨ sizeofRTFHeader < ulBufSize)

section

variable {lpDest lpSrc : Block} {ulBufSize : ℕ} {lpHeader : RTFHeader}

/-- A body that is copied. -/
theorem inBounds_copied (junk : ℕ → UInt8) (hsize : lpSrc.size = ulBufSize) (hfull : sizeofRTFHeader ≤ ulBufSize)
    (hheader : readHeader lpSrc = .ok lpHeader) (hmagic : lpHeader.ulMagic = UNCOMPRESSED_MAGIC) :
    InBounds junk lpDest lpSrc ulBufSize ↔ ulBufSize - sizeofRTFHeader ≤ lpDest.size := by
  have hlength : ((List.range (ulBufSize - sizeofRTFHeader)).map fun k => lpSrc.byte (sizeofRTFHeader + k)).length =
      ulBufSize - sizeofRTFHeader := by rw [List.length_map, List.length_range]
  rw [InBounds, rtf_decompress, if_neg (Nat.not_lt.mpr hfull), hheader]
  show (∃ result, (if lpHeader.ulMagic = UNCOMPRESSED_MAGIC then _ else _) = Except.ok result) ↔ _
  rw [if_pos hmagic, Block.copyFrom_of_le (by omega)]
  show (∃ result, (lpDest.copyTo _ >>= _) = Except.ok result) ↔ _
  by_cases hfits : ulBufSize - sizeofRTFHeader ≤ lpDest.size
  · rw [Block.copyTo_of_le (hlength.trans_le hfits)]
    exact iff_of_true ⟨_, rfl⟩ hfits
  · rw [Block.copyTo_of_lt (by omega)]
    refine iff_of_false ?_ hfits
    rintro ⟨result, hresult⟩
    cases hresult

/-- What is decompressed, from the allocation of the work buffer on. -/
theorem rtf_decompress_compressed (junk : ℕ → UInt8) (hfull : sizeofRTFHeader ≤ ulBufSize)
    (hheader : readHeader lpSrc = .ok lpHeader) (hmagic : lpHeader.ulMagic = COMPRESSED_MAGIC) :
    rtf_decompress junk lpDest lpSrc ulBufSize = (do
      let lpBuffer ← (Block.mk (Decompression.bufferSize lpHeader.ulUncompressedSize) junk).copyTo lpPrebuf
      let lpBuffer ← loop (Decompression.body lpHeader.ulUncompressedSize ulBufSize lpSrc) (ulBufSize + 1)
        (Decompression.start lpBuffer)
      let bytes ← lpBuffer.copyFrom prebufSize lpHeader.ulUncompressedSize
      let lpDest ← lpDest.copyTo bytes
      pure (0, lpDest)) := by
  have hother : lpHeader.ulMagic ≠ UNCOMPRESSED_MAGIC := by
    rw [hmagic]
    decide
  rw [rtf_decompress, if_neg (Nat.not_lt.mpr hfull), hheader]
  show (if lpHeader.ulMagic = UNCOMPRESSED_MAGIC then _ else _) = _
  rw [if_neg hother, if_pos hmagic]

/-- The size of the work buffer has wrapped: there is no room for the first characters. -/
theorem not_inBounds_of_wrapped (junk : ℕ → UInt8) (hfull : sizeofRTFHeader ≤ ulBufSize)
    (hheader : readHeader lpSrc = .ok lpHeader) (hlt : lpHeader.ulUncompressedSize < 2 ^ 32)
    (hmagic : lpHeader.ulMagic = COMPRESSED_MAGIC) (hwrap : 2 ^ 32 ≤ lpHeader.ulUncompressedSize + prebufSize) :
    ¬ InBounds junk lpDest lpSrc ulBufSize := by
  have hsmall : Decompression.bufferSize lpHeader.ulUncompressedSize < lpPrebuf.length := by
    rw [Decompression.bufferSize, length_lpPrebuf]
    omega
  rw [InBounds, rtf_decompress_compressed junk hfull hheader hmagic, Block.copyTo_of_lt hsmall]
  rintro ⟨result, hresult⟩
  cases hresult

/-- There is nothing behind the header: the first flags are read behind the end of the source. -/
theorem not_inBounds_of_empty (junk : ℕ → UInt8) (hsize : lpSrc.size = ulBufSize)
    (hheader : readHeader lpSrc = .ok lpHeader) (hmagic : lpHeader.ulMagic = COMPRESSED_MAGIC)
    (hfits : lpHeader.ulUncompressedSize + prebufSize < 2 ^ 32) (hmore : lpHeader.ulUncompressedSize ≠ 0)
    (hempty : ulBufSize = sizeofRTFHeader) : ¬ InBounds junk lpDest lpSrc ulBufSize := by
  have hprebuf : lpPrebuf.length ≤ Decompression.bufferSize lpHeader.ulUncompressedSize := by
    rw [Decompression.bufferSize, Nat.mod_eq_of_lt hfits, length_lpPrebuf]
    omega
  have hread : lpSrc.read sizeofRTFHeader = .error .outOfBounds := Block.read_of_le (by omega)
  have hbody : ∀ lpBuffer, Decompression.body lpHeader.ulUncompressedSize ulBufSize lpSrc
      (Decompression.start lpBuffer) = .error .outOfBounds := by
    intro lpBuffer
    have hwrite : prebufSize < lpHeader.ulUncompressedSize + prebufSize := by omega
    have hflags : Decompression.nextFlags lpSrc (Decompression.start lpBuffer) = .error .outOfBounds := by
      show (lpSrc.read sizeofRTFHeader >>= _) = _
      rw [hread]
      rfl
    rw [Decompression.body]
    show (if prebufSize < lpHeader.ulUncompressedSize + prebufSize then _ else _) = _
    rw [if_pos hwrite, hflags]
    rfl
  rw [InBounds, rtf_decompress_compressed junk hempty.ge hheader hmagic, Block.copyTo_of_le hprebuf]
  rintro ⟨result, hresult⟩
  replace hresult : (loop (Decompression.body lpHeader.ulUncompressedSize ulBufSize lpSrc) (ulBufSize + 1)
    (Decompression.start _) >>= _) = Except.ok result := hresult
  rw [loop_error (hbody _)] at hresult
  cases hresult

/-- Otherwise the run comes to its end. -/
theorem inBounds_of_fits (junk : ℕ → UInt8) (hsize : lpSrc.size = ulBufSize) (hfull : sizeofRTFHeader ≤ ulBufSize)
    (hheader : readHeader lpSrc = .ok lpHeader) (hdest : lpDest.size = lpHeader.ulUncompressedSize)
    (hmagic : lpHeader.ulMagic = COMPRESSED_MAGIC) (hfits : lpHeader.ulUncompressedSize + prebufSize < 2 ^ 32)
    (hbody : lpHeader.ulUncompressedSize = 0 ∨ sizeofRTFHeader < ulBufSize) :
    InBounds junk lpDest lpSrc ulBufSize := by
  have hbuffer : Decompression.bufferSize lpHeader.ulUncompressedSize = lpHeader.ulUncompressedSize + prebufSize :=
    Nat.mod_eq_of_lt hfits
  have hprebuf : lpPrebuf.length ≤ Decompression.bufferSize lpHeader.ulUncompressedSize := by
    rw [hbuffer, length_lpPrebuf]
    omega
  rw [InBounds, rtf_decompress_compressed junk hfull hheader hmagic, Block.copyTo_of_le hprebuf]
  obtain ⟨lpBuffer, hloop, hlength⟩ := Decompression.loop_ok lpSrc hfits hsize
    (Decompression.inside_start ⟨Decompression.bufferSize lpHeader.ulUncompressedSize,
      fun i => if i < lpPrebuf.length then lpPrebuf.getD i 0 else junk i⟩ hbody hbuffer)
  show ∃ result, (loop (Decompression.body lpHeader.ulUncompressedSize ulBufSize lpSrc) (ulBufSize + 1)
    (Decompression.start _) >>= _) = Except.ok result
  rw [hloop]
  show ∃ result, (lpBuffer.copyFrom prebufSize lpHeader.ulUncompressedSize >>= _) = Except.ok result
  rw [Block.copyFrom_of_le (by omega)]
  show ∃ result, (lpDest.copyTo _ >>= _) = Except.ok result
  rw [Block.copyTo_of_le (by rw [List.length_map, List.length_range, hdest])]
  exact ⟨_, rfl⟩

end

/-- Decompression stays in its buffers if and only if the source has no header or its sizes fit. -/
theorem rtf_decompress_inBounds_iff (junk : ℕ → UInt8) (lpDest lpSrc : Block) (ulBufSize : ℕ)
    (hsize : lpSrc.size = ulBufSize) (hdest : rtf_get_uncompressed_length lpSrc ulBufSize = .ok lpDest.size) :
    InBounds junk lpDest lpSrc ulBufSize ↔
      (sizeofRTFHeader ≤ ulBufSize → ∀ lpHeader, readHeader lpSrc = .ok lpHeader → SizesFit lpHeader ulBufSize) := by
  by_cases hfull : sizeofRTFHeader ≤ ulBufSize
  · obtain ⟨lpHeader, hheader, hlt⟩ := readHeader_ok (hfull.trans_eq hsize.symm)
    have hlength : lpDest.size = lpHeader.ulUncompressedSize := by
      rw [rtf_get_uncompressed_length, if_neg (Nat.not_lt.mpr hfull), hheader] at hdest
      exact (Except.ok.inj hdest).symm
    have hfit : (sizeofRTFHeader ≤ ulBufSize → ∀ lpHeader', readHeader lpSrc = .ok lpHeader' →
        SizesFit lpHeader' ulBufSize) ↔ SizesFit lpHeader ulBufSize := by
      constructor
      · exact fun h => h hfull lpHeader hheader
      · intro h _ lpHeader' hheader'
        rw [hheader] at hheader'
        exact Except.ok.inj hheader' ▸ h
    rw [hfit]
    by_cases hcopied : lpHeader.ulMagic = UNCOMPRESSED_MAGIC
    · rw [inBounds_copied junk hsize hfull hheader hcopied, hlength]
      constructor
      · intro hle
        refine ⟨fun _ => hle, fun hmagic => ?_⟩
        rw [hcopied] at hmagic
        exact absurd hmagic (by decide)
      · exact fun h => h.copied hcopied
    · by_cases hmagic : lpHeader.ulMagic = COMPRESSED_MAGIC
      · constructor
        · intro hin
          refine ⟨fun hcopied' => absurd hcopied' hcopied, fun _ => ?_⟩
          by_contra hbad
          by_cases hfits : lpHeader.ulUncompressedSize + prebufSize < 2 ^ 32
          · exact not_inBounds_of_empty junk hsize hheader hmagic hfits (by omega) (by omega) hin
          · exact not_inBounds_of_wrapped junk hfull hheader hlt hmagic (by omega) hin
        · intro h
          obtain ⟨hfits, hbody⟩ := h.decompressed hmagic
          exact inBounds_of_fits junk hsize hfull hheader hlength hmagic hfits hbody
      · refine iff_of_true ⟨(1, lpDest), ?_⟩ ⟨fun h => absurd h hcopied, fun h => absurd h hmagic⟩
        rw [rtf_decompress, if_neg (Nat.not_lt.mpr hfull), hheader]
        show (if lpHeader.ulMagic = UNCOMPRESSED_MAGIC then _ else _) = _
        rw [if_neg hcopied, if_neg hmagic]
        rfl
  · refine iff_of_true ⟨(1, lpDest), ?_⟩ fun h => absurd h hfull
    rw [rtf_decompress, if_pos (Nat.not_le.mp hfull)]
    rfl

/-- A body of one byte that is copied, with a header that announces nothing. -/
def unannounced : Block := Block.ofList ([13, 0, 0, 0, 0, 0, 0, 0, 0x4d, 0x45, 0x4c, 0x41, 0, 0, 0, 0] ++ [0x78])

theorem rtf_decompress_inBounds_unannounced : InBounds (fun _ => 0) (Block.ofList []) unannounced 17 ↔
      (sizeofRTFHeader ≤ 17 → ∀ lpHeader, readHeader unannounced = .ok lpHeader → SizesFit lpHeader 17) :=
  rtf_decompress_inBounds_iff (fun _ => 0) (Block.ofList []) unannounced 17 rfl rfl

/-- The byte is written behind the end of the destination. -/
theorem not_inBounds_unannounced :
    unannounced.size = 17 ∧ rtf_get_uncompressed_length unannounced 17 = .ok (Block.ofList []).size ∧
      ¬ InBounds (fun _ => 0) (Block.ofList []) unannounced 17 := by
  refine ⟨rfl, rfl, ?_⟩
  rintro ⟨result, hresult⟩
  have hstop : rtf_decompress (fun _ => 0) (Block.ofList []) unannounced 17 = .error .outOfBounds := rfl
  rw [hstop] at hresult
  cases hresult

end Zcp.Mapi4linux
