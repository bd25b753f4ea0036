import Zcp.Libserver.StreamUtil

/-!
# Reading a property back

`DeserializePropVal` should restore what `SerializePropVal` wrote. `serializePropVal_restores_iff`
says when it does: the halves of times and currencies are read for the whole multi-value at once,
and the lengths of strings and the sizes of arrays are kept in 32 bits.
-/

namespace Zcp.Libserver.StreamUtil

open Zcp.Lib
open Zcp.Common
open Zcp.Common.SOAPUtils (PropVal)
open Zcp.Common.ECSerializer (Failure Source)
open Zcp.Common.ECStreamSerializer

/-! ## What is promised -/

/-- The value as it is streamed, with strings of `PT_STRING8`. -/
def string8 : PropValData → PropValData
  | .PT_UNICODE lpszA => .PT_STRING8 lpszA
  | .PT_MV_UNICODE mvszA => .PT_MV_STRING8 mvszA
  | value => value

section Promise

variable (lpStreamCaps : StreamCaps) (charset : Charset)

/-- A string without zeros; its characters are in the charset when this is what is streamed. -/
structure IsString (lpszA : LPSTR) (text : List UInt8) : Prop where
  eq : lpszA = some text
  no_zero : 0 ∉ text
  inverse : lpStreamCaps.bSupportUnicode = false → charset.decode (charset.encode text) = text

/-- The local id of a name, which is a number or a string. -/
inductive HasLocalId (namedPropertyMapper : NamedPropertyMapper) (namedPropDef : NamedPropDef)
    (ulLocalId : BitVec 32) : Prop where
  | id (hkind : namedPropDef.ulKind = MNID_ID)
    (hid : namedPropertyMapper.getId namedPropDef.guid.bytes namedPropDef.ulId = .ok ulLocalId)
  | string (hkind : namedPropDef.ulKind = MNID_STRING)
    (hid : namedPropertyMapper.getStringId namedPropDef.guid.bytes namedPropDef.strName.elems =
      .ok ulLocalId)

/-- The id that a property gets: that of its name, when it has one. -/
inductive Maps (namedPropertyMapper : NamedPropertyMapper) (lpNamedPropDefs : Option NamedPropDefMap)
    (sPropVal : PropVal) : BitVec 16 → Prop where
  | plain (h : ¬ 0x8500 < sPropVal.ulPropId) : Maps _ _ _ sPropVal.ulPropId
  | named {map : NamedPropDefMap} {namedPropDef : NamedPropDef} {ulLocalId : BitVec 32}
    (h : 0x8500 < sPropVal.ulPropId) (hmap : lpNamedPropDefs = some map)
    (hfind : map (propTag (streamType (propType sPropVal.Value)) sPropVal.ulPropId) =
      some namedPropDef)
    (hid : HasLocalId namedPropertyMapper namedPropDef ulLocalId) :
    Maps _ _ _ (ulLocalId.setWidth 16)

/-- The property is written, and in front of any other bytes exactly these bytes are read, which gives the
same value under the local id; nothing is stored outside of its memory on the way. -/
structure RoundTrips (namedPropertyMapper : NamedPropertyMapper)
    (lpNamedPropDefs : Option NamedPropDefMap) (sPropVal : PropVal) (ulPropId : BitVec 16) : Prop where
  written : (serializePropVal lpStreamCaps charset sPropVal lpNamedPropDefs).1 = .erSuccess
  read : ∀ rest, deserializePropVal lpStreamCaps charset namedPropertyMapper
    ((serializePropVal lpStreamCaps charset sPropVal lpNamedPropDefs).2 ++ rest) () =
      (.ok ⟨ulPropId, string8 sPropVal.Value⟩, rest, ())

/-- The length of a string fits into 32 bits, in UTF-8 together with its zero. -/
def StringFits (lpszA : LPSTR) : Prop :=
  if lpStreamCaps.bSupportUnicode then (lpszA.getD []).length + 1 < 2 ^ 32
  else (charset.encode (lpszA.getD [])).length < 2 ^ 32

/-- There is at most one time or currency, the bytes of an array of wider numbers fit into the `ULONG` that is
asked for, and the lengths of all strings fit. -/
def Fits : PropValData → Prop
  | .PT_MV_CURRENCY mvhilo | .PT_MV_SYSTIME mvhilo => mvhilo.elems.length ≤ 1
  | .PT_MV_LONG mvl | .PT_MV_R4 mvl => 4 * mvl.elems.length < 2 ^ 32
  | .PT_MV_DOUBLE mvdbl | .PT_MV_APPTIME mvdbl | .PT_MV_I8 mvdbl => 8 * mvdbl.elems.length < 2 ^ 32
  | value => ∀ lpszA ∈ strings value, StringFits lpStreamCaps charset lpszA

end Promise

/-! ## Numbers and arrays -/

/-- The elements of memory, changed. -/
def Counted.map {α β : Type} (f : α → β) (mv : Counted 31 α) : Counted 31 β :=
  ⟨mv.elems.map f, by rw [List.length_map]; exact mv.length_lt⟩

theorem toNat_size {α : Type} (mv : Counted 31 α) : (BitVec.ofNat 32 mv.elems.length).toNat = mv.elems.length := by
  have hlength := mv.length_lt
  rw [BitVec.toNat_ofNat, Nat.mod_eq_of_lt (by omega)]

theorem reads_counted {α : Type} (mv : Counted 31 α) : Reads (counted mv.elems) [] True () mv () := by
  unfold counted
  rw [dif_pos mv.length_lt]
  exact Reads.pure mv

variable {bytes : List UInt8}

/-- The bytes of some memory, after its size. -/
theorem reads_memory {room : ℕ} (hroom : bytes.length ≤ room) (hlt : bytes.length < 2 ^ 32) :
    Reads (readBytes room bytes.length) bytes True () bytes () :=
  (reads_readBytes room bytes).congr (iff_true_intro ⟨hroom, hlt⟩)

theorem reads_readBinary (bin : Base64Binary) : Reads readBinary (writeBinary bin) True () bin () := by
  have hlength := bin.length_lt
  refine (reads_readOne 4 (by decide) (BitVec.ofNat 32 bin.elems.length)).seq ?_
  rw [toNat_size]
  exact (reads_memory le_rfl (by omega)).done (reads_counted bin)

theorem reads_readHilo (hilo : HiloLong) : Reads readHilo (writeHilo hilo) True () hilo () :=
  (reads_readOne 4 (by decide) hilo.hi).seq ((reads_readOne 4 (by decide) hilo.lo).done (Reads.pure hilo))

/-- An array of numbers is read as it was written while its bytes can be counted with 32 bits. -/
theorem reads_readArray (size : ℕ) (mv : Counted 31 (BitVec (8 * size))) :
    Reads (readArray size) (writeMulti (fun elem => write size [elem]) mv) (size * mv.elems.length < 2 ^ 32) ()
      mv () := by
  have hwrite : mv.elems.flatMap (fun elem => write size [elem]) = write size mv.elems := by
    refine List.flatMap_congr fun elem _ => ?_
    change bigEndian size elem.toNat ++ [] = _
    rw [List.append_nil]
  refine (reads_readOne 4 (by decide) (BitVec.ofNat 32 mv.elems.length)).seq ?_
  rw [toNat_size, hwrite]
  exact ((reads_read _ size mv.elems).congr (and_iff_right le_rfl)).done (reads_counted mv)

theorem reads_readMulti {α β : Type} {readElem : Source β} {writeElem : α → List UInt8}
    {good : α → Prop} {f : α → β} (mv : Counted 31 α)
    (h : ∀ elem ∈ mv.elems, Reads readElem (writeElem elem) (good elem) () (f elem) ()) :
    Reads (readMulti readElem) (writeMulti writeElem mv) (∀ elem ∈ mv.elems, good elem) () (Counted.map f mv) () := by
  refine (reads_readOne 4 (by decide) (BitVec.ofNat 32 mv.elems.length)).seq ?_
  rw [toNat_size]
  exact (Reads.collect h).done (reads_counted (Counted.map f mv))

/-! ## Times and currencies -/

/-- More than one `hiloLong` is never read: the last one has no room for as many words. -/
theorem stops_readHilosLoop {ulCount : ℕ} (h : 1 < ulCount) (left : ℕ) (hleft : left < ulCount)
    (memory : List (BitVec 32)) : Stops (readHilosLoop ulCount (left + 1) memory) := by
  induction left generalizing memory with
  | zero =>
    refine Stops.after _ fun hi => Stops.bind (stops_read ?_) _
    rw [Nat.zero_add]
    omega
  | succ left ih => exact Stops.after _ fun hi => Stops.after _ fun lo => ih (by omega) _

/-- A single one is read like one that is not in a multi-value. -/
theorem reads_readHilosLoop_one (hilo : HiloLong) :
    Reads (readHilosLoop 1 1 [0, 0]) (writeHilo hilo) True () [hilo.hi, hilo.lo] () := by
  have hhi := (reads_read 8 4 [hilo.hi]).congr (iff_true_intro (by simp))
  have hlo := (reads_read 4 4 [hilo.lo]).congr (iff_true_intro (by simp))
  have hloop : readHilosLoop 1 1 [0, 0] = read 8 4 1 >>= fun hi => read 4 4 1 >>= fun lo =>
      pure (store (store [0, 0] 0 hi) 1 lo) := rfl
  rw [hloop]
  exact hhi.seq (hlo.done (Reads.pure _))

/-- 64-bit values are read as they were written if there is at most one of them: the loop stores all in the first
place. -/
theorem reads_readHilos (mv : Counted 31 HiloLong) :
    Reads readHilos (writeMulti writeHilo mv) (mv.elems.length ≤ 1) () mv () := by
  refine (reads_readOne 4 (by decide) (BitVec.ofNat 32 mv.elems.length)).seq ?_
  rw [toNat_size]
  obtain ⟨elems, hlength⟩ := mv
  match elems with
  | [] => exact ((Reads.pure _).done (reads_counted ⟨[], hlength⟩)).congr (iff_of_true trivial (by simp))
  | [hilo] =>
    refine Reads.congr ?_ (iff_of_true trivial le_rfl)
    have hbytes : [hilo].flatMap writeHilo = writeHilo hilo := List.append_nil _
    rw [hbytes]
    exact (reads_readHilosLoop_one hilo).done (reads_counted ⟨[hilo], hlength⟩)
  | hilo :: hilo' :: elems =>
    refine Stops.reads (Stops.bind ?_ _) (by simp)
    exact stops_readHilosLoop (by simp) _ (by simp) _

/-! ## Strings -/

section Strings

variable {lpStreamCaps : StreamCaps} {charset : Charset} {lpszA : LPSTR} {text : List UInt8}

/-- The bytes of a string that are streamed. -/
def streamed (lpStreamCaps : StreamCaps) (charset : Charset) (text : List UInt8) : List UInt8 :=
  let strEncoded := encodeString lpStreamCaps charset text
  strEncoded.take (strEncoded.length % 2 ^ 32)

/-- The string that arrives. -/
def sentString (lpStreamCaps : StreamCaps) (charset : Charset) (lpszA : LPSTR) : LPSTR :=
  some (cString (if lpStreamCaps.bSupportUnicode then streamed lpStreamCaps charset (lpszA.getD [])
    else charset.decode (streamed lpStreamCaps charset (lpszA.getD []))))

/-- There is room for a string in UTF-8 unless the sum of its length and 1 is 0. -/
def StringHasRoom (lpStreamCaps : StreamCaps) (lpszA : LPSTR) : Prop :=
  lpStreamCaps.bSupportUnicode = true → (lpszA.getD []).length % 2 ^ 32 + 1 < 2 ^ 32

/-- A string is read as it was sent when the memory for it has room for what it becomes. -/
theorem reads_readString (lpszA : LPSTR) :
    Reads (readString lpStreamCaps charset) (writeString lpStreamCaps charset lpszA)
      (StringHasRoom lpStreamCaps lpszA) () (sentString lpStreamCaps charset lpszA) () := by
  have hlength : (streamed lpStreamCaps charset (lpszA.getD [])).length =
      (encodeString lpStreamCaps charset (lpszA.getD [])).length % 2 ^ 32 := by
    rw [streamed, List.length_take, min_eq_left (Nat.mod_le _ _)]
  have hwrite : writeString lpStreamCaps charset lpszA =
      write 4 [BitVec.ofNat 32 (encodeString lpStreamCaps charset (lpszA.getD [])).length] ++
        streamed lpStreamCaps charset (lpszA.getD []) := by
    simp only [writeString, streamed, BitVec.toNat_ofNat]
  rw [hwrite]
  refine (reads_readOne 4 (by decide) _).seq ?_
  unfold sentString StringHasRoom
  rw [BitVec.toNat_add, BitVec.toNat_ofNat, ← hlength]
  cases hunicode : lpStreamCaps.bSupportUnicode with
  | true =>
    have htext : encodeString lpStreamCaps charset (lpszA.getD []) = lpszA.getD [] := by
      rw [encodeString, if_pos hunicode]
    rw [htext] at hlength
    rw [if_pos rfl, if_pos rfl]
    refine Reads.congr ((reads_readBytes _ _).done (Reads.pure _)) ?_
    rw [hlength, and_iff_left (Nat.mod_lt _ (Nat.two_pow_pos 32))]
    change _ ≤ (_ + 1) % 2 ^ 32 ↔ _
    constructor
    · intro hroom _
      by_contra hlt
      have hwrap : ((lpszA.getD []).length % 2 ^ 32 + 1) % 2 ^ 32 = 0 := by omega
      omega
    · intro hroom
      rw [Nat.mod_eq_of_lt (hroom rfl)]
      exact Nat.le_succ _
  | false =>
    rw [if_neg Bool.false_ne_true, if_neg Bool.false_ne_true]
    have hlt := hlength.trans_lt (Nat.mod_lt _ (Nat.two_pow_pos 32))
    refine Reads.congr ((reads_memory le_rfl hlt).done (Reads.pure _)) ?_
    exact iff_of_true trivial nofun

theorem cString_eq (h : 0 ∉ text) : cString text = text := by
  unfold cString
  rw [List.takeWhile_eq_self_iff]
  intro b hb
  rw [decide_eq_true_eq]
  exact fun hzero => h (hzero ▸ hb)

/-- A text that was cut has fewer bytes in UTF-8. -/
theorem length_decode_lt {charset : Charset} (hchar : ∀ b, charset.char b ≠ [])
    {encoded : List UInt8} {n : ℕ} (h : n < encoded.length) :
    (charset.decode (encoded.take n)).length < (charset.decode encoded).length := by
  have hsplit : charset.decode encoded =
      charset.decode (encoded.take n) ++ charset.decode (encoded.drop n) := by
    unfold Charset.decode
    rw [← List.flatMap_append, List.take_append_drop]
  have hdrop : encoded.drop n ≠ [] := by
    rw [ne_eq, List.drop_eq_nil_iff]
    omega
  obtain ⟨b, rest, hrest⟩ := List.exists_cons_of_ne_nil hdrop
  have hpos : 0 < (charset.decode (encoded.drop n)).length := by
    rw [hrest, Charset.decode, List.flatMap_cons, List.length_append]
    exact Nat.add_pos_left (List.length_pos_iff.mpr (hchar b)) _
  rw [hsplit, List.length_append]
  omega

theorem length_cString_le (memory : List UInt8) : (cString memory).length ≤ memory.length :=
  (List.takeWhile_sublist _).length_le

/-- A string arrives as it is, and in its memory, when its length fits. -/
theorem stringFits_iff (hchar : ∀ b, charset.char b ≠ []) (hstring : IsString lpStreamCaps charset lpszA text) :
    StringFits lpStreamCaps charset lpszA ↔
      StringHasRoom lpStreamCaps lpszA ∧ sentString lpStreamCaps charset lpszA = lpszA := by
  obtain ⟨rfl, hzero, hinverse⟩ := hstring
  unfold StringFits StringHasRoom sentString streamed encodeString
  cases hunicode : lpStreamCaps.bSupportUnicode with
  | true =>
    simp only [if_true, Option.getD_some, forall_const, Option.some_inj]
    constructor
    · intro hfits
      rw [Nat.mod_eq_of_lt (by omega), List.take_length]
      exact ⟨hfits, cString_eq hzero⟩
    · rintro ⟨hroom, hsent⟩
      have hle := length_cString_le (text.take (text.length % 2 ^ 32))
      rw [hsent, List.length_take] at hle
      omega
  | false =>
    simp only [Bool.false_eq_true, if_false, Option.getD_some, false_implies, true_and,
      Option.some_inj]
    have hdecode := hinverse hunicode
    constructor
    · intro hfits
      rw [Nat.mod_eq_of_lt hfits, List.take_length, hdecode]
      exact cString_eq hzero
    · intro hsent
      by_contra hlong
      have hcut : (charset.encode text).length % 2 ^ 32 < (charset.encode text).length := by omega
      have hlt := length_decode_lt hchar hcut
      have hle := length_cString_le
        (charset.decode ((charset.encode text).take ((charset.encode text).length % 2 ^ 32)))
      rw [hdecode] at hlt
      rw [hsent] at hle
      omega

end Strings

/-! ## Values -/

section Values

variable {lpStreamCaps : StreamCaps} {charset : Charset} {value : PropValData}

/-- The value that arrives. -/
def sent (lpStreamCaps : StreamCaps) (charset : Charset) : PropValData → PropValData
  | .PT_STRING8 lpszA => .PT_STRING8 (sentString lpStreamCaps charset lpszA)
  | .PT_UNICODE lpszA => .PT_UNICODE (sentString lpStreamCaps charset lpszA)
  | .PT_MV_STRING8 mvszA => .PT_MV_STRING8 (Counted.map (sentString lpStreamCaps charset) mvszA)
  | .PT_MV_UNICODE mvszA => .PT_MV_UNICODE (Counted.map (sentString lpStreamCaps charset) mvszA)
  | value => value

/-- The reader stays within its memory, and asks for all bytes. -/
def HasRoom (lpStreamCaps : StreamCaps) : PropValData → Prop
  | .PT_MV_CURRENCY mvhilo | .PT_MV_SYSTIME mvhilo => mvhilo.elems.length ≤ 1
  | .PT_MV_LONG mvl | .PT_MV_R4 mvl => 4 * mvl.elems.length < 2 ^ 32
  | .PT_MV_DOUBLE mvdbl | .PT_MV_APPTIME mvdbl | .PT_MV_I8 mvdbl => 8 * mvdbl.elems.length < 2 ^ 32
  | value => ∀ lpszA ∈ strings value, StringHasRoom lpStreamCaps lpszA

section String8

theorem propType_string8 (value : PropValData) : propType (string8 value) = streamType (propType value) := by
  cases value <;> rfl

theorem serializeValue_string8 (value : PropValData) :
    serializeValue lpStreamCaps charset (string8 value) = serializeValue lpStreamCaps charset value := by
  cases value <;> rfl

theorem strings_string8 (value : PropValData) : strings (string8 value) = strings value := by
  cases value <;> rfl

theorem fits_string8 (value : PropValData) :
    Fits lpStreamCaps charset (string8 value) ↔ Fits lpStreamCaps charset value := by
  cases value <;> rfl

end String8

theorem reads_return {α : Type} {p : Source α} {good : Prop} {a : α}
    (make : α → PropValData) (h : Reads p bytes good () a ()) :
    Reads (do return make (← p)) bytes good () (make a) () :=
  h.done (Reads.pure (make a))

/-- A value without strings. -/
theorem reads_plain {α : Type} {p : Source α} {a : α} (make : α → PropValData) (h : Reads p bytes True () a ()) :
    Reads (do return make (← p)) bytes
      (∀ lpszA ∈ ([] : List LPSTR), StringHasRoom lpStreamCaps lpszA) () (make a) () :=
  (reads_return make h).congr (iff_of_true trivial (List.forall_mem_nil _))

/-- A truth value is read from its one byte. -/
theorem reads_readBoolean (b : Bool) :
    Reads (do
      let b ← readBytes 1 1
      return PropValData.PT_BOOLEAN (b.headD 0 != 0)) [if b then 1 else 0]
      (∀ lpszA ∈ ([] : List LPSTR), StringHasRoom lpStreamCaps lpszA) () (.PT_BOOLEAN b) () := by
  have hbyte : Reads (readBytes 1 1) [if b then 1 else 0] True () [if b then 1 else 0] () :=
    (reads_readBytes 1 [if b then 1 else 0]).congr (iff_true_intro ⟨le_rfl, Nat.one_lt_two_pow (by decide)⟩)
  have hnonzero : (([if b then 1 else 0] : List UInt8).headD 0 != 0) = b := by cases b <;> rfl
  refine (hbyte.done ?_).congr (iff_of_true trivial (List.forall_mem_nil _))
  rw [hnonzero]
  exact Reads.pure _

theorem map_eq_self_iff {α : Type} {f : α → α} {mv : Counted 31 α} :
    Counted.map f mv = mv ↔ ∀ elem ∈ mv.elems, f elem = elem := by
  obtain ⟨elems, hlength⟩ := mv
  unfold Counted.map
  rw [Counted.mk.injEq]
  have hmap : elems.map f = elems ↔ elems.map f = elems.map id := by rw [List.map_id]
  exact hmap.trans List.map_inj_left

theorem map_id_eq {α : Type} (mv : Counted 31 α) : Counted.map (fun elem => elem) mv = mv := by
  unfold Counted.map
  simp only [List.map_id']

theorem reads_readBinaries (mvbin : Counted 31 Base64Binary) :
    Reads (readMulti readBinary) (writeMulti writeBinary mvbin) True () mvbin () := by
  have hmulti := reads_readMulti mvbin fun bin _ => reads_readBinary bin
  rw [map_id_eq] at hmulti
  exact hmulti.congr (iff_of_true (fun _ _ => trivial) trivial)

/-- Short numbers are never too many. -/
theorem reads_readShorts (mvi : Counted 31 (BitVec 16)) :
    Reads (readArray 2) (writeMulti (fun elem => write 2 [elem]) mvi) True () mvi () :=
  (reads_readArray 2 mvi).congr (iff_true_intro (by have hlength := mvi.length_lt; omega))

/-- One string, or those of a multi-value. -/
theorem forall_mem_singleton_iff {α : Type} {p : α → Prop} {a : α} : p a ↔ ∀ b ∈ [a], p b := by
  rw [List.forall_mem_singleton]

/-- The reader of a type reads what the writer wrote. -/
theorem reads_deserializeValue (h : serializeValue lpStreamCaps charset value = some bytes) :
    Reads (deserializeValue lpStreamCaps charset (propType value)) bytes
      (HasRoom lpStreamCaps value) () (sent lpStreamCaps charset value) () := by
  cases value <;> cases h
  case PT_I2 i => exact reads_plain .PT_I2 (reads_readOne 2 (by decide) i)
  case PT_LONG ul => exact reads_plain .PT_LONG (reads_readOne 4 (by decide) ul)
  case PT_R4 flt => exact reads_plain .PT_R4 (reads_readOne 4 (by decide) flt)
  case PT_DOUBLE dbl => exact reads_plain .PT_DOUBLE (reads_readOne 8 (by decide) dbl)
  case PT_APPTIME dbl => exact reads_plain .PT_APPTIME (reads_readOne 8 (by decide) dbl)
  case PT_BOOLEAN b => exact reads_readBoolean b
  case PT_I8 li => exact reads_plain .PT_I8 (reads_readOne 8 (by decide) li)
  case PT_STRING8 lpszA =>
    exact (reads_return .PT_STRING8 (reads_readString lpszA)).congr forall_mem_singleton_iff
  case PT_UNICODE lpszA =>
    exact (reads_return .PT_UNICODE (reads_readString lpszA)).congr forall_mem_singleton_iff
  case PT_SYSTIME hilo => exact reads_plain .PT_SYSTIME (reads_readHilo hilo)
  case PT_CURRENCY hilo => exact reads_plain .PT_CURRENCY (reads_readHilo hilo)
  case PT_BINARY bin => exact reads_plain .PT_BINARY (reads_readBinary bin)
  case PT_CLSID bin => exact reads_plain .PT_CLSID (reads_readBinary bin)
  case PT_MV_I2 mvi => exact reads_plain .PT_MV_I2 (reads_readShorts mvi)
  case PT_MV_LONG mvl => exact reads_return .PT_MV_LONG (reads_readArray 4 mvl)
  case PT_MV_R4 mvflt => exact reads_return .PT_MV_R4 (reads_readArray 4 mvflt)
  case PT_MV_DOUBLE mvdbl => exact reads_return .PT_MV_DOUBLE (reads_readArray 8 mvdbl)
  case PT_MV_APPTIME mvdbl => exact reads_return .PT_MV_APPTIME (reads_readArray 8 mvdbl)
  case PT_MV_I8 mvli => exact reads_return .PT_MV_I8 (reads_readArray 8 mvli)
  case PT_MV_STRING8 mvszA =>
    exact reads_return .PT_MV_STRING8 (reads_readMulti mvszA fun lpszA _ => reads_readString lpszA)
  case PT_MV_UNICODE mvszA =>
    exact reads_return .PT_MV_UNICODE (reads_readMulti mvszA fun lpszA _ => reads_readString lpszA)
  case PT_MV_SYSTIME mvhilo => exact reads_return .PT_MV_SYSTIME (reads_readHilos mvhilo)
  case PT_MV_CURRENCY mvhilo => exact reads_return .PT_MV_CURRENCY (reads_readHilos mvhilo)
  case PT_MV_BINARY mvbin => exact reads_plain .PT_MV_BINARY (reads_readBinaries mvbin)
  case PT_MV_CLSID mvbin => exact reads_plain .PT_MV_CLSID (reads_readBinaries mvbin)

/-- A value arrives as it is, and in its memory, when it fits. -/
theorem fits_iff (hchar : ∀ b, charset.char b ≠ [])
    (hstrings : ∀ lpszA ∈ strings value, ∃ text, IsString lpStreamCaps charset lpszA text) :
    Fits lpStreamCaps charset value ↔ HasRoom lpStreamCaps value ∧ sent lpStreamCaps charset value = value := by
  have hstring : ∀ lpszA ∈ strings value, StringFits lpStreamCaps charset lpszA ↔
      StringHasRoom lpStreamCaps lpszA ∧ sentString lpStreamCaps charset lpszA = lpszA := by
    intro lpszA hmem
    obtain ⟨text, htext⟩ := hstrings lpszA hmem
    exact stringFits_iff hchar htext
  have hnone : (∀ lpszA ∈ ([] : List LPSTR), StringFits lpStreamCaps charset lpszA) ↔
      (∀ lpszA ∈ ([] : List LPSTR), StringHasRoom lpStreamCaps lpszA) ∧ value = value :=
    iff_of_true (List.forall_mem_nil _) ⟨List.forall_mem_nil _, rfl⟩
  have hone {make : LPSTR → PropValData} (hmake : ∀ s s', make s = make s' ↔ s = s')
      (lpszA : LPSTR) (h : lpszA ∈ strings value) :
      (∀ lpszB ∈ [lpszA], StringFits lpStreamCaps charset lpszB) ↔
        (∀ lpszB ∈ [lpszA], StringHasRoom lpStreamCaps lpszB) ∧
          make (sentString lpStreamCaps charset lpszA) = make lpszA := by
    rw [List.forall_mem_singleton, List.forall_mem_singleton, hmake]
    exact hstring lpszA h
  have hmany {make : Counted 31 LPSTR → PropValData} (hmake : ∀ mv mv', make mv = make mv' ↔ mv = mv')
      (mvszA : Counted 31 LPSTR) (h : ∀ lpszA ∈ mvszA.elems, lpszA ∈ strings value) :
      (∀ lpszA ∈ mvszA.elems, StringFits lpStreamCaps charset lpszA) ↔
        (∀ lpszA ∈ mvszA.elems, StringHasRoom lpStreamCaps lpszA) ∧
          make (Counted.map (sentString lpStreamCaps charset) mvszA) = make mvszA := by
    rw [hmake, map_eq_self_iff, ← forall₂_and]
    exact forall₂_congr fun lpszA hmem => hstring lpszA (h lpszA hmem)
  cases value
  case PT_STRING8 lpszA =>
    exact hone (fun _ _ => by rw [PropValData.PT_STRING8.injEq]) lpszA (List.mem_singleton_self lpszA)
  case PT_UNICODE lpszA =>
    exact hone (fun _ _ => by rw [PropValData.PT_UNICODE.injEq]) lpszA (List.mem_singleton_self lpszA)
  case PT_MV_STRING8 mvszA =>
    exact hmany (fun _ _ => by rw [PropValData.PT_MV_STRING8.injEq]) mvszA fun _ h => h
  case PT_MV_UNICODE mvszA =>
    exact hmany (fun _ _ => by rw [PropValData.PT_MV_UNICODE.injEq]) mvszA fun _ h => h
  case PT_MV_SYSTIME | PT_MV_CURRENCY | PT_MV_LONG | PT_MV_R4 | PT_MV_DOUBLE | PT_MV_APPTIME | PT_MV_I8 =>
    exact (and_iff_left rfl).symm
  all_goals exact hnone

end Values

/-! ## Properties -/

section Properties

variable {lpStreamCaps : StreamCaps} {charset : Charset} {namedPropertyMapper : NamedPropertyMapper}
  {lpNamedPropDefs : Option NamedPropDefMap} {sPropVal : PropVal} {ulPropId : BitVec 16}

theorem propType_lt (value : PropValData) : propType value < 0x10000 := by
  cases value <;> exact of_decide_eq_true rfl

variable {type : ℕ}

theorem toNat_propTag (h : type < 0x10000) (id : BitVec 16) :
    (propTag type id).toNat = id.toNat * 0x10000 + type := by
  have hid := id.isLt
  have hlt : id.toNat * 0x10000 + type < 2 ^ 32 := by omega
  rw [propTag, BitVec.toNat_ofNat, Nat.mod_eq_of_lt hlt]

theorem typeOf_propTag (h : type < 0x10000) (id : BitVec 16) : typeOf (propTag type id) = type := by
  rw [typeOf, toNat_propTag h]
  omega

theorem idOf_propTag (h : type < 0x10000) (id : BitVec 16) : idOf (propTag type id) = id := by
  have hdiv : (id.toNat * 0x10000 + type) / 0x10000 = id.toNat := by omega
  rw [idOf, toNat_propTag h, hdiv, BitVec.ofNat_toNat, BitVec.setWidth_eq]

theorem toNat_counted32 (mv : Counted 32 UInt8) : (BitVec.ofNat 32 mv.elems.length).toNat = mv.elems.length := by
  rw [BitVec.toNat_ofNat, Nat.mod_eq_of_lt mv.length_lt]

/-- The name is read back, and mapped. -/
theorem reads_deserializeName {namedPropDef : NamedPropDef} {ulLocalId : BitVec 32}
    (h : HasLocalId namedPropertyMapper namedPropDef ulLocalId) : (serializeName namedPropDef).1 = .erSuccess ∧
      Reads (deserializeName namedPropertyMapper) (serializeName namedPropDef).2 True () ulLocalId () := by
  have hguid := reads_memory (le_of_eq namedPropDef.guid.length_eq)
    (namedPropDef.guid.length_eq.trans_lt (by decide))
  rw [namedPropDef.guid.length_eq] at hguid
  have hkind := reads_readOne 4 (by decide) namedPropDef.ulKind
  have hstring : MNID_STRING ≠ MNID_ID := by decide
  unfold serializeName
  cases h with
  | id hkindEq hget =>
    rw [if_pos hkindEq]
    refine ⟨rfl, ?_⟩
    rw [List.append_assoc]
    refine hguid.seq (hkind.seq ?_)
    rw [if_pos hkindEq]
    refine (reads_readOne 4 (by decide) namedPropDef.ulId).done ?_
    rw [hget]
    exact Reads.pure ulLocalId
  | string hkindEq hget =>
    rw [if_neg (hkindEq ▸ hstring), if_pos hkindEq]
    refine ⟨rfl, ?_⟩
    rw [List.append_assoc]
    refine hguid.seq (hkind.seq ?_)
    rw [if_neg (hkindEq ▸ hstring), if_pos hkindEq]
    refine (reads_readOne 4 (by decide) _).seq ?_
    rw [toNat_counted32]
    refine (reads_memory le_rfl namedPropDef.strName.length_lt).done ?_
    rw [hget]
    exact Reads.pure ulLocalId

/-- A property without a name. -/
theorem serializePropVal_plain (hbytes : serializeValue lpStreamCaps charset sPropVal.Value = some bytes)
    (h : ¬ 0x8500 < sPropVal.ulPropId) : serializePropVal lpStreamCaps charset sPropVal lpNamedPropDefs = (.erSuccess,
        write 4 [propTag (propType (string8 sPropVal.Value)) sPropVal.ulPropId] ++ bytes) := by
  unfold serializePropVal
  simp only [hbytes, if_neg h, propType_string8]

/-- A property with a name. -/
theorem serializePropVal_named {map : NamedPropDefMap} {namedPropDef : NamedPropDef}
    (hbytes : serializeValue lpStreamCaps charset sPropVal.Value = some bytes)
    (h : 0x8500 < sPropVal.ulPropId) (hmap : lpNamedPropDefs = some map)
    (hfind : map (propTag (streamType (propType sPropVal.Value)) sPropVal.ulPropId) = some namedPropDef) :
    serializePropVal lpStreamCaps charset sPropVal lpNamedPropDefs = ((serializeName namedPropDef).1,
        write 4 [propTag (propType (string8 sPropVal.Value)) sPropVal.ulPropId] ++
          (bytes ++ (serializeName namedPropDef).2)) := by
  unfold serializePropVal
  simp only [hbytes, if_pos h, hmap, hfind, propType_string8]

/-- The bytes of a name and the id that is read from them; there is a name in the dynamic range only. -/
inductive MappedName (namedPropertyMapper : NamedPropertyMapper) (id : BitVec 16) :
    List UInt8 → BitVec 16 → Prop where
  | plain (h : ¬ 0x8500 < id) : MappedName _ _ [] id
  | named {namedPropDef : NamedPropDef} {ulLocalId : BitVec 32} (h : 0x8500 < id)
    (hid : HasLocalId namedPropertyMapper namedPropDef ulLocalId) :
    MappedName _ _ (serializeName namedPropDef).2 (ulLocalId.setWidth 16)

/-- What is written for a property is read back with the value that arrives. -/
theorem reads_deserializePropVal {value : PropValData} {id : BitVec 16} {name : List UInt8}
    (hbytes : serializeValue lpStreamCaps charset value = some bytes)
    (hname : MappedName namedPropertyMapper id name ulPropId) :
    Reads (deserializePropVal lpStreamCaps charset namedPropertyMapper)
      (write 4 [propTag (propType value) id] ++ (bytes ++ name)) (HasRoom lpStreamCaps value) ()
      ⟨ulPropId, sent lpStreamCaps charset value⟩ () := by
  have hlt := propType_lt value
  have hvalue := reads_deserializeValue hbytes
  refine (reads_readOne 4 (by decide) (propTag (propType value) id)).seq ?_
  rw [typeOf_propTag hlt, idOf_propTag hlt]
  refine hvalue.last ?_
  cases hname with
  | plain hplain =>
    rw [if_neg hplain]
    exact Reads.pure _
  | named hnamed hid =>
    rw [if_pos hnamed]
    exact (reads_deserializeName hid).2.done (Reads.pure _)

/-- What `SerializePropVal` writes when it succeeds. -/
theorem serializePropVal_eq (hbytes : serializeValue lpStreamCaps charset sPropVal.Value = some bytes)
    (hmaps : Maps namedPropertyMapper lpNamedPropDefs sPropVal ulPropId) :
    ∃ name, MappedName namedPropertyMapper sPropVal.ulPropId name ulPropId ∧
      serializePropVal lpStreamCaps charset sPropVal lpNamedPropDefs =
        (.erSuccess, write 4 [propTag (propType (string8 sPropVal.Value)) sPropVal.ulPropId] ++ (bytes ++ name)) := by
  cases hmaps with
  | plain hplain =>
    refine ⟨[], .plain hplain, ?_⟩
    rw [serializePropVal_plain hbytes hplain, List.append_nil]
  | named hnamed hmap hfind hid =>
    refine ⟨_, .named hnamed hid, ?_⟩
    rw [serializePropVal_named hbytes hnamed hmap hfind, (reads_deserializeName hid).1]

/-- A property is restored if and only if it has at most one time or currency, and the lengths of its
strings and the size of its array fit. -/
theorem serializePropVal_restores_iff (hchar : ∀ b, charset.char b ≠ [])
    (hsupported : (serializeValue lpStreamCaps charset sPropVal.Value).isSome = true)
    (hstrings : ∀ lpszA ∈ strings sPropVal.Value, ∃ text, IsString lpStreamCaps charset lpszA text)
    (hmaps : Maps namedPropertyMapper lpNamedPropDefs sPropVal ulPropId) :
    RoundTrips lpStreamCaps charset namedPropertyMapper lpNamedPropDefs sPropVal ulPropId ↔
      Fits lpStreamCaps charset sPropVal.Value := by
  obtain ⟨bytes, hbytes⟩ := Option.isSome_iff_exists.mp hsupported
  obtain ⟨name, hname, hwrite⟩ := serializePropVal_eq hbytes hmaps
  have hread := reads_deserializePropVal ((serializeValue_string8 sPropVal.Value).trans hbytes) hname
  have hwritten := congrArg Prod.snd hwrite
  rw [← fits_string8, fits_iff hchar (by rwa [strings_string8])]
  constructor
  · intro h
    have hback := h.read []
    rw [hwritten] at hback
    have hroom : HasRoom lpStreamCaps (string8 sPropVal.Value) := by
      by_contra hroom
      obtain ⟨e, bs, s, he⟩ := (hread []).2 hroom
      cases he.symm.trans hback
    refine ⟨hroom, ?_⟩
    have hsent := ((hread []).1 hroom).symm.trans hback
    exact congrArg PropVal.Value (Except.ok.inj (congrArg Prod.fst hsent))
  · rintro ⟨hroom, hsent⟩
    refine ⟨congrArg Prod.fst hwrite, fun rest => ?_⟩
    rw [hwritten, (hread rest).1 hroom, hsent]

end Properties

/-! ## A name and two times -/

/-- Bytes that are characters themselves. -/
def latin : Charset := ⟨id, fun b => [b]⟩

/-- A database in which every name has got an id. -/
def someNames : NamedPropertyMapper :=
  ⟨fun _ ulNameId => .ok (ulNameId + 0x8501),
    fun _ strName => .ok (BitVec.ofNat 32 strName.length + 0x8501)⟩

/-- `Keywords` of a public namespace. -/
def keywords : NamedPropDef where
  guid := ⟨List.replicate 16 7, rfl⟩
  ulKind := MNID_STRING
  ulId := 0
  strName := ⟨[75, 101, 121, 119, 111, 114, 100, 115], by decide⟩

/-- Two keywords, under a local id. -/
def category : PropVal := ⟨0x8501, .PT_MV_UNICODE ⟨[some [72, 105], some []], by decide⟩⟩

/-- Two times. -/
def times : PropVal := ⟨0x3007, .PT_MV_SYSTIME ⟨[⟨1, 2⟩, ⟨3, 4⟩], by decide⟩⟩

theorem serializePropVal_restores_iff_category :
    RoundTrips ⟨true⟩ latin someNames (some fun _ => some keywords) category ((0x8509 : BitVec 32).setWidth 16) ↔
      Fits ⟨true⟩ latin category.Value := by
  refine serializePropVal_restores_iff (fun b => List.cons_ne_nil b []) rfl ?_ ?_
  · intro lpszA hmem
    rcases List.mem_pair.mp hmem with rfl | rfl
    · exact ⟨[72, 105], rfl, by decide, nofun⟩
    · exact ⟨[], rfl, by decide, nofun⟩
  · exact .named (by decide) rfl rfl (.string rfl rfl)

/-- Two times are not restored. -/
theorem not_roundTrips_times : ¬ RoundTrips ⟨true⟩ latin someNames none times 0x3007 := by
  intro h
  have hread := h.read []
  have hstop : (deserializePropVal ⟨true⟩ latin someNames
      ((serializePropVal ⟨true⟩ latin times none).2 ++ []) ()).1.isOk = false := by
    decide +kernel
  rw [hread] at hstop
  cases hstop

end Zcp.Libserver.StreamUtil
