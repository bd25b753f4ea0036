import Zcp.Libserver.ECDatabaseUtils.RoundTrip
import Zcp.Libserver.StreamUtil.Calls

/-!
# The encoders of a row and of its value

A property goes into a stream from its row (`SerializeDatabasePropVal`), or from the value that
`CopyDatabasePropValToSOAPPropVal` makes of the row (`SerializePropVal`). `serializers_agree`: for rows with what the
tables hold, both make the same calls of `Write` on any sink. The row of a multi-value has the elements behind each
other with their lengths; both functions take them apart from the left, but the one for rows has one string for the two
halves of a time.
-/

namespace Zcp.Libserver.StreamUtil.Calls

open Zcp.Lib
open Zcp.Common
open Zcp.Libserver.ECDatabaseUtils

/-! ## What the tables hold -/

/-- The columns of a row as a value of the type leaves them: numbers of the types of the columns, strings that ended with
a zero, and binary values whose size was an `int`. -/
def StoredAs (values : DbValues) : PropType → Prop
  | .PT_I2 | .PT_LONG | .PT_BOOLEAN | .PT_MV_I2 | .PT_MV_LONG =>
    ∃ ul : BitVec 32, values.val_ulong = some (decimal ul.toNat)
  | .PT_I8 | .PT_MV_I8 => ∃ li : BitVec 64, values.val_longint = some (signedDecimal li.toInt)
  | .PT_CURRENCY | .PT_SYSTIME | .PT_MV_CURRENCY | .PT_MV_SYSTIME =>
    ∃ hilo : HiloLong, values.val_hi = some (signedDecimal hilo.hi.toInt) ∧ values.val_lo = some (decimal hilo.lo.toNat)
  | .PT_STRING8 | .PT_UNICODE | .PT_MV_STRING8 | .PT_MV_UNICODE => ∃ s, values.val_string = some s ∧ (0 : UInt8) ∉ s
  | .PT_CLSID | .PT_BINARY | .PT_MV_CLSID | .PT_MV_BINARY =>
    ∃ bin : Base64Binary, values.val_binary = some bin.elems
  | .PT_R4 | .PT_DOUBLE | .PT_APPTIME | .PT_MV_R4 | .PT_MV_DOUBLE | .PT_MV_APPTIME => False

/-- The name that `PrepareReadProps` takes from a row. -/
def prepareNamedPropDef (lpDBRow : StreamRow) : Option NamedPropDef := do
  let guid ← lpDBRow.nameguid
  if hguid : guid.length = 16 then
    match lpDBRow.nameid, lpDBRow.namestr with
    | some nameid, _ => some ⟨⟨guid, hguid⟩, MNID_ID, atoui nameid, ⟨[], by decide⟩⟩
    | none, some namestr =>
      if hname : namestr.length < 2 ^ 32 then some ⟨⟨guid, hguid⟩, MNID_STRING, 0, ⟨namestr, hname⟩⟩ else none
    | none, none => none
  else none

/-! ## The value of a union -/

/-- A pointer with its size. -/
def ofSizedPtr {α : Type} (x : SizedPtr α) : Option (Counted 31 α) :=
  x.ptr.bind fun elems =>
    if h : elems.length < 2 ^ 31 ∧ x.size = BitVec.ofNat 32 elems.length then some ⟨elems, h.1⟩ else none

/-- The value of a type in its union. -/
def ofUnion (type : PropType) (Value : PropValUnion) : Option PropValData :=
  match type, Value with
  | .PT_I2, .i i => some (.PT_I2 i)
  | .PT_LONG, .ul ul => some (.PT_LONG ul)
  | .PT_R4, .flt flt => some (.PT_R4 flt)
  | .PT_DOUBLE, .dbl dbl => some (.PT_DOUBLE dbl)
  | .PT_CURRENCY, .hilo hilo => hilo.map .PT_CURRENCY
  | .PT_APPTIME, .dbl dbl => some (.PT_APPTIME dbl)
  | .PT_BOOLEAN, .b b => some (.PT_BOOLEAN b)
  | .PT_I8, .li li => some (.PT_I8 li)
  | .PT_STRING8, .lpszA lpszA => some (.PT_STRING8 lpszA)
  | .PT_UNICODE, .lpszA lpszA => some (.PT_UNICODE lpszA)
  | .PT_SYSTIME, .hilo hilo => hilo.map .PT_SYSTIME
  | .PT_CLSID, .bin bin => (bin.bind ofSizedPtr).map .PT_CLSID
  | .PT_BINARY, .bin bin => (bin.bind ofSizedPtr).map .PT_BINARY
  | .PT_MV_I2, .mvi mvi => (ofSizedPtr mvi).map .PT_MV_I2
  | .PT_MV_LONG, .mvl mvl => (ofSizedPtr mvl).map .PT_MV_LONG
  | .PT_MV_R4, .mvflt mvflt => (ofSizedPtr mvflt).map .PT_MV_R4
  | .PT_MV_DOUBLE, .mvdbl mvdbl => (ofSizedPtr mvdbl).map .PT_MV_DOUBLE
  | .PT_MV_CURRENCY, .mvhilo mvhilo => (ofSizedPtr mvhilo).map .PT_MV_CURRENCY
  | .PT_MV_APPTIME, .mvdbl mvdbl => (ofSizedPtr mvdbl).map .PT_MV_APPTIME
  | .PT_MV_I8, .mvli mvli => (ofSizedPtr mvli).map .PT_MV_I8
  | .PT_MV_STRING8, .mvszA mvszA => (ofSizedPtr mvszA).map .PT_MV_STRING8
  | .PT_MV_UNICODE, .mvszA mvszA => (ofSizedPtr mvszA).map .PT_MV_UNICODE
  | .PT_MV_SYSTIME, .mvhilo mvhilo => (ofSizedPtr mvhilo).map .PT_MV_SYSTIME
  | .PT_MV_CLSID, .mvbin mvbin =>
    ((ofSizedPtr mvbin).bind fun mv => binaries (mv.elems.map ofSizedPtr)).map .PT_MV_CLSID
  | .PT_MV_BINARY, .mvbin mvbin =>
    ((ofSizedPtr mvbin).bind fun mv => binaries (mv.elems.map ofSizedPtr)).map .PT_MV_BINARY
  | _, _ => none

/-- A `propVal` by its type. -/
def ofPropVal (v : ECDatabaseUtils.PropVal) : Option SOAPUtils.PropVal :=
  (PropType.ofCode (PROP_TYPE v.ulPropTag)).bind fun type =>
    (ofUnion type v.Value).map fun Value => ⟨PROP_ID v.ulPropTag, Value⟩

theorem ofSizedPtr_binaryOf {s : List UInt8} (h : s.length < 2 ^ 31) : ofSizedPtr (binaryOf s) = some ⟨s, h⟩ := by
  rw [ofSizedPtr, binaryOf, Option.bind_some, dif_pos ⟨h, rfl⟩]

/-! ## Elements -/

variable {rows : List DbValues} {hilos : List HiloLong}

section Elements

variable {σ : Type} (lpSink : Sink σ)

theorem each_map {α β : Type} (f : β → Caller σ StreamError Unit) (g : α → β) (l : List α) :
    Caller.each f (l.map g) = Caller.each (fun a => f (g a)) l := by
  induction l with
  | nil => rfl
  | cons a l ih => rw [List.map_cons, Caller.each, Caller.each, ih]

theorem each_congr {α : Type} {f g : α → Caller σ StreamError Unit} {l : List α} (h : ∀ a ∈ l, f a = g a) :
    Caller.each f l = Caller.each g l := by
  induction l with
  | nil => rfl
  | cons a l ih =>
    rw [Caller.each, Caller.each, h a List.mem_cons_self, ih fun b hb => h b (List.mem_cons_of_mem a hb)]

/-- The loop writes what `ParseMVProp` takes apart. -/
theorem writeElements_eq (writeElem : List UInt8 → Caller σ StreamError Unit) (lpRowData : List UInt8) (n : ℕ)
    (scan : MVScan) : writeElements writeElem lpRowData n scan = .each writeElem (scanMV lpRowData n scan) := by
  induction n generalizing scan with
  | zero => rfl
  | succ n ih => rw [writeElements, scanMV, Caller.each, ih]

/-- The column of the elements of a multi-value. -/
structure MVColumn (items : List (List UInt8)) (lpRowData : List UInt8) (size : BitVec 32) : Prop where
  column : lpRowData = items.flatMap mvItem
  length_column : lpRowData.length < 2 ^ 32
  size : size = BitVec.ofNat 32 items.length

variable {items : List (List UInt8)} {lpRowData : List UInt8} {size : BitVec 32}

/-- An element takes up its colon and a digit. -/
theorem length_flatMap_mvItem (items : List (List UInt8)) : 2 * items.length ≤ (items.flatMap mvItem).length := by
  induction items with
  | nil => exact Nat.zero_le _
  | cons s items ih =>
    have hdigits := List.length_pos_of_ne_nil (decimal_ne_nil s.length)
    rw [List.flatMap_cons, List.length_append, mvItem, List.length_append, List.length_cons, List.length_cons]
    omega

namespace MVColumn

theorem length_items (h : MVColumn items lpRowData size) : items.length < 2 ^ 31 := by
  have hlength := h.length_column
  rw [h.column] at hlength
  have htwo := length_flatMap_mvItem items
  omega

theorem toNat_size (h : MVColumn items lpRowData size) : size.toNat = items.length := by
  have hlength := h.length_items
  rw [h.size, BitVec.toNat_ofNat, Nat.mod_eq_of_lt (by omega)]

theorem scan (h : MVColumn items lpRowData size) : scanMV lpRowData size.toNat ⟨0, []⟩ = items := by
  have hlength := h.length_column
  rw [h.column] at hlength
  rw [h.toNat_size, h.column]
  have hscan := (@scanMV_areItems [] _ [] [] items (areItems_flatMap items) (by simpa using hlength)).1
  rwa [List.append_nil] at hscan

theorem mvStrings (h : MVColumn items lpRowData size) : ECDatabaseUtils.mvStrings lpRowData size = items := by
  have hsize : size.toInt.toNat = size.toNat := by
    have hlength := h.length_items
    rw [BitVec.toInt_eq_toNat_of_lt (by rw [h.toNat_size]; omega), Int.toNat_natCast]
  rw [ECDatabaseUtils.mvStrings, hsize, h.scan]

/-- Both encoders write the elements. -/
theorem writeMultiColumn (h : MVColumn items lpRowData size) (writeElem : List UInt8 → Caller σ StreamError Unit) :
    Calls.writeMultiColumn lpSink writeElem size lpRowData = writeMulti lpSink writeElem size items := by
  rw [Calls.writeMultiColumn, writeElements_eq, h.scan]
  rfl

theorem length_item (h : MVColumn items lpRowData size) {s : List UInt8} (hs : s ∈ items) : s.length < 2 ^ 32 := by
  obtain ⟨front, rest, hsplit⟩ := List.append_of_mem hs
  have hlength := h.length_column
  rw [h.column, hsplit, List.flatMap_append, List.flatMap_cons] at hlength
  simp only [List.length_append, mvItem, List.length_cons] at hlength
  omega

end MVColumn

/-- What is selected for rows with an element each. -/
theorem mvColumn_of_rows {val : DbValues → Option (List UInt8)} {items : List (List UInt8)}
    (hitems : rows.map val = items.map some) (hne : rows ≠ []) {s : Option (List UInt8)}
    (hs : resultColumn (groupConcat (rows.map val)) = some s) :
    ∃ lpRowData, s = some lpRowData ∧ MVColumn items lpRowData (Lib.atoi (decimal rows.length)) := by
  have hlength : rows.length = items.length := by
    rw [← List.length_map val, hitems, List.length_map]
  have hitems_ne : items ≠ [] := by
    rintro rfl
    exact hne (List.length_eq_zero_iff.mp hlength)
  have hconcat : groupConcat (items.map some) = some (items.flatMap mvItem) := by
    have hall : (items.map some).filterMap id = items := by
      rw [List.filterMap_map]
      exact List.filterMap_some
    rw [groupConcat, hall, if_neg hitems_ne]
    rfl
  rw [hitems, hconcat, resultColumn, Option.getD_some] at hs
  split_ifs at hs with hshort
  have htwo := length_flatMap_mvItem items
  have hcount := atoi_decimal (BitVec.ofNat 32 items.length)
  rw [BitVec.toNat_ofNat, Nat.mod_eq_of_lt (by omega)] at hcount
  exact ⟨_, (Option.some.inj hs).symm, rfl, hshort, hlength ▸ hcount⟩

/-- The two columns of times are taken apart in step. -/
theorem writeHiloElements_items {frontHi frontLo strData : List UInt8}
    (hhi : (frontHi ++ (hilos.map fun hilo => signedDecimal hilo.hi.toInt).flatMap mvItem).length < 2 ^ 32)
    (hlo : (frontLo ++ (hilos.map fun hilo => decimal hilo.lo.toNat).flatMap mvItem).length < 2 ^ 32) :
    writeHiloElements lpSink (frontHi ++ (hilos.map fun hilo => signedDecimal hilo.hi.toInt).flatMap mvItem)
        (frontLo ++ (hilos.map fun hilo => decimal hilo.lo.toNat).flatMap mvItem)
        hilos.length frontLo.length frontHi.length strData = .each (writeHilo lpSink) hilos := by
  induction hilos generalizing frontHi frontLo strData with
  | nil => rfl
  | cons hilo hilos ih =>
    simp only [List.map_cons, List.flatMap_cons] at hhi hlo ⊢
    rw [← List.append_assoc] at hhi hlo
    rw [← List.append_assoc, ← List.append_assoc, List.length_cons, writeHiloElements, parseMVProp_isItem (isItem_mvItem _) hlo,
      parseMVProp_isItem (isItem_mvItem _) hhi, Caller.each]
    have hhilo : (⟨Lib.atoi (signedDecimal hilo.hi.toInt), atoui (decimal hilo.lo.toNat)⟩ : HiloLong) = hilo := by
      rw [atoi_signedDecimal, atoui_decimal]
    exact congrArg₂ (· >>= ·) (congrArg (writeHilo lpSink) hhilo) (funext fun _ => ih hhi hlo)

end Elements

/-! ## Values -/

section Values

variable (lpStreamCaps : StreamCaps) (charset : Charset) (d : Externals)

/-- The value of a row can be read, and both encoders write it with the same calls. -/
def Agrees (type : PropType) (lpRow : DbRow) : Prop :=
  ∃ Value data, readValue d type lpRow = .ok Value ∧ ofUnion type.toUnicode Value = some data ∧
    propType data = type.toUnicode.code.toNat ∧ ∀ (σ : Type) (lpSink : Sink σ),
      serializeColumns lpSink lpStreamCaps charset d type lpRow =
        some (serializeValue lpSink lpStreamCaps charset data)

/-- A string without zeros is as long as the column. -/
theorem writeStringColumn_eq {σ : Type} (lpSink : Sink σ) {text : List UInt8} (hzero : (0 : UInt8) ∉ text)
    (hlength : text.length < 2 ^ 32) : writeStringColumn lpSink lpStreamCaps charset text =
      writeString lpSink lpStreamCaps charset ((some (cstr text)).getD []) := by
  rw [cstr_eq hzero, Option.getD_some]
  unfold writeStringColumn
  split_ifs with hunicode
  · unfold writeString encodeString
    rw [if_pos hunicode]
    dsimp only
    rw [BitVec.toNat_ofNat, Nat.mod_eq_of_lt hlength, List.take_length]
  · rfl

variable {lpRow : DbRow}

/-- Single values. -/
theorem single_agrees {type : PropType} (htype : ¬ type.code &&& MV_FLAG = MV_FLAG)
    (hstored : StoredAs lpRow.values type) (hlength : (lpRow.values.val_string.getD []).length < 2 ^ 32) :
    Agrees lpStreamCaps charset d type lpRow := by
  cases type with
  | PT_I2 =>
    obtain ⟨ul, hul⟩ := hstored
    exact ⟨_, .PT_I2 _, by rw [readValue, hul]; rfl, rfl, rfl, fun σ lpSink => by rw [serializeColumns, hul]; rfl⟩
  | PT_LONG =>
    obtain ⟨ul, hul⟩ := hstored
    exact ⟨_, .PT_LONG _, by rw [readValue, hul]; rfl, rfl, rfl, fun σ lpSink => by rw [serializeColumns, hul]; rfl⟩
  | PT_BOOLEAN =>
    obtain ⟨ul, hul⟩ := hstored
    refine ⟨_, .PT_BOOLEAN _, by rw [readValue, hul]; rfl, rfl, rfl, fun σ lpSink => ?_⟩
    rw [serializeColumns, hul, serializeValue]
    simp only [Option.map_some, decide_eq_true_eq]
  | PT_CURRENCY =>
    obtain ⟨hilo, hhi, hlo⟩ := hstored
    exact ⟨_, .PT_CURRENCY _, by rw [readValue, hhi, hlo]; rfl, rfl, rfl,
      fun σ lpSink => by rw [serializeColumns, hhi, hlo]; rfl⟩
  | PT_SYSTIME =>
    obtain ⟨hilo, hhi, hlo⟩ := hstored
    exact ⟨_, .PT_SYSTIME _, by rw [readValue, hhi, hlo]; rfl, rfl, rfl,
      fun σ lpSink => by rw [serializeColumns, hhi, hlo]; rfl⟩
  | PT_I8 =>
    obtain ⟨li, hli⟩ := hstored
    exact ⟨_, .PT_I8 _, by rw [readValue, hli]; rfl, rfl, rfl, fun σ lpSink => by rw [serializeColumns, hli]; rfl⟩
  | PT_STRING8 | PT_UNICODE =>
    obtain ⟨text, htext, hzero⟩ := hstored
    rw [htext] at hlength
    refine ⟨_, .PT_UNICODE _, by rw [readValue, htext]; rfl, rfl, rfl, fun σ lpSink => ?_⟩
    rw [serializeColumns, htext, Option.map_some, writeStringColumn_eq lpStreamCaps charset lpSink hzero hlength]
    rfl
  | PT_CLSID =>
    obtain ⟨bin, hbin⟩ := hstored
    exact ⟨.bin (some (binaryOf bin.elems)), .PT_CLSID bin, by rw [readValue, hbin]; rfl,
      congrArg (Option.map PropValData.PT_CLSID) (ofSizedPtr_binaryOf bin.length_lt), rfl,
      fun σ lpSink => by rw [serializeColumns, hbin]; rfl⟩
  | PT_BINARY =>
    obtain ⟨bin, hbin⟩ := hstored
    exact ⟨.bin (some (binaryOf bin.elems)), .PT_BINARY bin, by rw [readValue, hbin]; rfl,
      congrArg (Option.map PropValData.PT_BINARY) (ofSizedPtr_binaryOf bin.length_lt), rfl,
      fun σ lpSink => by rw [serializeColumns, hbin]; rfl⟩
  | PT_R4 | PT_DOUBLE | PT_APPTIME => exact hstored.elim
  | _ => exact absurd (by decide) htype

section Multi

variable {items : List (List UInt8)} {lpRowData : List UInt8} {size : BitVec 32}

theorem MVColumn.length_map (h : MVColumn items lpRowData size) {α : Type} (read : List UInt8 → α) :
    (items.map read).length < 2 ^ 31 := (List.length_map read).trans_lt h.length_items

/-- The elements that are read from a column. -/
abbrev elementsOf {α : Type} (lpRowData : List UInt8) (size : BitVec 32) (read : List UInt8 → α) : SizedPtr α :=
  ⟨some ((ECDatabaseUtils.mvStrings lpRowData size).map read), size⟩

/-- The elements that are read are a pointer with its size. -/
theorem MVColumn.ofSizedPtr (h : MVColumn items lpRowData size) {α : Type} (read : List UInt8 → α) :
    Calls.ofSizedPtr (elementsOf lpRowData size read) = some ⟨items.map read, h.length_map read⟩ := by
  rw [elementsOf, h.mvStrings, Calls.ofSizedPtr, Option.bind_some,
    dif_pos ⟨h.length_map read, by rw [List.length_map]; exact h.size⟩]

/-- Both encoders write the elements alike, if they do so for each. -/
theorem MVColumn.writeCounted (h : MVColumn items lpRowData size) {σ : Type} (lpSink : Sink σ) {α : Type}
    {read : List UInt8 → α} {writeElem : List UInt8 → Caller σ StreamError Unit}
    {writeValue : α → Caller σ StreamError Unit} (helem : ∀ s ∈ items, writeElem s = writeValue (read s)) :
    Calls.writeMultiColumn lpSink writeElem size lpRowData =
      Calls.writeCounted lpSink writeValue ⟨items.map read, h.length_map read⟩ := by
  rw [h.writeMultiColumn, Calls.writeCounted, writeMulti, writeMulti, List.length_map, ← h.size, each_map,
    each_congr helem]

/-- The elements of the rows. -/
theorem exists_items {α : Type} (text : α → List UInt8) {val : DbValues → Option (List UInt8)}
    {P : α → Prop} (h : ∀ values ∈ rows, ∃ a, val values = some (text a) ∧ P a) :
    ∃ l : List α, rows.map val = (l.map text).map some ∧ ∀ a ∈ l, P a := by
  induction rows with
  | nil => exact ⟨[], rfl, fun _ ha => absurd ha List.not_mem_nil⟩
  | cons values rows ih =>
    obtain ⟨a, hval, ha⟩ := h values List.mem_cons_self
    obtain ⟨l, hl, hall⟩ := ih fun values' hmem => h values' (List.mem_cons_of_mem _ hmem)
    exact ⟨a :: l, by rw [List.map_cons, List.map_cons, List.map_cons, hval, hl], List.forall_mem_cons.mpr ⟨ha, hall⟩⟩

/-- Columns of a multi-value of numbers. -/
theorem numbers_agree (hne : rows ≠ []) {val : DbValues → Option (List UInt8)} {α : Type}
    {text : α → List UInt8} (hstored : ∀ values ∈ rows, ∃ a, val values = some (text a)) {s : Option (List UInt8)}
    (hs : resultColumn (groupConcat (rows.map val)) = some s) :
    ∃ (l : List α) (lpRowData : List UInt8), s = some lpRowData ∧
      MVColumn (l.map text) lpRowData (Lib.atoi (decimal rows.length)) := by
  obtain ⟨l, hl, -⟩ := exists_items text (P := fun _ : α => True) fun values hmem =>
    (hstored values hmem).imp fun _ ha => ⟨ha, trivial⟩
  obtain ⟨lpRowData, hdata, hcolumn⟩ := mvColumn_of_rows hl hne hs
  exact ⟨l, lpRowData, hdata, hcolumn⟩

/-- The halves of times. -/
theorem hilos_agree (hne : rows ≠ [])
    (hstored : ∀ values ∈ rows, ∃ hilo : HiloLong, values.val_hi = some (signedDecimal hilo.hi.toInt) ∧
      values.val_lo = some (decimal hilo.lo.toNat)) {hi lo : Option (List UInt8)}
    (hhi : resultColumn (groupConcat (rows.map DbValues.val_hi)) = some hi)
    (hlo : resultColumn (groupConcat (rows.map DbValues.val_lo)) = some lo) :
    ∃ (hilos : List HiloLong) (hiData loData : List UInt8), hi = some hiData ∧ lo = some loData ∧
      MVColumn (hilos.map fun hilo => signedDecimal hilo.hi.toInt) hiData (Lib.atoi (decimal rows.length)) ∧
      MVColumn (hilos.map fun hilo => decimal hilo.lo.toNat) loData (Lib.atoi (decimal rows.length)) := by
  obtain ⟨hilos, hhilos⟩ : ∃ hilos : List HiloLong,
      rows.map DbValues.val_hi = (hilos.map fun hilo => signedDecimal hilo.hi.toInt).map some ∧
      rows.map DbValues.val_lo = (hilos.map fun hilo => decimal hilo.lo.toNat).map some := by
    clear hne hhi hlo
    induction rows with
    | nil => exact ⟨[], rfl, rfl⟩
    | cons values rows ih =>
      obtain ⟨hilo, hvhi, hvlo⟩ := hstored values List.mem_cons_self
      obtain ⟨hilos, hhilos, hlos⟩ := ih fun values' hmem => hstored values' (List.mem_cons_of_mem _ hmem)
      exact ⟨hilo :: hilos, by simp only [List.map_cons, hvhi, hhilos], by simp only [List.map_cons, hvlo, hlos]⟩
  obtain ⟨hiData, hhiData, hhiColumn⟩ := mvColumn_of_rows hhilos.1 hne hhi
  obtain ⟨loData, hloData, hloColumn⟩ := mvColumn_of_rows hhilos.2 hne hlo
  exact ⟨hilos, hiData, loData, hhiData, hloData, hhiColumn, hloColumn⟩

variable {hiData loData : List UInt8}

/-- The elements of a multi-value of times. -/
theorem writeHiloElements_eq {σ : Type} (lpSink : Sink σ)
    (hhi : MVColumn (hilos.map fun hilo => signedDecimal hilo.hi.toInt) hiData size)
    (hlo : MVColumn (hilos.map fun hilo => decimal hilo.lo.toNat) loData size) :
    writeHiloElements lpSink hiData loData size.toNat 0 0 [] = .each (writeHilo lpSink) hilos := by
  have hlengthHi := hhi.length_column
  have hlengthLo := hlo.length_column
  rw [hhi.column] at hlengthHi
  rw [hlo.column] at hlengthLo
  rw [hhi.toNat_size, List.length_map, hhi.column, hlo.column]
  exact @writeHiloElements_items hilos σ lpSink [] [] [] hlengthHi hlengthLo

theorem hilo_values (hhi : MVColumn (hilos.map fun hilo => signedDecimal hilo.hi.toInt) hiData size)
    (hlo : MVColumn (hilos.map fun hilo => decimal hilo.lo.toNat) loData size) :
    ((ECDatabaseUtils.mvStrings hiData size).map Lib.atoi).zipWith HiloLong.mk
      ((ECDatabaseUtils.mvStrings loData size).map atoui) = hilos := by
  rw [hhi.mvStrings, hlo.mvStrings, List.map_map, List.map_map, List.zipWith_map, List.zipWith_self]
  refine (List.map_congr_left fun hilo _ => ?_).trans (List.map_id hilos)
  rw [Function.comp_apply, Function.comp_apply, atoi_signedDecimal, atoui_decimal]
  rfl

/-- Multi-values of times. -/
theorem hilo_agrees (hvhi : lpRow.values.val_hi = some hiData) (hvlo : lpRow.values.val_lo = some loData)
    (hhi : MVColumn (hilos.map fun hilo => signedDecimal hilo.hi.toInt) hiData (Lib.atoi lpRow.id))
    (hlo : MVColumn (hilos.map fun hilo => decimal hilo.lo.toNat) loData (Lib.atoi lpRow.id)) :
    Agrees lpStreamCaps charset d .PT_MV_SYSTIME lpRow ∧ Agrees lpStreamCaps charset d .PT_MV_CURRENCY lpRow := by
  have hlength : hilos.length < 2 ^ 31 := by
    have hitems := hhi.length_items
    rwa [List.length_map] at hitems
  have hsize : Lib.atoi lpRow.id = BitVec.ofNat 32 hilos.length := by
    rw [hhi.size, List.length_map]
  have hpointer : Calls.ofSizedPtr ⟨some hilos, Lib.atoi lpRow.id⟩ = some ⟨hilos, hlength⟩ := by
    rw [Calls.ofSizedPtr, Option.bind_some, dif_pos ⟨hlength, hsize⟩]
  have hwrite (σ : Type) (lpSink : Sink σ) : (do
        writeOne lpSink 4 (Lib.atoi lpRow.id)
        writeHiloElements lpSink hiData loData (Lib.atoi lpRow.id).toNat 0 0 []) =
      Calls.writeCounted lpSink (writeHilo lpSink) ⟨hilos, hlength⟩ := by
    rw [writeHiloElements_eq lpSink hhi hlo, hsize]
    rfl
  constructor
  · refine ⟨.mvhilo ⟨some hilos, Lib.atoi lpRow.id⟩, .PT_MV_SYSTIME ⟨hilos, hlength⟩, ?_,
      congrArg (Option.map PropValData.PT_MV_SYSTIME) hpointer, rfl, fun σ lpSink => ?_⟩
    · rw [readValue, hvhi, hvlo]
      exact congrArg (fun l => Except.ok (PropValUnion.mvhilo ⟨some l, Lib.atoi lpRow.id⟩)) (hilo_values hhi hlo)
    · rw [serializeColumns, hvhi, hvlo]
      exact congrArg some (hwrite σ lpSink)
  · refine ⟨.mvhilo ⟨some hilos, Lib.atoi lpRow.id⟩, .PT_MV_CURRENCY ⟨hilos, hlength⟩, ?_,
      congrArg (Option.map PropValData.PT_MV_CURRENCY) hpointer, rfl, fun σ lpSink => ?_⟩
    · rw [readValue, hvhi, hvlo]
      exact congrArg (fun l => Except.ok (PropValUnion.mvhilo ⟨some l, Lib.atoi lpRow.id⟩)) (hilo_values hhi hlo)
    · rw [serializeColumns, hvhi, hvlo]
      exact congrArg some (hwrite σ lpSink)

/-- The binary values of a multi-value. -/
theorem binaries_agree {bins : List Base64Binary} {lpRowData : List UInt8}
    (h : MVColumn (bins.map fun bin => bin.elems) lpRowData size) :
    ∃ mvbin : Counted 31 Base64Binary, mvbin.elems = bins ∧
      ((Calls.ofSizedPtr (elementsOf lpRowData size binaryOf)).bind fun mv =>
        binaries (mv.elems.map Calls.ofSizedPtr)) = some mvbin := by
  have hlength : bins.length < 2 ^ 31 := by
    have hitems := h.length_items
    rwa [List.length_map] at hitems
  have hall : (bins.map fun bin => Calls.ofSizedPtr (binaryOf bin.elems)) = bins.map some :=
    List.map_congr_left fun bin _ => ofSizedPtr_binaryOf bin.length_lt
  refine ⟨⟨bins, hlength⟩, rfl, ?_⟩
  rw [h.ofSizedPtr binaryOf, Option.bind_some]
  dsimp only
  rw [List.map_map, List.map_map]
  show binaries (bins.map fun bin => Calls.ofSizedPtr (binaryOf bin.elems)) = _
  have hmap : (bins.map some).mapM id = some bins := by
    rw [List.mapM_map]
    exact (mapM_eq_pure (m := Option) (g := id) fun _ _ => rfl).trans (congrArg some (List.map_id bins))
  rw [hall, binaries, hmap]
  exact dif_pos hlength

/-- Multi-values. -/
theorem multi_agrees {type : PropType} (htype : type.code &&& MV_FLAG = MV_FLAG) {ulPropTag : BitVec 32}
    (hne : rows ≠ []) (hstored : ∀ values ∈ rows, StoredAs values type)
    (hrow : MVSelected ulPropTag rows lpRow) : Agrees lpStreamCaps charset d type lpRow := by
  cases type with
  | PT_MV_I2 =>
    obtain ⟨l, lpRowData, hdata, hcolumn⟩ := numbers_agree hne hstored hrow.val_ulong
    rw [← hrow.id] at hcolumn
    refine ⟨.mvi (elementsOf lpRowData _ fun strData => (atoui strData).setWidth 16), .PT_MV_I2 ⟨_, hcolumn.length_map _⟩, by rw [readValue, hdata]; rfl,
      congrArg (Option.map PropValData.PT_MV_I2) (hcolumn.ofSizedPtr _), rfl, fun σ lpSink => ?_⟩
    rw [serializeColumns, hdata]
    refine congrArg some (hcolumn.writeCounted lpSink fun s hs => ?_)
    -- a column of unsigned numbers is read alike by atoi and atoui
    obtain ⟨ul, -, rfl⟩ := List.mem_map.mp hs
    rw [atoi_decimal, atoui_decimal]
  | PT_MV_LONG =>
    obtain ⟨l, lpRowData, hdata, hcolumn⟩ := numbers_agree hne hstored hrow.val_ulong
    rw [← hrow.id] at hcolumn
    refine ⟨.mvl (elementsOf lpRowData _ atoui), .PT_MV_LONG ⟨_, hcolumn.length_map _⟩, by rw [readValue, hdata]; rfl,
      congrArg (Option.map PropValData.PT_MV_LONG) (hcolumn.ofSizedPtr _), rfl, fun σ lpSink => ?_⟩
    rw [serializeColumns, hdata]
    exact congrArg some (hcolumn.writeCounted lpSink fun s _ => rfl)
  | PT_MV_I8 =>
    obtain ⟨l, lpRowData, hdata, hcolumn⟩ := numbers_agree hne hstored hrow.val_longint
    rw [← hrow.id] at hcolumn
    refine ⟨.mvli (elementsOf lpRowData _ atoll), .PT_MV_I8 ⟨_, hcolumn.length_map _⟩, by rw [readValue, hdata]; rfl,
      congrArg (Option.map PropValData.PT_MV_I8) (hcolumn.ofSizedPtr _), rfl, fun σ lpSink => ?_⟩
    rw [serializeColumns, hdata]
    exact congrArg some (hcolumn.writeCounted lpSink fun s _ => rfl)
  | PT_MV_SYSTIME =>
    obtain ⟨hilos, hiData, loData, hhi, hlo, hhiColumn, hloColumn⟩ :=
      hilos_agree hne hstored hrow.val_hi hrow.val_lo
    rw [← hrow.id] at hhiColumn hloColumn
    exact (hilo_agrees lpStreamCaps charset d hhi hlo hhiColumn hloColumn).1
  | PT_MV_CURRENCY =>
    obtain ⟨hilos, hiData, loData, hhi, hlo, hhiColumn, hloColumn⟩ :=
      hilos_agree hne hstored hrow.val_hi hrow.val_lo
    rw [← hrow.id] at hhiColumn hloColumn
    exact (hilo_agrees lpStreamCaps charset d hhi hlo hhiColumn hloColumn).2
  | PT_MV_STRING8 | PT_MV_UNICODE =>
    obtain ⟨l, hl, hzero⟩ := exists_items id hstored
    obtain ⟨lpRowData, hdata, hcolumn⟩ := mvColumn_of_rows hl hne hrow.val_string
    rw [List.map_id, ← hrow.id] at hcolumn
    refine ⟨.mvszA (elementsOf lpRowData _ fun strData => some (cstr strData)), .PT_MV_UNICODE ⟨_, hcolumn.length_map _⟩, by rw [readValue, hdata]; rfl,
      congrArg (Option.map PropValData.PT_MV_UNICODE) (hcolumn.ofSizedPtr _), rfl, fun σ lpSink => ?_⟩
    rw [serializeColumns, hdata]
    exact congrArg some (hcolumn.writeCounted lpSink fun s hs =>
      writeStringColumn_eq lpStreamCaps charset lpSink (hzero s hs) (hcolumn.length_item hs))
  | PT_MV_BINARY =>
    obtain ⟨bins, lpRowData, hdata, hcolumn⟩ := numbers_agree hne hstored hrow.val_binary
    rw [← hrow.id] at hcolumn
    obtain ⟨mvbin, rfl, hmvbin⟩ := binaries_agree hcolumn
    refine ⟨.mvbin (elementsOf lpRowData _ binaryOf), .PT_MV_BINARY mvbin, by rw [readValue, hdata]; rfl,
      congrArg (Option.map PropValData.PT_MV_BINARY) hmvbin, rfl, fun σ lpSink => ?_⟩
    rw [serializeColumns, hdata, Option.map_some, hcolumn.writeMultiColumn, hcolumn.size, List.length_map, writeMulti,
      each_map]
    rfl
  | PT_MV_CLSID =>
    obtain ⟨bins, lpRowData, hdata, hcolumn⟩ := numbers_agree hne hstored hrow.val_binary
    rw [← hrow.id] at hcolumn
    obtain ⟨mvbin, rfl, hmvbin⟩ := binaries_agree hcolumn
    refine ⟨.mvbin (elementsOf lpRowData _ binaryOf), .PT_MV_CLSID mvbin, by rw [readValue, hdata]; rfl,
      congrArg (Option.map PropValData.PT_MV_CLSID) hmvbin, rfl, fun σ lpSink => ?_⟩
    rw [serializeColumns, hdata, Option.map_some, hcolumn.writeMultiColumn, hcolumn.size, List.length_map, writeMulti,
      each_map]
    rfl
  | PT_MV_R4 | PT_MV_DOUBLE | PT_MV_APPTIME =>
    obtain ⟨values, hvalues⟩ := List.exists_mem_of_ne_nil rows hne
    exact (hstored values hvalues).elim
  | _ => exact absurd htype (by decide)

end Multi

/-! ## Rows -/

/-- The value of the row that is selected for stored rows. -/
theorem selected_agrees {type : PropType} {ulPropTag : BitVec 32} (htag : PROP_TYPE ulPropTag = type.code)
    (hne : rows ≠ []) (hstored : ∀ values ∈ rows, StoredAs values type)
    (hrow : selected ulPropTag rows = some lpRow) :
    Agrees lpStreamCaps charset d type lpRow ∧ lpRow.tag = decimal (PROP_ID ulPropTag).toNat ∧
      lpRow.type = decimal type.code.toNat := by
  unfold selected at hrow
  rw [htag] at hrow
  split_ifs at hrow with hmulti
  · have hselected := selectMVProperty_spec hrow
    exact ⟨multi_agrees lpStreamCaps charset d hmulti hne hstored hselected, hselected.tag, htag ▸ hselected.type⟩
  · obtain ⟨values, rows, rfl⟩ := List.exists_cons_of_ne_nil hne
    have hselect : selectProperty ulPropTag values = some lpRow := hrow
    obtain ⟨htag', htype, hvalues⟩ := selectProperty_spec hselect
    have hlength : (lpRow.values.val_string.getD []).length < 2 ^ 32 := by
      obtain ⟨val_string, hstring, -⟩ := Option.bind_eq_some_iff.mp hselect
      rw [resultColumn] at hstring
      split_ifs at hstring with hshort
      exact hvalues ▸ hshort
    have hstored' : StoredAs lpRow.values type := hvalues ▸ hstored values List.mem_cons_self
    exact ⟨single_agrees lpStreamCaps charset d hmulti hstored' hlength, htag', htag ▸ htype⟩

theorem atoi_decimal_word (x : BitVec 16) : Lib.atoi (decimal x.toNat) = x.setWidth 32 := by
  have h := atoi_decimal (x.setWidth 32)
  rwa [BitVec.toNat_setWidth_of_le (by decide)] at h

theorem setWidth_atoi (x : BitVec 16) : (Lib.atoi (decimal x.toNat)).setWidth 16 = x := by
  rw [atoi_decimal_word, BitVec.setWidth_setWidth_of_le _ (by decide), BitVec.setWidth_eq]

theorem rowType_of_code {type : PropType} (h : lpRow.type = decimal type.code.toNat) : rowType lpRow = some type := by
  unfold rowType
  rw [h, atoi_decimal_word]
  cases type <;> rfl

/-- The columns are there when there is a value. -/
theorem hasColumns_of_agrees {type : PropType} (h : Agrees lpStreamCaps charset d type lpRow) :
    hasColumns lpRow type = true := by
  obtain ⟨Value, -, hread, -⟩ := h
  cases type with
  | PT_CURRENCY | PT_SYSTIME | PT_MV_CURRENCY | PT_MV_SYSTIME =>
    rw [readValue] at hread
    rw [hasColumns]
    rcases hhi : lpRow.values.val_hi with _ | hi
    · rw [hhi] at hread
      cases hread
    · rcases hlo : lpRow.values.val_lo with _ | lo
      · rw [hhi, hlo] at hread
        cases hread
      · rfl
  | _ =>
    rw [readValue] at hread
    rw [hasColumns]
    rw [Option.isSome_iff_ne_none]
    intro hnone
    rw [hnone] at hread
    cases hread

/-- The tag that is streamed has the type of the row, unless this is a type of Unicode strings. -/
theorem streamType_toUnicode {type : PropType} (h : type ≠ .PT_UNICODE ∧ type ≠ .PT_MV_UNICODE) :
    streamType type.toUnicode.code.toNat = type.code.toNat := by
  cases type with
  | PT_UNICODE => exact absurd rfl h.1
  | PT_MV_UNICODE => exact absurd rfl h.2
  | _ => rfl

theorem propTag_eq (type : BitVec 16) (id : BitVec 16) : propTag type.toNat id = PROP_TAG type id := by
  apply BitVec.eq_of_toNat_eq
  have htype := type.isLt
  have hid := id.isLt
  rw [propTag, PROP_TAG, BitVec.toNat_ofNat, BitVec.toNat_append, ← Nat.shiftLeft_add_eq_or_of_lt htype,
    Nat.shiftLeft_eq]
  omega

theorem PROP_TYPE_tag (type id : BitVec 16) : PROP_TYPE (PROP_TAG type id) = type := by
  unfold PROP_TYPE PROP_TAG
  exact BitVec.extractLsb'_append_eq_right

theorem PROP_ID_tag (type id : BitVec 16) : PROP_ID (PROP_TAG type id) = id := by
  unfold PROP_ID PROP_TAG
  exact BitVec.extractLsb'_append_eq_left

/-- The name of the row, and that of the map that was made from it. -/
theorem serializeNameColumns_eq {lpRow : StreamRow} {namedPropDef : NamedPropDef}
    (h : prepareNamedPropDef lpRow = some namedPropDef) {σ : Type} (lpSink : Sink σ) :
    serializeNameColumns lpSink lpRow = serializeName lpSink namedPropDef := by
  obtain ⟨guid, hguid, h⟩ := Option.bind_eq_some_iff.mp h
  split_ifs at h with hlength
  rcases hid : lpRow.nameid with _ | nameid
  · rcases hstring : lpRow.namestr with _ | namestr
    · rw [hid, hstring] at h
      cases h
    · rw [hid, hstring] at h
      dsimp only at h
      split_ifs at h with hname
      obtain rfl := Option.some_inj.mp h
      have htake : namestr.take (BitVec.ofNat 32 namestr.length).toNat = namestr := by
        rw [BitVec.toNat_ofNat, Nat.mod_eq_of_lt hname, List.take_length]
      unfold serializeNameColumns serializeName writeBinary
      rw [hguid, hid, hstring]
      dsimp only
      rw [htake, if_neg (by decide), if_pos rfl]
      rfl
  · rw [hid] at h
    obtain rfl := Option.some_inj.mp h
    unfold serializeNameColumns serializeName
    rw [hguid, hid]
    rfl

/-- **The encoders agree**: on the row of a property as it is stored and on the value that is made of the row they make
the same calls on any sink, in both versions of the stream. -/
theorem serializers_agree {type : PropType} (hstring : type ≠ .PT_UNICODE ∧ type ≠ .PT_MV_UNICODE)
    {ulPropTag : BitVec 32} (htag : PROP_TYPE ulPropTag = type.code) {rows : List DbValues} (hne : rows ≠ [])
    (hstored : ∀ values ∈ rows, StoredAs values type) {lpRow : StreamRow}
    (hrow : selected ulPropTag rows = some lpRow.toDbRow) {lpNamedPropDefs : Option NamedPropDefMap}
    (hnames : 0x8500 < PROP_ID ulPropTag → ∃ map namedPropDef, lpNamedPropDefs = some map ∧
      prepareNamedPropDef lpRow = some namedPropDef ∧ map ulPropTag = some namedPropDef) :
    ∃ v sPropVal, copyDatabasePropValToSOAPPropVal d lpRow.toDbRow = .ok v ∧ ofPropVal v = some sPropVal ∧
      ∀ (σ : Type) (lpSink : Sink σ), serializeDatabasePropVal lpSink lpStreamCaps charset d lpRow =
          serializePropVal lpSink lpStreamCaps charset sPropVal lpNamedPropDefs := by
  obtain ⟨hagrees, hid, htype⟩ := selected_agrees lpStreamCaps charset d htag hne hstored hrow
  have hcolumns := hasColumns_of_agrees lpStreamCaps charset d hagrees
  obtain ⟨Value, data, hread, hdata, hpropType, hserialize⟩ := hagrees
  have hrowId : rowId lpRow.toDbRow = PROP_ID ulPropTag := by
    rw [rowId, hid, setWidth_atoi]
  have hvalidated : getValidatedPropType lpRow.toDbRow = .erSuccess type := by
    rw [getValidatedPropType, rowType_of_code htype]
    exact if_pos hcolumns
  have htagEq : PROP_TAG type.code (PROP_ID ulPropTag) = ulPropTag := by
    rw [← htag]
    exact BitVec.extractLsb'_append_extractLsb'
  have hstreamTag : streamTag ⟨PROP_ID ulPropTag, data⟩ = ulPropTag := by
    rw [streamTag, hpropType, streamType_toUnicode hstring, propTag_eq, htagEq]
  refine ⟨⟨PROP_TAG type.toUnicode.code (PROP_ID ulPropTag), Value⟩, ⟨PROP_ID ulPropTag, data⟩, ?_, ?_, fun σ lpSink => ?_⟩
  · exact copyDatabasePropVal_spec (v := ⟨ulPropTag, Value⟩) htag hid (htag ▸ htype) hread
  · rw [ofPropVal, PROP_TYPE_tag, PropType.ofCode_code, Option.bind_some, hdata, Option.map_some, PROP_ID_tag]
  · unfold serializeDatabasePropVal serializePropVal
    rw [hvalidated]
    dsimp only
    rw [hserialize σ lpSink, hrowId, htagEq, hstreamTag]
    dsimp only
    by_cases hnamed : 0x8500 < PROP_ID ulPropTag
    · obtain ⟨map, namedPropDef, rfl, hprepared, hmap⟩ := hnames hnamed
      have hlookup : lookUpName ⟨PROP_ID ulPropTag, data⟩ (some map) = .ok namedPropDef := by
        rw [lookUpName, hstreamTag, hmap]
      rw [if_pos hnamed, if_pos hnamed, hlookup, serializeNameColumns_eq hprepared]
    · rw [if_neg hnamed, if_neg hnamed]

end Values

/-- The rows of two strings. -/
def stringRows : List DbValues :=
  [⟨none, some [97], none, none, none, none, none⟩, ⟨none, some [], none, none, none, none, none⟩]

theorem serializers_agree_strings : ∃ lpRow : StreamRow, selected 0x6601101E stringRows = some lpRow.toDbRow ∧
      ∃ v sPropVal, copyDatabasePropValToSOAPPropVal mysql lpRow.toDbRow = .ok v ∧ ofPropVal v = some sPropVal ∧
        ∀ (σ : Type) (lpSink : Sink σ), serializeDatabasePropVal lpSink ⟨true⟩ ⟨id, fun c => [c]⟩ mysql lpRow =
            serializePropVal lpSink ⟨true⟩ ⟨id, fun c => [c]⟩ sPropVal none := by
  have hrow : selected 0x6601101E stringRows = some (StreamRow.toDbRow ⟨⟨decimal 2, decimal 0x6601, decimal 0x101E,
      ⟨none, some [49, 58, 97, 48, 58], none, none, none, none, none⟩⟩, none, none, none⟩) := rfl
  have hstored : ∀ values ∈ stringRows, StoredAs values .PT_MV_STRING8 := by
    intro values hmem
    rcases List.mem_pair.mp hmem with rfl | rfl
    · exact ⟨_, rfl, by decide⟩
    · exact ⟨_, rfl, by decide⟩
  exact ⟨_, hrow, serializers_agree _ _ mysql (by decide) (by decide) (List.cons_ne_nil _ _) hstored hrow
    fun h => absurd h (by decide)⟩

end Zcp.Libserver.StreamUtil.Calls
