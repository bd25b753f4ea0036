import Zcp.Libserver.StreamUtil.Costs
import Zcp.Libserver.StreamUtil.Message

/-!
# Reading a message back

`DeserializeObject` should make the tree of objects again that `SerializeMessage` wrote, from exactly the
bytes that it wrote. `restored_iff` says when it does. A row that the writer skips is counted, an object
without properties has no count of its own, and sizes are kept in 32 bits.
-/

namespace Zcp.Libserver.StreamUtil

open Zcp.Lib
open Zcp.Common
open Zcp.Common.SOAPUtils (PropVal)
open Zcp.Common.ECSerializer (Failure Source)
open Zcp.Common.ECStreamSerializer

/-! ## What is promised -/

section Promise

variable (namedPropertyMapper : NamedPropertyMapper)

/-- The local id of a name. -/
def localId (namedPropDef : NamedPropDef) : Except Failure (BitVec 32) :=
  if namedPropDef.ulKind = MNID_ID then
    namedPropertyMapper.getId namedPropDef.guid.bytes namedPropDef.ulId
  else namedPropertyMapper.getStringId namedPropDef.guid.bytes namedPropDef.strName.elems

/-- The id of a property after its name, if it has one, has been mapped. -/
def mappedId (id : BitVec 16) (name : Option NamedPropDef) : BitVec 16 :=
  if 0x8500 < id then
    match name.map (localId namedPropertyMapper) with
    | some (.ok ulLocalId) => ulLocalId.setWidth 16
    | _ => id
  else id

/-- The properties in rows; a row without a value has none. -/
def Row.props (rows : List Row) : List PropVal :=
  rows.filterMap fun row =>
    row.Value.map fun value => ⟨mappedId namedPropertyMapper row.ulPropId (some row.name), value⟩

/-- The properties of a sub-object, as they are streamed. -/
def SubObject.tree (lpNamedPropDefs : NamedPropDefMap) (object : SubObject) : List PropVal :=
  (object.props.elim [] Counted.elems).map fun sPropVal =>
    ⟨mappedId namedPropertyMapper sPropVal.ulPropId
      (lpNamedPropDefs (propTag (streamType (propType sPropVal.Value)) sPropVal.ulPropId)),
      string8 sPropVal.Value⟩

mutual

/-- The tree of a message. -/
def Message.tree (sourceKey : Option Base64Binary) : Message → Object
  | .mk rows mapNamedPropDefs subObjects =>
    .mk MAPI_MESSAGE
      (Row.props namedPropertyMapper rows.elems ++ (sourceKey.map sourceKeyProp).toList) []
      (subObjects.trees mapNamedPropDefs)

/-- The trees of sub-objects. Only an attachment has data, and a message of its own. -/
def SubObjects.trees (mapNamedPropDefs : NamedPropDefMap) : SubObjects → List Object
  | .nil => []
  | .sub object rest =>
    let data := if object.ulSubObjType = MAPI_ATTACH then object.data.getD [] else []
    .mk object.ulSubObjType (object.tree namedPropertyMapper mapNamedPropDefs) data [] ::
      rest.trees mapNamedPropDefs
  | .embedding object _ _ message rest =>
    let data := if object.ulSubObjType = MAPI_ATTACH then object.data.getD [] else []
    let messages := if object.ulSubObjType = MAPI_ATTACH then [message.tree none] else []
    .mk object.ulSubObjType (object.tree namedPropertyMapper mapNamedPropDefs) data messages ::
      rest.trees mapNamedPropDefs

end

/-- The counts of the properties and of the bytes of a sub-object. -/
def SubObject.CountsMatch (object : SubObject) : Prop :=
  (∃ props, object.props = some props ∧
    (BitVec.ofNat 32 props.elems.length).toNat = props.elems.length) ∧
  (object.ulSubObjType = MAPI_ATTACH →
    (BitVec.ofNat 32 (object.data.getD []).length).toNat = (object.data.getD []).length)

mutual

/-- Every count in the stream of a message is that of the items which follow it. -/
def Message.CountsMatch (sourceKey : Option Base64Binary) : Message → Prop
  | .mk rows _ subObjects =>
    (BitVec.ofNat 32 (rows.elems.length + sourceKey.toList.length)).toNat =
        (Row.props namedPropertyMapper rows.elems ++ (sourceKey.map sourceKeyProp).toList).length ∧
      (BitVec.ofNat 32 subObjects.numRows).toNat = subObjects.numRows ∧ subObjects.CountsMatch

def SubObjects.CountsMatch : SubObjects → Prop
  | .nil => True
  | .sub object rest => object.CountsMatch ∧ rest.CountsMatch
  | .embedding object _ _ message rest =>
    object.CountsMatch ∧ (object.ulSubObjType = MAPI_ATTACH → message.CountsMatch none) ∧
      rest.CountsMatch

end

mutual

/-- How deep the objects in a message are nested. -/
def Message.depth : Message → ℕ
  | .mk _ _ subObjects => subObjects.depth + 1

def SubObjects.depth : SubObjects → ℕ
  | .nil => 0
  | .sub _ rest => max 1 rest.depth
  | .embedding _ _ _ message rest => max (message.depth + 1) rest.depth

end

variable (lpStreamCaps : StreamCaps) (charset : Charset)

/-- In front of any other bytes exactly these bytes are read, which gives the tree of the message. A reader
has to follow the objects deep enough. -/
def Restored (sourceKey : Option Base64Binary) (message : Message) (bytes : List UInt8) : Prop :=
  ∃ enough, ∀ depth, enough ≤ depth → ∀ rest,
    deserializeStream charset namedPropertyMapper depth (bytes ++ rest) () =
      (.ok (message.tree namedPropertyMapper sourceKey), rest, ())

/-- Strings without zeros, in characters of the charset. -/
def HasStrings (value : PropValData) : Prop :=
  ∀ lpszA ∈ strings value, ∃ text, IsString lpStreamCaps charset lpszA text

/-- A row from the database: when there is a value, its strings are strings, and the id of a name is
known. -/
def Row.Stored (row : Row) : Prop :=
  ∀ value, row.Value = some value → HasStrings lpStreamCaps charset value ∧
    (0x8500 < row.ulPropId → ∃ ulLocalId, HasLocalId namedPropertyMapper row.name ulLocalId)

/-- A property in memory, of a type that the database has. -/
structure PropVal.Stored (lpNamedPropDefs : NamedPropDefMap) (sPropVal : PropVal) : Prop where
  supported : (serializeValue lpStreamCaps charset sPropVal.Value).isSome = true
  strings : HasStrings lpStreamCaps charset sPropVal.Value
  named : 0x8500 < sPropVal.ulPropId → ∃ namedPropDef ulLocalId,
    lpNamedPropDefs (propTag (streamType (propType sPropVal.Value)) sPropVal.ulPropId) =
      some namedPropDef ∧ HasLocalId namedPropertyMapper namedPropDef ulLocalId

def SubObject.Stored (lpNamedPropDefs : NamedPropDefMap) (object : SubObject) : Prop :=
  ∀ props, object.props = some props → ∀ sPropVal ∈ props.elems,
    PropVal.Stored namedPropertyMapper lpStreamCaps charset lpNamedPropDefs sPropVal

mutual

/-- A message as it is stored. -/
def Message.Stored : Message → Prop
  | .mk rows mapNamedPropDefs subObjects =>
    (∀ row ∈ rows.elems, row.Stored namedPropertyMapper lpStreamCaps charset) ∧
      subObjects.Stored mapNamedPropDefs

def SubObjects.Stored (mapNamedPropDefs : NamedPropDefMap) : SubObjects → Prop
  | .nil => True
  | .sub object rest =>
    object.Stored namedPropertyMapper lpStreamCaps charset mapNamedPropDefs ∧
      rest.Stored mapNamedPropDefs
  | .embedding object _ _ message rest =>
    object.Stored namedPropertyMapper lpStreamCaps charset mapNamedPropDefs ∧ message.Stored ∧
      rest.Stored mapNamedPropDefs

end

/-! ## The condition -/

/-- The row is not skipped, and its value fits. -/
def Row.Fits (row : Row) : Prop :=
  ∃ value, row.Value = some value ∧ StreamUtil.Fits lpStreamCaps charset value

/-- There is a property, and all values fit; the data of an attachment is shorter than `2 ^ 32` bytes. -/
def SubObject.Fits (object : SubObject) : Prop :=
  (∃ props, object.props = some props ∧
    ∀ sPropVal ∈ props.elems, StreamUtil.Fits lpStreamCaps charset sPropVal.Value) ∧
  (object.ulSubObjType = MAPI_ATTACH → (object.data.getD []).length < 2 ^ 32)

mutual

/-- In the whole message, no row is skipped, no object is without properties, and everything fits. -/
def Message.Fits : Message → Prop
  | .mk rows _ subObjects =>
    (∀ row ∈ rows.elems, row.Fits lpStreamCaps charset) ∧ subObjects.numRows < 2 ^ 32 ∧
      subObjects.Fits

def SubObjects.Fits : SubObjects → Prop
  | .nil => True
  | .sub object rest => object.Fits lpStreamCaps charset ∧ rest.Fits
  | .embedding object _ _ message rest =>
    object.Fits lpStreamCaps charset ∧ (object.ulSubObjType = MAPI_ATTACH → message.Fits) ∧ rest.Fits

end

end Promise

/-! ## Counts -/

variable {bytes : List UInt8}

/-- A count in front of as many results. -/
theorem restores_announced {α : Type} {p : Source α} {l : List α} {good : Prop}
    (n : ℕ) (h : Restores (ByteReader.collect p l.length) bytes good () l ()) :
    Restores (readOne 4 >>= fun ulCount => ByteReader.collect p ulCount.toNat)
      (write 4 [BitVec.ofNat 32 n] ++ bytes) (n % 2 ^ 32 = l.length ∧ good) () l () := by
  have hcount := reads_readOne 4 (by decide) (BitVec.ofNat 32 n)
  have htoNat : (BitVec.ofNat 32 n).toNat = n % 2 ^ 32 := BitVec.toNat_ofNat n 32
  constructor
  · rintro ⟨hn, hgood⟩ rest
    rw [List.append_assoc, bind_ok ((hcount _).1 trivial), htoNat, hn]
    exact h.ok hgood rest
  · intro hbad rest rest' s hread
    rw [List.append_assoc, bind_ok ((hcount _).1 trivial), htoNat] at hread
    by_cases hn : n % 2 ^ 32 = l.length
    · rw [hn] at hread
      exact h.more (fun hgood => hbad ⟨hn, hgood⟩) rest rest' s hread
    · exact absurd hread (never_collect (Ne.symm hn) _ _ _ _)
  · rw [List.length_append, length_write, List.length_singleton, mul_one]
    exact costs_after fun ulCount => h.costs.collect_any ulCount.toNat

/-! ## Properties -/

variable {ulLocalId : BitVec 32} {id : BitVec 16} {lpNamedPropDefs : NamedPropDefMap} {object : SubObject}

section Properties

variable {lpStreamCaps : StreamCaps} {charset : Charset} {namedPropertyMapper : NamedPropertyMapper}

theorem localId_eq {namedPropDef : NamedPropDef} (h : HasLocalId namedPropertyMapper namedPropDef ulLocalId) :
    localId namedPropertyMapper namedPropDef = .ok ulLocalId := by
  have hstring : MNID_STRING ≠ MNID_ID := by decide
  unfold localId
  cases h with
  | id hkind hid => rw [if_pos hkind, hid]
  | string hkind hid => rw [if_neg (hkind ▸ hstring), hid]

theorem mappedId_plain (h : ¬ 0x8500 < id) (name : Option NamedPropDef) :
    mappedId namedPropertyMapper id name = id := if_neg h

theorem mappedId_named (h : 0x8500 < id) {namedPropDef : NamedPropDef}
    (hid : HasLocalId namedPropertyMapper namedPropDef ulLocalId) :
    mappedId namedPropertyMapper id (some namedPropDef) = ulLocalId.setWidth 16 := by
  unfold mappedId
  rw [if_pos h, Option.map_some, localId_eq hid]

/-- A property is restored when its value fits. -/
theorem restores_deserializePropVal (hcharset : charset.SingleByte)
    (hsound : namedPropertyMapper.Sound) {value : PropValData}
    (hstrings : HasStrings lpStreamCaps charset value) {name : List UInt8}
    {ulPropId : BitVec 16} (hbytes : serializeValue lpStreamCaps charset value = some bytes)
    (hname : MappedName namedPropertyMapper id name ulPropId) :
    Restores (deserializePropVal lpStreamCaps charset namedPropertyMapper)
      (write 4 [propTag (propType value) id] ++ (bytes ++ name)) (Fits lpStreamCaps charset value) ()
      ⟨ulPropId, value⟩ () := by
  have hread := reads_deserializePropVal hbytes hname
  have hcosts := costs_deserializePropVal hcharset hsound hstrings hbytes hname
  have hlength : (write 4 [propTag (propType value) id] ++ (bytes ++ name)).length =
      4 + (bytes.length + name.length) := by
    rw [List.length_append, length_write, List.length_append]
    rfl
  rw [← hlength] at hcosts
  refine (hread.restores_of_ne hcosts).congr ?_
  rw [fits_iff hcharset.char_ne_nil hstrings, PropVal.mk.injEq]
  exact and_congr_right fun _ => and_iff_right rfl

/-- What the loop over items has written. -/
theorem serializeAll_ok {α : Type} {item : α → Except ECRESULT (List UInt8)} {l : List α}
    (h : serializeAll item l = .ok bytes) :
    ∃ w : α → List UInt8, (∀ a ∈ l, item a = .ok (w a)) ∧ bytes = l.flatMap w := by
  refine ⟨fun a => (item a).toOption.getD [], ?_⟩
  induction l generalizing bytes with
  | nil => exact ⟨List.forall_mem_nil _, (Except.ok.inj h).symm⟩
  | cons a l ih =>
    unfold serializeAll at h
    cases ha : item a with
    | error er => rw [ha] at h; cases h
    | ok first =>
      cases hl : serializeAll item l with
      | error er => rw [ha, hl] at h; cases h
      | ok rest =>
        rw [ha, hl] at h
        obtain ⟨hitems, hrest⟩ := ih hl
        cases h
        refine ⟨List.forall_mem_cons.mpr ⟨?_, hitems⟩, ?_⟩
        · show item a = .ok ((item a).toOption.getD [])
          rw [ha]
          rfl
        · rw [List.flatMap_cons, ha, ← hrest]
          rfl

theorem written_ok {result : ECRESULT × List UInt8}
    (h : written result = .ok bytes) : result = (.erSuccess, bytes) := by
  obtain ⟨er, bytes'⟩ := result
  cases er <;> cases h
  rfl

/-- A property in memory. -/
theorem restores_prop (hcharset : charset.SingleByte) (hsound : namedPropertyMapper.Sound) {sPropVal : PropVal}
    (hstored : PropVal.Stored namedPropertyMapper lpStreamCaps charset lpNamedPropDefs sPropVal)
    (h : written (serializePropVal lpStreamCaps charset sPropVal (some lpNamedPropDefs)) = .ok bytes) :
    Restores (deserializePropVal lpStreamCaps charset namedPropertyMapper) bytes
      (Fits lpStreamCaps charset sPropVal.Value) () ⟨mappedId namedPropertyMapper sPropVal.ulPropId
        (lpNamedPropDefs (propTag (streamType (propType sPropVal.Value)) sPropVal.ulPropId)),
        string8 sPropVal.Value⟩ () := by
  obtain ⟨hsupported, hstrings, hnamed⟩ := hstored
  obtain ⟨value, hvalue⟩ := Option.isSome_iff_exists.mp hsupported
  have hmaps : Maps namedPropertyMapper (some lpNamedPropDefs) sPropVal
      (mappedId namedPropertyMapper sPropVal.ulPropId
        (lpNamedPropDefs (propTag (streamType (propType sPropVal.Value)) sPropVal.ulPropId))) := by
    by_cases hdynamic : 0x8500 < sPropVal.ulPropId
    · obtain ⟨namedPropDef, ulLocalId, hfind, hid⟩ := hnamed hdynamic
      rw [hfind, mappedId_named hdynamic hid]
      exact .named hdynamic rfl hfind hid
    · rw [mappedId_plain hdynamic]
      exact .plain hdynamic
  obtain ⟨name, hname, hwrite⟩ := serializePropVal_eq hvalue hmaps
  cases (written_ok h).symm.trans hwrite
  have hstrings8 : HasStrings lpStreamCaps charset (string8 sPropVal.Value) := by
    rw [HasStrings, strings_string8]
    exact hstrings
  have hread := restores_deserializePropVal hcharset hsound hstrings8
    ((serializeValue_string8 sPropVal.Value).trans hvalue) hname
  exact hread.congr (fits_string8 sPropVal.Value)

/-- A row that is not skipped. -/
theorem restores_row (hcharset : charset.SingleByte) (hsound : namedPropertyMapper.Sound) {row : Row}
    (hstored : row.Stored namedPropertyMapper lpStreamCaps charset) {value : PropValData}
    (hvalue : row.Value = some value) (h : serializeDatabasePropVal lpStreamCaps charset row = .ok bytes) :
    Restores (deserializePropVal lpStreamCaps charset namedPropertyMapper) bytes (Fits lpStreamCaps charset value) ()
      ⟨mappedId namedPropertyMapper row.ulPropId (some row.name), value⟩ () := by
  obtain ⟨hstrings, hnamed⟩ := hstored value hvalue
  unfold serializeDatabasePropVal at h
  cases hbytes : serializeValue lpStreamCaps charset value with
  | none => simp only [hvalue, hbytes, reduceCtorEq] at h
  | some valueBytes =>
    by_cases hdynamic : 0x8500 < row.ulPropId
    · obtain ⟨ulLocalId, hid⟩ := hnamed hdynamic
      have hname : written (serializeName row.name) = .ok (serializeName row.name).2 := by
        rw [← Prod.eta (serializeName row.name), (reads_deserializeName hid).1]
        rfl
      simp only [hvalue, hbytes, if_pos hdynamic, hname] at h
      cases h
      rw [mappedId_named hdynamic hid]
      exact restores_deserializePropVal hcharset hsound hstrings hbytes (.named hdynamic hid)
    · simp only [hvalue, hbytes, if_neg hdynamic] at h
      cases h
      rw [mappedId_plain hdynamic]
      exact restores_deserializePropVal hcharset hsound hstrings hbytes (.plain hdynamic)

/-- The rows, and some properties behind them. -/
theorem restores_rows (hcharset : charset.SingleByte) (hsound : namedPropertyMapper.Sound)
    {rows : List Row} (hstored : ∀ row ∈ rows, row.Stored namedPropertyMapper lpStreamCaps charset)
    {w : Row → List UInt8} (h : ∀ row ∈ rows, serializeDatabasePropVal lpStreamCaps charset row = .ok (w row))
    {l : List PropVal}
    (hl : Restores (ByteReader.collect (deserializePropVal lpStreamCaps charset namedPropertyMapper)
      l.length) bytes True () l ()) :
    Restores (ByteReader.collect (deserializePropVal lpStreamCaps charset namedPropertyMapper)
        (Row.props namedPropertyMapper rows ++ l).length) (rows.flatMap w ++ bytes)
      (∀ row ∈ rows, ∀ value, row.Value = some value → Fits lpStreamCaps charset value) ()
      (Row.props namedPropertyMapper rows ++ l) () := by
  induction rows with
  | nil => exact hl.congr (iff_of_true trivial (List.forall_mem_nil _))
  | cons row rows ih =>
    obtain ⟨hrow, hrows⟩ := List.forall_mem_cons.mp hstored
    obtain ⟨hwrite, hwrites⟩ := List.forall_mem_cons.mp h
    have hrest := ih hrows hwrites
    unfold Row.props at hrest ⊢
    cases hvalue : row.Value with
    | none =>
      -- such a row writes nothing
      have hnil : w row = [] := by
        unfold serializeDatabasePropVal at hwrite
        rw [hvalue] at hwrite
        exact (Except.ok.inj hwrite).symm
      rw [List.filterMap_cons_none (by rw [hvalue]; rfl), List.flatMap_cons, hnil, List.nil_append]
      refine hrest.congr ?_
      rw [List.forall_mem_cons]
      exact (and_iff_right fun value hsome => by cases hvalue.symm.trans hsome).symm
    | some value =>
      rw [List.filterMap_cons_some (by rw [hvalue]; rfl), List.flatMap_cons, List.append_assoc]
      refine ((restores_row hcharset hsound hrow hvalue hwrite).collect_cons hrest).congr ?_
      rw [List.forall_mem_cons]
      refine and_congr_left fun _ => ?_
      constructor
      · intro hfits value' hsome
        cases hvalue.symm.trans hsome
        exact hfits
      · exact fun hfits => hfits value hvalue

theorem length_props (rows : List Row) : (Row.props namedPropertyMapper rows).length = rows.length ↔
      ∀ row ∈ rows, ∃ value, row.Value = some value := by
  unfold Row.props
  rw [List.filterMap_length_eq_length]
  refine forall₂_congr fun row _ => ?_
  rw [Option.isSome_map, Option.isSome_iff_exists]

theorem length_sourceKey (sourceKey : Option Base64Binary) :
    (sourceKey.map sourceKeyProp).toList.length = sourceKey.toList.length ∧ sourceKey.toList.length ≤ 1 := by
  cases sourceKey with
  | none => exact ⟨rfl, Nat.zero_le 1⟩
  | some key => exact ⟨rfl, le_rfl⟩

/-- The source key is never too long. -/
theorem restores_sourceKey (hcharset : charset.SingleByte) (hsound : namedPropertyMapper.Sound)
    (sourceKey : Base64Binary)
    (h : written (serializePropVal lpStreamCaps charset (sourceKeyProp sourceKey) none) = .ok bytes) :
    Restores (deserializePropVal lpStreamCaps charset namedPropertyMapper) bytes True ()
      (sourceKeyProp sourceKey) () := by
  have hplain : ¬ 0x8500 < (sourceKeyProp sourceKey).ulPropId := by
    show ¬ (0x8500 : BitVec 16) < 0x65E0
    decide
  have hbytes : serializeValue lpStreamCaps charset (sourceKeyProp sourceKey).Value =
      some (writeBinary sourceKey) := rfl
  cases (written_ok h).symm.trans (serializePropVal_plain hbytes hplain)
  have hstrings : HasStrings lpStreamCaps charset (sourceKeyProp sourceKey).Value :=
    List.forall_mem_nil _
  have hname : MappedName namedPropertyMapper (sourceKeyProp sourceKey).ulPropId [] _ := .plain hplain
  have hread := restores_deserializePropVal hcharset hsound hstrings hbytes hname
  rw [List.append_nil] at hread
  exact hread.congr (iff_true_intro (List.forall_mem_nil _))

theorem exists_of_except_bind {α β : Type} {x : Except ECRESULT α} {f : α → Except ECRESULT β} {b : β}
    (h : x >>= f = .ok b) : ∃ a, x = .ok a ∧ f a = .ok b := by
  cases x with
  | error er => cases h
  | ok a => exact ⟨a, rfl, h⟩

/-- What is in the temporary stream is copied as it is. -/
theorem copyBuffer_ok {buffer : List UInt8} (h : copyBuffer bytes = .ok buffer) : buffer = bytes := by
  unfold copyBuffer at h
  split_ifs at h
  cases h
  rfl

/-- The properties of an object of the database: their count is that of its rows. -/
theorem restores_serializeRows (hcharset : charset.SingleByte) (hsound : namedPropertyMapper.Sound)
    {rows : Counted 31 Row} (hstored : ∀ row ∈ rows.elems, row.Stored namedPropertyMapper lpStreamCaps charset)
    {sourceKey : Option Base64Binary} (h : serializeRows lpStreamCaps charset sourceKey rows = .ok bytes) :
    Restores (deserializeProps lpStreamCaps charset namedPropertyMapper) bytes
      (∀ row ∈ rows.elems, row.Fits lpStreamCaps charset) ()
      (Row.props namedPropertyMapper rows.elems ++ (sourceKey.map sourceKeyProp).toList) () := by
  unfold serializeRows at h
  obtain ⟨props, hrows, h⟩ := exists_of_except_bind h
  obtain ⟨computed, hkey, h⟩ := exists_of_except_bind h
  obtain ⟨buffer, hbuffer, h⟩ := exists_of_except_bind h
  cases copyBuffer_ok hbuffer
  cases h
  obtain ⟨w, hw, rfl⟩ := serializeAll_ok hrows
  obtain ⟨w', hw', rfl⟩ := serializeAll_ok hkey
  have hcomputed : Restores
      (ByteReader.collect (deserializePropVal lpStreamCaps charset namedPropertyMapper)
        (sourceKey.map sourceKeyProp).toList.length)
      ((sourceKey.map sourceKeyProp).toList.flatMap w') True ()
      (sourceKey.map sourceKeyProp).toList () := by
    cases sourceKey with
    | none => exact Restores.pure []
    | some key =>
      have hread := restores_sourceKey hcharset hsound key (hw' _ (List.mem_singleton_self _))
      have hnil : Restores (ByteReader.collect
          (deserializePropVal lpStreamCaps charset namedPropertyMapper) 0) [] True () [] () :=
        Restores.pure []
      exact (hread.collect_cons hnil).congr (iff_true_intro ⟨trivial, trivial⟩)
  have hread := restores_announced (rows.elems.length + sourceKey.toList.length)
    (restores_rows hcharset hsound hstored hw hcomputed)
  refine hread.congr ?_
  have hlt := rows.length_lt
  obtain ⟨hkeys, hone⟩ := length_sourceKey sourceKey
  rw [List.length_append, hkeys, Nat.mod_eq_of_lt (by omega), Nat.add_right_cancel_iff, eq_comm,
    length_props, ← forall₂_and]
  -- no row is skipped, and the value of each one fits
  refine forall₂_congr fun row _ => ?_
  constructor
  · rintro ⟨⟨value, hvalue⟩, hfits⟩
    exact ⟨value, hvalue, hfits value hvalue⟩
  · rintro ⟨value, hvalue, hfits⟩
    refine ⟨⟨value, hvalue⟩, fun value' hsome => ?_⟩
    cases hvalue.symm.trans hsome
    exact hfits

/-- The properties of a sub-object. Without any, there is not even a count. -/
theorem restores_subObject (hcharset : charset.SingleByte) (hsound : namedPropertyMapper.Sound)
    (hstored : object.Stored namedPropertyMapper lpStreamCaps charset lpNamedPropDefs)
    (h : object.props.elim (.ok []) (fun props =>
      serializeProps lpStreamCaps charset props lpNamedPropDefs) = .ok bytes) :
    Restores (deserializeProps lpStreamCaps charset namedPropertyMapper) bytes (∃ props, object.props = some props ∧
        ∀ sPropVal ∈ props.elems, Fits lpStreamCaps charset sPropVal.Value) ()
      (object.tree namedPropertyMapper lpNamedPropDefs) () := by
  unfold SubObject.tree
  cases hprops : object.props with
  | none =>
    rw [hprops] at h
    cases h
    have hnone : Costs (ByteReader.collect
        (deserializePropVal lpStreamCaps charset namedPropertyMapper) 0) [] 0 := Costs.pure [] []
    have hnil : Costs (deserializeProps lpStreamCaps charset namedPropertyMapper) [] (4 + 0) :=
      costs_after fun ulCount => Costs.collect_any hnone ulCount.toNat
    refine (Restores.of_costs hnil (by decide)).congr ?_
    exact iff_of_false not_false fun ⟨props, hsome, _⟩ => by cases hsome
  | some props =>
    rw [hprops] at h
    change serializeProps lpStreamCaps charset props lpNamedPropDefs = _ at h
    unfold serializeProps at h
    cases hall : serializeAll (fun sPropVal =>
        written (serializePropVal lpStreamCaps charset sPropVal (some lpNamedPropDefs)))
        props.elems with
    | error er => rw [hall] at h; cases h
    | ok propBytes =>
      rw [hall] at h
      cases h
      obtain ⟨w, hw, rfl⟩ := serializeAll_ok hall
      have hread := Restores.collect (l := props.elems) fun sPropVal hmem =>
        restores_prop hcharset hsound (hstored props hprops sPropVal hmem) (hw sPropVal hmem)
      rw [← List.length_map] at hread
      have hlt := props.length_lt
      refine (restores_announced props.elems.length hread).congr ?_
      rw [List.length_map, Nat.mod_eq_of_lt (by omega)]
      constructor
      · exact fun hfits => ⟨props, rfl, hfits.2⟩
      · rintro ⟨props', hsome, hfits⟩
        cases hsome
        exact ⟨rfl, hfits⟩

end Properties

/-! ## Data of attachments -/

/-- The chunks are as long as all that is left. -/
theorem saveAttachmentInstance_ok {iSizeLeft : ℕ} {data bs rest : List UInt8} {s s' : Unit}
    (h : saveAttachmentInstance iSizeLeft bs s = (.ok data, rest, s')) :
    rest.length + iSizeLeft = bs.length ∧ data.length = iSizeLeft := by
  induction iSizeLeft using Nat.strong_induction_on generalizing data bs s with
  | _ iSizeLeft ih =>
    rw [saveAttachmentInstance] at h
    split_ifs at h with hzero
    · cases h
      exact ⟨by rw [hzero, add_zero], hzero.symm⟩
    · obtain ⟨chunk, bs', s₁, hchunk, h⟩ := exists_of_bind_ok h
      obtain ⟨left, bs'', s₂, hleft, h⟩ := exists_of_bind_ok h
      obtain ⟨hcost, hlength⟩ := readBytes_ok hchunk
      have hpos : 0 < min iSizeLeft CHUNK_SIZE := by
        rw [lt_min_iff]
        exact ⟨Nat.pos_of_ne_zero hzero, by decide⟩
      have hle := Nat.min_le_left iSizeLeft CHUNK_SIZE
      cases h
      obtain ⟨hrest, hdata⟩ := ih (iSizeLeft - min iSizeLeft CHUNK_SIZE) (by omega) hleft
      rw [List.length_append]
      omega

/-- Data is read chunk by chunk. -/
theorem reads_saveAttachmentInstance (data : List UInt8) :
    Reads (saveAttachmentInstance data.length) data True () data () := by
  induction hlength : data.length using Nat.strong_induction_on generalizing data with
  | _ n ih =>
    subst hlength
    rw [saveAttachmentInstance]
    split_ifs with hzero
    · obtain rfl := List.eq_nil_of_length_eq_zero hzero
      exact Reads.pure []
    · have hpos : 0 < min data.length CHUNK_SIZE := by
        rw [lt_min_iff]
        exact ⟨Nat.pos_of_ne_zero hzero, by decide⟩
      have hle := Nat.min_le_left data.length CHUNK_SIZE
      have hchunk := reads_readBytes CHUNK_SIZE (data.take (min data.length CHUNK_SIZE))
      rw [List.length_take, Nat.min_eq_left hle] at hchunk
      have hrest := ih (data.length - min data.length CHUNK_SIZE) (by omega)
        (data.drop (min data.length CHUNK_SIZE)) (List.length_drop ..)
      have hread : Reads
          (readBytes CHUNK_SIZE (min data.length CHUNK_SIZE) >>= fun chunk =>
            saveAttachmentInstance (data.length - min data.length CHUNK_SIZE) >>= fun rest =>
              pure (chunk ++ rest))
          (data.take (min data.length CHUNK_SIZE) ++ data.drop (min data.length CHUNK_SIZE)) True ()
          (data.take (min data.length CHUNK_SIZE) ++ data.drop (min data.length CHUNK_SIZE)) () :=
        (hchunk.congr (iff_true_intro ⟨Nat.min_le_right _ _, (Nat.min_le_right _ _).trans_lt (by decide)⟩)).seq (hrest.done (Reads.pure _))
      rwa [List.take_append_drop] at hread

/-- The data of an attachment are read back while their length fits into 32 bits. -/
theorem restores_deserializeData (data : Option (List UInt8)) :
    Restores deserializeData (serializeData data) ((data.getD []).length < 2 ^ 32) () (data.getD []) () := by
  have hcount := reads_readOne 4 (by decide) (BitVec.ofNat 32 (data.getD []).length)
  have htoNat : (BitVec.ofNat 32 (data.getD []).length).toNat = (data.getD []).length % 2 ^ 32 :=
    BitVec.toNat_ofNat _ 32
  unfold serializeData
  simp only [htoNat]
  constructor
  · intro hfits rest
    have hread := reads_saveAttachmentInstance (data.getD [])
    rw [List.append_assoc, Nat.mod_eq_of_lt hfits, List.take_length]
    refine (bind_ok ((hcount _).1 trivial)).trans ?_
    rw [htoNat, Nat.mod_eq_of_lt hfits]
    exact (hread rest).1 trivial
  · intro hlong rest rest' s hread
    rw [List.append_assoc] at hread
    have hsave := (bind_ok ((hcount _).1 trivial)).symm.trans hread
    obtain ⟨_, hlength⟩ := saveAttachmentInstance_ok hsave
    rw [htoNat] at hlength
    have hlt := Nat.mod_lt (data.getD []).length (show 2 ^ 32 > 0 by decide)
    omega
  · have hall : Costs deserializeData (data.getD []) (4 + (data.getD []).length) := by
      refine Costs.seq (costs_readOne 4) fun ulLen bs s rest s' h => ?_
      obtain ⟨hcost, hlength⟩ := saveAttachmentInstance_ok h
      omega
    refine hall.mono ?_
    rw [List.length_append, length_write, List.length_singleton, mul_one]
    exact Nat.add_le_add_left (List.length_take_le' _ _) 4

/-! ## Objects -/

section Objects

variable {lpStreamCaps : StreamCaps} {charset : Charset} {namedPropertyMapper : NamedPropertyMapper}
  {depth : ℕ} {ulObjType ulParentType ulReadType : BitVec 32}

/-- The objects of a message are recipients and attachments, whatever their types are. -/
theorem realObjType_message (ulObjType : BitVec 32) : realObjType ulObjType MAPI_MESSAGE = MAPI_MAILUSER ∨
      realObjType ulObjType MAPI_MESSAGE = MAPI_DISTLIST ∨
        ulObjType = MAPI_ATTACH ∧ realObjType ulObjType MAPI_MESSAGE = MAPI_ATTACH := by
  unfold realObjType
  split_ifs with h
  · exact .inl rfl
  · by_cases hattach : ulObjType = MAPI_ATTACH
    · exact .inr (.inr ⟨hattach, hattach⟩)
    · by_cases hmail : ulObjType = MAPI_MAILUSER
      · exact .inl hmail
      · by_cases hdist : ulObjType = MAPI_DISTLIST
        · exact .inr (.inl hdist)
        · exact absurd ⟨rfl, hmail, hdist, hattach⟩ h

/-- A recipient has properties, no data and nothing below it. -/
theorem deserializeObject_recipient (h : ulObjType ≠ MAPI_ATTACH) :
    deserializeObject lpStreamCaps charset namedPropertyMapper (depth + 1) ulObjType MAPI_MESSAGE =
      deserializeProps lpStreamCaps charset namedPropertyMapper >>= fun props =>
        pure (.mk ulObjType props [] []) := by
  unfold deserializeObject
  rcases realObjType_message ulObjType with hreal | hreal | ⟨hattach, _⟩
  · rw [hreal]
    rfl
  · rw [hreal]
    rfl
  · exact absurd hattach h

theorem deserializeObject_attach :
    deserializeObject lpStreamCaps charset namedPropertyMapper (depth + 1) MAPI_ATTACH MAPI_MESSAGE =
      deserializeProps lpStreamCaps charset namedPropertyMapper >>= fun props => deserializeData >>= fun data =>
          deserializeSubObjects (deserializeObject lpStreamCaps charset namedPropertyMapper depth)
            MAPI_ATTACH >>= fun subObjects => pure (.mk MAPI_ATTACH props data subObjects) := rfl

/-- A message that is no part of another one has properties and what is below it. -/
theorem deserializeObject_message (h : ulParentType ≠ MAPI_MESSAGE) :
    deserializeObject lpStreamCaps charset namedPropertyMapper (depth + 1) MAPI_MESSAGE ulParentType =
      deserializeProps lpStreamCaps charset namedPropertyMapper >>= fun props =>
        deserializeSubObjects (deserializeObject lpStreamCaps charset namedPropertyMapper depth)
          MAPI_MESSAGE >>= fun subObjects => pure (.mk MAPI_MESSAGE props [] subObjects) := by
  have hreal : realObjType MAPI_MESSAGE ulParentType = MAPI_MESSAGE := by
    unfold realObjType
    rw [if_neg fun hand => h hand.1]
  unfold deserializeObject
  rw [hreal]
  rfl

/-- An object is made with the type in the stream. -/
theorem never_deserializeObject (h : ulReadType ≠ ulObjType) (depth : ℕ) (props : List PropVal)
    (data : List UInt8) (subObjects : List Object) :
    Never (deserializeObject lpStreamCaps charset namedPropertyMapper depth ulReadType ulParentType)
      (.mk ulObjType props data subObjects) := by
  cases depth with
  | zero => exact never_stop _ _
  | succ depth =>
    unfold deserializeObject
    dsimp only
    split
    · exact never_stop _ _
    · refine Never.bind fun props' => .inr (Never.bind fun data' => .inr (Never.bind fun subs => ?_))
      exact .inr (never_pure fun heq => h (Object.mk.inj heq).1)

/-- A sub-object behind its type and its id. -/
theorem restores_typed {props : List PropVal} {data : List UInt8} {subObjects : List Object} {good : Prop}
    (h : Restores (deserializeObject lpStreamCaps charset namedPropertyMapper depth ulObjType
      ulParentType) bytes good () (.mk ulObjType props data subObjects) ()) (ulObjId : BitVec 32) :
    Restores (do
        let ulSubObjType ← readOne 4
        let _ulSubObjId ← readOne 4
        deserializeObject lpStreamCaps charset namedPropertyMapper depth ulSubObjType ulParentType)
      (write 4 [ulObjType] ++ (write 4 [ulObjId] ++ bytes)) good () (.mk ulObjType props data subObjects) () := by
  have hsize (word : BitVec 32) : (write 4 [word]).length = 4 := length_write 4 [word]
  have hid : Restores (readOne 4 >>= fun _ =>
      deserializeObject lpStreamCaps charset namedPropertyMapper depth ulObjType ulParentType)
      (write 4 [ulObjId] ++ bytes) good () (.mk ulObjType props data subObjects) () := by
    refine Restores.skip (reads_readOne 4 (by decide) ulObjId) (fun word => ?_) fun _ => h
    rw [hsize]
    exact costs_readOne 4 word
  have htype : Restores (readOne 4) (write 4 [ulObjType]) True () ulObjType () := by
    refine (reads_readOne 4 (by decide) ulObjType).restores ?_
    rw [hsize]
    exact costs_readOne 4 ulObjType
  refine (htype.bind hid fun ulReadType hne => ?_).congr (and_iff_right trivial)
  exact Never.bind fun _ => .inr (never_deserializeObject hne depth props data subObjects)

section Parts

variable {props : List PropVal} {data : List UInt8} {subObjects : List Object}
  {propBytes dataBytes subBytes : List UInt8} {goodProps goodData goodSubs : Prop}

theorem restores_recipient (depth : ℕ) (h : ulObjType ≠ MAPI_ATTACH)
    (hprops : Restores (deserializeProps lpStreamCaps charset namedPropertyMapper) propBytes goodProps () props ()) :
    Restores (deserializeObject lpStreamCaps charset namedPropertyMapper (depth + 1) ulObjType
      MAPI_MESSAGE) propBytes goodProps () (.mk ulObjType props [] []) () := by
  rw [deserializeObject_recipient h]
  exact hprops.map fun _ _ heq => (Object.mk.inj heq).2.1

/-- An attachment is read back when its properties, its data and what is below it are. -/
theorem restores_attach (hprops : Restores (deserializeProps lpStreamCaps charset namedPropertyMapper) propBytes
      goodProps () props ()) (hdata : Restores deserializeData dataBytes goodData () data ())
    (hsubs : Restores (deserializeSubObjects
      (deserializeObject lpStreamCaps charset namedPropertyMapper depth) MAPI_ATTACH) subBytes
      goodSubs () subObjects ()) :
    Restores (deserializeObject lpStreamCaps charset namedPropertyMapper (depth + 1) MAPI_ATTACH
        MAPI_MESSAGE) (propBytes ++ (dataBytes ++ subBytes)) (goodProps ∧ goodData ∧ goodSubs) ()
      (.mk MAPI_ATTACH props data subObjects) () := by
  rw [deserializeObject_attach]
  refine hprops.bind (hdata.bind (hsubs.map fun _ _ heq => (Object.mk.inj heq).2.2.2) ?_) ?_
  · intro other hne
    exact Never.bind fun _ => .inr (never_pure fun heq => hne (Object.mk.inj heq).2.2.1)
  · intro other hne
    refine Never.bind fun _ => .inr (Never.bind fun _ => .inr (never_pure fun heq => ?_))
    exact hne (Object.mk.inj heq).2.1

/-- A message is read back when its properties and what is below it are. -/
theorem restores_messageObject (h : ulParentType ≠ MAPI_MESSAGE)
    (hprops : Restores (deserializeProps lpStreamCaps charset namedPropertyMapper) propBytes goodProps () props ())
    (hsubs : Restores (deserializeSubObjects
      (deserializeObject lpStreamCaps charset namedPropertyMapper depth) MAPI_MESSAGE) subBytes
      goodSubs () subObjects ()) :
    Restores (deserializeObject lpStreamCaps charset namedPropertyMapper (depth + 1) MAPI_MESSAGE
        ulParentType) (propBytes ++ subBytes) (goodProps ∧ goodSubs) ()
      (.mk MAPI_MESSAGE props [] subObjects) () := by
  rw [deserializeObject_message h]
  refine hprops.bind (hsubs.map fun _ _ heq => (Object.mk.inj heq).2.2.2) fun other hne => ?_
  exact Never.bind fun _ => .inr (never_pure fun heq => hne (Object.mk.inj heq).2.1)

end Parts

theorem length_trees (mapNamedPropDefs : NamedPropDefMap) (subObjects : SubObjects) :
    (subObjects.trees namedPropertyMapper mapNamedPropDefs).length = subObjects.numRows := by
  match subObjects with
  | .nil => rfl
  | .sub _ rest | .embedding _ _ _ _ rest =>
    rw [SubObjects.trees, List.length_cons, length_trees mapNamedPropDefs rest, SubObjects.numRows]

/-- What is written for a sub-object in front of its data. -/
theorem serializeSubObject_ok (h : serializeSubObject lpStreamCaps charset lpNamedPropDefs object = .ok bytes) :
    ∃ propBytes, object.props.elim (.ok []) (fun props =>
        serializeProps lpStreamCaps charset props lpNamedPropDefs) = .ok propBytes ∧
      bytes = write 4 [object.ulSubObjType] ++ (write 4 [object.ulSubObjId] ++ propBytes) := by
  unfold serializeSubObject at h
  cases hprops : object.props with
  | none =>
    rw [hprops] at h
    exact ⟨[], rfl, (Except.ok.inj h).symm⟩
  | some props =>
    rw [hprops] at h
    obtain ⟨propBytes, hbytes, hpure⟩ := exists_of_except_bind h
    exact ⟨propBytes, hbytes, (Except.ok.inj hpure).symm⟩

end Objects

section Trees

variable {lpStreamCaps : StreamCaps} {charset : Charset} {namedPropertyMapper : NamedPropertyMapper}
  {depth : ℕ}

/-- An attachment without a message. -/
theorem restores_no_message (depth : ℕ) : Restores (deserializeSubObjects
        (deserializeObject lpStreamCaps charset namedPropertyMapper depth) MAPI_ATTACH)
      (write 4 [(0 : BitVec 32)]) True () [] () := by
  have hnone : Restores (ByteReader.collect (do
      let ulSubObjType ← readOne 4
      let _ulSubObjId ← readOne 4
      deserializeObject lpStreamCaps charset namedPropertyMapper depth ulSubObjType MAPI_ATTACH)
      ([] : List Object).length) [] True () [] () := Restores.pure []
  exact (restores_announced 0 hnone).congr (iff_true_intro ⟨rfl, trivial⟩)

/-- An attachment with a message. -/
theorem restores_one_message {props : List PropVal} {data : List UInt8} {subObjects : List Object} {good : Prop}
    (h : Restores (deserializeObject lpStreamCaps charset namedPropertyMapper depth MAPI_MESSAGE
      MAPI_ATTACH) bytes good () (.mk MAPI_MESSAGE props data subObjects) ()) (ulObjId : BitVec 32) :
    Restores (deserializeSubObjects (deserializeObject lpStreamCaps charset namedPropertyMapper depth) MAPI_ATTACH)
      (write 4 [(1 : BitVec 32)] ++ (write 4 [MAPI_MESSAGE] ++ (write 4 [ulObjId] ++ bytes))) good ()
      [.mk MAPI_MESSAGE props data subObjects] () := by
  have hone := (restores_typed h ulObjId).collect_cons (n := 0) (Restores.pure [])
  rw [List.append_nil] at hone
  refine (restores_announced 1 hone).congr ?_
  rw [and_iff_right (show 1 % 2 ^ 32 = [Object.mk MAPI_MESSAGE props data subObjects].length from rfl)]
  exact and_iff_left trivial

mutual

/-- A message is restored when it fits. -/
theorem restores_message (hcharset : charset.SingleByte) (hsound : namedPropertyMapper.Sound)
    (message : Message) {depth : ℕ} (hdepth : message.depth ≤ depth)
    (hstored : message.Stored namedPropertyMapper lpStreamCaps charset)
    {ulObjType ulParentType : BitVec 32} (hparent : ulParentType ≠ MAPI_MESSAGE)
    {sourceKey : Option Base64Binary} {bytes : List UInt8}
    (h : serializeMessage lpStreamCaps charset ulObjType sourceKey message = .ok bytes) : ulObjType = MAPI_MESSAGE ∧
      Restores (deserializeObject lpStreamCaps charset namedPropertyMapper depth MAPI_MESSAGE
        ulParentType) bytes (message.Fits lpStreamCaps charset) ()
        (message.tree namedPropertyMapper sourceKey) () := by
  match message with
  | .mk rows mapNamedPropDefs subObjects =>
    unfold serializeMessage at h
    split_ifs at h with htype
    obtain ⟨props, hprops, h⟩ := exists_of_except_bind h
    obtain ⟨subs, hsubs, h⟩ := exists_of_except_bind h
    cases h
    obtain ⟨hrows, hobjects⟩ := hstored
    obtain ⟨depth, rfl⟩ : ∃ d, depth = d + 1 := ⟨depth - 1, by unfold Message.depth at hdepth; omega⟩
    have hdeep : subObjects.depth ≤ depth := Nat.le_of_succ_le_succ hdepth
    have hread := restores_subObjects hcharset hsound subObjects hdeep hobjects hsubs
    rw [← length_trees mapNamedPropDefs subObjects] at hread
    have hcount := restores_announced subObjects.numRows hread
    refine ⟨not_not.mp htype, ?_⟩
    refine (restores_messageObject hparent (restores_serializeRows hcharset hsound hrows hprops)
      hcount).congr ?_
    unfold Message.Fits
    rw [length_trees, Nat.mod_eq_iff_lt (by decide)]

/-- The objects below a message are read back, one induction step deeper for each message within a message. -/
theorem restores_subObjects (hcharset : charset.SingleByte) (hsound : namedPropertyMapper.Sound)
    (subObjects : SubObjects) {mapNamedPropDefs : NamedPropDefMap} {depth : ℕ} (hdepth : subObjects.depth ≤ depth)
    (hstored : subObjects.Stored namedPropertyMapper lpStreamCaps charset mapNamedPropDefs) {bytes : List UInt8}
    (h : serializeSubObjects lpStreamCaps charset mapNamedPropDefs subObjects = .ok bytes) :
    Restores (ByteReader.collect (do
        let ulSubObjType ← readOne 4
        let _ulSubObjId ← readOne 4
        deserializeObject lpStreamCaps charset namedPropertyMapper depth ulSubObjType MAPI_MESSAGE)
        subObjects.numRows) bytes (subObjects.Fits lpStreamCaps charset) ()
      (subObjects.trees namedPropertyMapper mapNamedPropDefs) () := by
  -- the induction is on the objects, and within one of them on the message that it embeds
  match subObjects with
  | .nil =>
    cases h
    exact Restores.pure []
  | .sub object rest =>
    unfold serializeSubObjects at h
    obtain ⟨head, hhead, h⟩ := exists_of_except_bind h
    obtain ⟨tail, htail, h⟩ := exists_of_except_bind h
    obtain ⟨propBytes, hprops, rfl⟩ := serializeSubObject_ok hhead
    obtain ⟨hobject, hrest⟩ := hstored
    obtain ⟨hone, hdeep⟩ := max_le_iff.mp hdepth
    obtain ⟨depth, rfl⟩ : ∃ d, depth = d + 1 := ⟨depth - 1, by omega⟩
    have hread := restores_subObject hcharset hsound hobject hprops
    have htrees := restores_subObjects hcharset hsound rest hdeep hrest htail
    unfold SubObjects.trees SubObjects.Fits SubObject.Fits
    split_ifs at h with hattach
    · cases h
      rw [hattach, if_pos rfl, forall_prop_of_true rfl]
      have hsub := restores_attach hread (restores_deserializeData object.data)
        (restores_no_message depth)
      have hcons := (restores_typed hsub object.ulSubObjId).collect_cons htrees
      simp only [List.append_assoc] at hcons ⊢
      exact hcons.congr (and_congr_left' (and_congr_right' (and_iff_left trivial)))
    · cases h
      rw [if_neg hattach]
      have hsub := restores_recipient depth hattach hread
      have hcons := (restores_typed hsub object.ulSubObjId).collect_cons htrees
      exact hcons.congr (and_congr_left' (and_iff_left fun heq => absurd heq hattach).symm)
  | .embedding object ulSubObjType ulSubObjId message rest =>
    unfold serializeSubObjects at h
    obtain ⟨head, hhead, h⟩ := exists_of_except_bind h
    obtain ⟨propBytes, hprops, rfl⟩ := serializeSubObject_ok hhead
    obtain ⟨hobject, hmessage, hrest⟩ := hstored
    obtain ⟨hone, hdeep⟩ := max_le_iff.mp hdepth
    obtain ⟨depth, rfl⟩ : ∃ d, depth = d + 1 := ⟨depth - 1, by omega⟩
    have hread := restores_subObject hcharset hsound hobject hprops
    unfold SubObjects.trees SubObjects.Fits SubObject.Fits
    -- the message in an attachment stands one level deeper
    split_ifs at h with hattach
    · obtain ⟨embedded, hembedded, h⟩ := exists_of_except_bind h
      obtain ⟨tail, htail, h⟩ := exists_of_except_bind h
      -- an attachment without a message writes the count 0 behind its data
      cases h
      have htrees := restores_subObjects hcharset hsound rest hdeep hrest htail
      obtain ⟨rfl, hinner⟩ := restores_message hcharset hsound message (Nat.le_of_succ_le_succ hone)
        hmessage (show MAPI_ATTACH ≠ MAPI_MESSAGE by decide) hembedded
      match message with
      | .mk rows defs subs =>
        rw [hattach, if_pos rfl, if_pos rfl, forall_prop_of_true rfl, forall_prop_of_true rfl]
        have hsub := restores_attach hread (restores_deserializeData object.data)
          (restores_one_message hinner ulSubObjId)
        have hcons := (restores_typed hsub object.ulSubObjId).collect_cons htrees
        simp only [List.append_assoc] at hcons ⊢
        refine hcons.congr ?_
        rw [and_assoc, and_assoc, and_assoc]
    · obtain ⟨tail, htail, h⟩ := exists_of_except_bind h
      cases h
      have htrees := restores_subObjects hcharset hsound rest hdeep hrest htail
      rw [if_neg hattach, if_neg hattach]
      have hsub := restores_recipient depth hattach hread
      have hcons := (restores_typed hsub object.ulSubObjId).collect_cons htrees
      refine hcons.congr (and_congr (and_iff_left fun heq => absurd heq hattach).symm ?_)
      exact (and_iff_right fun heq => absurd heq hattach).symm

end

/-! ## The stream -/

theorem SubObject.countsMatch (h : object.Fits lpStreamCaps charset) : object.CountsMatch := by
  obtain ⟨⟨props, hprops, _⟩, hdata⟩ := h
  refine ⟨⟨props, hprops, toNat_size props⟩, fun hattach => ?_⟩
  rw [BitVec.toNat_ofNat, Nat.mod_eq_of_lt (hdata hattach)]

mutual

/-- In a message that fits, every count that is written is the number of what follows. -/
theorem Message.countsMatch (message : Message) (sourceKey : Option Base64Binary)
    (h : message.Fits lpStreamCaps charset) : message.CountsMatch namedPropertyMapper sourceKey := by
  match message with
  | .mk rows mapNamedPropDefs subObjects =>
    obtain ⟨hrows, hnum, hobjects⟩ := h
    refine ⟨?_, ?_, subObjects.countsMatch hobjects⟩
    · have hall : (Row.props namedPropertyMapper rows.elems).length = rows.elems.length :=
        (length_props rows.elems).mpr fun row hmem =>
          (hrows row hmem).imp fun _ hfits => hfits.1
      obtain ⟨hkey, hone⟩ := length_sourceKey sourceKey
      have hlt := rows.length_lt
      rw [BitVec.toNat_ofNat, Nat.mod_eq_of_lt (by omega), List.length_append, hall, hkey]
    · rw [BitVec.toNat_ofNat, Nat.mod_eq_of_lt hnum]

/-- In objects that fit, every count that is written is the number of what follows. -/
theorem SubObjects.countsMatch (subObjects : SubObjects)
    (h : subObjects.Fits lpStreamCaps charset) : subObjects.CountsMatch namedPropertyMapper := by
  match subObjects with
  | .nil => trivial
  | .sub object rest => exact ⟨object.countsMatch h.1, rest.countsMatch h.2⟩
  | .embedding object _ _ message rest =>
    obtain ⟨hobject, hmessage, hrest⟩ := h
    exact ⟨object.countsMatch hobject, fun hattach => message.countsMatch none (hmessage hattach),
      rest.countsMatch hrest⟩

end

/-- The reader goes by the version in front. -/
theorem deserializeStream_append (lpStreamCaps : StreamCaps) (bytes : List UInt8) :
    deserializeStream charset namedPropertyMapper depth (write 4 [streamVersion lpStreamCaps] ++ bytes) () =
      deserializeObject lpStreamCaps charset namedPropertyMapper depth MAPI_MESSAGE MAPI_FOLDER bytes () := by
  have hversion := (reads_readOne 4 (by decide) (streamVersion lpStreamCaps) bytes).1 trivial
  obtain ⟨bSupportUnicode⟩ := lpStreamCaps
  refine (bind_ok hversion).trans ?_
  cases bSupportUnicode <;> rfl

/-- A message is restored from its stream, with every count that of the items, if and only if no row of it
is skipped, none of its objects is without properties, and everything fits. -/
theorem restored_iff (hcharset : charset.SingleByte) (hsound : namedPropertyMapper.Sound)
    {message : Message} (hstored : message.Stored namedPropertyMapper lpStreamCaps charset)
    {sourceKey : Option Base64Binary} {bytes : List UInt8}
    (h : serializeStream lpStreamCaps charset sourceKey message = .ok bytes) :
    Restored namedPropertyMapper charset sourceKey message bytes ∧ message.CountsMatch namedPropertyMapper sourceKey ↔
      message.Fits lpStreamCaps charset := by
  obtain ⟨messageBytes, hmessage, hpure⟩ := exists_of_except_bind h
  cases hpure
  have hread {depth : ℕ} (hdepth : message.depth ≤ depth) :=
    (restores_message hcharset hsound message hdepth hstored
      (show MAPI_FOLDER ≠ MAPI_MESSAGE by decide) hmessage).2
  constructor
  · rintro ⟨⟨enough, hall⟩, _⟩
    by_contra hfits
    have hback := hall (max enough message.depth) (le_max_left _ _) []
    rw [List.append_assoc, deserializeStream_append] at hback
    -- nothing stands behind the bytes that could be read for what is missing
    exact Nat.not_lt_zero _ ((hread (le_max_right _ _)).more hfits [] _ _ hback)
  · intro hfits
    refine ⟨⟨message.depth, fun depth hdepth rest => ?_⟩, message.countsMatch sourceKey hfits⟩
    rw [List.append_assoc, deserializeStream_append]
    exact (hread hdepth).ok hfits rest

end Trees


/-! ## A message in a message, and a row without a value -/

/-- A charset of which a byte is a code point: from UTF-8. -/
def encodeLatin : List UInt8 → List UInt8
  | b :: c :: text =>
    if b < 0x80 then b :: encodeLatin (c :: text)
    else (b <<< 6 ||| (c &&& 0x3F)) :: encodeLatin text
  | text => text

/-- The code points below 256. -/
def latin1 : Charset where
  encode := encodeLatin
  char b := if b < 0x80 then [b] else [(0xC0 : UInt8) ||| b >>> 6, (0x80 : UInt8) ||| (b &&& 0x3F)]

theorem latin1_singleByte : latin1.SingleByte := by
  have hall : ∀ n : Fin 256, (latin1.char (UInt8.ofNat n)).countP isLead = 1 := by decide +kernel
  intro b
  have h := hall ⟨b.toNat, b.toNat_lt⟩
  rwa [UInt8.ofNat_toNat] at h

/-- A database with the name of the keywords only. -/
def keywordNames : NamedPropertyMapper where
  getId _ _ := .error .ZARAFA_E_DATABASE_ERROR
  getStringId guid strName :=
    if guid = keywords.guid.bytes ∧ strName = keywords.strName.elems then .ok 0x8502
    else .error .ZARAFA_E_DATABASE_ERROR

theorem keywordNames_ok {guid strName : List UInt8} (h : keywordNames.getStringId guid strName = .ok ulLocalId) :
    strName = keywords.strName.elems ∧ ulLocalId = 0x8502 := by
  change (if guid = keywords.guid.bytes ∧ strName = keywords.strName.elems then _ else _) = _ at h
  split_ifs at h with hname
  cases h
  exact ⟨hname.2, rfl⟩

theorem keywordNames_sound : keywordNames.Sound where
  id_dynamic h := by cases h
  string_dynamic h := by
    rw [(keywordNames_ok h).2]
    decide
  id_ne_string h := by cases h
  string_inj h h' _ := (keywordNames_ok h).1.trans (keywordNames_ok h').1.symm

/-- Two keywords in a row. -/
def keywordRow : Row where
  ulPropId := 0x8501
  Value := some category.Value
  name := keywords
  short value hvalue text hmem := by
    cases hvalue
    rcases List.mem_pair.mp hmem with hhi | hempty
    · cases hhi
      decide
    · cases hempty
      decide

/-- A row with `NULL` in the column for its value. -/
def nullRow : Row where
  ulPropId := 0x0E08
  Value := none
  name := keywords
  short _ hvalue := nomatch hvalue

/-- A recipient, and a message in an attachment. -/
def forwarded : Message :=
  .mk ⟨[keywordRow], by decide⟩ (fun _ => none)
    (.sub ⟨MAPI_MAILUSER, 12, some ⟨[⟨0x0C15, .PT_LONG 1⟩], by decide⟩, none⟩
      (.embedding ⟨MAPI_ATTACH, 13, some ⟨[⟨0x3705, .PT_LONG 5⟩], by decide⟩, some [1, 2]⟩ MAPI_MESSAGE 14
        (.mk ⟨[keywordRow], by decide⟩ (fun _ => none) .nil) .nil))

/-- A message with a single row, which is skipped. -/
def broken : Message := .mk ⟨[nullRow], by decide⟩ (fun _ => none) .nil

theorem keywordRow_stored : keywordRow.Stored keywordNames ⟨true⟩ latin1 := by
  intro value hvalue
  cases hvalue
  refine ⟨fun lpszA hmem => ?_, fun _ => ⟨0x8502, .string rfl ?_⟩⟩
  · rcases List.mem_pair.mp hmem with rfl | rfl
    · exact ⟨[72, 105], rfl, by decide, nofun⟩
    · exact ⟨[], rfl, by decide, nofun⟩
  · rfl

theorem long_stored (h : ¬ 0x8500 < id) (ul : BitVec 32) :
    PropVal.Stored keywordNames ⟨true⟩ latin1 (fun _ => none) ⟨id, .PT_LONG ul⟩ where
  supported := rfl
  strings := List.forall_mem_nil _
  named hdynamic := absurd hdynamic h

theorem restored_iff_forwarded :
    ∃ bytes, serializeStream ⟨true⟩ latin1 (some ⟨[9], by decide⟩) forwarded = .ok bytes ∧
      (Restored keywordNames latin1 (some ⟨[9], by decide⟩) forwarded bytes ∧
          forwarded.CountsMatch keywordNames (some ⟨[9], by decide⟩) ↔ forwarded.Fits ⟨true⟩ latin1) := by
  refine ⟨_, rfl, restored_iff latin1_singleByte keywordNames_sound ?_ rfl⟩
  have hrow := List.forall_mem_singleton.mpr keywordRow_stored
  refine ⟨hrow, ?_, ?_, ⟨hrow, trivial⟩, trivial⟩
  · intro props hprops
    cases hprops
    exact List.forall_mem_singleton.mpr (long_stored (by decide) 1)
  · intro props hprops
    cases hprops
    exact List.forall_mem_singleton.mpr (long_stored (by decide) 5)

/-- The count of the sub-objects is read as a property for the row that has been skipped. -/
theorem not_restored_broken : ∃ bytes, serializeStream ⟨true⟩ latin1 (some ⟨[9], by decide⟩) broken = .ok bytes ∧
      ¬ Restored keywordNames latin1 (some ⟨[9], by decide⟩) broken bytes := by
  refine ⟨_, rfl, fun ⟨enough, hall⟩ => ?_⟩
  have hback := hall (enough + 1) (Nat.le_succ _) []
  -- two properties are announced, and only the source key is there
  have hstop : (deserializeProps ⟨true⟩ latin1 keywordNames
      (write 4 [(2 : BitVec 32)] ++ (write 4 [propTag PT_BINARY 0x65E0] ++ writeBinary ⟨[9], by decide⟩) ++
        write 4 [(0 : BitVec 32)]) ()).1.isOk = false := by
    decide +kernel
  rw [List.append_nil] at hback
  have hobject := (deserializeStream_append ⟨true⟩ _).symm.trans hback
  rw [deserializeObject_message (by decide)] at hobject
  obtain ⟨props, bs, s, hprops, _⟩ := exists_of_bind_ok hobject
  have hok : deserializeProps ⟨true⟩ latin1 keywordNames
      (write 4 [(2 : BitVec 32)] ++ (write 4 [propTag PT_BINARY 0x65E0] ++ writeBinary ⟨[9], by decide⟩) ++
        write 4 [(0 : BitVec 32)]) () = (.ok props, bs, s) := hprops
  rw [hok] at hstop
  cases hstop

end Zcp.Libserver.StreamUtil
