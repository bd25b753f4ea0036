import Zcp.Libserver.StreamUtil.Calls

/-!
# Errors of property streams

When do `SerializePropVal`, `SerializeDatabasePropVal` and `DeserializePropVal` end well only if no call of theirs was
refused and the type of the property is one that they have a case for? Not for a property in the dynamic range: the call
for the value can be refused, and the name be written or read after it. `reportsErrors_iff` has the exact conditions.
-/

namespace Zcp.Libserver.StreamUtil.Calls

open Zcp.Lib
open Zcp.Lib.Caller (Honest)
open Zcp.Common
open Zcp.Common.SOAPUtils (PropVal)
open Zcp.Common.ECStreamSerializer (write elements elements_write length_write)
open Zcp.Libserver.ECDatabaseUtils (DbRow Externals PropType MVScan PROP_TAG)

/-- Success means that no call was refused, and that the type is supported. -/
def Reports {σ α : Type} (p : Caller σ StreamError α) (supported : Prop) (s : σ) : Prop :=
  ∀ a, (p s).ended = .ok a → (p s).refused = false ∧ supported

/-- The types that the functions have a case for. -/
def supportedTypes : List ℕ := PropType.all.map fun type => type.code.toNat

/-- A function that passes on every error of its calls and succeeds on supported input only reports its errors. -/
theorem Reports.of_honest {σ α : Type} {p : Caller σ StreamError α} {supported : Prop} {s : σ} (h : Honest p)
    (hsupported : ∀ a, (p s).ended = .ok a → supported) : Reports p supported s :=
  fun a ha => ⟨h s a ha, hsupported a ha⟩

section Writing

variable {σ : Type} (lpSink : Sink σ) (lpStreamCaps : StreamCaps) (charset : Charset)

/-! ## What is written is honest -/

theorem honest_writeOne (size : ℕ) (x : BitVec (8 * size)) : Honest (writeOne lpSink size x) := .call _

theorem honest_writeBytes (bytes : List UInt8) : Honest (writeBytes lpSink bytes) := .call _

/-- The two calls for a string, its length and its bytes, are both looked at. -/
theorem honest_writeString (text : List UInt8) : Honest (writeString lpSink lpStreamCaps charset text) :=
  (honest_writeOne lpSink 4 _).bind fun _ => honest_writeBytes lpSink _

theorem honest_writeStringColumn (text : List UInt8) : Honest (writeStringColumn lpSink lpStreamCaps charset text) :=
  .ite ((honest_writeOne lpSink 4 _).bind fun _ => honest_writeBytes lpSink _)
    (honest_writeString lpSink lpStreamCaps charset text)

theorem honest_writeBinary (bytes : List UInt8) : Honest (writeBinary lpSink bytes) :=
  (honest_writeOne lpSink 4 _).bind fun _ => honest_writeBytes lpSink _

theorem honest_writeHilo (hilo : HiloLong) : Honest (writeHilo lpSink hilo) :=
  (honest_writeOne lpSink 4 _).bind fun _ => honest_writeOne lpSink 4 _

/-- A vector is written honestly when each of its elements is: the count comes first, and the loop stops at the
first error. -/
theorem honest_writeMulti {α : Type} {writeElem : α → Caller σ StreamError Unit}
    (h : ∀ a, Honest (writeElem a)) (size : BitVec 32) (elems : List α) :
    Honest (writeMulti lpSink writeElem size elems) :=
  (honest_writeOne lpSink 4 _).bind fun _ => .each h elems

/-- Whatever the type of a value is, `SerializePropVal` passes on the error of the call that failed. -/
theorem honest_serializeValue (v : PropValData) : Honest (serializeValue lpSink lpStreamCaps charset v) := by
  cases v with
  | PT_I2 | PT_LONG | PT_R4 | PT_DOUBLE | PT_APPTIME | PT_I8 => exact honest_writeOne lpSink _ _
  | PT_BOOLEAN => exact honest_writeBytes lpSink _
  | PT_STRING8 | PT_UNICODE => exact honest_writeString lpSink lpStreamCaps charset _
  | PT_SYSTIME | PT_CURRENCY => exact honest_writeHilo lpSink _
  | PT_BINARY | PT_CLSID => exact honest_writeBinary lpSink _
  | PT_MV_I2 | PT_MV_LONG | PT_MV_R4 | PT_MV_DOUBLE | PT_MV_APPTIME | PT_MV_I8 =>
    exact honest_writeMulti lpSink (honest_writeOne lpSink _) _ _
  | PT_MV_STRING8 | PT_MV_UNICODE =>
    exact honest_writeMulti lpSink (fun _ => honest_writeString lpSink lpStreamCaps charset _) _ _
  | PT_MV_SYSTIME | PT_MV_CURRENCY => exact honest_writeMulti lpSink (honest_writeHilo lpSink) _ _
  | PT_MV_BINARY | PT_MV_CLSID => exact honest_writeMulti lpSink (fun _ => honest_writeBinary lpSink _) _ _
  | PT_ERROR | other => exact .fail _

/-- The loop over the elements of a column with several values stops at the first error, and returns it. -/
theorem honest_writeElements {writeElem : List UInt8 → Caller σ StreamError Unit}
    (h : ∀ strData, Honest (writeElem strData)) (lpRowData : List UInt8) (n : ℕ) (scan : MVScan) :
    Honest (writeElements writeElem lpRowData n scan) := by
  induction n generalizing scan with
  | zero => exact .pure ()
  | succ n ih => exact (h _).bind fun _ => ih _

/-- The loop over the two columns of 64-bit values stops at the first error, and returns it. -/
theorem honest_writeHiloElements (hi lo : List UInt8) (n ulLastPos ulLastPos2 : ℕ) (strData : List UInt8) :
    Honest (writeHiloElements lpSink hi lo n ulLastPos ulLastPos2 strData) := by
  induction n generalizing ulLastPos ulLastPos2 strData with
  | zero => exact .pure ()
  | succ n ih => exact (honest_writeHilo lpSink _).bind fun _ => ih _ _ _

/-- A column with several values is written honestly when each of its elements is. -/
theorem honest_writeMultiColumn {writeElem : List UInt8 → Caller σ StreamError Unit}
    (h : ∀ strData, Honest (writeElem strData)) (ulCount : BitVec 32) (lpRowData : List UInt8) :
    Honest (writeMultiColumn lpSink writeElem ulCount lpRowData) :=
  (honest_writeOne lpSink 4 _).bind fun _ => honest_writeElements h _ _ _

/-- Whatever the type in a row of the database is, the branch for it passes on the error of the call that failed. -/
theorem honest_serializeColumns (d : Externals) (type : PropType) (lpRow : DbRow) :
    ∀ p ∈ serializeColumns lpSink lpStreamCaps charset d type lpRow, Honest p := by
  intro p hp
  cases type with
  | PT_I2 | PT_LONG | PT_R4 | PT_DOUBLE | PT_APPTIME | PT_I8 =>
    obtain ⟨s, -, rfl⟩ := Option.map_eq_some_iff.mp hp
    exact honest_writeOne lpSink _ _
  | PT_BOOLEAN =>
    obtain ⟨s, -, rfl⟩ := Option.map_eq_some_iff.mp hp
    exact honest_writeBytes lpSink _
  | PT_STRING8 | PT_UNICODE =>
    obtain ⟨s, -, rfl⟩ := Option.map_eq_some_iff.mp hp
    exact honest_writeStringColumn lpSink lpStreamCaps charset _
  | PT_CLSID | PT_BINARY =>
    obtain ⟨s, -, rfl⟩ := Option.map_eq_some_iff.mp hp
    exact honest_writeBinary lpSink _
  | PT_CURRENCY | PT_SYSTIME =>
    obtain ⟨hi, -, hp⟩ := Option.bind_eq_some_iff.mp hp
    obtain ⟨lo, -, hp⟩ := Option.bind_eq_some_iff.mp hp
    obtain rfl := Option.some_inj.mp hp
    exact honest_writeHilo lpSink _
  | PT_MV_I2 | PT_MV_LONG | PT_MV_R4 | PT_MV_DOUBLE | PT_MV_APPTIME | PT_MV_I8 =>
    obtain ⟨s, -, rfl⟩ := Option.map_eq_some_iff.mp hp
    exact honest_writeMultiColumn lpSink (fun _ => honest_writeOne lpSink _ _) _ _
  | PT_MV_CURRENCY | PT_MV_SYSTIME =>
    obtain ⟨hi, -, hp⟩ := Option.bind_eq_some_iff.mp hp
    obtain ⟨lo, -, hp⟩ := Option.bind_eq_some_iff.mp hp
    obtain rfl := Option.some_inj.mp hp
    exact (honest_writeOne lpSink 4 _).bind fun _ => honest_writeHiloElements lpSink _ _ _ _ _ _
  | PT_MV_CLSID | PT_MV_BINARY =>
    obtain ⟨s, -, rfl⟩ := Option.map_eq_some_iff.mp hp
    exact honest_writeMultiColumn lpSink (honest_writeBinary lpSink) _ _
  | PT_MV_STRING8 | PT_MV_UNICODE =>
    obtain ⟨s, -, rfl⟩ := Option.map_eq_some_iff.mp hp
    exact honest_writeMultiColumn lpSink (honest_writeStringColumn lpSink lpStreamCaps charset) _ _

end Writing

section Reading

variable {σ : Type} (lpSource : Source σ) (lpStreamCaps : StreamCaps) (charset : Charset)

/-! ## What is read is honest -/

theorem honest_readBytes (room nmemb : ℕ) : Honest (readBytes lpSource room nmemb) :=
  (Honest.call _).bind fun _ => .ite .undefined (.pure _)

theorem honest_read (room size nmemb : ℕ) : Honest (read lpSource room size nmemb) :=
  (Honest.call _).bind fun _ => .ite .undefined (.pure _)

theorem honest_readOne (size : ℕ) : Honest (readOne lpSource size) :=
  (honest_read lpSource _ _ _).bind fun _ => .pure _

theorem honest_readString : Honest (readString lpSource lpStreamCaps charset) :=
  (honest_readOne lpSource 4).bind fun _ =>
    .ite ((honest_readBytes lpSource _ _).bind fun _ => .pure _)
      ((honest_readBytes lpSource _ _).bind fun _ => .pure _)

theorem honest_readBinary : Honest (readBinary lpSource) :=
  (honest_readOne lpSource 4).bind fun _ => (honest_readBytes lpSource _ _).bind fun _ => .pure _

theorem honest_readHilo : Honest (readHilo lpSource) :=
  (honest_readOne lpSource 4).bind fun _ => (honest_readOne lpSource 4).bind fun _ => .pure _

theorem honest_readArray (size : ℕ) : Honest (readArray lpSource size) :=
  (honest_readOne lpSource 4).bind fun _ => (honest_read lpSource _ _ _).bind fun _ => .pure _

/-- A vector is read honestly when each of its elements is. -/
theorem honest_readMulti {α : Type} {readElem : Caller σ StreamError α} (h : Honest readElem) :
    Honest (readMulti lpSource readElem) :=
  (honest_readOne lpSource 4).bind fun _ => h.collect _

/-- The loop that fills the memory of 64-bit values stops at the first error, and returns it. -/
theorem honest_readHilosLoop (ulCount left : ℕ) (memory : List (BitVec 32)) :
    Honest (readHilosLoop lpSource ulCount left memory) := by
  induction left generalizing memory with
  | zero => exact .pure memory
  | succ left ih => exact (honest_read lpSource _ _ _).bind fun _ => (honest_read lpSource _ _ _).bind fun _ => ih _

theorem honest_readHilos : Honest (readHilos lpSource) :=
  (honest_readOne lpSource 4).bind fun _ => (honest_readHilosLoop lpSource _ _ _).bind fun _ => .pure _

/-- Whatever the type in a stream is, the branch that reads its value passes on the error of the call that failed. -/
theorem honest_deserializeValue (type : ℕ) : ∀ p ∈ deserializeValue lpSource lpStreamCaps charset type, Honest p := by
  intro p hp
  have hpure {α β : Type} {q : Caller σ StreamError α} (hq : Honest q) (f : α → β) :
      Honest (do return f (← q)) := hq.bind fun _ => .pure _
  unfold deserializeValue at hp
  split at hp
  all_goals first
    | cases hp; exact hpure (honest_readOne lpSource _) _
    | cases hp; exact hpure (honest_readBytes lpSource _ _) _
    | cases hp; exact hpure (honest_readHilo lpSource) _
    | cases hp; exact hpure (honest_readString lpSource lpStreamCaps charset) _
    | cases hp; exact hpure (honest_readBinary lpSource) _
    | cases hp; exact hpure (honest_readArray lpSource _) _
    | cases hp; exact hpure (honest_readHilos lpSource) _
    | cases hp; exact hpure (honest_readMulti lpSource (honest_readBinary lpSource)) _
    | cases hp; exact hpure (honest_readMulti lpSource (honest_readString lpSource lpStreamCaps charset)) _
    | cases hp

/-! ## The types -/

/-- The types that `DeserializePropVal` has a branch for are those that can be written. -/
theorem deserializeValue_isSome_iff (type : ℕ) :
    (deserializeValue lpSource lpStreamCaps charset type).isSome ↔ type ∈ supportedTypes := by
  constructor
  · intro h
    unfold deserializeValue at h
    split at h
    all_goals first
      | decide
      | cases h
  · have hall : supportedTypes.Forall fun type =>
        (deserializeValue lpSource lpStreamCaps charset type).isSome := by
      simp only [supportedTypes, PropType.all, List.map_cons, List.map_nil, List.Forall]
      exact ⟨rfl, rfl, rfl, rfl, rfl, rfl, rfl, rfl, rfl, rfl, rfl, rfl, rfl, rfl, rfl, rfl, rfl, rfl, rfl, rfl, rfl, rfl,
        rfl, rfl, rfl⟩
    exact List.forall_iff_forall_mem.mp hall type

end Reading

/-- The types that `SerializeDatabasePropVal` has a branch for are those of the list; the column is read by `atoi`. -/
theorem rowType_isSome_iff (lpRow : DbRow) : (rowType lpRow).isSome ↔ (Lib.atoi lpRow.type).toNat ∈ supportedTypes := by
  unfold rowType supportedTypes
  rw [List.find?_isSome, List.mem_map]
  refine exists_congr fun type => and_congr_right fun _ => ?_
  rw [decide_eq_true_eq, ← BitVec.toNat_inj, BitVec.toNat_setWidth_of_le (by decide)]

/-- A value of any other type is refused before the sink is called. -/
theorem serializeValue_of_not_supported {σ : Type} (lpSink : Sink σ) (lpStreamCaps : StreamCaps) (charset : Charset)
    {v : PropValData} (h : propType v ∉ supportedTypes) :
    serializeValue lpSink lpStreamCaps charset v = .fail .ZARAFA_E_INVALID_TYPE := by
  cases v with
  | PT_ERROR | other => rfl
  | _ => exact absurd (by rw [propType]; decide) h

/-! ## A device that refuses the first call for the value -/

section Refused

variable {σ : Type} {s s' : σ} {er : StreamError}

section Writing

variable {lpSink : Sink σ} (h : ∀ size bytes, lpSink s size bytes = (.error er, s')) (lpStreamCaps : StreamCaps)
  (charset : Charset)
include h

theorem refused_writeOne (size : ℕ) (x : BitVec (8 * size)) : writeOne lpSink size x s = ⟨.error er, s', true⟩ := by
  rw [writeOne, Caller.call, h]

theorem refused_writeBytes (bytes : List UInt8) : writeBytes lpSink bytes s = ⟨.error er, s', true⟩ := by
  rw [writeBytes, Caller.call, h]

/-- When the first call fails, a value of a supported type is answered with the error of this call. -/
theorem refused_serializeValue {v : PropValData} (hv : propType v ∈ supportedTypes) :
    serializeValue lpSink lpStreamCaps charset v s = ⟨.error er, s', true⟩ := by
  cases v with
  | PT_I2 | PT_LONG | PT_R4 | PT_DOUBLE | PT_APPTIME | PT_I8 => exact refused_writeOne h _ _
  | PT_BOOLEAN => exact refused_writeBytes h _
  | PT_ERROR | other => exact absurd hv (by rw [propType]; decide)
  | _ => exact Caller.bind_refused (refused_writeOne h 4 _)

theorem refused_writeStringColumn (text : List UInt8) :
    writeStringColumn lpSink lpStreamCaps charset text s = ⟨.error er, s', true⟩ := by
  unfold writeStringColumn
  split
  · exact Caller.bind_refused (refused_writeOne h 4 _)
  · exact Caller.bind_refused (refused_writeOne h 4 _)

/-- The columns of a validated row are there, and the first call is refused. -/
theorem refused_serializeColumns (d : Externals) {type : PropType} {lpRow : DbRow}
    (hcolumns : hasColumns lpRow type = true) :
    ∃ p, serializeColumns lpSink lpStreamCaps charset d type lpRow = some p ∧ p s = ⟨.error er, s', true⟩ := by
  cases type with
  | PT_I2 | PT_LONG | PT_R4 | PT_DOUBLE | PT_APPTIME | PT_I8 =>
    obtain ⟨text, htext⟩ := Option.isSome_iff_exists.mp hcolumns
    exact ⟨_, Option.map_eq_some_iff.mpr ⟨text, htext, rfl⟩, refused_writeOne h _ _⟩
  | PT_BOOLEAN =>
    obtain ⟨text, htext⟩ := Option.isSome_iff_exists.mp hcolumns
    exact ⟨_, Option.map_eq_some_iff.mpr ⟨text, htext, rfl⟩, refused_writeBytes h _⟩
  | PT_STRING8 | PT_UNICODE =>
    obtain ⟨text, htext⟩ := Option.isSome_iff_exists.mp hcolumns
    exact ⟨_, Option.map_eq_some_iff.mpr ⟨text, htext, rfl⟩, refused_writeStringColumn h lpStreamCaps charset _⟩
  | PT_CURRENCY | PT_SYSTIME | PT_MV_CURRENCY | PT_MV_SYSTIME =>
    obtain ⟨hhi, hlo⟩ := Bool.and_eq_true_iff.mp hcolumns
    obtain ⟨hi, hhi⟩ := Option.isSome_iff_exists.mp hhi
    obtain ⟨lo, hlo⟩ := Option.isSome_iff_exists.mp hlo
    exact ⟨_, Option.bind_eq_some_iff.mpr ⟨hi, hhi, Option.bind_eq_some_iff.mpr ⟨lo, hlo, rfl⟩⟩,
      Caller.bind_refused (refused_writeOne h 4 _)⟩
  | _ =>
    obtain ⟨text, htext⟩ := Option.isSome_iff_exists.mp hcolumns
    exact ⟨_, Option.map_eq_some_iff.mpr ⟨text, htext, rfl⟩, Caller.bind_refused (refused_writeOne h 4 _)⟩

end Writing

section Reading

variable {lpSource : Source σ} (h : ∀ size nmemb, lpSource s size nmemb = (.error er, s')) (lpStreamCaps : StreamCaps)
  (charset : Charset)
include h

theorem refused_readOne (size : ℕ) : readOne lpSource size s = ⟨.error er, s', true⟩ :=
  Caller.bind_refused (Caller.bind_refused (by rw [Caller.call, h]))

theorem refused_readBytes (room nmemb : ℕ) : readBytes lpSource room nmemb s = ⟨.error er, s', true⟩ :=
  Caller.bind_refused (by rw [Caller.call, h])

/-- When the first call fails, a type with a branch is answered with the error of this call. -/
theorem refused_deserializeValue {type : ℕ} {p : Caller σ StreamError (Option PropValData)}
    (hp : deserializeValue lpSource lpStreamCaps charset type = some p) : p s = ⟨.error er, s', true⟩ := by
  have hpart {α β : Type} (q : BitVec 32 → Caller σ StreamError α) (f : α → β) :
      (do return f (← readOne lpSource 4 >>= q)) s = ⟨.error er, s', true⟩ :=
    Caller.bind_refused (Caller.bind_refused (refused_readOne h 4))
  unfold deserializeValue at hp
  split at hp
  all_goals first
    | cases hp; exact Caller.bind_refused (refused_readOne h _)
    | cases hp; exact Caller.bind_refused (refused_readBytes h _ _)
    | cases hp; exact hpart _ _
    | cases hp

end Reading

end Refused

/-! ## Names -/

/-- A sink that refuses the second call. -/
def refuseSecond : Sink ℕ := fun n _ _ => if n = 1 then (.error (.other 0), 2) else (.ok (), n + 1)

theorem refuseSecond_refuses (size : ℕ) (bytes : List UInt8) :
    refuseSecond 1 size bytes = (.error (.other 0), 2) := rfl

/-- The name can be written. -/
def HasName (sPropVal : PropVal) (lpNamedPropDefs : Option NamedPropDefMap) : Prop :=
  ∃ namedPropDef, lookUpName sPropVal lpNamedPropDefs = .ok namedPropDef ∧
    (namedPropDef.ulKind = MNID_ID ∨ namedPropDef.ulKind = MNID_STRING)

/-- The row has a name that can be written. -/
def RowHasName (lpRow : StreamRow) : Prop :=
  lpRow.nameguid.isSome ∧ (lpRow.nameid.isSome ∨ lpRow.namestr.isSome)

/-- The name of a property is written as if nothing had happened when the sink refuses a call inside of it. -/
theorem serializeName_refuseSecond {namedPropDef : NamedPropDef}
    (h : namedPropDef.ulKind = MNID_ID ∨ namedPropDef.ulKind = MNID_STRING) (n : ℕ) :
    (serializeName refuseSecond namedPropDef (n + 2)).ended = .ok () := by
  unfold serializeName
  by_cases hid : namedPropDef.ulKind = MNID_ID
  · rw [if_pos hid]
    rfl
  · rw [if_neg hid, if_pos (h.resolve_left hid)]
    rfl

/-- The same slip in the function that takes the name from the columns of a row. -/
theorem serializeNameColumns_refuseSecond {lpRow : StreamRow} (h : RowHasName lpRow) (n : ℕ) :
    (serializeNameColumns refuseSecond lpRow (n + 2)).ended = .ok () := by
  obtain ⟨hguid, hname⟩ := h
  obtain ⟨guid, hguid⟩ := Option.isSome_iff_exists.mp hguid
  unfold serializeNameColumns
  rw [hguid]
  rcases hid : lpRow.nameid with _ | nameid
  · rw [hid] at hname
    obtain ⟨namestr, hstr⟩ := Option.isSome_iff_exists.mp (hname.resolve_left Bool.false_ne_true)
    rw [hstr]
    rfl
  · rfl

/-- Without a name the function does not end well. -/
theorem hasName_of_ok {σ : Type} {lpSink : Sink σ} {namedPropDef : NamedPropDef} {s : σ}
    (h : (serializeName lpSink namedPropDef s).ended = .ok ()) :
    namedPropDef.ulKind = MNID_ID ∨ namedPropDef.ulKind = MNID_STRING := by
  obtain ⟨_, -, h⟩ := Caller.ok_of_bind h
  obtain ⟨_, -, h⟩ := Caller.ok_of_bind h
  split_ifs at h with hid hstring
  · exact .inl hid
  · exact .inr hstring
  · cases h

/-- The columns of a name are written successfully only when the row has a name of one of the two kinds. -/
theorem rowHasName_of_ok {σ : Type} {lpSink : Sink σ} {lpRow : StreamRow} {s : σ}
    (h : (serializeNameColumns lpSink lpRow s).ended = .ok ()) : RowHasName lpRow := by
  obtain ⟨_, hguid, h⟩ := Caller.ok_of_bind h
  refine ⟨?_, ?_⟩
  · rcases hcolumn : lpRow.nameguid with _ | guid
    · rw [hcolumn] at hguid
      cases hguid
    · rfl
  · rcases hid : lpRow.nameid with _ | nameid
    · rcases hstring : lpRow.namestr with _ | namestr
      · rw [hid, hstring] at h
        cases h
      · exact .inr rfl
    · exact .inl rfl

/-! ## The functions -/

section Functions

variable (lpStreamCaps : StreamCaps) (charset : Charset)

/-- A property without a name reports errors, and one with a name does not. -/
theorem serializePropVal_reports (sPropVal : PropVal) (lpNamedPropDefs : Option NamedPropDefMap) :
    (∀ (σ : Type) (lpSink : Sink σ) (s : σ),
      Reports (serializePropVal lpSink lpStreamCaps charset sPropVal lpNamedPropDefs)
        (propType sPropVal.Value ∈ supportedTypes) s) ↔
      ¬ (0x8500 < sPropVal.ulPropId ∧ HasName sPropVal lpNamedPropDefs) := by
  constructor
  · rintro h ⟨hid, namedPropDef, hlookup, hkind⟩
    have hreports (n : ℕ) := h ℕ refuseSecond n ()
    unfold serializePropVal at hreports
    simp only [if_pos hid, hlookup] at hreports
    by_cases htype : propType sPropVal.Value ∈ supportedTypes
    · -- the first call for the value is refused
      obtain ⟨hok, hrefused⟩ := Caller.ok_of_attempt_refused (s := 0)
        (writeOne refuseSecond 4 (streamTag sPropVal)) rfl
        (refused_serializeValue refuseSecond_refuses lpStreamCaps charset htype)
        (q := fun _ => serializeName refuseSecond namedPropDef) (serializeName_refuseSecond hkind 0)
      exact Bool.false_ne_true ((hreports 0 hok).1.symm.trans hrefused)
    · -- no call is made for the value
      refine htype (hreports 2 ?_).2
      rw [serializeValue_of_not_supported _ _ _ htype]
      exact serializeName_refuseSecond hkind 1
  · intro hname σ lpSink s
    unfold serializePropVal
    split_ifs with hid
    · cases hlookup : lookUpName sPropVal lpNamedPropDefs with
      | error er => exact fun a ha => nomatch ha
      | ok namedPropDef =>
        intro a ha
        obtain ⟨_, -, ha⟩ := Caller.ok_of_bind ha
        obtain ⟨_, -, ha⟩ := Caller.ok_of_bind ha
        exact absurd ⟨hid, namedPropDef, hlookup, hasName_of_ok ha⟩ hname
    · refine .of_honest ((honest_writeOne lpSink 4 _).bind fun _ =>
        honest_serializeValue lpSink lpStreamCaps charset _) fun a ha => ?_
      by_contra htype
      obtain ⟨_, -, ha⟩ := Caller.ok_of_bind ha
      rw [serializeValue_of_not_supported lpSink lpStreamCaps charset htype] at ha
      cases ha

/-- The same for rows with a value. -/
theorem serializeDatabasePropVal_reports (d : Externals) (lpRow : StreamRow) :
    (∀ (σ : Type) (lpSink : Sink σ) (s : σ), Reports (serializeDatabasePropVal lpSink lpStreamCaps charset d lpRow)
        ((Lib.atoi lpRow.type).toNat ∈ supportedTypes) s) ↔ ¬ (0x8500 < rowId lpRow.toDbRow ∧ RowHasName lpRow ∧
        ∃ type, rowType lpRow.toDbRow = some type ∧ hasColumns lpRow.toDbRow type = true) := by
  constructor
  · rintro h ⟨hid, hname, type, htype, hcolumns⟩
    have hvalidated : getValidatedPropType lpRow.toDbRow = .erSuccess type := by
      rw [getValidatedPropType, htype]
      exact if_pos hcolumns
    obtain ⟨p, hp, hrefuse⟩ :=
      refused_serializeColumns refuseSecond_refuses lpStreamCaps charset d hcolumns
    have hreports := h ℕ refuseSecond 0 ()
    unfold serializeDatabasePropVal at hreports
    simp only [hvalidated, hp, if_pos hid] at hreports
    obtain ⟨hok, hrefused⟩ := Caller.ok_of_attempt_refused (s := 0)
      (writeOne refuseSecond 4 (PROP_TAG type.code (rowId lpRow.toDbRow))) rfl hrefuse
      (q := fun _ => serializeNameColumns refuseSecond lpRow) (serializeNameColumns_refuseSecond hname 0)
    exact Bool.false_ne_true ((hreports hok).1.symm.trans hrefused)
  · intro hname σ lpSink s
    unfold serializeDatabasePropVal getValidatedPropType
    rcases htype : rowType lpRow.toDbRow with _ | type
    · exact fun a ha => nomatch ha
    have hsupported := (rowType_isSome_iff lpRow.toDbRow).mp (htype ▸ rfl)
    dsimp only
    by_cases hcolumns : hasColumns lpRow.toDbRow type = true
    · rw [if_pos hcolumns]
      dsimp only
      rcases hp : serializeColumns lpSink lpStreamCaps charset d type lpRow.toDbRow with _ | p
      · intro a ha
        obtain ⟨_, -, ha⟩ := Caller.ok_of_bind ha
        cases ha
      · dsimp only
        split_ifs with hid
        · intro a ha
          obtain ⟨_, -, ha⟩ := Caller.ok_of_bind ha
          obtain ⟨_, -, ha⟩ := Caller.ok_of_bind ha
          exact absurd ⟨hid, rowHasName_of_ok ha, type, htype, hcolumns⟩ hname
        · have hhonest := honest_serializeColumns lpSink lpStreamCaps charset d type lpRow.toDbRow p hp
          exact .of_honest ((honest_writeOne lpSink 4 _).bind fun _ => hhonest) fun _ _ => hsupported
    · rw [if_neg hcolumns]
      exact fun _ _ => ⟨rfl, hsupported⟩

/-- A source that answers with a tag, then refuses, and has a name of no kind. -/
def refuseValue (ulPropTag : BitVec 32) : Source ℕ := fun n size nmemb =>
  let words := write 4 [if n = 0 then ulPropTag else 2]
  if n = 1 then (.error (.other 0), 2)
  else if h : words.length = size * nmemb then (.ok ⟨words, h⟩, n + 1)
  else (.ok ⟨List.replicate (size * nmemb) 0, List.length_replicate⟩, n + 1)

/-- What the source that refuses one call gives for a number of four bytes, by the number of calls so far. -/
theorem readOne_refuseValue (ulPropTag : BitVec 32) {n : ℕ} (h : n ≠ 1) :
    readOne (refuseValue ulPropTag) 4 n = ⟨.ok (if n = 0 then ulPropTag else 2), n + 1, false⟩ := by
  have hlength (word : BitVec 32) : (write 4 [word]).length = 4 * 1 := length_write 4 _
  have hcall : refuseValue ulPropTag n 4 1 =
      (.ok ⟨write 4 [if n = 0 then ulPropTag else 2], hlength _⟩, n + 1) := by
    unfold refuseValue
    rw [if_neg h, dif_pos (hlength _)]
  have hread : read (refuseValue ulPropTag) 4 4 1 n = ⟨.ok [if n = 0 then ulPropTag else 2], n + 1, false⟩ := by
    have hwords := elements_write 4 [if n = 0 then ulPropTag else (2 : BitVec 32)]
    unfold read
    rw [Caller.bind_of_ok (by rw [Caller.call, hcall]), Caller.call, hcall]
    dsimp only
    rw [if_neg (by decide)]
    exact congrArg (fun words => (⟨.ok words, n + 1, false⟩ : Outcome ℕ StreamError _)) hwords
  unfold readOne
  rw [Caller.bind_of_ok (congrArg Outcome.ended hread), hread]
  rfl

/-- The name of a property is read with success, although the second call of the source has failed. -/
theorem deserializeName_refuseValue (ulPropTag : BitVec 32) (namedPropertyMapper : NameMapper) :
    (deserializeName (refuseValue ulPropTag) namedPropertyMapper 2).ended = .ok 0 := by
  have hkind := readOne_refuseValue ulPropTag (n := 3) (by decide)
  refine Caller.ok_bind (a := List.replicate 16 0) rfl (Caller.ok_bind (a := 2) ?_ ?_)
  · exact congrArg Outcome.ended hkind
  · rw [if_neg (by decide), if_neg (by decide)]
    rfl

/-- The same for a tag that was read. -/
theorem deserializePropVal_reports (namedPropertyMapper : NameMapper) (ulPropTag : BitVec 32) :
    (∀ (σ : Type) (lpSource : Source σ) (s : σ), (readOne lpSource 4 s).ended = .ok ulPropTag →
      Reports (deserializePropVal lpSource lpStreamCaps charset namedPropertyMapper)
        (typeOf ulPropTag ∈ supportedTypes) s) ↔ ¬ (0x8500 < idOf ulPropTag ∧ typeOf ulPropTag ∈ supportedTypes) := by
  constructor
  · rintro h ⟨hid, htype⟩
    have htag := readOne_refuseValue ulPropTag (n := 0) (by decide)
    obtain ⟨p, hp⟩ := Option.isSome_iff_exists.mp
      ((deserializeValue_isSome_iff (refuseValue ulPropTag) lpStreamCaps charset _).mpr htype)
    have hrefuse : p 1 = ⟨.error (.other 0), 2, true⟩ :=
      refused_deserializeValue (fun _ _ => rfl) lpStreamCaps charset hp
    have hrest : deserializeTagged (refuseValue ulPropTag) lpStreamCaps charset namedPropertyMapper ulPropTag =
        Caller.attempt p >>= fun value =>
          deserializeName (refuseValue ulPropTag) namedPropertyMapper >>= fun ulLocalId =>
            pure ⟨ulLocalId.setWidth 16, value.toOption.join⟩ := by
      rw [deserializeTagged, hp]
      exact if_pos hid
    have hrun := Caller.attempt_refused (q := fun value =>
      deserializeName (refuseValue ulPropTag) namedPropertyMapper >>= fun ulLocalId =>
        (pure ⟨ulLocalId.setWidth 16, value.toOption.join⟩ : Caller ℕ StreamError ReadPropVal)) hrefuse
    have hok : (deserializePropVal (refuseValue ulPropTag) lpStreamCaps charset namedPropertyMapper 0).ended =
        .ok ⟨0, none⟩ := by
      refine Caller.ok_bind (congrArg Outcome.ended htag) ?_
      rw [if_pos rfl, htag, hrest, hrun]
      exact Caller.ok_bind (deserializeName_refuseValue ulPropTag namedPropertyMapper) rfl
    have hrefused :
        (deserializePropVal (refuseValue ulPropTag) lpStreamCaps charset namedPropertyMapper 0).refused = true := by
      unfold deserializePropVal
      rw [Caller.bind_of_ok (congrArg Outcome.ended htag), if_pos rfl, htag, hrest, hrun]
      rfl
    exact Bool.false_ne_true ((h ℕ (refuseValue ulPropTag) 0 (congrArg Outcome.ended htag) _ hok).1.symm.trans hrefused)
  · intro hname σ lpSource s htag
    by_cases htype : typeOf ulPropTag ∈ supportedTypes
    · obtain ⟨p, hp⟩ := Option.isSome_iff_exists.mp
        ((deserializeValue_isSome_iff lpSource lpStreamCaps charset _).mpr htype)
      have hhonest := honest_deserializeValue lpSource lpStreamCaps charset _ p hp
      have hid : ¬ 0x8500 < idOf ulPropTag := fun hid => hname ⟨hid, htype⟩
      have hrest : Honest (deserializeTagged lpSource lpStreamCaps charset namedPropertyMapper ulPropTag) := by
        rw [deserializeTagged, hp]
        dsimp only
        rw [if_neg hid]
        exact hhonest.bind fun _ => .pure _
      intro a ha
      obtain ⟨tag, htag', ha'⟩ := Caller.ok_of_bind ha
      rw [htag] at htag'
      cases htag'
      refine ⟨?_, htype⟩
      unfold deserializePropVal
      rw [Caller.bind_of_ok htag, hrest _ _ ha', honest_readOne lpSource 4 s _ htag]
      rfl
    · intro a ha
      obtain ⟨tag, htag', ha'⟩ := Caller.ok_of_bind ha
      rw [htag] at htag'
      cases htag'
      have hnone : deserializeValue lpSource lpStreamCaps charset (typeOf ulPropTag) = none := by
        rw [← Option.not_isSome_iff_eq_none, deserializeValue_isSome_iff]
        exact htype
      rw [deserializeTagged, hnone] at ha'
      cases ha'

end Functions

/-- Success of each of the functions means that no call was refused, and that the type is supported. -/
structure ReportsErrors (lpStreamCaps : StreamCaps) (charset : Charset) (d : Externals)
    (namedPropertyMapper : NameMapper) : Prop where
  serializePropVal : ∀ (sPropVal : PropVal) (lpNamedPropDefs : Option NamedPropDefMap) (σ : Type) (lpSink : Sink σ)
    (s : σ), Reports (Calls.serializePropVal lpSink lpStreamCaps charset sPropVal lpNamedPropDefs)
      (propType sPropVal.Value ∈ supportedTypes) s
  serializeDatabasePropVal : ∀ (lpRow : StreamRow) (σ : Type) (lpSink : Sink σ) (s : σ),
    Reports (Calls.serializeDatabasePropVal lpSink lpStreamCaps charset d lpRow)
      ((Lib.atoi lpRow.type).toNat ∈ supportedTypes) s
  deserializePropVal : ∀ (ulPropTag : BitVec 32) (σ : Type) (lpSource : Source σ) (s : σ),
    (readOne lpSource 4 s).ended = .ok ulPropTag →
      Reports (Calls.deserializePropVal lpSource lpStreamCaps charset namedPropertyMapper)
        (typeOf ulPropTag ∈ supportedTypes) s

/-- The functions report the errors of exactly the properties without a name behind the value. -/
theorem reportsErrors_iff (lpStreamCaps : StreamCaps) (charset : Charset) (d : Externals)
    (namedPropertyMapper : NameMapper) : (∀ (sPropVal : PropVal) (lpNamedPropDefs : Option NamedPropDefMap),
      (∀ (σ : Type) (lpSink : Sink σ) (s : σ),
        Reports (serializePropVal lpSink lpStreamCaps charset sPropVal lpNamedPropDefs)
          (propType sPropVal.Value ∈ supportedTypes) s) ↔
        ¬ (0x8500 < sPropVal.ulPropId ∧ HasName sPropVal lpNamedPropDefs)) ∧ (∀ lpRow : StreamRow,
      (∀ (σ : Type) (lpSink : Sink σ) (s : σ), Reports (serializeDatabasePropVal lpSink lpStreamCaps charset d lpRow)
          ((Lib.atoi lpRow.type).toNat ∈ supportedTypes) s) ↔ ¬ (0x8500 < rowId lpRow.toDbRow ∧ RowHasName lpRow ∧
          ∃ type, rowType lpRow.toDbRow = some type ∧ hasColumns lpRow.toDbRow type = true)) ∧
    ∀ ulPropTag : BitVec 32,
      (∀ (σ : Type) (lpSource : Source σ) (s : σ), (readOne lpSource 4 s).ended = .ok ulPropTag →
        Reports (deserializePropVal lpSource lpStreamCaps charset namedPropertyMapper)
          (typeOf ulPropTag ∈ supportedTypes) s) ↔ ¬ (0x8500 < idOf ulPropTag ∧ typeOf ulPropTag ∈ supportedTypes) :=
  ⟨serializePropVal_reports lpStreamCaps charset, serializeDatabasePropVal_reports lpStreamCaps charset d,
    deserializePropVal_reports lpStreamCaps charset namedPropertyMapper⟩

theorem noName_lt : ([] : List UInt8).length < 2 ^ 32 := by decide

/-- A property in the dynamic range that has a number for its name. -/
def numbered : PropVal × NamedPropDef :=
  (⟨0x8501, .PT_LONG 5⟩, ⟨⟨List.replicate 16 0, rfl⟩, MNID_ID, 1, ⟨[], noName_lt⟩⟩)

/-- The sink refuses its value, and the function says that all is well. -/
theorem not_reportsErrors : ¬ ∀ lpStreamCaps charset d namedPropertyMapper,
    ReportsErrors lpStreamCaps charset d namedPropertyMapper := by
  intro h
  have hall := h ⟨true⟩ ⟨id, fun c => [c]⟩ ⟨id, some, some, fun _ => [], fun _ => [], fun _ => 0, fun _ => 0, fun s => (0, s)⟩
    ⟨fun _ _ => .ok 0, fun _ _ => .ok 0⟩
  have hreports := hall.serializePropVal numbered.1 (some fun _ => some numbered.2) ℕ refuseSecond 0 () rfl
  exact Bool.false_ne_true (hreports.1.symm.trans rfl)

end Zcp.Libserver.StreamUtil.Calls
