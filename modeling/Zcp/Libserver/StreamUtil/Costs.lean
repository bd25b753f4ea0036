import Zcp.Lib.ByteReader.Restores
import Zcp.Libserver.StreamUtil.RoundTrip

/-!
# What it costs to read a property

Whatever bytes `DeserializePropVal` reads a property from, it takes at least as many as
`SerializePropVal` writes for it. For a string in `WINDOWS-1252` this is so because a character of it has
one byte, and for a name because an id belongs to one name.
-/

namespace Zcp.Libserver.StreamUtil

open Zcp.Lib
open Zcp.Common
open Zcp.Common.SOAPUtils (PropVal)
open Zcp.Common.ECSerializer (Failure Source)
open Zcp.Common.ECStreamSerializer

/-! ## Numbers and arrays -/

variable {bytes : List UInt8}

/-- Bytes that are read are taken, and as many as asked for. -/
theorem readBytes_ok {room nmemb : ℕ} {bs rest : List UInt8} {s s' : Unit}
    (h : readBytes room nmemb bs s = (.ok bytes, rest, s')) :
    rest.length + bytes.length = bs.length ∧ bytes.length = nmemb := by
  obtain ⟨taken, bs', s₁, htake, hcheck⟩ := exists_of_bind_ok h
  cases htake
  split_ifs at hcheck with houtside hshort
  · cases hcheck
  · cases hcheck
  · cases hcheck
    rw [List.length_drop, List.length_take]
    rw [List.length_take] at hshort
    omega

theorem costs_readBytes (room nmemb : ℕ) (bytes : List UInt8) : Costs (readBytes room nmemb) bytes bytes.length :=
  fun _ _ _ _ h => le_of_eq (readBytes_ok h).1

theorem costs_readBytes_all (room nmemb : ℕ) (bytes : List UInt8) : Costs (readBytes room nmemb) bytes nmemb := by
  intro bs s rest s' h
  obtain ⟨hcost, hlength⟩ := readBytes_ok h
  omega

theorem length_elements (size n : ℕ) (bytes : List UInt8) : (elements size n bytes).length = n := by
  induction n generalizing bytes with
  | zero => rfl
  | succ n ih => rw [elements, List.length_cons, ih]

/-- Elements that are read are as many as asked for. -/
theorem read_ok {room size nmemb : ℕ} {elems : List (BitVec (8 * size))} {bs rest : List UInt8}
    {s s' : Unit} (h : read room size nmemb bs s = (.ok elems, rest, s')) :
    rest.length + size * nmemb = bs.length ∧ elems.length = nmemb := by
  obtain ⟨bytes, bs', s₁, hbytes, hpure⟩ := exists_of_bind_ok h
  cases hpure
  obtain ⟨hcost, hlength⟩ := readBytes_ok hbytes
  rw [hlength] at hcost
  exact ⟨hcost, length_elements _ _ _⟩

theorem costs_read (room size nmemb : ℕ) (elems : List (BitVec (8 * size))) :
    Costs (read room size nmemb) elems (size * elems.length) := by
  intro bs s rest s' h
  obtain ⟨hcost, hlength⟩ := read_ok h
  rw [hlength]
  exact le_of_eq hcost

theorem costs_readOne (size : ℕ) (elem : BitVec (8 * size)) : Costs (readOne size) elem size := by
  refine Costs.bind_pure fun elems _ => Costs.bind_pure fun bytes _ => ?_
  exact (costs_readBytes_all size (size * 1) bytes).mono (le_of_eq (mul_one size).symm)

variable {n : ℕ}

/-- Memory with its size costs what its elements cost. -/
theorem costs_counted {α β : Type} {p : Source β} {f : β → List α} (mv : Counted 31 α)
    (h : ∀ b, f b = mv.elems → Costs p b n) : Costs (p >>= fun b => counted (f b)) mv n := by
  refine Costs.bind fun b => ?_
  unfold counted
  by_cases heq : f b = mv.elems
  · refine .inr (.inr ⟨n, 0, h b heq, ?_, le_rfl⟩)
    split_ifs
    · exact Costs.pure _ _
    · exact (never_stop _ _).costs 0
  · refine .inr (.inl ?_)
    split_ifs
    · exact never_pure fun hmv => heq (congrArg Counted.elems hmv)
    · exact never_stop _ _

/-- What stands behind a count or a size of 32 bits. -/
theorem costs_after {α : Type} {q : BitVec 32 → Source α} {a : α}
    (h : ∀ ulCount, Costs (q ulCount) a n) : Costs (readOne 4 >>= q) a (4 + n) :=
  Costs.seq (costs_readOne 4) h

theorem costs_readBinary (bin : Base64Binary) : Costs readBinary bin (4 + bin.elems.length) :=
  costs_after fun _ => costs_counted bin fun bytes hbytes => hbytes ▸ costs_readBytes _ _ bytes

theorem costs_readHilo (hilo : HiloLong) : Costs readHilo hilo 8 :=
  costs_after fun _ => Costs.bind_pure fun lo _ => costs_readOne 4 lo

theorem costs_readArray (size : ℕ) (mv : Counted 31 (BitVec (8 * size))) :
    Costs (readArray size) mv (4 + size * mv.elems.length) :=
  costs_after fun _ => costs_counted mv fun elems helems => helems ▸ costs_read _ _ _ elems

theorem costs_readMulti {α : Type} {readElem : Source α} {w : α → ℕ} (mv : Counted 31 α)
    (h : ∀ elem ∈ mv.elems, Costs readElem elem (w elem)) :
    Costs (readMulti readElem) mv (4 + (mv.elems.map w).sum) := by
  refine costs_after fun ulCount => costs_counted mv fun elems helems => ?_
  have hcollect := Costs.collect h ulCount.toNat
  rw [List.map_id'] at hcollect
  cases helems
  exact hcollect

/-! ## Times and currencies -/

/-- The loop for 64-bit values takes eight bytes for each of them, whichever of them it stores. -/
theorem costs_readHilosLoop (ulCount : ℕ) (memory : List (BitVec 32)) :
    Costs (readHilosLoop ulCount ulCount (List.replicate (2 * ulCount) 0)) memory (8 * (hilos memory).length) := by
  rcases Nat.lt_trichotomy ulCount 1 with hnone | rfl | hmany
  · obtain rfl : ulCount = 0 := by omega
    by_cases hmemory : [] = memory
    · rw [← hmemory]
      exact Costs.pure [] []
    · exact (never_pure hmemory).costs _
  · -- one word for each half
    intro bs s rest s' h
    have hloop : readHilosLoop 1 1 (List.replicate (2 * 1) 0) = read 8 4 1 >>= fun hi =>
      read 4 4 1 >>= fun lo => pure (store (store [0, 0] 0 hi) 1 lo) := rfl
    rw [hloop] at h
    obtain ⟨hi, bs₁, s₁, hhi, h⟩ := exists_of_bind_ok h
    obtain ⟨lo, bs₂, s₂, hlo, h⟩ := exists_of_bind_ok h
    obtain ⟨hcostHi, hlengthHi⟩ := read_ok hhi
    obtain ⟨hcostLo, hlengthLo⟩ := read_ok hlo
    obtain ⟨wordHi, rfl⟩ := List.length_eq_one_iff.mp hlengthHi
    obtain ⟨wordLo, rfl⟩ := List.length_eq_one_iff.mp hlengthLo
    cases h
    change rest.length + 8 * 1 ≤ bs.length
    omega
  · obtain ⟨left, rfl⟩ := Nat.exists_eq_add_of_lt hmany
    exact ((stops_readHilosLoop (by omega) _ (by omega) _).never memory).costs _

theorem costs_readHilos (mv : Counted 31 HiloLong) : Costs readHilos mv (4 + 8 * mv.elems.length) := by
  refine costs_after fun ulCount => costs_counted mv fun memory hmemory => ?_
  rw [← hmemory]
  exact costs_readHilosLoop _ memory

/-! ## Strings -/

/-- The first byte of a character in UTF-8. -/
def isLead (b : UInt8) : Bool := b &&& 0xC0 != 0x80

/-- A byte of the charset is one character. -/
def Charset.SingleByte (charset : Charset) : Prop := ∀ b, (charset.char b).countP isLead = 1

section Strings

variable {lpStreamCaps : StreamCaps} {charset : Charset} {lpszA : LPSTR} {text : List UInt8}

theorem Charset.SingleByte.char_ne_nil (h : charset.SingleByte) (b : UInt8) : charset.char b ≠ [] := by
  intro hnil
  have hone := h b
  rw [hnil] at hone
  cases hone

theorem countP_decode (h : charset.SingleByte) (encoded : List UInt8) :
    (charset.decode encoded).countP isLead = encoded.length := by
  unfold Charset.decode
  induction encoded with
  | nil => rfl
  | cons b encoded ih =>
    rw [List.flatMap_cons, List.countP_append, ih, h b, List.length_cons, add_comm]

theorem length_streamed_le (lpStreamCaps : StreamCaps) (charset : Charset) (text : List UInt8) :
    (streamed lpStreamCaps charset text).length ≤ (encodeString lpStreamCaps charset text).length :=
  List.length_take_le' _ _

theorem length_writeString (lpStreamCaps : StreamCaps) (charset : Charset) (lpszA : LPSTR) :
    (writeString lpStreamCaps charset lpszA).length = 4 + (streamed lpStreamCaps charset (lpszA.getD [])).length := by
  unfold writeString streamed
  simp only [List.length_append, length_write, List.length_singleton, BitVec.toNat_ofNat]

/-- A string that is read back has taken as many bytes as were written for it. -/
theorem costs_readString (h : charset.SingleByte) (hstring : IsString lpStreamCaps charset lpszA text) :
    Costs (readString lpStreamCaps charset) lpszA (writeString lpStreamCaps charset lpszA).length := by
  obtain ⟨rfl, hzero, hinverse⟩ := hstring
  rw [length_writeString]
  refine costs_after fun ulLen => ?_
  have hle := length_streamed_le lpStreamCaps charset text
  unfold encodeString at hle
  cases hunicode : lpStreamCaps.bSupportUnicode with
  | true =>
    rw [hunicode, if_pos rfl] at hle
    rw [if_pos rfl]
    refine Costs.bind_pure fun memory hmemory => (costs_readBytes _ _ memory).mono (hle.trans ?_)
    rw [← Option.some.inj hmemory]
    exact length_cString_le memory
  | false =>
    rw [hunicode, if_neg Bool.false_ne_true] at hle
    rw [if_neg Bool.false_ne_true]
    refine Costs.bind_pure fun strData hdata => (costs_readBytes _ _ strData).mono (hle.trans ?_)
    -- the characters that have arrived are among those that have been read
    have hsub : (cString (charset.decode strData)).countP isLead ≤
        (charset.decode strData).countP isLead := (List.takeWhile_sublist _).countP_le
    rw [Option.some.inj hdata, countP_decode h, ← hinverse hunicode, countP_decode h] at hsub
    exact hsub

end Strings

/-! ## Values -/

section Values

variable {lpStreamCaps : StreamCaps} {charset : Charset} {value : PropValData}

theorem length_writeMulti {α : Type} (writeElem : α → List UInt8) (mv : Counted 31 α) :
    (writeMulti writeElem mv).length = 4 + (mv.elems.map fun elem => (writeElem elem).length).sum := by
  unfold writeMulti
  rw [List.length_append, length_write, List.length_flatMap]
  rfl

theorem costs_array (size : ℕ) (mv : Counted 31 (BitVec (8 * size))) :
    Costs (readArray size) mv (writeMulti (fun elem => write size [elem]) mv).length := by
  have hsize : (mv.elems.map fun elem => (write size [elem]).length).sum = size * mv.elems.length := by
    have helem : (fun elem : BitVec (8 * size) => (write size [elem]).length) = fun _ => size := by
      funext elem
      rw [length_write, List.length_singleton, mul_one]
    rw [helem, List.map_const', List.sum_replicate_nat, mul_comm]
  rw [length_writeMulti, hsize]
  exact costs_readArray size mv

theorem length_writeBinary (bin : Base64Binary) : (writeBinary bin).length = 4 + bin.elems.length := by
  rw [writeBinary, List.length_append, length_write]
  rfl

theorem costs_binary (bin : Base64Binary) : Costs readBinary bin (writeBinary bin).length := by
  rw [length_writeBinary]
  exact costs_readBinary bin

theorem costs_multi {α : Type} {readElem : Source α} {writeElem : α → List UInt8}
    (mv : Counted 31 α) (h : ∀ elem ∈ mv.elems, Costs readElem elem (writeElem elem).length) :
    Costs (readMulti readElem) mv (writeMulti writeElem mv).length := by
  rw [length_writeMulti]
  exact costs_readMulti mv h

theorem costs_hilos (mv : Counted 31 HiloLong) : Costs readHilos mv (writeMulti writeHilo mv).length := by
  have hsize : (mv.elems.map fun hilo => (writeHilo hilo).length).sum = 8 * mv.elems.length := by
    have helem : (fun hilo => (writeHilo hilo).length) = fun _ => 8 := rfl
    rw [helem, List.map_const', List.sum_replicate_nat, mul_comm]
  rw [length_writeMulti, hsize]
  exact costs_readHilos mv

/-- A value is only read under its own type. -/
theorem never_deserializeValue {type : ℕ} (h : type ≠ propType value) :
    Never (deserializeValue lpStreamCaps charset type) value := by
  have hother {α : Type} {p : Source α} {make : α → PropValData} (hmake : ∀ a, propType (make a) = type) :
      Never (do return make (← p)) value :=
    Never.bind fun a => .inr (never_pure fun heq => h (heq ▸ (hmake a).symm))
  unfold deserializeValue
  split
  case h_26 => exact never_stop _ _
  case h_4 => exact Never.bind fun b => .inr (never_pure fun heq => h (heq ▸ rfl))
  all_goals exact hother fun _ => rfl

theorem costs_return {α : Type} {p : Source α} {make : α → PropValData} {a : α}
    (hmake : ∀ b, make b = make a → b = a) (h : Costs p a n) :
    Costs (do return make (← p)) (make a) n :=
  Costs.bind_pure fun b hb => hmake b hb ▸ h

/-- Whatever its type is, a value that is read back has taken as many bytes as were written for it. -/
theorem costs_deserializeValue (hcharset : charset.SingleByte)
    (hstrings : ∀ lpszA ∈ strings value, ∃ text, IsString lpStreamCaps charset lpszA text)
    (h : serializeValue lpStreamCaps charset value = some bytes) :
    Costs (deserializeValue lpStreamCaps charset (propType value)) value bytes.length := by
  have hstring : ∀ lpszA ∈ strings value, Costs (readString lpStreamCaps charset) lpszA
      (writeString lpStreamCaps charset lpszA).length := by
    intro lpszA hmem
    obtain ⟨text, htext⟩ := hstrings lpszA hmem
    exact costs_readString hcharset htext
  cases value <;> cases h
  case PT_BOOLEAN b =>
    exact Costs.bind_pure fun bytes _ => costs_readBytes_all 1 1 bytes
  case PT_I2 i => exact costs_return (fun _ => PropValData.PT_I2.inj) (costs_readOne 2 i)
  case PT_LONG ul => exact costs_return (fun _ => PropValData.PT_LONG.inj) (costs_readOne 4 ul)
  case PT_R4 flt => exact costs_return (fun _ => PropValData.PT_R4.inj) (costs_readOne 4 flt)
  case PT_DOUBLE dbl => exact costs_return (fun _ => PropValData.PT_DOUBLE.inj) (costs_readOne 8 dbl)
  case PT_APPTIME dbl => exact costs_return (fun _ => PropValData.PT_APPTIME.inj) (costs_readOne 8 dbl)
  case PT_I8 li => exact costs_return (fun _ => PropValData.PT_I8.inj) (costs_readOne 8 li)
  case PT_STRING8 lpszA => exact costs_return (fun _ => PropValData.PT_STRING8.inj) (hstring lpszA (List.mem_singleton_self lpszA))
  case PT_UNICODE lpszA => exact costs_return (fun _ => PropValData.PT_UNICODE.inj) (hstring lpszA (List.mem_singleton_self lpszA))
  case PT_SYSTIME hilo => exact costs_return (fun _ => PropValData.PT_SYSTIME.inj) (costs_readHilo hilo)
  case PT_CURRENCY hilo => exact costs_return (fun _ => PropValData.PT_CURRENCY.inj) (costs_readHilo hilo)
  case PT_BINARY bin => exact costs_return (fun _ => PropValData.PT_BINARY.inj) (costs_binary bin)
  case PT_CLSID bin => exact costs_return (fun _ => PropValData.PT_CLSID.inj) (costs_binary bin)
  case PT_MV_I2 mvi => exact costs_return (fun _ => PropValData.PT_MV_I2.inj) (costs_array 2 mvi)
  case PT_MV_LONG mvl => exact costs_return (fun _ => PropValData.PT_MV_LONG.inj) (costs_array 4 mvl)
  case PT_MV_R4 mvflt => exact costs_return (fun _ => PropValData.PT_MV_R4.inj) (costs_array 4 mvflt)
  case PT_MV_DOUBLE mvdbl => exact costs_return (fun _ => PropValData.PT_MV_DOUBLE.inj) (costs_array 8 mvdbl)
  case PT_MV_APPTIME mvdbl => exact costs_return (fun _ => PropValData.PT_MV_APPTIME.inj) (costs_array 8 mvdbl)
  case PT_MV_I8 mvli => exact costs_return (fun _ => PropValData.PT_MV_I8.inj) (costs_array 8 mvli)
  case PT_MV_STRING8 mvszA => exact costs_return (fun _ => PropValData.PT_MV_STRING8.inj) (costs_multi mvszA hstring)
  case PT_MV_UNICODE mvszA => exact costs_return (fun _ => PropValData.PT_MV_UNICODE.inj) (costs_multi mvszA hstring)
  case PT_MV_SYSTIME mvhilo => exact costs_return (fun _ => PropValData.PT_MV_SYSTIME.inj) (costs_hilos mvhilo)
  case PT_MV_CURRENCY mvhilo => exact costs_return (fun _ => PropValData.PT_MV_CURRENCY.inj) (costs_hilos mvhilo)
  case PT_MV_BINARY mvbin => exact costs_return (fun _ => PropValData.PT_MV_BINARY.inj) (costs_multi mvbin fun bin _ => costs_binary bin)
  case PT_MV_CLSID mvbin => exact costs_return (fun _ => PropValData.PT_MV_CLSID.inj) (costs_multi mvbin fun bin _ => costs_binary bin)

end Values

/-! ## Names -/

/-- The ids of the names are in the dynamic range, and a name is not told from another one by its id
only. -/
structure NamedPropertyMapper.Sound (namedPropertyMapper : NamedPropertyMapper) : Prop where
  id_dynamic : ∀ {guid ulNameId ulLocalId},
    namedPropertyMapper.getId guid ulNameId = .ok ulLocalId → 0x8500 < ulLocalId.setWidth 16
  string_dynamic : ∀ {guid strName ulLocalId},
    namedPropertyMapper.getStringId guid strName = .ok ulLocalId → 0x8500 < ulLocalId.setWidth 16
  id_ne_string : ∀ {guid ulNameId ulLocalId guid' strName ulLocalId'},
    namedPropertyMapper.getId guid ulNameId = .ok ulLocalId →
      namedPropertyMapper.getStringId guid' strName = .ok ulLocalId' →
        ulLocalId.setWidth 16 ≠ ulLocalId'.setWidth 16
  string_inj : ∀ {guid strName ulLocalId guid' strName' ulLocalId'},
    namedPropertyMapper.getStringId guid strName = .ok ulLocalId →
      namedPropertyMapper.getStringId guid' strName' = .ok ulLocalId' →
        ulLocalId.setWidth 16 = ulLocalId'.setWidth 16 → strName = strName'

section Names

variable {lpStreamCaps : StreamCaps} {charset : Charset} {namedPropertyMapper : NamedPropertyMapper}

theorem costs_answered {α : Type} (answer : Except Failure α) (a : α) : Costs (answered answer) a 0 := by
  cases answer with
  | ok b => exact Costs.pure b a
  | error er => exact (never_stop er a).costs 0

theorem never_answered {α : Type} {answer : Except Failure α} {a : α} (h : answer ≠ .ok a) :
    Never (answered answer) a := by
  cases answer with
  | ok b => exact never_pure fun hb => h (congrArg Except.ok hb)
  | error er => exact never_stop er a

variable {namedPropDef : NamedPropDef} {ulLocalId : BitVec 32}

theorem HasLocalId.dynamic (hsound : namedPropertyMapper.Sound)
    (h : HasLocalId namedPropertyMapper namedPropDef ulLocalId) : 0x8500 < ulLocalId.setWidth 16 := by
  cases h with
  | id _ hid => exact hsound.id_dynamic hid
  | string _ hid => exact hsound.string_dynamic hid

/-- The bytes of the id or of the string in a name. -/
def nameSize (namedPropDef : NamedPropDef) : ℕ :=
  if namedPropDef.ulKind = MNID_ID then 0 else namedPropDef.strName.elems.length

/-- A name takes its GUID, its kind and what its kind needs. -/
theorem length_serializeName (h : HasLocalId namedPropertyMapper namedPropDef ulLocalId) :
    (serializeName namedPropDef).2.length = 16 + (4 + (4 + nameSize namedPropDef)) := by
  have hguid := namedPropDef.guid.length_eq
  have hstring : MNID_STRING ≠ MNID_ID := by decide
  unfold serializeName nameSize
  cases h with
  | id hkind _ =>
    rw [if_pos hkind, if_pos hkind]
    simp only [List.length_append, length_write, List.length_singleton, hguid]
  | string hkind _ =>
    rw [if_neg (hkind ▸ hstring), if_pos hkind, if_neg (hkind ▸ hstring)]
    simp only [List.length_append, length_write, List.length_singleton, hguid]
    omega

/-- Every name has a GUID and a kind. -/
theorem costs_name (ulReadId : BitVec 32) : Costs (deserializeName namedPropertyMapper) ulReadId 20 := by
  refine Costs.seq (n := 4) (costs_readBytes_all 16 16) fun guid => ?_
  refine Costs.seq (n := 0) (costs_readOne 4) fun ulKind => ?_
  split_ifs
  · exact (Costs.seq (costs_readOne 4) fun ulNameId => costs_answered _ _).mono (Nat.zero_le _)
  · refine (Costs.seq (costs_readOne 4) fun ulLen => ?_).mono (Nat.zero_le (4 + (0 + 0)))
    exact Costs.seq (fun strName => (costs_readBytes _ _ strName).mono (Nat.zero_le _))
      fun strName => costs_answered _ _
  · exact Costs.pure _ _

/-- An id is read from its name only. -/
theorem costs_deserializeName (hsound : namedPropertyMapper.Sound)
    {ulReadId : BitVec 32} (h : HasLocalId namedPropertyMapper namedPropDef ulLocalId)
    (heq : ulReadId.setWidth 16 = ulLocalId.setWidth 16) :
    Costs (deserializeName namedPropertyMapper) ulReadId (serializeName namedPropDef).2.length := by
  have hdynamic := h.dynamic hsound
  have hstring : MNID_STRING ≠ MNID_ID := by decide
  rw [length_serializeName h]
  refine Costs.seq (costs_readBytes_all 16 16) fun guid => Costs.seq (costs_readOne 4) fun ulKind => ?_
  split_ifs with hkindRead hkindString
  · refine Costs.bind fun ulNameId => ?_
    by_cases hget : namedPropertyMapper.getId guid ulNameId = .ok ulReadId
    · refine .inr (.inr ⟨4, 0, costs_readOne 4 ulNameId, costs_answered _ _, ?_⟩)
      cases h with
      | id hkind hid =>
        rw [nameSize, if_pos hkind]
      | string hkind hid => exact absurd heq (hsound.id_ne_string hget hid)
    · exact .inr (.inl (never_answered hget))
  · refine costs_after fun ulLen => Costs.bind fun strName => ?_
    by_cases hget : namedPropertyMapper.getStringId guid strName = .ok ulReadId
    · refine .inr (.inr ⟨_, 0, costs_readBytes _ _ strName, costs_answered _ _, ?_⟩)
      cases h with
      | id hkind hid =>
        rw [nameSize, if_pos hkind]
        exact Nat.zero_le _
      | string hkind hid =>
        rw [nameSize, if_neg (hkind ▸ hstring), hsound.string_inj hget hid heq]
        exact le_rfl
    · exact .inr (.inl (never_answered hget))
  · -- no name at all gives no id of the dynamic range
    refine (never_pure fun hzero => ?_).costs _
    rw [← heq, ← hzero] at hdynamic
    exact absurd hdynamic (by decide)

/-- A property with its tag, its value and its name. -/
theorem costs_deserializePropVal (hcharset : charset.SingleByte) (hsound : namedPropertyMapper.Sound)
    {value : PropValData} (hstrings : ∀ lpszA ∈ strings value, ∃ text, IsString lpStreamCaps charset lpszA text)
    {name : List UInt8} {id ulPropId : BitVec 16} (hbytes : serializeValue lpStreamCaps charset value = some bytes)
    (hname : MappedName namedPropertyMapper id name ulPropId) :
    Costs (deserializePropVal lpStreamCaps charset namedPropertyMapper) ⟨ulPropId, value⟩
      (4 + (bytes.length + name.length)) := by
  refine Costs.seq (costs_readOne 4) fun ulPropTag => Costs.bind fun valueRead => ?_
  by_cases hvalue : valueRead = value
  · by_cases htype : typeOf ulPropTag = propType value
    · refine .inr (.inr ⟨_, _, ?_, ?_, le_rfl⟩)
      · rw [hvalue, htype]
        exact costs_deserializeValue hcharset hstrings hbytes
      · cases hname with
        | plain h =>
          split_ifs
          · exact Costs.bind_pure fun ulReadId _ => (costs_name ulReadId).mono (Nat.zero_le 20)
          · exact Costs.pure _ _
        | @named _ ulLocalId h hid =>
          split_ifs with hdynamic
          · refine Costs.bind_pure fun ulReadId heq => ?_
            exact costs_deserializeName hsound hid (congrArg PropVal.ulPropId heq)
          · refine (never_pure fun heq => hdynamic ?_).costs _
            have hread : idOf ulPropTag = ulLocalId.setWidth 16 := congrArg PropVal.ulPropId heq
            rw [hread]
            exact hid.dynamic hsound
    · exact .inl (hvalue ▸ never_deserializeValue htype)
  · refine .inr (.inl ?_)
    split_ifs
    · exact Never.bind fun _ => .inr (never_pure fun heq => hvalue (congrArg PropVal.Value heq))
    · exact never_pure fun heq => hvalue (congrArg PropVal.Value heq)

end Names

end Zcp.Libserver.StreamUtil
