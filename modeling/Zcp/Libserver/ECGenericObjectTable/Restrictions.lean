import Mathlib.Data.List.Find
import Zcp.Libserver.ECGenericObjectTable
import Zcp.M4lcommon.CommonUtil

/-!
# The client and the server evaluate restrictions

`testRestriction_eq_hrSuccess_iff`: where they compare values alike, `TestRestriction` succeeds on a row
when `MatchRowRestrict` sets its flag. The conditions say for each kind of restriction where the two are
not alike: an absent property with `RELOP_NE` or `RES_SIZE`, an empty `RES_AND`, differences that do not
fit into 32 bits, sizes of texts, and binary contents.
-/

namespace Zcp.Libserver.ECGenericObjectTable

open Zcp.Common
open Zcp.M4lcommon (Util.result)
open Zcp.M4lcommon.CommonUtil (HRESULT Memory getOneProp testRestriction testAnd testOr onProp
  matchResult RESTRICT_MAX_RECURSE_LEVEL)

variable {T : Type}

/-! ## Comparisons -/

/-- An operator says the same of a difference and of its lowest 32 bits. -/
def CutAlike (relop : Relop) (difference : ℤ) : Prop :=
  relop.holds (difference.bmod (2 ^ 32)) = relop.holds difference

/-- The client cuts the difference of two numbers to 32 bits, and so it does with the low halves of times
and currencies when the high halves are the same. -/
def ComparedAlike (relop : Relop) : Value T → Value T → Prop
  | .PT_LONG a, .PT_LONG b => CutAlike relop ((a.toNat : ℤ) - b.toNat)
  | .PT_I8 a, .PT_I8 b => CutAlike relop (a.toInt - b.toInt)
  | .PT_SYSTIME hi lo, .PT_SYSTIME hi' lo' | .PT_CURRENCY hi lo, .PT_CURRENCY hi' lo' =>
    hi = hi' → CutAlike relop ((lo.toNat : ℤ) - lo'.toNat)
  | _, _ => True

/-- The server compares the entry ids of address book objects in a way of its own. -/
def NoEntryIds (lpProp1 lpProp2 : Property T) : Prop :=
  lpProp1.Value.type = .PT_BINARY → lpProp1.ulPropId ≠ SOAPUtils.PR_ADDRESS_BOOK_ENTRYID ∧
    lpProp2.ulPropId ≠ SOAPUtils.PR_ADDRESS_BOOK_ENTRYID

/-- An operator looks at the sign of the result. -/
theorem holds_of_sgn_eq {x y : ℤ} (h : sgn x = sgn y) (relop : Relop) : relop.holds x = relop.holds y := by
  have hlt : x < 0 ↔ y < 0 := by rw [← sgn_eq_lt, ← sgn_eq_lt, h]
  have heq : x = 0 ↔ y = 0 := by rw [← sgn_eq_eq, ← sgn_eq_eq, h]
  have hgt : 0 < x ↔ 0 < y := by rw [← sgn_eq_gt, ← sgn_eq_gt, h]
  cases relop with
  | RELOP_LT => exact decide_eq_decide.mpr hlt
  | RELOP_LE => exact decide_eq_decide.mpr (by omega)
  | RELOP_GT => exact decide_eq_decide.mpr hgt
  | RELOP_GE => exact decide_eq_decide.mpr (by omega)
  | RELOP_EQ => exact decide_eq_decide.mpr heq
  | RELOP_NE => exact decide_eq_decide.mpr (not_congr heq)

/-- The difference of two words, as an `int`. -/
theorem toInt_sub_eq_bmod (a b : BitVec 32) : (a - b).toInt = ((a.toNat : ℤ) - b.toNat).bmod (2 ^ 32) := by
  rw [BitVec.toInt_sub, BitVec.toInt_eq_toNat_bmod, BitVec.toInt_eq_toNat_bmod,
    Int.bmod_sub_bmod, Int.sub_bmod_bmod]

/-- The client cuts the difference of two 64-bit values to a signed number of 32 bits. -/
theorem compareI8_eq_bmod (a b : BitVec 64) : M4lcommon.Util.compareI8 a b = (a.toInt - b.toInt).bmod (2 ^ 32) := by
  have hdvd : (2 ^ 32 : ℕ) ∣ 2 ^ 64 := by decide
  unfold M4lcommon.Util.compareI8 M4lcommon.Util.low
  rw [BitVec.toInt_setWidth, ← Int.bmod_bmod_of_dvd hdvd, ← BitVec.toInt_eq_toNat_bmod,
    BitVec.toInt_sub, Int.bmod_bmod_of_dvd hdvd]

/-- `memcmp` finds no difference exactly between lists of the same bytes. -/
theorem memcmp_eq_zero {a b : List UInt8} : memcmp a b = 0 ↔ a = b := by
  rw [← sgn_eq_eq, sgn_memcmp, Std.compare_eq_iff_eq]

/-- Sizes below `2 ^ 31` are compared alike as counts of 32 and of 31 bits. -/
theorem sgn_size_sub {a b : List UInt8} (ha : a.length < 2 ^ 31) (hb : b.length < 2 ^ 31) :
    sgn (BitVec.ofNat 32 a.length - BitVec.ofNat 32 b.length).toInt = sgn ((a.length : ℤ) - b.length) := by
  have hcut : ((a.length : ℤ) - b.length).bmod (2 ^ 32) = (a.length : ℤ) - b.length :=
    Int.bmod_eq_of_le (by omega) (by omega)
  rw [toInt_sub_eq_bmod, BitVec.toNat_ofNat, BitVec.toNat_ofNat,
    Nat.mod_eq_of_lt (by omega), Nat.mod_eq_of_lt (by omega), hcut]

/-- Client and server compare binary values with the same outcome: the length first, then the bytes. -/
theorem sgn_compareSBinary_eq {a b : Counted 31 UInt8} (ha : a.elems.length < 2 ^ 32) (hb : b.elems.length < 2 ^ 32) :
    sgn (M4lcommon.Util.compareSBinary ⟨a.elems, ha⟩ ⟨b.elems, hb⟩) = sgn (SOAPUtils.compareBinary a b) := by
  unfold M4lcommon.Util.compareSBinary SOAPUtils.compareBinary
  have hsize : (Counted.size ⟨a.elems, ha⟩ = Counted.size ⟨b.elems, hb⟩) ↔
      a.elems.length = b.elems.length := Counted.size_eq_iff
  have hsub := sgn_size_sub a.length_lt b.length_lt
  by_cases hlength : a.elems.length = b.elems.length
  · by_cases hpos : 0 < a.elems.length
    · rw [if_pos ⟨hpos, hsize.mpr hlength⟩, if_pos ⟨by omega, by omega, hlength⟩]
    · rw [if_neg fun h => hpos h.1, if_neg fun h => hpos (Nat.pos_of_ne_zero h.1)]
      exact hsub
  · rw [if_neg fun h => hlength (hsize.mp h.2), if_neg fun h => hlength h.2.2]
    exact hsub

/-- The halves of times and currencies. -/
theorem holds_compareCur {relop : Relop} {α : Type} {Hi Lo : α → BitVec 32} {a b : α} {hilo hilo' : HiloLong}
    (hHi : Hi a = hilo.hi) (hLo : Lo a = hilo.lo) (hHi' : Hi b = hilo'.hi) (hLo' : Lo b = hilo'.lo)
    (h : hilo.hi = hilo'.hi → CutAlike relop ((hilo.lo.toNat : ℤ) - hilo'.lo.toNat)) :
    relop.holds (M4lcommon.Util.compareCur Hi Lo a b) = relop.holds (SOAPUtils.compareHilo hilo hilo') := by
  unfold M4lcommon.Util.compareCur
  rw [hHi, hHi', hLo, hLo']
  by_cases hhi : hilo.hi = hilo'.hi
  · rw [if_pos hhi, toInt_sub_eq_bmod, h hhi]
    refine holds_of_sgn_eq ?_ relop
    unfold SOAPUtils.compareHilo
    rw [hhi, BitVec.sub_self]
    split_ifs with hlt hgt
    · rw [sgn_eq_lt.mpr (by omega : (-1 : ℤ) < 0), sgn_eq_lt]
      omega
    · rw [sgn_eq_gt.mpr (by omega : (0 : ℤ) < 1), sgn_eq_gt]
      omega
    · have heq : hilo.lo.toNat = hilo'.lo.toNat := by
        simp only [true_and, not_lt, gt_iff_lt] at hlt hgt
        omega
      rw [heq, sub_self]
      rfl
  · rw [if_neg hhi]
    unfold SOAPUtils.compareHilo
    rw [if_neg fun h => hhi h.1, if_neg fun h => hhi h.1]


section Leaves

variable {s : Strings T}

/-- The two comparisons of values of a type, when the operator says the same of the two results. -/
theorem compareMatches_eq_of {relop : Relop} {lpProp1 lpProp2 : Property T} {c r : ℤ}
    (htype : (lpProp1.Value.toClient s).ctorIdx = (lpProp2.Value.toClient s).ctorIdx)
    (hclient : M4lcommon.Util.compareValues s.client lpProp2.ulPropId (lpProp1.Value.toClient s)
      (lpProp2.Value.toClient s) = some c) (hcheck₁ : SOAPUtils.propCheck (lpProp1.Value.toServer s) = true)
    (hcheck₂ : SOAPUtils.propCheck (lpProp2.Value.toServer s) = true)
    (hspecial : SOAPUtils.special ⟨lpProp1.ulPropId, lpProp1.Value.toServer s⟩
      ⟨lpProp2.ulPropId, lpProp2.Value.toServer s⟩ = none)
    (hserver : SOAPUtils.compareValues s.server lpProp2.ulPropId (lpProp1.Value.toServer s)
      (lpProp2.Value.toServer s) = some r) (hholds : relop.holds c = relop.holds r) :
    M4lcommon.CommonUtil.compareMatches s relop lpProp1 lpProp2 = compareMatches s relop lpProp1 lpProp2 := by
  have hc : Util.result s.client ⟨lpProp1.ulPropId, lpProp1.Value.toClient s⟩
      ⟨lpProp2.ulPropId, lpProp2.Value.toClient s⟩ = some c := by
    rw [Util.result, M4lcommon.Util.compareProp, if_neg (not_not.mpr htype)]
    simp only [hclient]
  have hr : SOAPUtils.result s.server ⟨lpProp1.ulPropId, lpProp1.Value.toServer s⟩
      ⟨lpProp2.ulPropId, lpProp2.Value.toServer s⟩ = some r := by
    rw [SOAPUtils.result, SOAPUtils.compareProp,
      if_neg (by simp only [hcheck₁, hcheck₂]; decide), hspecial]
    simp only [SOAPUtils.regularCompare, hserver]
  unfold M4lcommon.CommonUtil.compareMatches compareMatches
  rw [hc, hr]
  exact hholds

theorem propCheck_clsid (guid : GUID) : SOAPUtils.propCheck ((Value.PT_CLSID guid).toServer s) = true := by
  change decide (guid.bytes.length % 16 = 0) = true
  rw [guid.length_eq]
  rfl

/-- The binary values of a class id have one size. -/
theorem compareBinary_clsid (a b : GUID) (ha : a.bytes.length < 2 ^ 31) (hb : b.bytes.length < 2 ^ 31) :
    SOAPUtils.compareBinary ⟨a.bytes, ha⟩ ⟨b.bytes, hb⟩ = memcmp a.bytes b.bytes := by
  unfold SOAPUtils.compareBinary
  rw [if_pos]
  simp only [a.length_eq, b.length_eq]
  decide

/-- Client and server answer a comparison alike when the two properties are of one type that both compare alike. -/
theorem compareMatches_eq (hs : s.SameCollation) {relop : Relop} {lpProp1 lpProp2 : Property T}
    (htype : lpProp1.Value.type = lpProp2.Value.type) (hcompared : ComparedAlike relop lpProp1.Value lpProp2.Value)
    (hids : NoEntryIds lpProp1 lpProp2) : M4lcommon.CommonUtil.compareMatches s relop lpProp1 lpProp2 =
      compareMatches s relop lpProp1 lpProp2 := by
  obtain ⟨id₁, value₁, hanr₁⟩ := lpProp1
  obtain ⟨id₂, value₂, hanr₂⟩ := lpProp2
  change value₁.type = value₂.type at htype
  change ComparedAlike relop value₁ value₂ at hcompared
  cases value₁ <;> cases value₂ <;> cases htype
  case PT_I2.PT_I2 a b => exact compareMatches_eq_of rfl rfl rfl rfl rfl rfl rfl
  case PT_LONG.PT_LONG a b =>
    refine compareMatches_eq_of rfl rfl rfl rfl rfl rfl ?_
    rw [toInt_sub_eq_bmod, hcompared]
    exact holds_of_sgn_eq ((sgn_sub _ _).trans (sgn_compareBranches _ _).symm) relop
  case PT_BOOLEAN.PT_BOOLEAN a b =>
    refine compareMatches_eq_of rfl rfl rfl rfl rfl rfl ?_
    cases a <;> cases b <;> rfl
  case PT_I8.PT_I8 a b =>
    refine compareMatches_eq_of rfl rfl rfl rfl rfl rfl ?_
    rw [compareI8_eq_bmod, hcompared]
    exact holds_of_sgn_eq ((sgn_sub _ _).trans (sgn_compareBranches _ _).symm) relop
  case PT_STRING8.PT_STRING8 a b =>
    refine compareMatches_eq_of rfl rfl rfl rfl rfl rfl ?_
    rw [if_neg fun h => hanr₂ h.1]
    refine (holds_of_sgn_eq (hs.icompare_ansi a b) relop).trans ?_
    rw [SOAPUtils.compareText_eq hanr₂]
    rfl
  case PT_UNICODE.PT_UNICODE a b =>
    refine compareMatches_eq_of rfl rfl rfl rfl rfl rfl ?_
    rw [if_neg fun h => hanr₂ h.1]
    refine (holds_of_sgn_eq (hs.icompare_wide a b) relop).trans ?_
    rw [SOAPUtils.compareText_eq hanr₂]
    rfl
  case PT_SYSTIME.PT_SYSTIME hi lo hi' lo' =>
    exact compareMatches_eq_of rfl rfl rfl rfl rfl rfl (holds_compareCur rfl rfl rfl rfl hcompared)
  case PT_CURRENCY.PT_CURRENCY hi lo hi' lo' =>
    exact compareMatches_eq_of rfl rfl rfl rfl rfl rfl (holds_compareCur rfl rfl rfl rfl hcompared)
  case PT_BINARY.PT_BINARY a b =>
    have hspecial : SOAPUtils.special ⟨id₁, .PT_BINARY a⟩ ⟨id₂, .PT_BINARY b⟩ = none :=
      if_neg fun h => h.elim (hids rfl).1 (hids rfl).2
    exact compareMatches_eq_of rfl rfl rfl rfl hspecial rfl
      (holds_of_sgn_eq (sgn_compareSBinary_eq _ _) relop)
  case PT_CLSID.PT_CLSID a b =>
    refine compareMatches_eq_of rfl rfl (propCheck_clsid a) (propCheck_clsid b) rfl rfl ?_
    rw [compareBinary_clsid]

/-! ## Contents -/

/-- The client and the server take the lengths of texts in their own forms: where the texts match, the
lengths have to compare alike. -/
def TextAlike {α : Type} (s : Strings T) (form : T → List α) (ulFuzzyLevel : BitVec 32)
    (data search : T) : Prop :=
  let ignoreCase := ulFuzzyLevel &&& FL_IGNORECASE != 0
  (ulFuzzyLevel &&& 0xFFFF = FL_FULLSTRING →
    s.u8 .equals ignoreCase (s.utf8 data) (s.utf8 search) = true →
      (uintSize (form data) = uintSize (form search) ↔
        uintSize (s.utf8 data) = uintSize (s.utf8 search))) ∧
  (ulFuzzyLevel &&& 0xFFFF = FL_PREFIX →
    s.u8 .startswith ignoreCase (s.utf8 data) (s.utf8 search) = true →
      (uintSize (form search) ≤ uintSize (form data) ↔
        uintSize (s.utf8 search) ≤ uintSize (s.utf8 data)))

/-- The client never finds whole binary values, and only finds prefixes that are whole values. -/
def BinaryAlike (ulFuzzyLevel : BitVec 32) (data search : List UInt8) : Prop :=
  (ulFuzzyLevel &&& 0xFFFF = FL_FULLSTRING → data ≠ search) ∧
  (ulFuzzyLevel &&& 0xFFFF = FL_PREFIX → search <+: data → data = search)

def ContentAlike (s : Strings T) (ulFuzzyLevel : BitVec 32) : Value T → Value T → Prop
  | .PT_STRING8 data, .PT_STRING8 search => TextAlike s s.ansi ulFuzzyLevel data search
  | .PT_UNICODE data, .PT_UNICODE search => TextAlike s s.wide ulFuzzyLevel data search
  | .PT_BINARY data, .PT_BINARY search => BinaryAlike ulFuzzyLevel data.elems search.elems
  | _, _ => True

/-- A text is searched with the same outcome in its own form and in UTF-8, where the two forms agree on the level. -/
theorem textMatches_eq {α : Type} {form : T → List α}
    {test : StringTest → Bool → List α → List α → Bool} {ulFuzzyLevel : BitVec 32} {data search : T}
    (htest : ∀ t ignoreCase, test t ignoreCase (form data) (form search) =
      s.u8 t ignoreCase (s.utf8 data) (s.utf8 search)) (h : TextAlike s form ulFuzzyLevel data search) :
    textMatches test ulFuzzyLevel (form data) (form search) =
      textMatches s.u8 ulFuzzyLevel (s.utf8 data) (s.utf8 search) := by
  unfold textMatches
  simp only [htest]
  split_ifs with hfull hprefix hsub
  · -- the lengths matter only where the texts are equal
    rw [Bool.eq_iff_iff]
    simp only [Bool.and_eq_true, beq_iff_eq]
    exact and_congr_left (h.1 hfull)
  · rw [Bool.eq_iff_iff]
    simp only [Bool.and_eq_true, decide_eq_true_eq]
    exact and_congr_left (h.2 hprefix)
  · rfl
  · rfl

/-- Lengths below `2 ^ 31` are compared as they are. -/
theorem uintSize_le {a b : List UInt8} (ha : a.length < 2 ^ 31) (hb : b.length < 2 ^ 31) :
    uintSize a ≤ uintSize b ↔ a.length ≤ b.length := by
  rw [BitVec.le_def, uintSize, uintSize, BitVec.toNat_ofNat, BitVec.toNat_ofNat,
    Nat.mod_eq_of_lt (by omega), Nat.mod_eq_of_lt (by omega)]

/-- Binary content is searched with the same outcome on both sides, where the level asks for the same. -/
theorem binaryMatches_eq (behind : Memory) {ulFuzzyLevel : BitVec 32} {data search : List UInt8}
    (hdata : data.length < 2 ^ 31) (hsearch : search.length < 2 ^ 31) (h : BinaryAlike ulFuzzyLevel data search) :
    M4lcommon.CommonUtil.binaryMatches behind ulFuzzyLevel data search = binaryMatches ulFuzzyLevel data search := by
  unfold M4lcommon.CommonUtil.binaryMatches binaryMatches
  split_ifs with hfull hprefix hsub
  · rw [eq_comm, Bool.and_eq_false_iff]
    exact .inr (decide_eq_false fun heq => h.1 hfull (memcmp_eq_zero.mp heq))
  · rw [Bool.eq_iff_iff]
    simp only [Bool.and_eq_true, decide_eq_true_eq, uintSize_le hsearch hdata, memcmp_eq_zero]
    refine and_congr_right fun hle => ⟨fun heq => ?_, fun heq => ?_⟩
    · rw [heq, List.take_left]
    · have hwhole := h.2 hprefix (List.prefix_iff_eq_take.mpr heq.symm)
      rw [hwhole, Nat.sub_self]
      exact (List.append_nil _).symm
  · rfl
  · rfl

/-- Content is searched with the same outcome on both sides, for a text and for a binary value. -/
theorem contentMatches_eq (hs : s.SameCollation) (behind : Memory) {ulFuzzyLevel : BitVec 32}
    {data search : Value T} (htype : data.type = search.type) (h : ContentAlike s ulFuzzyLevel data search) :
    M4lcommon.CommonUtil.contentMatches s behind ulFuzzyLevel data search =
      contentMatches s ulFuzzyLevel data search := by
  cases data <;> cases search <;> cases htype
  case PT_STRING8.PT_STRING8 data search =>
    exact textMatches_eq (fun t ignoreCase => hs.test_ansi t ignoreCase data search) h
  case PT_UNICODE.PT_UNICODE data search =>
    exact textMatches_eq (fun t ignoreCase => hs.test_wide t ignoreCase data search) h
  case PT_BINARY.PT_BINARY data search =>
    exact binaryMatches_eq behind data.length_lt search.length_lt h
  all_goals rfl

/-! ## Sizes -/

/-- The size of a text is the length of its form. -/
def SizeAlike (s : Strings T) (relop : Relop) (cb : BitVec 32) : Value T → Prop
  | .PT_STRING8 text => relop.holds (uintSize (s.ansi text) - cb).toInt =
      relop.holds (uintSize (s.utf8 text) - cb).toInt
  | .PT_UNICODE text => relop.holds (uintSize (s.wide text) - cb).toInt =
      relop.holds (uintSize (s.utf8 text) - cb).toInt
  | _ => True

/-- The size of a property is compared with the same outcome where both sides count the same bytes. -/
theorem holds_propSize {relop : Relop} {cb : BitVec 32} {value : Value T} (h : SizeAlike s relop cb value) :
    relop.holds (M4lcommon.CommonUtil.propSize s value - cb).toInt = relop.holds (propSize s value - cb).toInt := by
  cases value with
  | PT_STRING8 text | PT_UNICODE text => exact h
  | PT_CLSID guid =>
    change relop.holds (16 - cb).toInt = relop.holds (uintSize guid.bytes - cb).toInt
    rw [uintSize, guid.length_eq]
    rfl
  | _ => rfl

/-! ## Properties of the row -/

/-- The properties of the row with the id of a tag are of its type. -/
def TagTyped (row : List (Property T)) (ulPropTag : PropTag) : Prop :=
  ∀ lpProp ∈ row, lpProp.ulPropId = ulPropTag.ulPropId → lpProp.Value.type = ulPropTag.type

variable {row : List (Property T)} {ulPropTag : PropTag}

/-- Where a tag has one type in a row, a property is found by its id alone. -/
theorem findProp_eq_find (h : TagTyped row ulPropTag) :
    findProp row ulPropTag = row.find? fun lpProp => lpProp.ulPropId = ulPropTag.ulPropId := by
  unfold findProp
  refine List.find?_congr fun lpProp hmem => decide_eq_decide.mpr ?_
  exact and_iff_left_of_imp (h lpProp hmem)

/-- A property that is found has the type that was asked for. -/
theorem type_of_findProp {lpProp : Property T} (h : findProp row ulPropTag = some lpProp) :
    lpProp.Value.type = ulPropTag.type := by
  have hfound := List.find?_some h
  exact (of_decide_eq_true hfound).2

/-- Where a tag has one type in a row, the server finds the property that the client finds. -/
theorem getOneProp_eq (h : TagTyped row ulPropTag) : getOneProp row ulPropTag = findProp row ulPropTag := by
  unfold getOneProp
  rw [← findProp_eq_find h]
  rcases hfound : findProp row ulPropTag with _ | lpFind
  · rfl
  · have htype := type_of_findProp hfound
    simp only
    split
    next hvalue hother =>
      rw [hvalue, hother] at htype
      cases htype
    next hvalue hother =>
      rw [hvalue, hother] at htype
      cases htype
    next => rw [if_pos htype]

end Leaves

/-! ## Restrictions -/

section Restrictions

variable (s : Strings T) (row : List (Property T))

mutual

/-- The depth of a restriction. -/
def depth : Restriction T → ℕ
  | .RES_AND lpRes | .RES_OR lpRes => depthAll lpRes
  | .RES_NOT lpRes | .RES_COMMENT lpRes => depth lpRes + 1
  | _ => 0

/-- The depth of a list of restrictions with the node above it. -/
def depthAll : List (Restriction T) → ℕ
  | [] => 0
  | lpRes :: rest => max (depth lpRes + 1) (depthAll rest)

end

mutual

/-- The properties are of the types of the tags, and of types that the restriction can be on. -/
def WellTyped : Restriction T → Prop
  | .RES_AND lpRes | .RES_OR lpRes => AllWellTyped lpRes
  | .RES_NOT lpRes | .RES_COMMENT lpRes => WellTyped lpRes
  | .RES_CONTENT _ ulPropTag lpProp =>
    TagTyped row ulPropTag ∧ lpProp.Value.type = ulPropTag.type ∧
      (ulPropTag.type = .PT_STRING8 ∨ ulPropTag.type = .PT_UNICODE ∨ ulPropTag.type = .PT_BINARY)
  | .RES_PROPERTY _ ulPropTag lpProp =>
    TagTyped row ulPropTag ∧ lpProp.Value.type = ulPropTag.type
  | .RES_COMPAREPROPS _ ulPropTag1 ulPropTag2 =>
    TagTyped row ulPropTag1 ∧ TagTyped row ulPropTag2 ∧ ulPropTag1.type = ulPropTag2.type
  | .RES_BITMASK _ ulPropTag _ => TagTyped row ulPropTag ∧ ulPropTag.type = .PT_LONG
  | .RES_SIZE _ ulPropTag _ | .RES_EXIST ulPropTag => TagTyped row ulPropTag

def AllWellTyped : List (Restriction T) → Prop
  | [] => True
  | lpRes :: rest => WellTyped lpRes ∧ AllWellTyped rest

end

mutual

/-- Where the client and the server evaluate a restriction alike. On the server, `RES_SIZE` on an absent
property ends the evaluation: this is no match either, unless the restriction is below a `RES_NOT` or
before another one of a `RES_OR`, which is what `strict` is about. -/
def Alike (strict : Bool) : Restriction T → Prop
  | .RES_AND lpRes => lpRes ≠ [] ∧ AllAlike strict lpRes
  | .RES_OR lpRes => AnyAlike strict lpRes
  | .RES_NOT lpRes => Alike true lpRes
  | .RES_COMMENT lpRes => Alike strict lpRes
  | .RES_CONTENT ulFuzzyLevel ulPropTag lpProp =>
    ∀ found, findProp row ulPropTag = some found →
      ContentAlike s ulFuzzyLevel found.Value lpProp.Value
  | .RES_PROPERTY relop ulPropTag lpProp =>
    (findProp row ulPropTag = none → relop ≠ .RELOP_NE) ∧
      ∀ found, findProp row ulPropTag = some found →
        ComparedAlike relop found.Value lpProp.Value ∧ NoEntryIds found lpProp
  | .RES_COMPAREPROPS relop ulPropTag1 ulPropTag2 =>
    ∀ found found2, findProp row ulPropTag1 = some found → findProp row ulPropTag2 = some found2 →
      ComparedAlike relop found.Value found2.Value ∧ NoEntryIds found found2
  | .RES_SIZE relop ulPropTag cb =>
    (findProp row ulPropTag = none → strict = false) ∧
      ∀ found, findProp row ulPropTag = some found → SizeAlike s relop cb found.Value
  | .RES_BITMASK _ _ _ | .RES_EXIST _ => True

def AllAlike (strict : Bool) : List (Restriction T) → Prop
  | [] => True
  | lpRes :: rest => Alike strict lpRes ∧ AllAlike strict rest

def AnyAlike (strict : Bool) : List (Restriction T) → Prop
  | [] => True
  | [lpRes] => Alike strict lpRes
  | lpRes :: rest => Alike true lpRes ∧ AnyAlike strict rest

end

end Restrictions

/-- The two results of an evaluation: the client succeeds when the server matches, and otherwise finds
nothing; the server does not fail when that has been asked for. -/
structure Agree (strict : Bool) (client : HRESULT) (server : Except Failure Bool) : Prop where
  iff : client = .hrSuccess ↔ server = .ok true
  found : client ≠ .hrSuccess → client = .MAPI_E_NOT_FOUND
  ok : strict = true → ∃ fMatch, server = .ok fMatch

/-- The same truth value on both sides is the same answer. -/
theorem agree_matchResult {strict : Bool} {client server : Bool} (h : client = server) :
    Agree strict (matchResult client) (.ok server) := by
  subst h
  cases client with
  | true => exact ⟨⟨fun _ => rfl, fun _ => rfl⟩, fun hne => absurd rfl hne, fun _ => ⟨_, rfl⟩⟩
  | false => exact ⟨⟨nofun, nofun⟩, fun _ => rfl, fun _ => ⟨_, rfl⟩⟩

section Evaluation

variable {s : Strings T} {row : List (Property T)} {strict : Bool}

theorem agree_success : Agree strict .hrSuccess (.ok true) :=
  (agree_matchResult rfl : Agree strict (matchResult true) (.ok true))

theorem agree_not_found : Agree strict .MAPI_E_NOT_FOUND (.ok false) :=
  (agree_matchResult rfl : Agree strict (matchResult false) (.ok false))

/-- A condition on a property that both sides look up. -/
theorem agree_onProp {ulPropTag : PropTag} (htyped : TagTyped row ulPropTag)
    {client : Property T → Bool} (server : Option (Property T) → Except Failure Bool)
    (habsent : findProp row ulPropTag = none → Agree strict .MAPI_E_NOT_FOUND (server none))
    (hpresent : ∀ found, findProp row ulPropTag = some found → server (some found) = .ok (client found)) :
    Agree strict (onProp row ulPropTag client) (server (findProp row ulPropTag)) := by
  unfold onProp
  rw [getOneProp_eq htyped]
  rcases hfound : findProp row ulPropTag with _ | found
  · exact habsent hfound
  · rw [hpresent found hfound]
    exact agree_matchResult rfl

/-- What the server makes of a property that it has looked up: for `RES_CONTENT`, -/
def contentResult (s : Strings T) (ulFuzzyLevel : BitVec 32) (lpProp : Property T) :
    Option (Property T) → Except Failure Bool
  | none => .ok false
  | some found => .ok (contentMatches s ulFuzzyLevel found.Value lpProp.Value)

/-- for `RES_PROPERTY`, -/
def propertyResult (s : Strings T) (relop : Relop) (lpProp : Property T) :
    Option (Property T) → Except Failure Bool
  | none => .ok (relop = .RELOP_NE)
  | some found => .ok (compareMatches s relop found lpProp)

/-- for `RES_BITMASK`, -/
def bitmaskResult (relBMR : RelBMR) (ulMask : BitVec 32) : Option (Property T) → Except Failure Bool
  | none => .ok false
  | some found =>
    match found.Value with
    | .PT_LONG ul =>
      .ok (if relBMR = .BMR_EQZ then !decide (0 < ul &&& ulMask) else decide (0 < ul &&& ulMask))
    | _ => .ok false

/-- and for `RES_SIZE`. -/
def sizeResult (s : Strings T) (relop : Relop) (cb : BitVec 32) : Option (Property T) → Except Failure Bool
  | none => .error .ZARAFA_E_INVALID_TYPE
  | some found => .ok (relop.holds (propSize s found.Value - cb).toInt)

/-- The leaf for content: both sides find the property by the tag of the restriction, and search it alike. -/
theorem agree_content (hs : s.SameCollation) (behind : Memory) {ulFuzzyLevel : BitVec 32}
    {ulPropTag : PropTag} {lpProp : Property T} {ulLevel : ℕ} (hlevel : ulLevel ≤ RESTRICT_MAX_RECURSE_LEVEL)
    (htyped : WellTyped row (.RES_CONTENT ulFuzzyLevel ulPropTag lpProp))
    (halike : Alike s row strict (.RES_CONTENT ulFuzzyLevel ulPropTag lpProp)) :
    Agree strict (testRestriction s behind row ulLevel (.RES_CONTENT ulFuzzyLevel ulPropTag lpProp))
      (matchRowRestrict s row (.RES_CONTENT ulFuzzyLevel ulPropTag lpProp)) := by
  obtain ⟨htag, htype, hkind⟩ := htyped
  unfold Alike at halike
  have hclient : ¬(ulPropTag.type ≠ .PT_STRING8 ∧ ulPropTag.type ≠ .PT_UNICODE ∧
      ulPropTag.type ≠ .PT_BINARY) := by
    rintro ⟨hstring, hunicode, hbinary⟩
    exact hkind.elim hstring fun h => h.elim hunicode hbinary
  have hserver : ¬(sameStringType ulPropTag.type ≠ .PT_UNICODE ∧ ulPropTag.type ≠ .PT_BINARY) := by
    rintro ⟨hstring, hbinary⟩
    rcases hkind with h | h | h
    · exact hstring (by rw [h]; rfl)
    · exact hstring (by rw [h]; rfl)
    · exact hbinary h
  unfold testRestriction matchRowRestrict
  rw [if_neg (not_lt.mpr hlevel), if_neg hclient, if_neg hserver]
  refine agree_onProp htag (contentResult s ulFuzzyLevel lpProp) (fun _ => agree_not_found)
    fun found hfound => ?_
  have hfoundType := (type_of_findProp hfound).trans htype.symm
  simp only [contentResult, contentMatches_eq hs behind hfoundType (halike found hfound)]

example : sameStringType .PT_STRING8 = .PT_UNICODE := by decide +kernel

/-- The leaf for a property: both sides compare the property of the row with that of the restriction. -/
theorem agree_property (hs : s.SameCollation) (behind : Memory) {relop : Relop}
    {ulPropTag : PropTag} {lpProp : Property T} {ulLevel : ℕ} (hlevel : ulLevel ≤ RESTRICT_MAX_RECURSE_LEVEL)
    (htyped : WellTyped row (.RES_PROPERTY relop ulPropTag lpProp))
    (halike : Alike s row strict (.RES_PROPERTY relop ulPropTag lpProp)) :
    Agree strict (testRestriction s behind row ulLevel (.RES_PROPERTY relop ulPropTag lpProp))
      (matchRowRestrict s row (.RES_PROPERTY relop ulPropTag lpProp)) := by
  obtain ⟨htag, htype⟩ := htyped
  unfold Alike at halike
  unfold testRestriction matchRowRestrict
  rw [if_neg (not_lt.mpr hlevel), if_neg (not_not.mpr htype.symm), htype,
    if_neg (not_not.mpr rfl)]
  refine agree_onProp htag (propertyResult s relop lpProp) (fun habsent => ?_) fun found hfound => ?_
  · simp only [propertyResult, decide_eq_false (halike.1 habsent)]
    exact agree_not_found
  · obtain ⟨hcompared, hids⟩ := halike.2 found hfound
    simp only [propertyResult, compareMatches_eq hs ((type_of_findProp hfound).trans htype.symm) hcompared hids]

/-- The leaf that compares two properties of the row with each other. -/
theorem agree_compareProps (hs : s.SameCollation) (behind : Memory) {relop : Relop}
    {ulPropTag1 ulPropTag2 : PropTag} {ulLevel : ℕ} (hlevel : ulLevel ≤ RESTRICT_MAX_RECURSE_LEVEL)
    (htyped : WellTyped row (.RES_COMPAREPROPS relop ulPropTag1 ulPropTag2))
    (halike : Alike s row strict (.RES_COMPAREPROPS relop ulPropTag1 ulPropTag2)) : Agree strict
      (testRestriction s behind row ulLevel (.RES_COMPAREPROPS relop ulPropTag1 ulPropTag2))
      (matchRowRestrict s row (.RES_COMPAREPROPS relop ulPropTag1 ulPropTag2)) := by
  obtain ⟨htag1, htag2, htype⟩ := htyped
  unfold Alike at halike
  unfold testRestriction matchRowRestrict
  rw [if_neg (not_lt.mpr hlevel), if_neg (not_not.mpr htype), htype, if_neg (not_not.mpr rfl),
    getOneProp_eq htag1, getOneProp_eq htag2]
  rcases hfound1 : findProp row ulPropTag1 with _ | found1
  · exact agree_not_found
  · rcases hfound2 : findProp row ulPropTag2 with _ | found2
    · exact agree_not_found
    · obtain ⟨hcompared, hids⟩ := halike found1 found2 hfound1 hfound2
      have hfoundType : found1.Value.type = found2.Value.type := by
        rw [type_of_findProp hfound1, type_of_findProp hfound2, htype]
      exact agree_matchResult (compareMatches_eq hs hfoundType hcompared hids)

/-- The leaf for a bit mask, which both sides evaluate in the same way whatever the mask is. -/
theorem agree_bitmask (behind : Memory) {relBMR : RelBMR} {ulPropTag : PropTag}
    {ulMask : BitVec 32} {ulLevel : ℕ} (hlevel : ulLevel ≤ RESTRICT_MAX_RECURSE_LEVEL)
    (htyped : WellTyped row (.RES_BITMASK relBMR ulPropTag ulMask)) :
    Agree strict (testRestriction s behind row ulLevel (.RES_BITMASK relBMR ulPropTag ulMask))
      (matchRowRestrict s row (.RES_BITMASK relBMR ulPropTag ulMask)) := by
  obtain ⟨htag, htype⟩ := htyped
  unfold testRestriction matchRowRestrict
  rw [if_neg (not_lt.mpr hlevel), if_neg (not_not.mpr htype), if_neg (not_not.mpr htype)]
  refine agree_onProp htag (bitmaskResult relBMR ulMask) (fun _ => agree_not_found) fun found hfound => ?_
  -- a bit is set or not
  have hzero (ul : BitVec 32) : decide (0 < ul &&& ulMask) = !(ul &&& ulMask == 0) := by
    rw [Bool.eq_iff_iff]
    simp only [decide_eq_true_eq, Bool.not_eq_true', beq_eq_false_iff_ne, BitVec.lt_def]
    rw [ne_eq, ← BitVec.toNat_inj]
    exact Nat.pos_iff_ne_zero
  obtain ⟨id, value, hanr⟩ := found
  cases value
  case PT_LONG ul =>
    simp only [bitmaskResult, hzero]
    cases relBMR <;> simp
  all_goals rfl

/-- The leaf for the size of a property. -/
theorem agree_size (behind : Memory) {relop : Relop} {ulPropTag : PropTag} {cb : BitVec 32}
    {ulLevel : ℕ} (hlevel : ulLevel ≤ RESTRICT_MAX_RECURSE_LEVEL) (htyped : WellTyped row (.RES_SIZE relop ulPropTag cb))
    (halike : Alike s row strict (.RES_SIZE relop ulPropTag cb)) :
    Agree strict (testRestriction s behind row ulLevel (.RES_SIZE relop ulPropTag cb))
      (matchRowRestrict s row (.RES_SIZE relop ulPropTag cb)) := by
  unfold Alike at halike
  unfold testRestriction matchRowRestrict
  rw [if_neg (not_lt.mpr hlevel)]
  refine agree_onProp htyped (sizeResult s relop cb) (fun habsent => ?_) fun found hfound => ?_
  · refine ⟨⟨(by intro h; cases h), (by intro h; cases h)⟩, fun _ => rfl, fun hstrict => ?_⟩
    rw [halike.1 habsent] at hstrict
    cases hstrict
  · simp only [sizeResult, holds_propSize (halike.2 found hfound)]

/-- The leaf that asks whether a property is there. -/
theorem agree_exist (behind : Memory) {ulPropTag : PropTag} {ulLevel : ℕ} (hlevel : ulLevel ≤ RESTRICT_MAX_RECURSE_LEVEL)
    (htyped : WellTyped row (.RES_EXIST ulPropTag)) :
    Agree strict (testRestriction s behind row ulLevel (.RES_EXIST ulPropTag))
      (matchRowRestrict s row (.RES_EXIST ulPropTag)) := by
  unfold testRestriction matchRowRestrict
  rw [if_neg (not_lt.mpr hlevel)]
  exact agree_onProp htyped (fun found => .ok found.isSome) (fun _ => agree_not_found)
    fun _ _ => rfl

/-! ## Trees -/

/-- A negation turns the answers round on both sides, and passes on a failure. -/
theorem agree_negate {client : HRESULT} {server : Except Failure Bool} :
    Agree true client server → Agree strict
      (match client with
        | .MAPI_E_TOO_COMPLEX => .MAPI_E_TOO_COMPLEX
        | .hrSuccess => .MAPI_E_NOT_FOUND
        | .MAPI_E_NOT_FOUND => .hrSuccess)
      (match server with
        | .error er => .error er
        | .ok fMatch => .ok !fMatch) := by
  intro h
  obtain ⟨fMatch, rfl⟩ := h.ok rfl
  cases fMatch with
  | true =>
    rw [h.iff.mpr rfl]
    exact agree_not_found
  | false =>
    have hne : client ≠ .hrSuccess := fun hsuccess => by cases h.iff.mp hsuccess
    rw [h.found hne]
    exact agree_success

/-- A conjunction goes on after a part that holds; the first part that does not hold, or fails, ends it on both
sides. -/
theorem agree_andThen {client rest : HRESULT} {server restServer : Except Failure Bool} :
    Agree strict client server → Agree strict rest restServer → Agree strict
      (match client with
        | .hrSuccess => rest
        | hr => hr)
      (match server with
        | .error er => .error er
        | .ok true => restServer
        | .ok false => .ok false) := by
  intro h hrest
  by_cases hsuccess : client = .hrSuccess
  · rw [hsuccess, h.iff.mp hsuccess]
    exact hrest
  · have hfound := h.found hsuccess
    have hserver := fun hmatch => hsuccess (h.iff.mpr hmatch)
    rw [hfound]
    rcases server with er | _ | _
    · exact ⟨⟨nofun, nofun⟩, fun _ => rfl, h.ok⟩
    · exact agree_not_found
    · exact absurd rfl hserver

/-- An element of a `RES_OR` that is followed by others has to have a result. -/
theorem agree_orElse {client rest : HRESULT} {server restServer : Except Failure Bool}
    (test : HRESULT → HRESULT) (htest : test .MAPI_E_NOT_FOUND = rest) :
    Agree true client server → Agree strict rest restServer → Agree strict
      (match client with
        | .hrSuccess => .hrSuccess
        | .MAPI_E_TOO_COMPLEX => .MAPI_E_TOO_COMPLEX
        | hr => test hr)
      (match server with
        | .error er => .error er
        | .ok true => .ok true
        | .ok false => restServer) := by
  intro h hrest
  obtain ⟨fMatch, rfl⟩ := h.ok rfl
  cases fMatch with
  | true =>
    rw [h.iff.mpr rfl]
    exact agree_success
  | false =>
    have hne : client ≠ .hrSuccess := fun hsuccess => by cases h.iff.mp hsuccess
    rw [h.found hne]
    simp only [htest]
    exact hrest

/-- The last element of a `RES_OR`. -/
theorem agree_orLast {client : HRESULT} {server : Except Failure Bool}
    (test : HRESULT → HRESULT) (htest : test .MAPI_E_NOT_FOUND = .MAPI_E_NOT_FOUND) :
    Agree strict client server → Agree strict
      (match client with
        | .hrSuccess => .hrSuccess
        | .MAPI_E_TOO_COMPLEX => .MAPI_E_TOO_COMPLEX
        | hr => test hr)
      (match server with
        | .error er => .error er
        | .ok true => .ok true
        | .ok false => .ok false) := by
  intro h
  by_cases hsuccess : client = .hrSuccess
  · rw [hsuccess, h.iff.mp hsuccess]
    exact agree_success
  · have hfound := h.found hsuccess
    rw [hfound] at h ⊢
    simp only [htest]
    rcases server with er | _ | _ <;> exact h

/-- What a `RES_COMMENT` and the elements of a list see: the level below. -/
theorem depth_lt_of_le {ulLevel n : ℕ} (h : ulLevel + (n + 1) ≤ RESTRICT_MAX_RECURSE_LEVEL) :
    ulLevel + 1 + n ≤ RESTRICT_MAX_RECURSE_LEVEL := by
  omega

mutual

/-- The two evaluations of a restriction agree. -/
theorem agree_test (hs : s.SameCollation) (behind : Memory) (strict : Bool) (ulLevel : ℕ)
    (res : Restriction T) (hdepth : ulLevel + depth res ≤ RESTRICT_MAX_RECURSE_LEVEL)
    (htyped : WellTyped row res) (halike : Alike s row strict res) :
    Agree strict (testRestriction s behind row ulLevel res) (matchRowRestrict s row res) := by
  have hlevel : ulLevel ≤ RESTRICT_MAX_RECURSE_LEVEL := by omega
  match res with
  | .RES_AND lpRes =>
    unfold depth at hdepth
    unfold WellTyped at htyped
    unfold Alike at halike
    unfold testRestriction matchRowRestrict
    rw [if_neg (not_lt.mpr hlevel)]
    exact agree_and hs behind strict ulLevel false lpRes (.inl halike.1) hlevel hdepth htyped halike.2
  | .RES_OR lpRes =>
    unfold depth at hdepth
    unfold WellTyped at htyped
    unfold Alike at halike
    unfold testRestriction matchRowRestrict
    rw [if_neg (not_lt.mpr hlevel)]
    exact agree_or hs behind strict ulLevel .hrSuccess lpRes nofun hdepth htyped halike
  | .RES_NOT lpRes =>
    unfold depth at hdepth
    unfold WellTyped at htyped
    unfold Alike at halike
    unfold testRestriction matchRowRestrict
    rw [if_neg (not_lt.mpr hlevel)]
    have hsub := agree_test hs behind true (ulLevel + 1) lpRes (depth_lt_of_le hdepth) htyped halike
    exact agree_negate hsub
  | .RES_COMMENT lpRes =>
    unfold depth at hdepth
    unfold WellTyped at htyped
    unfold Alike at halike
    unfold testRestriction matchRowRestrict
    rw [if_neg (not_lt.mpr hlevel)]
    exact agree_test hs behind strict (ulLevel + 1) lpRes (depth_lt_of_le hdepth) htyped halike
  | .RES_CONTENT _ _ _ => exact agree_content hs behind hlevel htyped halike
  | .RES_PROPERTY _ _ _ => exact agree_property hs behind hlevel htyped halike
  | .RES_COMPAREPROPS _ _ _ => exact agree_compareProps hs behind hlevel htyped halike
  | .RES_BITMASK _ _ _ => exact agree_bitmask behind hlevel htyped
  | .RES_SIZE _ _ _ => exact agree_size behind hlevel htyped halike
  | .RES_EXIST _ => exact agree_exist behind hlevel htyped

/-- The loops of `RES_AND`. -/
theorem agree_and (hs : s.SameCollation) (behind : Memory) (strict : Bool) (ulLevel : ℕ)
    (fMatch : Bool) (lpRes : List (Restriction T)) (hmatch : lpRes ≠ [] ∨ fMatch = true)
    (hlevel : ulLevel ≤ RESTRICT_MAX_RECURSE_LEVEL) (hdepth : ulLevel + depthAll lpRes ≤ RESTRICT_MAX_RECURSE_LEVEL)
    (htyped : AllWellTyped row lpRes) (halike : AllAlike s row strict lpRes) :
    Agree strict (testAnd s behind row ulLevel fMatch lpRes) (matchAnd s row lpRes) := by
  match lpRes with
  | [] =>
    unfold testAnd matchAnd
    exact agree_matchResult (hmatch.resolve_left fun h => h rfl)
  | res :: rest =>
    unfold depthAll at hdepth
    unfold AllWellTyped at htyped
    unfold AllAlike at halike
    have hfirst := agree_test hs behind strict (ulLevel + 1) res (by omega) htyped.1 halike.1
    have hrest := agree_and hs behind strict ulLevel true rest (.inr rfl) hlevel (by omega) htyped.2
      halike.2
    unfold testAnd matchAnd
    exact agree_andThen hfirst hrest

/-- The loops of `RES_OR`. -/
theorem agree_or (hs : s.SameCollation) (behind : Memory) (strict : Bool) (ulLevel : ℕ)
    (hr : HRESULT) (lpRes : List (Restriction T)) (hhr : hr ≠ .MAPI_E_TOO_COMPLEX)
    (hdepth : ulLevel + depthAll lpRes ≤ RESTRICT_MAX_RECURSE_LEVEL)
    (htyped : AllWellTyped row lpRes) (halike : AnyAlike s row strict lpRes) :
    Agree strict (testOr s behind row ulLevel hr lpRes) (matchOr s row lpRes) := by
  match lpRes with
  | [] =>
    unfold testOr matchOr
    cases hr with
    | hrSuccess | MAPI_E_NOT_FOUND => exact agree_not_found
    | MAPI_E_TOO_COMPLEX => exact absurd rfl hhr
  | [res] =>
    unfold depthAll at hdepth
    unfold AllWellTyped at htyped
    unfold AnyAlike at halike
    have hfirst := agree_test hs behind strict (ulLevel + 1) res (by omega) htyped.1 halike
    unfold testOr matchOr
    exact agree_orLast (fun hr => testOr s behind row ulLevel hr []) rfl hfirst
  | res :: next :: rest =>
    unfold depthAll at hdepth
    unfold AllWellTyped at htyped
    unfold AnyAlike at halike
    have hfirst := agree_test hs behind true (ulLevel + 1) res (by omega) htyped.1 halike.1
    have hrest := agree_or hs behind strict ulLevel .MAPI_E_NOT_FOUND (next :: rest) nofun
      (by omega) htyped.2 halike.2
    unfold testOr matchOr
    exact agree_orElse (fun hr => testOr s behind row ulLevel hr (next :: rest)) rfl hfirst hrest

end

end Evaluation

/-- Where the client and the server compare values alike, a restriction holds of a row in the client if and
only if it does on the server. -/
theorem testRestriction_eq_hrSuccess_iff {s : Strings T} (hs : s.SameCollation) (behind : Memory)
    (row : List (Property T)) (res : Restriction T) (hdepth : depth res ≤ 16)
    (htyped : WellTyped row res) (halike : Alike s row false res) :
    testRestriction s behind row 0 res = .hrSuccess ↔ matchRowRestrict s row res = .ok true := by
  have hdepth' : 0 + depth res ≤ RESTRICT_MAX_RECURSE_LEVEL := by
    rw [Nat.zero_add]
    exact hdepth
  exact (agree_test hs behind false 0 res hdepth' htyped halike).iff

/-! ## Texts of one byte for each character -/

/-- The bytes of a wide text. -/
def narrow (text : List (BitVec 32)) : List UInt8 := text.map fun c => UInt8.ofBitVec (c.setWidth 8)

def bytesTest (test : StringTest) (_ignoreCase : Bool) (data search : List UInt8) : Bool :=
  match test with
  | .equals => data == search
  | .startswith => search.isPrefixOf data
  | .contains => data.tails.any search.isPrefixOf

/-- Texts with a byte for each character, without a difference of case. -/
def bytes : Strings (List UInt8) where
  wide text := text.map fun c => c.toBitVec.setWidth 32
  ansi := id
  utf8 := id
  client := { M4lcommon.Util.clientUnits with wcs_icompare := fun a b => memcmp (narrow a) (narrow b) }
  server := M4lcommon.Util.serverBytes
  wcs test ignoreCase data search := bytesTest test ignoreCase (narrow data) (narrow search)
  str := bytesTest
  u8 := bytesTest

/-- Making a text wide and narrow again gives the text. -/
theorem narrow_wide (text : List UInt8) : narrow (bytes.wide text) = text := by
  change (text.map _).map _ = text
  rw [List.map_map]
  refine (List.map_congr_left fun c _ => ?_).trans (List.map_id text)
  change UInt8.ofBitVec ((c.toBitVec.setWidth 32).setWidth 8) = c
  rw [BitVec.setWidth_setWidth_of_le _ (by decide), BitVec.setWidth_eq]

/-- The collation by bytes is the same on both sides. -/
theorem sameCollation_bytes : bytes.SameCollation where
  icompare_wide a b := by
    change sgn (memcmp (narrow (bytes.wide a)) (narrow (bytes.wide b))) = _
    rw [narrow_wide, narrow_wide]
    rfl
  icompare_ansi _ _ := rfl
  test_wide test ignoreCase a b := by
    change bytesTest test ignoreCase (narrow (bytes.wide a)) (narrow (bytes.wide b)) = _
    rw [narrow_wide, narrow_wide]
    rfl
  test_ansi _ _ _ _ := rfl

/-! ## A message -/

/-- The tag of the size of a message. -/
def PR_MESSAGE_SIZE : PropTag := ⟨0x0E08, .PT_LONG, by decide⟩

/-- The tag of the subject of a message. -/
def PR_SUBJECT : PropTag := ⟨0x0037, .PT_UNICODE, by decide⟩

def size (ul : BitVec 32) : Property (List UInt8) := ⟨0x0E08, .PT_LONG ul, by decide⟩

def subject (text : List UInt8) : Property (List UInt8) := ⟨0x0037, .PT_UNICODE text, by decide⟩

/-- The subject is `Re`, and the size is larger than 1024. -/
def reOfSize : Restriction (List UInt8) :=
  .RES_AND [.RES_CONTENT FL_PREFIX PR_SUBJECT (subject [82, 101]),
    .RES_NOT (.RES_PROPERTY .RELOP_LE PR_MESSAGE_SIZE (size 1024))]

/-- A message with a subject of four characters. -/
def message : List (Property (List UInt8)) := [subject [82, 101, 58, 32], size 4096]

/-- The values in the restriction have the types of their tags. -/
theorem wellTyped_reOfSize : WellTyped message reOfSize := by
  have hsubject : TagTyped message PR_SUBJECT := by unfold TagTyped; decide
  have hsize : TagTyped message PR_MESSAGE_SIZE := by unfold TagTyped; decide
  simp only [reOfSize, WellTyped, AllWellTyped]
  exact ⟨⟨hsubject, rfl, .inr (.inl rfl)⟩, ⟨hsize, rfl⟩, trivial⟩

/-- Its leaves are among those that client and server evaluate alike. -/
theorem alike_reOfSize : Alike bytes message false reOfSize := by
  simp only [reOfSize, Alike, AllAlike]
  refine ⟨nofun, fun found hfound => ?_, ⟨nofun, fun found hfound => ?_⟩, trivial⟩
  · cases (Option.some.inj hfound : subject [82, 101, 58, 32] = found)
    exact ⟨fun h => absurd h (by decide), fun _ _ => by decide⟩
  · cases (Option.some.inj hfound : size 4096 = found)
    refine ⟨?_, nofun⟩
    change CutAlike .RELOP_LE _
    unfold CutAlike
    decide

theorem testRestriction_eq_hrSuccess_iff_reOfSize :
    testRestriction bytes (fun _ => 0) message 0 reOfSize = .hrSuccess ↔
      matchRowRestrict bytes message reOfSize = .ok true :=
  testRestriction_eq_hrSuccess_iff sameCollation_bytes _ _ _ (by decide) wellTyped_reOfSize
    alike_reOfSize

/-- No condition at all, a size that is absent, twice, and sizes with a difference of `2 ^ 31`. -/
theorem not_testRestriction_eq_hrSuccess_iff :
    let differ := fun row res =>
      depth res ≤ 16 ∧ WellTyped row res ∧
        ¬(testRestriction bytes (fun _ => 0) row 0 res = .hrSuccess ↔
          matchRowRestrict bytes row res = .ok true)
    differ [] (.RES_AND []) ∧
      differ [] (.RES_PROPERTY .RELOP_NE PR_MESSAGE_SIZE (size 1024)) ∧
      differ [] (.RES_NOT (.RES_SIZE .RELOP_EQ PR_MESSAGE_SIZE 4)) ∧
      differ [size 0x80000000] (.RES_PROPERTY .RELOP_GT PR_MESSAGE_SIZE (size 0)) := by
  have hsize : TagTyped [size 0x80000000] PR_MESSAGE_SIZE := by unfold TagTyped; decide
  have hnone : TagTyped ([] : List (Property (List UInt8))) PR_MESSAGE_SIZE := nofun
  refine ⟨⟨by decide, ?_, by decide⟩, ⟨by decide, ?_, by decide⟩, ⟨by decide, ?_, by decide⟩,
    ⟨by decide, ?_, by decide⟩⟩
  · simp only [WellTyped, AllWellTyped]
  · simp only [WellTyped]
    exact ⟨hnone, rfl⟩
  · simp only [WellTyped]
    exact hnone
  · simp only [WellTyped]
    exact ⟨hsize, rfl⟩

end Zcp.Libserver.ECGenericObjectTable
