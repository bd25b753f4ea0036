import Zcp.Libserver.ECGenericObjectTable.Restrictions
import Zcp.M4lcommon.CommonUtil.Content

/-!
# Contents on the server

The `RES_CONTENT` case of `ECGenericObjectTable::MatchRowRestrict` with the bytes that it looks at, and what the two
evaluators make of binary values. `binaryContent_iff`: the server finds whole values, prefixes and parts, and the client
the parts; it finds no whole value, and for a prefix it looks at as many bytes of the search value as the value of the
row has.
-/

namespace Zcp.Libserver.ECGenericObjectTable

open Zcp.Common
open Zcp.Common.StringUtil (memsubstr_spec)
open Zcp.M4lcommon.CommonUtil (Memory testRestriction getOneProp onProp matchResult RESTRICT_MAX_RECURSE_LEVEL
  ContentValues testContent ptrSize contentVars)

/-- The value that is found in the row, single or multiple. -/
inductive RowContent where
  | PT_TSTRING (lpszA : Option (List UInt8))
  | PT_BINARY (bin : Option Base64Binary)
  | PT_MV_TSTRING (mvszA : List (Option (List UInt8)))
  | PT_MV_BINARY (mvbin : List (Option Base64Binary))

/-- The elements with their type: `ulPropType == PT_TSTRING`. -/
def RowContent.scan : RowContent → Bool × List (Option (List UInt8))
  | .PT_TSTRING lpszA => (true, [lpszA])
  | .PT_BINARY bin => (false, [bin.map Counted.elems])
  | .PT_MV_TSTRING mvszA => (true, mvszA)
  | .PT_MV_BINARY mvbin => (false, mvbin.map (Option.map Counted.elems))

section Tests

variable (u8 : StringTest → Bool → List UInt8 → List UInt8 → Bool)

/-- The condition of a mode. There is no test of a text that is `NULL`. -/
def contentCondition (test : StringTest) (ignoreCase isTString : Bool) (lpSearchData lpSearchString : Option (List UInt8))
    (binary : Option Bool) : Option Bool :=
  if isTString then
    match lpSearchData, lpSearchString with
    | some data, some search => some (u8 test ignoreCase data search)
    | _, _ => none
  else binary

/-- The modes, for one element. -/
def matchContentValue (ulFuzzyLevel : BitVec 32) (isTString : Bool) (lpSearchString lpSearchData : Option (List UInt8)) :
    Option Bool :=
  let ignoreCase := ulFuzzyLevel &&& FL_IGNORECASE != 0
  let data := lpSearchData.getD []
  let search := lpSearchString.getD []
  let ulSearchDataSize := ptrSize lpSearchData
  let ulSearchStringSize := ptrSize lpSearchString
  if ulFuzzyLevel &&& 0xFFFF = FL_FULLSTRING then
    if ulSearchDataSize = ulSearchStringSize then
      contentCondition u8 .equals ignoreCase isTString lpSearchData lpSearchString
        (StringUtil.memcmp data search ulSearchDataSize.toNat)
    else some false
  else if ulFuzzyLevel &&& 0xFFFF = FL_PREFIX then
    if ulSearchStringSize ≤ ulSearchDataSize then
      contentCondition u8 .startswith ignoreCase isTString lpSearchData lpSearchString
        (StringUtil.memcmp data search ulSearchStringSize.toNat)
    else some false
  else if ulFuzzyLevel &&& 0xFFFF = FL_SUBSTRING then
    contentCondition u8 .contains ignoreCase isTString lpSearchData lpSearchString
      ((StringUtil.memsubstr data ulSearchDataSize.toNat search ulSearchStringSize.toNat).map fun r => r == 0)
  else some false

/-- The loop over the elements, until one matches. -/
def matchContentLoop (ulFuzzyLevel : BitVec 32) (isTString : Bool) (lpSearchString : Option (List UInt8)) :
    List (Option (List UInt8)) → Option Bool
  | [] => some false
  | lpSearchData :: rest =>
    match matchContentValue u8 ulFuzzyLevel isTString lpSearchString lpSearchData with
    | none => none
    | some true => some true
    | some false => matchContentLoop ulFuzzyLevel isTString lpSearchString rest

/-- The flag, or `none` if a byte outside of the two values is looked at. -/
def matchContent (ulFuzzyLevel : BitVec 32) (lpSearchString : Option (List UInt8)) (lpProp : RowContent) : Option Bool :=
  matchContentLoop u8 ulFuzzyLevel lpProp.scan.1 lpSearchString lpProp.scan.2

end Tests

/-! ## Binary values -/

/-- The modes as they are meant: the search value is the value, begins it or is in it. No byte outside is looked at. -/
structure MatchesRight (ulFuzzyLevel : BitVec 32) (search data : List UInt8) (result : Option Bool) : Prop where
  inside : result.isSome
  fullString : ulFuzzyLevel &&& 0xFFFF = FL_FULLSTRING → (result = some true ↔ data = search)
  prefixes : ulFuzzyLevel &&& 0xFFFF = FL_PREFIX → (result = some true ↔ search <+: data)
  substring : ulFuzzyLevel &&& 0xFFFF = FL_SUBSTRING → (result = some true ↔ search <:+: data)

/-- The bytes of a value that may be `NULL`. -/
def bytesOf {w : ℕ} (bin : Option (Counted w UInt8)) : List UInt8 := (bin.map Counted.elems).getD []

section Binary

variable {w : ℕ} {data search : List UInt8}

theorem memcmp_of_le {n : ℕ} (hdata : n ≤ data.length) (hsearch : n ≤ search.length) :
    StringUtil.memcmp data search n = some (data.take n == search.take n) := if_pos ⟨hdata, hsearch⟩

theorem memcmp_eq (h : data.length = search.length) : StringUtil.memcmp data search data.length = some (data == search) := by
  rw [memcmp_of_le le_rfl h.le, List.take_length, h, List.take_length]

theorem memcmp_prefix (h : search.length ≤ data.length) :
    StringUtil.memcmp data search search.length = some true ↔ search <+: data := by
  rw [memcmp_of_le h le_rfl, List.take_length, List.prefix_iff_eq_take, Option.some_inj, beq_iff_eq, eq_comm]

theorem uintSize_toNat {l : List UInt8} (h : l.length < 2 ^ 32) : (uintSize l).toNat = l.length := by
  rw [uintSize, BitVec.toNat_ofNat, Nat.mod_eq_of_lt h]

theorem uintSize_inj (hdata : data.length < 2 ^ 32) (hsearch : search.length < 2 ^ 32) :
    uintSize data = uintSize search ↔ data.length = search.length := by
  rw [← BitVec.toNat_inj, uintSize_toNat hdata, uintSize_toNat hsearch]

theorem uintSize_le_iff (hdata : data.length < 2 ^ 32) (hsearch : search.length < 2 ^ 32) :
    uintSize search ≤ uintSize data ↔ search.length ≤ data.length := by
  rw [BitVec.le_def, uintSize_toNat hdata, uintSize_toNat hsearch]

/-- A whole value has the length of the search value. -/
theorem ptrSize_eq {α : Type} (l : List α) : ptrSize (some l) = uintSize l := rfl

end Binary

section Modes

variable {u8 : StringTest → Bool → List UInt8 → List UInt8 → Bool} (ulFuzzyLevel : BitVec 32)
  {data search : List UInt8} (hdata : data.length < 2 ^ 32) (hsearch : search.length < 2 ^ 32) (hne : search ≠ [])
include hdata hsearch hne

/-- The modes on the server are right. -/
theorem matchContentValue_right (lpSearchData : Option (List UInt8)) (hptr : lpSearchData.getD [] = data) :
    MatchesRight ulFuzzyLevel search data (matchContentValue u8 ulFuzzyLevel false (some search) lpSearchData) := by
  have hsize : ptrSize lpSearchData = uintSize data := by
    rw [ptrSize, hptr]
  have hmodes : FL_FULLSTRING ≠ FL_PREFIX ∧ FL_FULLSTRING ≠ FL_SUBSTRING ∧ FL_PREFIX ≠ FL_SUBSTRING := by decide
  unfold matchContentValue contentCondition
  simp only [hptr, hsize, ptrSize_eq, Option.getD_some, Bool.false_eq_true, if_false, uintSize_inj hdata hsearch,
    uintSize_le_iff hdata hsearch, uintSize_toNat hdata, uintSize_toNat hsearch]
  by_cases hfull : ulFuzzyLevel &&& 0xFFFF = FL_FULLSTRING
  · rw [if_pos hfull]
    refine ⟨?_, fun _ => ?_, fun h => absurd (hfull.symm.trans h) hmodes.1, fun h => absurd (hfull.symm.trans h) hmodes.2.1⟩
    · split_ifs with hlength
      · rw [memcmp_eq hlength]
        rfl
      · rfl
    · split_ifs with hlength
      · rw [memcmp_eq hlength, Option.some_inj, beq_iff_eq]
      · exact iff_of_false (by decide) fun h => hlength (congrArg List.length h)
  rw [if_neg hfull]
  by_cases hbegin : ulFuzzyLevel &&& 0xFFFF = FL_PREFIX
  · rw [if_pos hbegin]
    refine ⟨?_, fun h => absurd h hfull, fun _ => ?_, fun h => absurd (hbegin.symm.trans h) hmodes.2.2⟩
    · split_ifs with hlength
      · rw [memcmp_of_le hlength le_rfl]
        rfl
      · rfl
    · split_ifs with hlength
      · exact memcmp_prefix hlength
      · exact iff_of_false (by decide) fun h => hlength h.length_le
  rw [if_neg hbegin]
  by_cases hsub : ulFuzzyLevel &&& 0xFFFF = FL_SUBSTRING
  · rw [if_pos hsub]
    obtain ⟨r, hr, hiff⟩ := memsubstr_spec data hne hsearch
    rw [hr, Option.map_some]
    refine ⟨rfl, fun h => absurd h hfull, fun h => absurd h hbegin, fun _ => ?_⟩
    rw [Option.some_inj, beq_iff_eq, hiff]
  · rw [if_neg hsub]
    exact ⟨rfl, fun h => absurd h hfull, fun h => absurd h hbegin, fun h => absurd h hsub⟩

end Modes

section Client

variable (str : StringTest → Bool → List UInt8 → List UInt8 → Bool)
  (wcs : StringTest → Bool → List (BitVec 32) → List (BitVec 32) → Bool) (ulFuzzyLevel : BitVec 32) (search : SBinary)
  (data : Option SBinary)

/-- The client compares whole values only if there is a text too, and prefixes over the size of the value. -/
theorem testContent_binary : testContent str wcs ulFuzzyLevel (.PT_BINARY (some search) data) =
      if ulFuzzyLevel &&& 0xFFFF = FL_FULLSTRING then some false
      else if ulFuzzyLevel &&& 0xFFFF = FL_PREFIX then
        if search.elems.length ≤ (bytesOf data).length ∧ data.isSome then
          StringUtil.memcmp (bytesOf data) search.elems (bytesOf data).length
        else some false
      else if ulFuzzyLevel &&& 0xFFFF = FL_SUBSTRING then
        if data.isSome then
          (StringUtil.memsubstr (bytesOf data) (bytesOf data).length search.elems search.elems.length).map fun r => r == 0
        else some false
      else some false := by
  have hdata : (bytesOf data).length < 2 ^ 32 := by
    rcases data with _ | data
    · exact Nat.two_pow_pos 32
    · exact data.length_lt
  have hsize : ptrSize (data.map Counted.elems) = uintSize (bytesOf data) := rfl
  unfold testContent contentVars M4lcommon.CommonUtil.contentCondition
  simp only [hsize, ptrSize_eq, Option.map_some, Option.getD_some, Option.isSome_some, and_true, Option.isSome_map,
    uintSize_le_iff hdata search.length_lt, uintSize_toNat hdata, uintSize_toNat search.length_lt]
  have hbytes : (data.map Counted.elems).getD [] = bytesOf data := rfl
  simp only [hbytes, Option.isSome_none, Bool.false_eq_true, and_false, if_false, ite_self]
  split_ifs <;> simp_all

/-- When the client is right. -/
theorem testContent_right_iff (hne : search.elems ≠ []) :
    MatchesRight ulFuzzyLevel search.elems (bytesOf data) (testContent str wcs ulFuzzyLevel (.PT_BINARY (some search) data)) ↔
      ¬ (ulFuzzyLevel &&& 0xFFFF = FL_FULLSTRING ∧ bytesOf data = search.elems) ∧
      ¬ (ulFuzzyLevel &&& 0xFFFF = FL_PREFIX ∧ search.elems.length < (bytesOf data).length) := by
  have hmodes : FL_FULLSTRING ≠ FL_PREFIX ∧ FL_FULLSTRING ≠ FL_SUBSTRING ∧ FL_PREFIX ≠ FL_SUBSTRING := by decide
  have hsome (h : search.elems.length ≤ (bytesOf data).length) : data.isSome := by
    rcases data with _ | data
    · exact absurd (List.length_eq_zero_iff.mp (Nat.le_zero.mp h)) hne
    · rfl
  rw [testContent_binary]
  by_cases hfull : ulFuzzyLevel &&& 0xFFFF = FL_FULLSTRING
  · rw [if_pos hfull]
    constructor
    · exact fun h => ⟨fun heq => absurd ((h.fullString hfull).mpr heq.2) (by decide),
        fun hbegin => absurd (hfull.symm.trans hbegin.1) hmodes.1⟩
    · rintro ⟨hdiffers, -⟩
      exact ⟨rfl, fun _ => iff_of_false (by decide) fun heq => hdiffers ⟨hfull, heq⟩,
        fun h => absurd (hfull.symm.trans h) hmodes.1, fun h => absurd (hfull.symm.trans h) hmodes.2.1⟩
  rw [if_neg hfull]
  by_cases hbegin : ulFuzzyLevel &&& 0xFFFF = FL_PREFIX
  · rw [if_pos hbegin]
    constructor
    · intro h
      refine ⟨fun hboth => hfull hboth.1, fun hboth => ?_⟩
      have hinside := h.inside
      rw [if_pos ⟨hboth.2.le, hsome hboth.2.le⟩, StringUtil.memcmp, if_neg (by omega)] at hinside
      exact Bool.false_ne_true hinside
    · rintro ⟨-, hlong⟩
      have hle : (bytesOf data).length ≤ search.elems.length := Nat.not_lt.mp fun hlt => hlong ⟨hbegin, hlt⟩
      split_ifs with hlength
      · have heq := le_antisymm hle hlength.1
        rw [memcmp_eq heq]
        refine ⟨rfl, fun h => absurd h hfull, fun _ => ?_, fun h => absurd (hbegin.symm.trans h) hmodes.2.2⟩
        rw [Option.some_inj, beq_iff_eq]
        exact ⟨fun h => h ▸ List.prefix_rfl, fun h => (h.eq_of_length heq.symm).symm⟩
      · exact ⟨rfl, fun h => absurd h hfull,
          fun _ => iff_of_false (by decide) fun h => hlength ⟨h.length_le, hsome h.length_le⟩,
          fun h => absurd (hbegin.symm.trans h) hmodes.2.2⟩
  rw [if_neg hbegin]
  refine iff_of_true ?_ ⟨fun h => hfull h.1, fun h => hbegin h.1⟩
  by_cases hsub : ulFuzzyLevel &&& 0xFFFF = FL_SUBSTRING
  · rw [if_pos hsub]
    split_ifs with hdata
    · obtain ⟨r, hr, hiff⟩ := memsubstr_spec (bytesOf data) hne search.length_lt
      rw [hr, Option.map_some]
      refine ⟨rfl, fun h => absurd h hfull, fun h => absurd h hbegin, fun _ => ?_⟩
      rw [Option.some_inj, beq_iff_eq, hiff]
    · exact ⟨rfl, fun h => absurd h hfull, fun h => absurd h hbegin,
        fun _ => iff_of_false (by decide) fun h => hdata (hsome h.length_le)⟩
  · rw [if_neg hsub]
    exact ⟨rfl, fun h => absurd h hfull, fun h => absurd h hbegin, fun h => absurd h hsub⟩

end Client

/-! ## The flags of the evaluators -/

/-- The search of the evaluators finds what the one on buffers finds. -/
theorem memsubstrLoop_eq_zero_iff {haystack needle : List UInt8} {start match' : ℕ} {r : BitVec 32}
    (h : StringUtil.memsubstrLoop haystack haystack.length needle needle.length start match' = some r) :
    memsubstrLoop haystack needle start match' = 0 ↔ r = 0 := by
  fun_induction StringUtil.memsubstrLoop haystack haystack.length needle needle.length start match' with
  | case1 start match' hlt databuf hsearch hend hdata =>
    rw [memsubstrLoop, if_pos hlt, if_pos (hdata.trans hsearch.symm), if_pos hend]
    exact iff_of_true rfl (Option.some_inj.mp h).symm
  | case2 start match' hlt databuf hsearch hend hdata ih =>
    rw [memsubstrLoop, if_pos hlt, if_pos (hdata.trans hsearch.symm), if_neg hend]
    exact ih h
  | case3 start match' hlt databuf searchbuf hdata hsearch hdiffers ih =>
    rw [memsubstrLoop, if_pos hlt, if_neg (by rw [hdata, hsearch, Option.some_inj]; exact hdiffers)]
    exact ih h
  | case4 start match' hlt hnone => cases h
  | case5 start match' hlt =>
    rw [memsubstrLoop, if_neg hlt]
    exact iff_of_false (by decide) fun hzero => absurd ((Option.some_inj.mp h).trans hzero) (by decide)

/-- The evaluators test for parts. -/
theorem memsubstr_eq_zero_iff {haystack needle : List UInt8} (hne : needle ≠ []) (hneedle : needle.length < 2 ^ 32) :
    memsubstr haystack needle = 0 ↔ needle <:+: haystack := by
  obtain ⟨r, hr, hiff⟩ := memsubstr_spec haystack hne hneedle
  rw [← hiff]
  unfold StringUtil.memsubstr at hr
  unfold memsubstr
  split_ifs at hr with hshort
  · rw [if_pos hshort]
    exact iff_of_false (by omega) fun hzero => absurd (hiff.mp hzero).length_le (by omega)
  · rw [if_neg hshort]
    exact memsubstrLoop_eq_zero_iff hr

/-- The flag of `MatchRowRestrict` is that of the conditions. -/
theorem binaryMatches_right (ulFuzzyLevel : BitVec 32) {data search : List UInt8} (hdata : data.length < 2 ^ 31)
    (hsearch : search.length < 2 ^ 31) (hne : search ≠ []) :
    MatchesRight ulFuzzyLevel search data (some (binaryMatches ulFuzzyLevel data search)) := by
  have hmodes : FL_FULLSTRING ≠ FL_PREFIX ∧ FL_FULLSTRING ≠ FL_SUBSTRING ∧ FL_PREFIX ≠ FL_SUBSTRING := by decide
  unfold binaryMatches
  refine ⟨rfl, fun h => ?_, fun h => ?_, fun h => ?_⟩
  · rw [if_pos h, Option.some_inj, Bool.and_eq_true, beq_iff_eq, decide_eq_true_eq, memcmp_eq_zero]
    exact ⟨And.right, fun heq => ⟨congrArg uintSize heq, heq⟩⟩
  · rw [if_neg (fun hfull => hmodes.1 (hfull.symm.trans h)), if_pos h, Option.some_inj, Bool.and_eq_true,
      decide_eq_true_eq, decide_eq_true_eq, memcmp_eq_zero, uintSize_le hsearch hdata, List.prefix_iff_eq_take]
    exact ⟨fun heq => heq.2.symm, fun heq => ⟨by rw [heq]; exact List.length_take_le' _ _, heq.symm⟩⟩
  · rw [if_neg (fun hfull => hmodes.2.1 (hfull.symm.trans h)), if_neg (fun hbegin => hmodes.2.2 (hbegin.symm.trans h)),
      if_pos h, Option.some_inj, beq_iff_eq, memsubstr_eq_zero_iff hne (by omega)]

/-- `MatchRowRestrict` on a row with a binary value sets the flag of the conditions. -/
theorem matchRowRestrict_binary {T : Type} (s : Strings T) {row : List (Property T)} {ulPropTag : PropTag}
    (htag : ulPropTag.type = .PT_BINARY) {found lpProp : Property T} (hfound : findProp row ulPropTag = some found)
    {data search : Base64Binary} (hdata : found.Value = .PT_BINARY data) (hsearch : lpProp.Value = .PT_BINARY search)
    (hne : search.elems ≠ []) (ulFuzzyLevel : BitVec 32) :
    ∃ fMatch, matchRowRestrict s row (.RES_CONTENT ulFuzzyLevel ulPropTag lpProp) = .ok fMatch ∧
      MatchesRight ulFuzzyLevel search.elems data.elems (some fMatch) := by
  refine ⟨_, ?_, binaryMatches_right ulFuzzyLevel data.length_lt search.length_lt hne⟩
  rw [matchRowRestrict, htag, if_neg (by decide), hfound]
  simp only [contentMatches, hdata, hsearch]

/-- A value as the client has it. -/
def toSBinary (bin : Base64Binary) : SBinary := ⟨bin.elems, bin.length_lt.trans (by decide)⟩

/-- `TestRestriction` on a row with a binary value has the flag of the conditions, whatever is behind the values, if
these look at nothing there. -/
theorem testRestriction_binary {T : Type} (s : Strings T) (behind : Memory) {row : List (Property T)}
    {ulPropTag : PropTag} (htag : ulPropTag.type = .PT_BINARY) {found lpProp : Property T}
    (hfound : getOneProp row ulPropTag = some found) {data search : Base64Binary} (hdata : found.Value = .PT_BINARY data)
    (hsearch : lpProp.Value = .PT_BINARY search) (hne : search.elems ≠ []) {ulFuzzyLevel : BitVec 32} {ulLevel : ℕ}
    (hlevel : ulLevel ≤ RESTRICT_MAX_RECURSE_LEVEL) {fMatch : Bool}
    (h : testContent s.str s.wcs ulFuzzyLevel (.PT_BINARY (some (toSBinary search)) (some (toSBinary data))) = some fMatch) :
    testRestriction s behind row ulLevel (.RES_CONTENT ulFuzzyLevel ulPropTag lpProp) = matchResult fMatch := by
  have hflag : M4lcommon.CommonUtil.binaryMatches behind ulFuzzyLevel data.elems search.elems = fMatch := by
    rw [testContent_binary] at h
    have hbytes : bytesOf (some (toSBinary data)) = data.elems := rfl
    have hsearchElems : (toSBinary search).elems = search.elems := rfl
    simp only [hbytes, hsearchElems, Option.isSome_some, and_true, if_true] at h
    unfold M4lcommon.CommonUtil.binaryMatches
    split_ifs at h ⊢ with hfull hbegin hlength hsub
    · exact Option.some_inj.mp h
    · -- the values have one length
      unfold StringUtil.memcmp at h
      split_ifs at h with hinside
      have hsame := le_antisymm hinside.2 hlength
      rw [List.take_length, hsame, List.take_length] at h
      rw [hsame, Nat.sub_self, ← Option.some_inj.mp h, Bool.eq_iff_iff, Bool.and_eq_true, decide_eq_true_eq,
        decide_eq_true_eq, memcmp_eq_zero, beq_iff_eq, uintSize_le search.length_lt data.length_lt]
      exact ⟨fun heq => heq.2.trans (List.append_nil _), fun heq => ⟨hlength, heq.trans (List.append_nil _).symm⟩⟩
    · rw [decide_eq_false (by rwa [uintSize_le search.length_lt data.length_lt]), Bool.false_and]
      exact Option.some_inj.mp h
    · obtain ⟨r, hr, hiff⟩ := memsubstr_spec data.elems hne (search.length_lt.trans (by decide))
      rw [hr, Option.map_some, Option.some_inj] at h
      rw [← h, Bool.eq_iff_iff, beq_iff_eq, beq_iff_eq, hiff,
        memsubstr_eq_zero_iff hne (search.length_lt.trans (by decide))]
    · exact Option.some_inj.mp h
  rw [testRestriction, if_neg (Nat.not_lt.mpr hlevel), htag, if_neg (by decide), onProp, hfound]
  simp only [M4lcommon.CommonUtil.contentMatches, hdata, hsearch, hflag]

/-! ## Both of them -/

/-- The server's condition has the modes as they are meant for any binary values; the client's has them but for whole
values that are equal, and for prefixes of a longer value. -/
theorem binaryContent_iff (str u8 : StringTest → Bool → List UInt8 → List UInt8 → Bool)
    (wcs : StringTest → Bool → List (BitVec 32) → List (BitVec 32) → Bool) (ulFuzzyLevel : BitVec 32) :
    (∀ (search : SBinary) (data : Option SBinary), search.elems ≠ [] →
      (MatchesRight ulFuzzyLevel search.elems (bytesOf data)
          (testContent str wcs ulFuzzyLevel (.PT_BINARY (some search) data)) ↔
        ¬ (ulFuzzyLevel &&& 0xFFFF = FL_FULLSTRING ∧ bytesOf data = search.elems) ∧
        ¬ (ulFuzzyLevel &&& 0xFFFF = FL_PREFIX ∧ search.elems.length < (bytesOf data).length))) ∧
    ∀ (search : Base64Binary) (data : Option Base64Binary), search.elems ≠ [] →
      MatchesRight ulFuzzyLevel search.elems (bytesOf data)
        (matchContent u8 ulFuzzyLevel (some search.elems) (.PT_BINARY data)) := by
  refine ⟨fun search data => testContent_right_iff str wcs ulFuzzyLevel search data, fun search data hne => ?_⟩
  have hlength : (bytesOf data).length < 2 ^ 32 := by
    rcases data with _ | data
    · exact Nat.two_pow_pos 32
    · exact data.length_lt.trans (by decide)
  have hright : MatchesRight ulFuzzyLevel search.elems (bytesOf data)
      (matchContentValue u8 ulFuzzyLevel false (some search.elems) (data.map Counted.elems)) :=
    matchContentValue_right ulFuzzyLevel hlength (search.length_lt.trans (by decide)) hne (data.map Counted.elems) rfl
  have hloop : matchContent u8 ulFuzzyLevel (some search.elems) (.PT_BINARY data) =
      matchContentValue u8 ulFuzzyLevel false (some search.elems) (data.map Counted.elems) := by
    unfold matchContent RowContent.scan matchContentLoop matchContentLoop
    obtain ⟨b, hb⟩ := Option.isSome_iff_exists.mp hright.inside
    dsimp only
    rw [hb]
    cases b <;> rfl
  rw [hloop]
  exact hright

/-- On a row with a binary value, both evaluators answer as the mode is meant where the client's condition has it. -/
theorem evaluators_right_binary {T : Type} (s : Strings T) (behind : Memory) {row : List (Property T)}
    {ulPropTag : PropTag} (htag : ulPropTag.type = .PT_BINARY) {found lpProp : Property T}
    (hfind : findProp row ulPropTag = some found) (hget : getOneProp row ulPropTag = some found)
    {data search : Base64Binary} (hdata : found.Value = .PT_BINARY data) (hsearch : lpProp.Value = .PT_BINARY search)
    (hne : search.elems ≠ []) {ulFuzzyLevel : BitVec 32} {ulLevel : ℕ} (hlevel : ulLevel ≤ RESTRICT_MAX_RECURSE_LEVEL)
    (hwhole : ¬ (ulFuzzyLevel &&& 0xFFFF = FL_FULLSTRING ∧ data.elems = search.elems))
    (hshort : ¬ (ulFuzzyLevel &&& 0xFFFF = FL_PREFIX ∧ search.elems.length < data.elems.length)) :
    ∃ onServer onClient, matchRowRestrict s row (.RES_CONTENT ulFuzzyLevel ulPropTag lpProp) = .ok onServer ∧
      MatchesRight ulFuzzyLevel search.elems data.elems (some onServer) ∧
      testRestriction s behind row ulLevel (.RES_CONTENT ulFuzzyLevel ulPropTag lpProp) = matchResult onClient ∧
      MatchesRight ulFuzzyLevel search.elems data.elems (some onClient) := by
  obtain ⟨onServer, hserver, hright⟩ := matchRowRestrict_binary s htag hfind hdata hsearch hne ulFuzzyLevel
  have hclient := (testContent_right_iff s.str s.wcs ulFuzzyLevel (toSBinary search) (some (toSBinary data)) hne).mpr
    ⟨hwhole, hshort⟩
  obtain ⟨onClient, htest⟩ := Option.isSome_iff_exists.mp hclient.inside
  rw [htest] at hclient
  exact ⟨onServer, onClient, hserver, hright, testRestriction_binary s behind htag hget hdata hsearch hne hlevel htest,
    hclient⟩

/-- A part of a value is found by both conditions, and a beginning that it does not have is not. -/
theorem binaryContent_iff_part : testContent (fun _ _ _ _ => false) (fun _ _ _ _ => false) FL_SUBSTRING
        (.PT_BINARY (some ⟨[1, 2], by decide⟩) (some ⟨[0, 1, 2, 3], by decide⟩)) = some true ∧
      matchContent (fun _ _ _ _ => false) FL_SUBSTRING (some [1, 2]) (.PT_BINARY (some ⟨[0, 1, 2, 3], by decide⟩)) =
        some true ∧
      matchContent (fun _ _ _ _ => false) FL_PREFIX (some [1, 2]) (.PT_BINARY (some ⟨[0, 1, 2, 3], by decide⟩)) ≠
        some true := by
  have hpart := binaryContent_iff (fun _ _ _ _ => false) (fun _ _ _ _ => false) (fun _ _ _ _ => false) FL_SUBSTRING
  have hbegin := binaryContent_iff (fun _ _ _ _ => false) (fun _ _ _ _ => false) (fun _ _ _ _ => false) FL_PREFIX
  refine ⟨?_, ?_, fun h => ?_⟩
  · have hclient := (hpart.1 ⟨[1, 2], by decide⟩ (some ⟨[0, 1, 2, 3], by decide⟩) (by decide)).mpr (by decide)
    exact (hclient.substring (by decide)).mpr ⟨[0], [3], rfl⟩
  · have hserver := hpart.2 ⟨[1, 2], by decide⟩ (some ⟨[0, 1, 2, 3], by decide⟩) (by decide)
    exact (hserver.substring (by decide)).mpr ⟨[0], [3], rfl⟩
  · have hserver := hbegin.2 ⟨[1, 2], by decide⟩ (some ⟨[0, 1, 2, 3], by decide⟩) (by decide)
    exact absurd ((hserver.prefixes (by decide)).mp h) (by decide)

/-- A whole value is searched for, and the value is the search value. -/
theorem not_binaryContent : ¬ ∀ str wcs ulFuzzyLevel (search : SBinary) (data : Option SBinary), search.elems ≠ [] →
    MatchesRight ulFuzzyLevel search.elems (bytesOf data)
      (testContent str wcs ulFuzzyLevel (.PT_BINARY (some search) data)) := by
  intro h
  have hright := h (fun _ _ _ _ => false) (fun _ _ _ _ => false) 0 ⟨[1], by decide⟩ (some ⟨[1], by decide⟩)
    (List.cons_ne_nil _ _)
  exact absurd ((hright.fullString (by decide)).mpr rfl) (by decide)

/-- And so is the beginning of one: the bytes that are compared go beyond the search value. -/
example : testContent (fun _ _ _ _ => false) (fun _ _ _ _ => false) FL_PREFIX
    (.PT_BINARY (some ⟨[1], by decide⟩) (some ⟨[1, 2], by decide⟩)) = none := by decide

end Zcp.Libserver.ECGenericObjectTable
