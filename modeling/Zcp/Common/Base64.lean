import Mathlib.Data.List.GetD
import Zcp.Lib.Sextets

/-!
# base64

`base64_encode` and `base64_decode` of strings of bytes. The decoder counts what is left of its input in an `int`, so of
a string with 2 GiB or more it reads too few characters, or goes on until the counter overflows; what it does then
is undefined. Up to the size where its text reaches 2 GiB, every string comes back (`comesBack_iff`).
-/

namespace Zcp.Common

open Zcp.Lib

def base64_chars : List UInt8 :=
  "ABCDEFGHIJKLMNOPQRSTUVWXYZabcdefghijklmnopqrstuvwxyz0123456789+/".toList.map Char.toUInt8

/-- `isalnum` for bytes. -/
def isalnum (c : UInt8) : Bool := (48 ≤ c && c ≤ 57) || (65 ≤ c && c ≤ 90) || (97 ≤ c && c ≤ 122)

def is_base64 (c : UInt8) : Bool := isalnum c || c = 43 || c = 47

/-- `base64_chars.find`, made an `unsigned char`. A character that is not found is `npos`. -/
def findChar (c : UInt8) : UInt8 :=
  if base64_chars.contains c then .ofNat (base64_chars.idxOf c) else .ofNat (2 ^ 64 - 1)

/-- `base64_chars[x]`, which has a NUL behind its end. -/
def charAt (x : UInt8) : UInt8 := base64_chars.getD x.toNat 0

/-! ## Encoding -/

/-- `char_array_4` from `char_array_3`. -/
def encodeGroup (a b c : UInt8) : List UInt8 :=
  [(a &&& 0xfc) >>> 2, ((a &&& 0x03) <<< 4) + ((b &&& 0xf0) >>> 4), ((b &&& 0x0f) <<< 2) + ((c &&& 0xc0) >>> 6),
    c &&& 0x3f]

/-- A turn of the loop of `base64_encode`: `char_array_3` up to `i`, and `ret`. -/
def encodeByte (state : List UInt8 × List UInt8) (byte : UInt8) : List UInt8 × List UInt8 :=
  match state.1 ++ [byte] with
  | [a, b, c] => ([], state.2 ++ (encodeGroup a b c).map charAt)
  | char_array_3 => (char_array_3, state.2)

/-- What `base64_encode` adds behind its loop. -/
def encodeRest (char_array_3 : List UInt8) : List UInt8 :=
  match char_array_3 with
  | [] => []
  | a :: rest =>
    ((encodeGroup a (rest.getD 0 0) (rest.getD 1 0)).take (char_array_3.length + 1)).map charAt ++
      List.replicate (3 - char_array_3.length) 61

def base64_encode (bytes_to_encode : List UInt8) : List UInt8 :=
  let (char_array_3, ret) := bytes_to_encode.foldl encodeByte ([], [])
  ret ++ encodeRest char_array_3

/-! ## Decoding -/

/-- `char_array_3` from `char_array_4`. -/
def decodeGroup (a b c d : UInt8) : List UInt8 :=
  [(a <<< 2) + ((b &&& 0x30) >>> 4), ((b &&& 0xf) <<< 4) + ((c &&& 0x3c) >>> 2), ((c &&& 0x3) <<< 6) + d]

/-- What a turn of the loop of `base64_decode` does with a character: `char_array_4` up to `i`, and `ret`. -/
def decodeChar (state : List UInt8 × List UInt8) (c : UInt8) : List UInt8 × List UInt8 :=
  match state.1 ++ [c] with
  | [a, b, c, d] => ([], state.2 ++ decodeGroup (findChar a) (findChar b) (findChar c) (findChar d))
  | char_array_4 => (char_array_4, state.2)

/-- `in_len--`. The lowest `int` has no predecessor. -/
def postDecrement (in_len : ℤ) : Option ℤ := if in_len = -2 ^ 31 then none else some (in_len - 1)

/-- The loop of `base64_decode`. Behind the last character of the string stands a NUL, which is no character of base64.
There is no result where the counter overflows. -/
def decodeLoop : ℤ → List UInt8 → List UInt8 × List UInt8 → Option (List UInt8 × List UInt8)
  | in_len, encoded_string, state => do
    let left ← postDecrement in_len
    if in_len = 0 then some state else
      match encoded_string with
      | [] => some state
      | c :: rest => if c ≠ 61 ∧ is_base64 c then decodeLoop left rest (decodeChar state c) else some state

/-- What `base64_decode` adds behind its loop. The characters that are missing in the last group are NUL. -/
def decodeRest (char_array_4 : List UInt8) : List UInt8 :=
  let char (j : ℕ) : UInt8 := findChar (char_array_4.getD j 0)
  (decodeGroup (char 0) (char 1) (char 2) (char 3)).take (char_array_4.length - 1)

/-- The number of characters as an `int`. -/
def sizeAsInt (size : ℕ) : ℤ := (BitVec.ofNat 32 size).toInt

def base64_decode (encoded_string : List UInt8) : Option (List UInt8) := do
  let (char_array_4, ret) ← decodeLoop (sizeAsInt encoded_string.length) encoded_string ([], [])
  some (ret ++ decodeRest char_array_4)

/-! ## The bits of a group -/

theorem encodeGroup_eq (a b c : UInt8) :
    encodeGroup a b c = [a / 4, a % 4 * 16 + b / 16, b % 16 * 4 + c / 64, c % 64] := by
  have h1 : ∀ a : UInt8, (a &&& 0xfc) >>> 2 = a / 4 := by decide +kernel
  have h2 : ∀ a : UInt8, (a &&& 0x03) <<< 4 = a % 4 * 16 := by decide +kernel
  have h3 : ∀ b : UInt8, (b &&& 0xf0) >>> 4 = b / 16 := by decide +kernel
  have h4 : ∀ b : UInt8, (b &&& 0x0f) <<< 2 = b % 16 * 4 := by decide +kernel
  have h5 : ∀ c : UInt8, (c &&& 0xc0) >>> 6 = c / 64 := by decide +kernel
  have h6 : ∀ c : UInt8, c &&& 0x3f = c % 64 := by decide +kernel
  rw [encodeGroup, h1, h2, h3, h4, h5, h6]

theorem decodeGroup_eq (a b c d : UInt8) :
    decodeGroup a b c d = [a * 4 + b / 16 % 4, b % 16 * 16 + c / 4 % 16, c % 4 * 64 + d] := by
  have h1 : ∀ a : UInt8, a <<< 2 = a * 4 := by decide +kernel
  have h2 : ∀ b : UInt8, (b &&& 0x30) >>> 4 = b / 16 % 4 := by decide +kernel
  have h3 : ∀ b : UInt8, (b &&& 0xf) <<< 4 = b % 16 * 16 := by decide +kernel
  have h4 : ∀ c : UInt8, (c &&& 0x3c) >>> 2 = c / 4 % 16 := by decide +kernel
  have h5 : ∀ c : UInt8, (c &&& 0x3) <<< 6 = c % 4 * 64 := by decide +kernel
  rw [decodeGroup, h1, h2, h3, h4, h5]

/-- The bytes of the table. -/
theorem base64_chars_eq : base64_chars =
      [65, 66, 67, 68, 69, 70, 71, 72, 73, 74, 75, 76, 77, 78, 79, 80, 81, 82, 83, 84, 85, 86, 87, 88, 89, 90,
      97, 98, 99, 100, 101, 102, 103, 104, 105, 106, 107, 108, 109, 110, 111, 112, 113, 114, 115, 116, 117,
      118, 119, 120, 121, 122, 48, 49, 50, 51, 52, 53, 54, 55, 56, 57, 43, 47] := by
  have hchars := String.toList_ofList (l :=
    ['A', 'B', 'C', 'D', 'E', 'F', 'G', 'H', 'I', 'J', 'K', 'L', 'M', 'N', 'O', 'P', 'Q', 'R', 'S', 'T', 'U',
    'V', 'W', 'X', 'Y', 'Z', 'a', 'b', 'c', 'd', 'e', 'f', 'g', 'h', 'i', 'j', 'k', 'l', 'm', 'n', 'o', 'p',
    'q', 'r', 's', 't', 'u', 'v', 'w', 'x', 'y', 'z', '0', '1', '2', '3', '4', '5', '6', '7', '8', '9', '+', '/'])
  exact congrArg (List.map Char.toUInt8) hchars

theorem length_base64_chars : base64_chars.length = 64 := by rw [base64_chars_eq]; rfl

theorem nodup_base64_chars : base64_chars.Nodup := by
  rw [base64_chars_eq]
  decide +kernel

example : charAt 62 = 43 := by decide +kernel

theorem charAt_eq {x : UInt8} (hx : x.toNat < base64_chars.length) : charAt x = base64_chars[x.toNat] := by
  rw [charAt, List.getD_eq_getElem _ _ hx]

theorem charAt_mem {x : UInt8} (hx : x < 64) : charAt x ∈ base64_chars := by
  have hlt : x.toNat < base64_chars.length := length_base64_chars ▸ UInt8.lt_iff_toNat_lt.mp hx
  rw [charAt_eq hlt]
  exact List.getElem_mem hlt

/-- The characters of base64 stand for themselves. -/
theorem findChar_charAt {x : UInt8} (hx : x < 64) : findChar (charAt x) = x := by
  have hlt : x.toNat < base64_chars.length := length_base64_chars ▸ UInt8.lt_iff_toNat_lt.mp hx
  rw [findChar, if_pos (List.contains_iff_mem.mpr (charAt_mem hx)), charAt_eq hlt,
    nodup_base64_chars.idxOf_getElem]
  exact UInt8.ofNat_toNat

/-- What the decoder goes on for is a character of base64. -/
theorem is_base64_iff (c : UInt8) : (c ≠ 61 ∧ is_base64 c) ↔ c ∈ base64_chars := by
  have hall : base64_chars.all fun c => c ≠ 61 ∧ is_base64 c := by
    rw [base64_chars_eq]
    decide +kernel
  have hmem : ∀ c : UInt8, c ≠ 61 ∧ is_base64 c → c ∈ base64_chars := by
    rw [base64_chars_eq]
    decide +kernel
  exact ⟨hmem c, fun hc => of_decide_eq_true (List.all_eq_true.mp hall c hc)⟩

/-! ## What is encoded and decoded -/

/-- The text that `base64_encode` gives: the characters of the sextets, and the fill characters of the last group. -/
theorem base64_encode_eq (bytes : List UInt8) :
    base64_encode bytes = (toSextets bytes).map charAt ++ List.replicate ((3 - bytes.length % 3) % 3) 61 := by
  suffices h : ∀ ret, (bytes.foldl encodeByte ([], ret)).2 ++ encodeRest (bytes.foldl encodeByte ([], ret)).1 =
      ret ++ ((toSextets bytes).map charAt ++ List.replicate ((3 - bytes.length % 3) % 3) 61) from h []
  fun_induction toSextets bytes with
  | case1 a b c rest ih =>
    intro ret
    have hmod : (a :: b :: c :: rest).length % 3 = rest.length % 3 := by
      simp only [List.length_cons]
      omega
    rw [hmod]
    have hgroup : encodeByte (encodeByte (encodeByte ([], ret) a) b) c = ([], ret ++ (encodeGroup a b c).map charAt) := rfl
    rw [List.foldl_cons, List.foldl_cons, List.foldl_cons, hgroup, ih, encodeGroup_eq, List.append_assoc]
    rfl
  | case2 a b =>
    intro ret
    show ret ++ (((encodeGroup a b 0).take 3).map charAt ++ List.replicate 1 61) = _
    rw [encodeGroup_eq]
    simp
  | case3 a =>
    intro ret
    show ret ++ (((encodeGroup a 0 0).take 2).map charAt ++ List.replicate 2 61) = _
    rw [encodeGroup_eq]
    simp
  | case4 =>
    intro ret
    rfl

/-- The longest start of a string that is made of characters of base64. -/
def alphabetPrefix (s : List UInt8) : List UInt8 := s.takeWhile fun c => base64_chars.contains c

/-- What some characters of base64 stand for. -/
def decoded (chars : List UInt8) : List UInt8 := ofSextets (chars.map findChar)

theorem length_decoded (chars : List UInt8) : (decoded chars).length = 3 * chars.length / 4 := by
  rw [decoded, length_ofSextets, List.length_map]

theorem decoded_take (chars : List UInt8) (n : ℕ) : decoded (chars.take n) = (decoded chars).take (3 * n / 4) := by
  rw [decoded, List.map_take, ofSextets_take, decoded]

theorem foldl_decodeChar : ∀ chars ret : List UInt8,
    (chars.foldl decodeChar ([], ret)).2 ++ decodeRest (chars.foldl decodeChar ([], ret)).1 = ret ++ decoded chars
  | [], ret => rfl
  | [a], ret => rfl
  | [a, b], ret => by
    show ret ++ (decodeGroup (findChar a) (findChar b) (findChar 0) (findChar 0)).take 1 = _
    rw [decodeGroup_eq]
    rfl
  | [a, b, c], ret => by
    show ret ++ (decodeGroup (findChar a) (findChar b) (findChar c) (findChar 0)).take 2 = _
    rw [decodeGroup_eq]
    rfl
  | a :: b :: c :: d :: rest, ret => by
    have hgroup : decodeChar (decodeChar (decodeChar (decodeChar ([], ret) a) b) c) d =
        ([], ret ++ decodeGroup (findChar a) (findChar b) (findChar c) (findChar d)) := rfl
    rw [List.foldl_cons, List.foldl_cons, List.foldl_cons, List.foldl_cons, hgroup, foldl_decodeChar rest,
      decodeGroup_eq, List.append_assoc]
    rfl

/-! ## The loop of the decoder -/

theorem alphabetPrefix_cons (c : UInt8) (rest : List UInt8) :
    alphabetPrefix (c :: rest) = if c ∈ base64_chars then c :: alphabetPrefix rest else [] := by
  by_cases hc : c ∈ base64_chars
  · rw [if_pos hc, alphabetPrefix, List.takeWhile_cons_of_pos (List.contains_iff_mem.mpr hc), alphabetPrefix]
  · rw [if_neg hc, alphabetPrefix, List.takeWhile_cons_of_neg (fun h => hc (List.contains_iff_mem.mp h))]

/-- At the end of the string the loop ends. -/
theorem decodeLoop_nil {in_len : ℤ} (hin : in_len ≠ -2 ^ 31) (state : List UInt8 × List UInt8) :
    decodeLoop in_len [] state = some state := by
  rw [decodeLoop, postDecrement, if_neg hin]
  exact ite_self _

/-- A turn of the loop. -/
theorem decodeLoop_cons {in_len : ℤ} (hin : in_len ≠ -2 ^ 31) (hzero : in_len ≠ 0) (c : UInt8) (rest : List UInt8)
    (state : List UInt8 × List UInt8) : decodeLoop in_len (c :: rest) state =
      if c ∈ base64_chars then decodeLoop (in_len - 1) rest (decodeChar state c) else some state := by
  rw [decodeLoop, postDecrement, if_neg hin]
  refine (if_neg hzero).trans ?_
  simp only [is_base64_iff]

/-- A counter that is not negative bounds the characters that are read. -/
theorem decodeLoop_ofNat (n : ℕ) (s : List UInt8) (state : List UInt8 × List UInt8) :
    decodeLoop n s state = some (((alphabetPrefix s).take n).foldl decodeChar state) := by
  induction s generalizing n state with
  | nil =>
    rw [decodeLoop_nil (by omega), alphabetPrefix, List.takeWhile_nil, List.take_nil, List.foldl_nil]
  | cons c rest ih =>
    cases n with
    | zero =>
      rw [decodeLoop]
      rfl
    | succ n =>
      have hleft : ((n + 1 : ℕ) : ℤ) - 1 = n := by omega
      rw [decodeLoop_cons (by omega) (by omega), hleft, ih, alphabetPrefix_cons]
      split_ifs
      · rw [List.take_succ_cons, List.foldl_cons]
      · rw [List.take_nil, List.foldl_nil]

/-- A negative counter bounds nothing: it overflows unless the characters of base64 end before. -/
theorem decodeLoop_neg {m : ℕ} (hm : m < 2 ^ 31) (s : List UInt8) (state : List UInt8 × List UInt8) :
    decodeLoop (-2 ^ 31 + m) s state =
      if (alphabetPrefix s).length < m then some ((alphabetPrefix s).foldl decodeChar state) else none := by
  induction s generalizing m state with
  | nil =>
    cases m with
    | zero => rfl
    | succ m => rw [decodeLoop_nil (by omega), alphabetPrefix, List.takeWhile_nil, if_pos (by simp), List.foldl_nil]
  | cons c rest ih =>
    cases m with
    | zero =>
      rw [decodeLoop]
      rfl
    | succ m =>
      have hleft : -2 ^ 31 + ((m + 1 : ℕ) : ℤ) - 1 = -2 ^ 31 + m := by omega
      rw [decodeLoop_cons (by omega) (by omega), hleft, ih (by omega), alphabetPrefix_cons]
      by_cases hc : c ∈ base64_chars
      · rw [if_pos hc, if_pos hc]
        simp only [List.length_cons, Nat.add_lt_add_iff_right, List.foldl_cons]
      · rw [if_neg hc, if_neg hc, if_pos (by simp), List.foldl_nil]

/-- What `base64_decode` gives, whatever the size of the string. -/
theorem base64_decode_eq (s : List UInt8) : base64_decode s =
      if s.length % 2 ^ 32 < 2 ^ 31 then some (decoded ((alphabetPrefix s).take (s.length % 2 ^ 32)))
      else if (alphabetPrefix s).length < s.length % 2 ^ 32 - 2 ^ 31 then some (decoded (alphabetPrefix s))
      else none := by
  rw [base64_decode]
  by_cases hsize : s.length % 2 ^ 32 < 2 ^ 31
  · have hint : sizeAsInt s.length = (s.length % 2 ^ 32 : ℕ) := by
      rw [sizeAsInt, BitVec.toInt_ofNat', Int.bmod_def]
      omega
    rw [if_pos hsize, hint, decodeLoop_ofNat]
    exact congrArg some (foldl_decodeChar _ [])
  · have hint : sizeAsInt s.length = -2 ^ 31 + (s.length % 2 ^ 32 - 2 ^ 31 : ℕ) := by
      rw [sizeAsInt, BitVec.toInt_ofNat', Int.bmod_def]
      omega
    rw [if_neg hsize, hint, decodeLoop_neg (by omega)]
    split_ifs
    · exact congrArg some (foldl_decodeChar _ [])
    · rfl

/-! ## The round trip -/

/-- A string of bytes comes back. -/
def RoundTrips (bytes : List UInt8) : Prop := base64_decode (base64_encode bytes) = some bytes

/-- The decoder ends and gives what the longest start of characters of base64 stands for, at most three bytes for four
characters. -/
def DecodesPrefix (s : List UInt8) : Prop :=
  ∃ ret, base64_decode s = some ret ∧ ret = decoded (alphabetPrefix s) ∧ 4 * ret.length ≤ 3 * s.length

/-- The counter of the decoder, which has the low 32 bits of the size, stands for enough characters: it is not negative
and not less than the number of characters of base64, or less by one that begins a group; or it is negative, and these
characters end before it overflows. -/
def Counts (size chars : ℕ) : Prop :=
  size % 2 ^ 32 < 2 ^ 31 ∧ (chars ≤ size % 2 ^ 32 ∨ chars = size % 2 ^ 32 + 1 ∧ size % 4 = 0) ∨
    2 ^ 31 ≤ size % 2 ^ 32 ∧ chars < size % 2 ^ 32 - 2 ^ 31

theorem length_alphabetPrefix_le (s : List UInt8) : (alphabetPrefix s).length ≤ s.length :=
  (List.takeWhile_sublist _).length_le

/-- Only a character that begins a group adds no byte. -/
theorem eq_succ_of_bytes_le {n chars : ℕ} (hle : 3 * chars / 4 ≤ 3 * n / 4) (hlt : n < chars) :
    chars = n + 1 ∧ n % 4 = 0 := by
  obtain rfl : chars = n + 1 := by omega
  have hn : n = 4 * (n / 4) + n % 4 := (Nat.div_add_mod n 4).symm
  have hcases : n % 4 = 0 ∨ n % 4 = 1 ∨ n % 4 = 2 ∨ n % 4 = 3 := by omega
  rcases hcases with h | h | h | h <;> rw [h] at hn ⊢ <;> omega

theorem decodesPrefix_iff (s : List UInt8) : DecodesPrefix s ↔ Counts s.length (alphabetPrefix s).length := by
  have hprefix := length_alphabetPrefix_le s
  have hlength := length_decoded (alphabetPrefix s)
  have hdecodes : DecodesPrefix s ↔ base64_decode s = some (decoded (alphabetPrefix s)) := by
    constructor
    · rintro ⟨ret, hret, rfl, -⟩
      exact hret
    · exact fun h => ⟨_, h, rfl, by omega⟩
  rw [hdecodes, base64_decode_eq, Counts]
  by_cases hsize : s.length % 2 ^ 32 < 2 ^ 31
  · rw [if_pos hsize, Option.some.injEq, decoded_take]
    constructor
    · intro h
      have hlen := congrArg List.length h
      rw [List.length_take, hlength] at hlen
      refine .inl ⟨hsize, (le_or_gt _ _).imp_right fun hlt => ?_⟩
      have hnext := eq_succ_of_bytes_le (by omega) hlt
      omega
    · intro h
      apply List.take_of_length_le
      omega
  · rw [if_neg hsize]
    split_ifs with hchars
    · exact iff_of_true rfl (.inr ⟨by omega, hchars⟩)
    · exact iff_of_false (by simp) (by omega)

theorem length_base64_encode (bytes : List UInt8) : (base64_encode bytes).length = 4 * ((bytes.length + 2) / 3) := by
  rw [base64_encode_eq, List.length_append, List.length_map, length_toSextets, List.length_replicate]
  omega

theorem alphabetPrefix_encode (bytes : List UInt8) :
    alphabetPrefix (base64_encode bytes) = (toSextets bytes).map charAt := by
  rw [base64_encode_eq, alphabetPrefix, List.takeWhile_append_of_pos]
  · cases (3 - bytes.length % 3) % 3 with
    | zero => exact List.append_nil _
    | succ n => exact List.append_nil _
  · intro c hc
    obtain ⟨x, hx, rfl⟩ := List.mem_map.mp hc
    exact List.contains_iff_mem.mpr (charAt_mem (toSextets_lt hx))

/-- The characters of the text of a string stand for the string. -/
theorem decoded_encode (bytes : List UInt8) : decoded (alphabetPrefix (base64_encode bytes)) = bytes := by
  have hid : ((toSextets bytes).map charAt).map findChar = toSextets bytes := by
    rw [List.map_map]
    exact (List.map_congr_left fun x hx => findChar_charAt (toSextets_lt hx)).trans (List.map_id _)
  rw [alphabetPrefix_encode, decoded, hid, ofSextets_toSextets]

theorem comesBack_iff {bytes : List UInt8} (hlen : bytes.length < 2 ^ 31) :
    RoundTrips bytes ↔ bytes.length ≤ 3 * (2 ^ 29 - 1) := by
  have hdecodes : RoundTrips bytes ↔ DecodesPrefix (base64_encode bytes) := by
    constructor
    · intro h
      refine ⟨bytes, h, (decoded_encode bytes).symm, ?_⟩
      rw [length_base64_encode]
      omega
    · rintro ⟨ret, hret, rfl, -⟩
      rw [RoundTrips, hret, decoded_encode]
  rw [hdecodes, decodesPrefix_iff, Counts, alphabetPrefix_encode, List.length_map, length_toSextets, length_base64_encode]
  have hlow : 4 * ((bytes.length + 2) / 3) % 2 ^ 32 = 4 * ((bytes.length + 2) / 3) := by omega
  have hchars : (4 * bytes.length + 2) / 3 ≤ 4 * ((bytes.length + 2) / 3) := by omega
  have hfill : 4 * ((bytes.length + 2) / 3) ≤ (4 * bytes.length + 2) / 3 + 2 := by omega
  rw [hlow]
  omega

end Zcp.Common
