import Mathlib.Tactic.Common
import Zcp.Common.StringUtil
import Zcp.Lib.BoundedQuantifiers

/-!
# The escapes of an url

The encoder asks whether a `char` is at most 127, which every `char` is: bytes from 0x80 on are copied, and so is the
escape character itself.
-/

namespace Zcp.Common.StringUtil

theorem char_le (c : UInt8) : char c ≤ 127 := by
  exact Int.le_of_lt_add_one c.toInt8.toInt_lt

/-- The test for high bytes never holds. -/
theorem urlEncodeChar_eq (c : UInt8) : urlEncodeChar c = if c ∈ reserved then escaped c else [c] := by
  rw [urlEncodeChar, if_pos (char_le c)]

theorem urlEncode_cons (c : UInt8) (s : List UInt8) : urlEncode (c :: s) = urlEncodeChar c ++ urlEncode s := by
  rw [urlEncode, List.flatMap_cons, ← urlEncode]

theorem urlEncode_plain {c : UInt8} (hc : c ∉ reserved) (s : List UInt8) : urlEncode (c :: s) = c :: urlEncode s := by
  rw [urlEncode_cons, urlEncodeChar_eq, if_neg hc]
  rfl

/-- The digits of an escape are hexadecimal, are not the escape character, and read back as the character. -/
theorem escaped_spec {c : UInt8} (hc : c ∈ reserved) :
    ∃ h l, escaped c = [37, h, l] ∧ x2b h <<< 4 ||| x2b l = c ∧ h ≠ 37 ∧ l ≠ 37 ∧
      h < 128 ∧ l < 128 ∧ c < 128 ∧ c ≠ 37 ∧ x2b 37 <<< 4 ||| x2b h ≠ 37 := by
  have hall : ∀ c ∈ reserved, ∃ h ∈ (escaped c)[1]?, ∃ l ∈ (escaped c)[2]?, escaped c = [37, h, l] ∧
      x2b h <<< 4 ||| x2b l = c ∧ h ≠ 37 ∧ l ≠ 37 ∧ h < 128 ∧ l < 128 ∧ c < 128 ∧ c ≠ 37 ∧
      x2b 37 <<< 4 ||| x2b h ≠ 37 := by decide +kernel
  obtain ⟨h, -, l, -, hspec⟩ := hall c hc
  exact ⟨h, l, hspec⟩

/-- The decoder copies a character other than the escape character. -/
theorem urlDecode_plain {c : UInt8} (hc : c ≠ 37) (s : List UInt8) : urlDecode (c :: s) = c :: urlDecode s := by
  match s with
  | [] => rfl
  | [_] => rfl
  | _ :: _ :: _ => rw [urlDecode, if_neg hc]

/-- With two characters behind it, whatever they are, the escape character stands for one byte. -/
theorem urlDecode_escape (h l : UInt8) (s : List UInt8) :
    urlDecode (37 :: h :: l :: s) = (x2b h <<< 4 ||| x2b l) :: urlDecode s := by
  rw [urlDecode, if_pos rfl]

theorem urlDecode_reserved {c : UInt8} (hc : c ∈ reserved) (s : List UInt8) :
    urlDecode (urlEncode (c :: s)) = c :: urlDecode (urlEncode s) := by
  obtain ⟨h, l, hesc, hval, -⟩ := escaped_spec hc
  rw [urlEncode_cons, urlEncodeChar_eq, if_pos hc, hesc]
  exact (urlDecode_escape h l _).trans (congrArg (· :: _) hval)

theorem urlDecode_copied {c : UInt8} (hc : c ∉ reserved) (hp : c ≠ 37) (s : List UInt8) :
    urlDecode (urlEncode (c :: s)) = c :: urlDecode (urlEncode s) := by
  rw [urlEncode_plain hc, urlDecode_plain hp]

theorem percent_notMem_reserved : (37 : UInt8) ∉ reserved := by decide

/-- A byte whose second digit is read from an escape character is not the escape character: its bit 1 is set. -/
theorem or_x2b_percent_ne (a : UInt8) : a ||| x2b 37 ≠ 37 := by
  intro h
  have hx : x2b 37 = 238 := by decide
  have hbit : (a.toNat ||| 238).testBit 1 = (37 : ℕ).testBit 1 := by
    rw [hx] at h
    exact congrArg (fun b : UInt8 => b.toNat.testBit 1) h
  rw [Nat.testBit_or] at hbit
  simp [Nat.testBit] at hbit

/-! An escape character of the input that two encoded characters follow: the decoder goes on behind them, in the middle
of an escape where they belong to one. -/

theorem urlDecode_percent_reserved {c : UInt8} (hc : c ∈ reserved) (s : List UInt8) :
    ∃ x l, x ≠ 37 ∧ urlDecode (urlEncode (37 :: c :: s)) = x :: l :: urlDecode (urlEncode s) := by
  obtain ⟨h, l, hesc, -, -, hl, -, -, -, -, hx⟩ := escaped_spec hc
  refine ⟨_, l, hx, ?_⟩
  rw [urlEncode_plain percent_notMem_reserved, urlEncode_cons, urlEncodeChar_eq, if_pos hc, hesc]
  exact (urlDecode_escape 37 h _).trans (congrArg _ (urlDecode_plain hl _))

theorem urlDecode_percent_copied_reserved {c d : UInt8} (hc : c ∉ reserved) (hd : d ∈ reserved) (s : List UInt8) :
    ∃ x h l, x ≠ 37 ∧ urlDecode (urlEncode (37 :: c :: d :: s)) = x :: h :: l :: urlDecode (urlEncode s) := by
  obtain ⟨h, l, hesc, -, hh, hl, -⟩ := escaped_spec hd
  refine ⟨_, h, l, or_x2b_percent_ne (x2b c <<< 4), ?_⟩
  rw [urlEncode_plain percent_notMem_reserved, urlEncode_plain hc, urlEncode_cons, urlEncodeChar_eq, if_pos hd, hesc]
  refine (urlDecode_escape c 37 _).trans (congrArg _ ?_)
  exact (urlDecode_plain hh _).trans (congrArg _ (urlDecode_plain hl _))

theorem urlDecode_percent_copied {c d : UInt8} (hc : c ∉ reserved) (hd : d ∉ reserved) (s : List UInt8) :
    ∃ x, urlDecode (urlEncode (37 :: c :: d :: s)) = x :: urlDecode (urlEncode s) := by
  rw [urlEncode_plain percent_notMem_reserved, urlEncode_plain hc, urlEncode_plain hd]
  exact ⟨_, urlDecode_escape c d _⟩

/-- Coding never makes a string longer. -/
theorem length_urlDecode_urlEncode : ∀ s : List UInt8, (urlDecode (urlEncode s)).length ≤ s.length
  | [] => Nat.le_refl _
  | c :: s => by
    by_cases hc : c ∈ reserved
    · rw [urlDecode_reserved hc]
      exact Nat.succ_le_succ (length_urlDecode_urlEncode s)
    by_cases hp : c ≠ 37
    · rw [urlDecode_copied hc hp]
      exact Nat.succ_le_succ (length_urlDecode_urlEncode s)
    obtain rfl := not_not.mp hp
    match s with
    | [] => exact Nat.le_refl _
    | d :: s =>
      have ih := length_urlDecode_urlEncode s
      by_cases hd : d ∈ reserved
      · obtain ⟨x, l, -, heq⟩ := urlDecode_percent_reserved hd s
        rw [heq]
        exact Nat.succ_le_succ (Nat.succ_le_succ ih)
      match s with
      | [] =>
        rw [urlEncode_plain percent_notMem_reserved, urlEncode_plain hd]
        exact Nat.le_refl _
      | e :: s =>
        have ih := length_urlDecode_urlEncode s
        by_cases he : e ∈ reserved
        · obtain ⟨x, h, l, -, heq⟩ := urlDecode_percent_copied_reserved hd he s
          rw [heq]
          simpa using ih
        · obtain ⟨x, heq⟩ := urlDecode_percent_copied hd he s
          rw [heq]
          simp only [List.length_cons]
          omega

/-- An escape character is followed by nothing, or by one last character that is not escaped. -/
def ShortTail (rest : List UInt8) : Prop := ∀ d t, rest = d :: t → d ∉ reserved ∧ t = []

/-- The bytes of the string are 7-bit characters, and an escape character stands only at its end. -/
structure SevenBitPercentLast (s : List UInt8) : Prop where
  sevenBit : ∀ c ∈ s, c < 128
  percentLast : ∀ front rest, s = front ++ 37 :: rest → ShortTail rest

/-- A string that starts with the escape character comes back only if at most one copied character follows. -/
theorem urlDecode_percent_eq_iff (s : List UInt8) : urlDecode (urlEncode (37 :: s)) = 37 :: s ↔ ShortTail s := by
  constructor
  · intro h d t hs
    subst hs
    by_cases hd : d ∈ reserved
    · obtain ⟨x, l, hx, heq⟩ := urlDecode_percent_reserved hd t
      rw [heq] at h
      exact absurd (List.cons.inj h).1 hx
    refine ⟨hd, ?_⟩
    match t with
    | [] => rfl
    | e :: t =>
      by_cases he : e ∈ reserved
      · obtain ⟨x, k, l, hx, heq⟩ := urlDecode_percent_copied_reserved hd he t
        rw [heq] at h
        exact absurd (List.cons.inj h).1 hx
      · -- Three characters are left as one, and the rest does not grow.
        obtain ⟨x, heq⟩ := urlDecode_percent_copied hd he t
        have hlen := congrArg List.length (heq.symm.trans h)
        have hle := length_urlDecode_urlEncode t
        simp only [List.length_cons] at hlen
        omega
  · intro h
    match s with
    | [] => rfl
    | d :: t =>
      obtain ⟨hd, rfl⟩ := h d t rfl
      rw [urlEncode_plain percent_notMem_reserved, urlEncode_plain hd]
      rfl

/-- The round trip, by going through the string: every character that is not the escape character comes back. -/
theorem urlDecode_urlEncode_eq_iff : ∀ s : List UInt8,
    urlDecode (urlEncode s) = s ↔ ∀ front rest, s = front ++ 37 :: rest → ShortTail rest
  | [] => by
    refine iff_of_true rfl ?_
    intro front rest h
    simp at h
  | c :: s => by
    have ih := urlDecode_urlEncode_eq_iff s
    by_cases hp : c = 37
    · subst hp
      rw [urlDecode_percent_eq_iff]
      constructor
      · intro h front rest hs
        cases front with
        | nil =>
          obtain rfl := (List.cons.inj hs).2
          exact h
        | cons a front =>
          -- The one character behind the escape character may be another one.
          obtain ⟨-, hs⟩ := List.cons.inj hs
          intro d t hrest
          subst hrest
          cases front with
          | nil => exact absurd (h 37 (d :: t) hs).2 (List.cons_ne_nil _ _)
          | cons b front =>
            have := (h b (front ++ 37 :: d :: t) hs).2
            simp at this
      · intro h
        exact h [] s rfl
    · have hstep : urlDecode (urlEncode (c :: s)) = c :: urlDecode (urlEncode s) := by
        by_cases hc : c ∈ reserved
        · exact urlDecode_reserved hc s
        · exact urlDecode_copied hc hp s
      rw [hstep, List.cons_inj_right, ih]
      constructor
      · intro h front rest hs
        cases front with
        | nil => exact absurd (List.cons.inj hs).1 hp
        | cons a front => exact h front rest (List.cons.inj hs).2
      · intro h front rest hs
        exact h (c :: front) rest (congrArg _ hs)

/-- The encoded form has only 7-bit characters when the string has: bytes from 0x80 on are copied. -/
theorem urlEncode_sevenBit_iff (s : List UInt8) : (∀ b ∈ urlEncode s, b < 128) ↔ ∀ c ∈ s, c < 128 := by
  have hchar (c : UInt8) : (∀ b ∈ urlEncodeChar c, b < 128) ↔ c < 128 := by
    rw [urlEncodeChar_eq]
    by_cases hc : c ∈ reserved
    · obtain ⟨h, l, hesc, -, -, -, hh, hl, hlt, -⟩ := escaped_spec hc
      rw [if_pos hc, hesc]
      simp [hh, hl, hlt]
    · rw [if_neg hc]
      simp
  simp only [urlEncode, List.mem_flatMap]
  constructor
  · intro h c hc
    exact (hchar c).mp (fun b hb => h b ⟨c, hc, hb⟩)
  · intro h b hb
    obtain ⟨c, hc, hb⟩ := hb
    exact (hchar c).mpr (h c hc) b hb

/-- The two functions undo each other on a string, and its encoded form is 7-bit. -/
def UrlCoded (s : List UInt8) : Prop := urlDecode (urlEncode s) = s ∧ ∀ b ∈ urlEncode s, b < 128

/-- Exactly the 7-bit strings without an escape character, other than at the end, are coded as an url. -/
theorem urlCoded_iff (s : List UInt8) : UrlCoded s ↔ SevenBitPercentLast s := by
  rw [UrlCoded, urlDecode_urlEncode_eq_iff, urlEncode_sevenBit_iff]
  constructor
  · intro h
    exact ⟨h.2, h.1⟩
  · intro h
    exact ⟨h.percentLast, h.sevenBit⟩

/-- `%41` is copied and comes back as `A`. -/
theorem urlCoded_percent41 : ¬ ∀ s : List UInt8, UrlCoded s := by
  intro h
  have := (h [37, 52, 49]).1
  revert this
  decide

end Zcp.Common.StringUtil
