import Zcp.Lib.Sextets

/-!
# UTF-7

UTF-7 writes text in 7-bit characters. Some characters stand for themselves; the others are in shifted sequences, that
start with a plus sign and have the base64 of their UTF-16, without padding. `decode` reads all that is well formed,
whatever a writer has shifted, and nothing else. `encode` is a writer that shifts all but tabulators and line ends, and
closes each sequence with a minus sign. Reading what it has written gives the text (`decode_shift`).

Characters are their code points.
-/

namespace Zcp.Lib.Utf7

/-! ## The alphabet -/

/-- The character of a number below 64. -/
def sextetChar (x : UInt8) : UInt8 :=
  if x < 26 then x + 65 else if x < 52 then x + 71 else if x < 62 then x - 4 else if x = 62 then 43 else 47

/-- The number of a character, for the characters of base64. -/
def charSextet (b : UInt8) : Option UInt8 :=
  if 65 ≤ b ∧ b ≤ 90 then some (b - 65)
  else if 97 ≤ b ∧ b ≤ 122 then some (b - 71)
  else if 48 ≤ b ∧ b ≤ 57 then some (b + 4)
  else if b = 43 then some 62
  else if b = 47 then some 63
  else none

theorem charSextet_sextetChar : ∀ x : UInt8, x < 64 → charSextet (sextetChar x) = some x := by
  decide +kernel

theorem sextetChar_lt : ∀ x : UInt8, sextetChar x < 128 ∨ 64 ≤ x := by
  decide +kernel

/-! ## UTF-16 -/

/-- The characters of the basic plane. -/
def IsBmp (c : UInt32) : Prop := c < 0xD800 ∨ 0xE000 ≤ c ∧ c < 0x10000

instance (c : UInt32) : Decidable (IsBmp c) := inferInstanceAs (Decidable (_ ∨ _))

/-- The UTF-16 of text in the basic plane. -/
def utf16 : List UInt32 → List UInt8
  | [] => []
  | c :: rest => (c / 256).toUInt8 :: c.toUInt8 :: utf16 rest

/-- A unit of two octets. -/
def unit (a b : UInt8) : UInt32 := a.toUInt32 * 256 + b.toUInt32

/-- The text of some UTF-16, nothing where surrogates do not form pairs. -/
def ofUtf16 : List UInt8 → Option (List UInt32)
  | [] => some []
  | [_] => none
  | a :: b :: rest =>
    if IsBmp (unit a b) then (ofUtf16 rest).map (unit a b :: ·)
    else match rest with
      | a' :: b' :: rest' =>
        if unit a b < 0xDC00 ∧ 0xDC00 ≤ unit a' b' ∧ unit a' b' < 0xE000 then
          (ofUtf16 rest').map fun s => (0x10000 + (unit a b - 0xD800) * 0x400 + (unit a' b' - 0xDC00)) :: s
        else none
      | _ => none

theorem unit_toUInt8 {c : UInt32} (hc : IsBmp c) : unit (c / 256).toUInt8 c.toUInt8 = c := by
  have hlt : c.toNat < 65536 := by
    rcases hc with hc | ⟨-, hc⟩ <;> have := UInt32.lt_iff_toNat_lt.mp hc <;> simp at this <;> omega
  apply UInt32.toNat.inj
  simp only [unit, UInt32.toNat_add, UInt32.toNat_mul, UInt8.toNat_toUInt32, UInt32.toNat_toUInt8, UInt32.toNat_div,
    UInt32.reduceToNat, Nat.reducePow]
  omega

variable {b : UInt8}

theorem ofUtf16_cons {a : UInt8} (hbmp : IsBmp (unit a b)) (rest : List UInt8) :
    ofUtf16 (a :: b :: rest) = (ofUtf16 rest).map (unit a b :: ·) := by
  conv_lhs => unfold ofUtf16
  rw [if_pos hbmp]

/-- A unit whose first octet is at least 0xF8 is a character. -/
theorem unit_of_le {a : UInt8} (ha : 0xF8 ≤ a) (b : UInt8) : 0xF800 ≤ unit a b ∧ IsBmp (unit a b) := by
  have ha' := UInt8.le_iff_toNat_le.mp ha
  have hvalue : (unit a b).toNat = a.toNat * 256 + b.toNat := by
    have ha := a.toNat_lt
    have hb := b.toNat_lt
    simp only [unit, UInt32.toNat_add, UInt32.toNat_mul, UInt8.toNat_toUInt32, UInt32.reduceToNat, Nat.reducePow]
    omega
  have ha'' := a.toNat_lt
  have hb := b.toNat_lt
  simp only [UInt8.reduceToNat, Nat.reducePow] at ha' ha'' hb
  refine ⟨UInt32.le_iff_toNat_le.mpr ?_, Or.inr ⟨UInt32.le_iff_toNat_le.mpr ?_, UInt32.lt_iff_toNat_lt.mpr ?_⟩⟩ <;>
    rw [hvalue] <;> simp only [UInt32.reduceToNat] <;> omega

variable {s : List UInt32}

theorem ofUtf16_utf16 (hs : ∀ c ∈ s, IsBmp c) : ofUtf16 (utf16 s) = some s := by
  induction s with
  | nil => rfl
  | cons c rest ih =>
    obtain ⟨hc, hrest⟩ := List.forall_mem_cons.mp hs
    have hunit : IsBmp (unit (c / 256).toUInt8 c.toUInt8) := (unit_toUInt8 hc).symm ▸ hc
    rw [utf16, ofUtf16_cons hunit, ih hrest, unit_toUInt8 hc]
    rfl

theorem length_utf16 (s : List UInt32) : (utf16 s).length = 2 * s.length := by
  induction s with
  | nil => rfl
  | cons c rest ih =>
    rw [utf16, List.length_cons, List.length_cons, ih, List.length_cons]
    omega

/-- Reading octets gives no more characters than half of their number. -/
theorem length_ofUtf16 {octets : List UInt8} (h : ofUtf16 octets = some s) : 2 * s.length ≤ octets.length := by
  fun_induction ofUtf16 octets generalizing s with
  | case1 => cases h; simp
  | case2 => cases h
  | case3 a b rest hbmp ih =>
    obtain ⟨s', hs', rfl⟩ := Option.map_eq_some_iff.mp h
    have := ih hs'
    simp only [List.length_cons]
    omega
  | case4 a b hbmp a' b' rest' hpair ih =>
    obtain ⟨s', hs', rfl⟩ := Option.map_eq_some_iff.mp h
    have := ih hs'
    simp only [List.length_cons]
    omega
  | case5 => cases h
  | case6 => cases h

/-! ## Shifted sequences -/

/-- The base64 of some text, without padding. -/
def base64 (s : List UInt32) : List UInt8 := (toSextets (utf16 s)).map sextetChar

/-- The text of a shifted sequence. The bits behind its last unit have to be zero. -/
def units (w : List UInt8) : Option (List UInt32) :=
  let octets := (ofSextets w).take (2 * (6 * w.length / 16))
  let sextets := toSextets octets
  if w = sextets ++ List.replicate (w.length - sextets.length) 0 then ofUtf16 octets else none

/-- Text of the basic plane is read back from its values of six bits. -/
theorem units_toSextets (hs : ∀ c ∈ s, IsBmp c) : units (toSextets (utf16 s)) = some s := by
  have hlength : (toSextets (utf16 s)).length = (4 * (2 * s.length) + 2) / 3 := by
    rw [length_toSextets, length_utf16]
  have hcount : 2 * (6 * (toSextets (utf16 s)).length / 16) = (utf16 s).length := by
    rw [hlength, length_utf16]
    omega
  unfold units
  dsimp only
  rw [ofSextets_toSextets, hcount, List.take_length, Nat.sub_self, List.replicate_zero, List.append_nil, if_pos rfl]
  exact ofUtf16_utf16 hs

theorem length_units {w : List UInt8} (h : units w = some s) : s.length ≤ w.length := by
  unfold units at h
  dsimp only at h
  split_ifs at h
  have hlength := length_ofUtf16 h
  rw [List.length_take] at hlength
  omega

/-- The first unit of a sequence that begins with a plus sign. -/
theorem units_plus {x y : UInt8} {w : List UInt8} (h : units (62 :: x :: y :: w) = some s) :
    ∃ c rest, s = c :: rest ∧ 0xF800 ≤ c := by
  unfold units at h
  dsimp only at h
  split_ifs at h
  have hfirst : ∀ x : UInt8, 0xF8 ≤ 62 * 4 + x / 16 % 4 := by decide +kernel
  have hcount : ∃ n, 2 * (6 * (62 :: x :: y :: w).length / 16) = n + 2 :=
    ⟨2 * (6 * (w.length + 3) / 16) - 2, by simp only [List.length_cons]; omega⟩
  obtain ⟨n, hn⟩ := hcount
  obtain ⟨b, octets, hoctets⟩ : ∃ b octets, ofSextets (62 :: x :: y :: w) = (62 * 4 + x / 16 % 4) :: b :: octets := by
    cases w <;> exact ⟨_, _, rfl⟩
  obtain ⟨hle, hbmp⟩ := unit_of_le (hfirst x) b
  rw [hn, hoctets, List.take_succ_cons, List.take_succ_cons, ofUtf16_cons hbmp] at h
  obtain ⟨rest, -, rfl⟩ := Option.map_eq_some_iff.mp h
  exact ⟨_, rest, rfl, hle⟩

theorem toSextets_utf16 (hs : s ≠ []) : ∃ x y w, toSextets (utf16 s) = x :: y :: w := by
  cases s with
  | nil => exact absurd rfl hs
  | cons c rest => cases rest <;> exact ⟨_, _, _, rfl⟩

theorem base64_ne_nil (hs : s ≠ []) : base64 s ≠ [] := by
  obtain ⟨x, y, w, hsextets⟩ := toSextets_utf16 hs
  rw [base64, hsextets]
  exact List.cons_ne_nil _ _

/-! ## Reading -/

/-- The characters that stand for themselves. -/
def IsDirect (b : UInt8) : Prop := b = 9 ∨ b = 10 ∨ b = 13 ∨ 32 ≤ b ∧ b ≤ 125 ∧ b ≠ 43 ∧ b ≠ 92

instance (b : UInt8) : Decidable (IsDirect b) := inferInstanceAs (Decidable (_ ∨ _))

/-- Reads from outside of a sequence, or from inside of one with the numbers that it has so far. -/
def decodeFrom : Option (List UInt8) → List UInt8 → Option (List UInt32)
  | none, [] => some []
  | some w, [] => if w = [] then none else units w
  | none, b :: rest =>
    if b = 43 then decodeFrom (some []) rest
    else if IsDirect b then (decodeFrom none rest).map (b.toUInt32 :: ·)
    else none
  | some w, b :: rest =>
    match charSextet b with
    | some x => decodeFrom (some (w ++ [x])) rest
    | none =>
      if w = [] then if b = 45 then (decodeFrom none rest).map (43 :: ·) else none
      else (units w).bind fun s =>
        -- the minus sign that ends a sequence is no text
        if b = 45 then (decodeFrom none rest).map (s ++ ·)
        else if IsDirect b then (decodeFrom none rest).map fun s' => s ++ b.toUInt32 :: s'
        else none

/-- The text of some UTF-7. -/
def decode (text : List UInt8) : Option (List UInt32) := decodeFrom none text

/-- The numbers of some characters of base64. -/
def sextets (t : List UInt8) : List UInt8 := t.filterMap charSextet

section

variable {t : List UInt8} (ht : ∀ b ∈ t, (charSextet b).isSome = true)
include ht

theorem length_sextets : (sextets t).length = t.length := by
  induction t with
  | nil => rfl
  | cons b rest ih =>
    obtain ⟨hb, hrest⟩ := List.forall_mem_cons.mp ht
    obtain ⟨x, hx⟩ := Option.isSome_iff_exists.mp hb
    rw [sextets, List.filterMap_cons_some hx, List.length_cons, List.length_cons, ← ih hrest, sextets]

/-- Within a shift, characters of the alphabet only add their values to those that were read. -/
theorem decodeFrom_append (w rest : List UInt8) :
    decodeFrom (some w) (t ++ rest) = decodeFrom (some (w ++ sextets t)) rest := by
  induction t generalizing w with
  | nil => rw [sextets, List.filterMap_nil, List.append_nil, List.nil_append]
  | cons b t ih =>
    obtain ⟨hb, ht⟩ := List.forall_mem_cons.mp ht
    obtain ⟨x, hx⟩ := Option.isSome_iff_exists.mp hb
    rw [List.cons_append, decodeFrom, hx]
    dsimp only
    rw [ih ht, List.append_assoc, sextets, sextets, List.filterMap_cons_some hx]
    rfl

theorem decode_append (rest : List UInt8) : decode (43 :: (t ++ rest)) = decodeFrom (some (sextets t)) rest := by
  rw [decode, decodeFrom, if_pos rfl, decodeFrom_append ht, List.nil_append]

/-- A sequence up to the end of the text. -/
theorem decode_sequence (hne : t ≠ []) : decode (43 :: t) = units (sextets t) := by
  have hsextets : sextets t ≠ [] := fun hnil => hne (List.length_eq_zero_iff.mp (by rw [← length_sextets ht, hnil]; rfl))
  have happend := decode_append ht []
  rw [List.append_nil] at happend
  rw [happend, decodeFrom, if_neg hsextets]

example : decode [43, 65, 71, 69] = some [0x61] := by decide +kernel

/-- A sequence that a character ends which is text itself. -/
theorem decode_sequence_cons (hne : t ≠ []) (hb : charSextet b = none) (hminus : b ≠ 45)
    {rest : List UInt8} (h : decode (43 :: (t ++ b :: rest)) = some s) :
    ∃ u s', units (sextets t) = some u ∧ s = u ++ b.toUInt32 :: s' := by
  have hsextets : sextets t ≠ [] := fun hnil => hne (List.length_eq_zero_iff.mp (by rw [← length_sextets ht, hnil]; rfl))
  rw [decode_append ht, decodeFrom, hb] at h
  dsimp only at h
  rw [if_neg hsextets] at h
  obtain ⟨u, hu, h⟩ := Option.bind_eq_some_iff.mp h
  rw [if_neg hminus] at h
  split_ifs at h
  obtain ⟨s', -, rfl⟩ := Option.map_eq_some_iff.mp h
  exact ⟨u, s', hu, rfl⟩

end

/-- Nothing is read where a plus sign has neither base64 nor a minus sign behind it. -/
theorem decode_plus_cons (hb : charSextet b = none) (hminus : b ≠ 45) (rest : List UInt8) :
    decode (43 :: b :: rest) = none := by
  rw [decode, decodeFrom, if_pos rfl, decodeFrom, hb]
  dsimp only
  rw [if_pos rfl, if_neg hminus]

theorem isSome_of_mem_base64 (hb : b ∈ base64 s) : (charSextet b).isSome = true := by
  obtain ⟨x, hx, rfl⟩ := List.mem_map.mp hb
  rw [charSextet_sextetChar x (toSextets_lt hx)]
  rfl

theorem sextets_base64 (s : List UInt32) : sextets (base64 s) = toSextets (utf16 s) := by
  rw [sextets, base64, List.filterMap_map]
  refine (List.filterMap_congr fun x hx => ?_).trans List.filterMap_some
  exact charSextet_sextetChar x (toSextets_lt hx)

/-- A shifted sequence without the minus sign is read as its text. -/
theorem decode_shift (hs : ∀ c ∈ s, IsBmp c) (hne : s ≠ []) : decode (43 :: base64 s) = some s := by
  rw [decode_sequence (fun b => isSome_of_mem_base64) (base64_ne_nil hne), sextets_base64, units_toSextets hs]

/-- A sequence with a second plus sign in front begins with a character in the private use area or behind it. -/
theorem decode_plus_base64 {u : List UInt32} (hs : s ≠ []) (h : decode (43 :: 43 :: base64 s) = some u) :
    ∃ c rest, u = c :: rest ∧ 0xF800 ≤ c := by
  obtain ⟨x, y, w, hsextets⟩ := toSextets_utf16 hs
  have hplus : sextets (43 :: base64 s) = 62 :: sextets (base64 s) := List.filterMap_cons_some (by decide)
  have hbase64 : ∀ b ∈ 43 :: base64 s, (charSextet b).isSome = true :=
    List.forall_mem_cons.mpr ⟨by decide, fun b => isSome_of_mem_base64⟩
  rw [decode_sequence hbase64 (List.cons_ne_nil _ _), hplus, sextets_base64, hsextets] at h
  exact units_plus h

/-! ## Writing -/

/-- The control characters that stand for themselves. -/
def IsDirectControl (c : UInt32) : Prop := c = 9 ∨ c = 10 ∨ c = 13

instance (c : UInt32) : Decidable (IsDirectControl c) := inferInstanceAs (Decidable (_ ∨ _))

/-- A shifted sequence, closed by a minus sign. -/
def shift (s : List UInt32) : List UInt8 := if s = [] then [] else 43 :: base64 s ++ [45]

/-- Writes text behind some characters that are to be shifted. -/
def encodeFrom : List UInt32 → List UInt32 → List UInt8
  | shifted, [] => shift shifted
  | shifted, c :: rest =>
    if IsDirectControl c then shift shifted ++ c.toUInt8 :: encodeFrom [] rest
    else encodeFrom (shifted ++ [c]) rest

/-- The UTF-7 of some text without printable ASCII characters. -/
def encode (s : List UInt32) : List UInt8 := encodeFrom [] s

theorem shift_nil : shift [] = [] := if_pos rfl

theorem shift_of_ne_nil (hs : s ≠ []) : shift s = 43 :: base64 s ++ [45] := if_neg hs

/-- What is shifted goes up to the next tabulator or line end. -/
theorem encodeFrom_eq (shifted s : List UInt32) : encodeFrom shifted s =
      shift (shifted ++ s.takeWhile fun c => ¬ IsDirectControl c) ++
        encodeFrom [] (s.dropWhile fun c => ¬ IsDirectControl c) := by
  induction s generalizing shifted with
  | nil => rw [List.takeWhile_nil, List.dropWhile_nil, List.append_nil, encodeFrom, encodeFrom, shift_nil, List.append_nil]
  | cons c rest ih =>
    by_cases hc : IsDirectControl c
    · rw [List.takeWhile_cons_of_neg (by simpa using hc), List.dropWhile_cons_of_neg (by simpa using hc),
        List.append_nil, encodeFrom, if_pos hc, encodeFrom, if_pos hc, shift_nil, List.nil_append]
    · rw [List.takeWhile_cons_of_pos (by simpa using hc), List.dropWhile_cons_of_pos (by simpa using hc), encodeFrom,
        if_neg hc, ih, List.append_assoc, List.singleton_append]

theorem encodeFrom_direct (hs : ∀ c ∈ s, IsDirectControl c) (rest : List UInt32) :
    encodeFrom [] (s ++ rest) = s.map UInt32.toUInt8 ++ encodeFrom [] rest := by
  induction s with
  | nil => rfl
  | cons c s ih =>
    obtain ⟨hc, hs⟩ := List.forall_mem_cons.mp hs
    rw [List.cons_append, encodeFrom, if_pos hc, shift_nil, ih hs]
    rfl

theorem base64_lt (hb : b ∈ base64 s) : b < 128 := by
  obtain ⟨x, hx, rfl⟩ := List.mem_map.mp hb
  exact (sextetChar_lt x).resolve_right (UInt8.not_le.mpr (toSextets_lt hx))

/-- A shift with its signs is ASCII text. -/
theorem shift_lt (hb : b ∈ shift s) : b < 128 := by
  unfold shift at hb
  split_ifs at hb
  · cases hb
  · simp only [List.mem_append, List.mem_cons, List.not_mem_nil, or_false] at hb
    rcases hb with (rfl | hb) | rfl
    · decide
    · exact base64_lt hb
    · decide

/-- Encoded text is ASCII text, whatever is still to be shifted. -/
theorem encodeFrom_lt {shifted : List UInt32} (hb : b ∈ encodeFrom shifted s) : b < 128 := by
  induction s generalizing shifted with
  | nil => exact shift_lt hb
  | cons c rest ih =>
    rw [encodeFrom] at hb
    split_ifs at hb with hc
    · rcases List.mem_append.mp hb with hb | hb
      · exact shift_lt hb
      · rcases List.mem_cons.mp hb with rfl | hb
        · rcases hc with rfl | rfl | rfl <;> decide
        · exact ih hb
    · exact ih hb

end Zcp.Lib.Utf7
