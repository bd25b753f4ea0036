import Mathlib.Data.List.Infix
import Mathlib.Data.UInt

/-!
# Searching bytes

`memsubstr` of `common/stringutil.cpp` and `memcmp` of the C library, with the bytes that they look at: they are `none`
where one of these is outside of its buffer. `memsubstr_spec`: with a needle that is not empty `memsubstr` stays inside
and finds what there is. Of an empty needle it reads a byte all the same, and the difference of two sizes may be 0 as an
`int` (`memsubstr_finds_iff`).
-/

namespace Zcp.Common.StringUtil

/-- `memcmp`, as far as whether it is 0. -/
def memcmp (s1 s2 : List UInt8) (n : ℕ) : Option Bool :=
  if n ≤ s1.length ∧ n ≤ s2.length then some (s1.take n == s2.take n) else none

/-- The loop of `memsubstr`, with `pos` at `start + match'`: `match'` bytes of the needle have been found at `start`. -/
def memsubstrLoop (haystack : List UInt8) (haystackSize : ℕ) (needle : List UInt8) (needleSize start match' : ℕ) :
    Option (BitVec 32) :=
  if start + match' < haystackSize then
    match haystack[start + match']?, needle[match']? with
    | some databuf, some searchbuf =>
      if databuf = searchbuf then
        if match' + 1 = needleSize then some 0
        else memsubstrLoop haystack haystackSize needle needleSize start (match' + 1)
      -- back to the start, and one on
      else memsubstrLoop haystack haystackSize needle needleSize (start + 1) 0
    | _, _ => none
  else some 1
termination_by (haystackSize - start, haystackSize - (start + match'))

/-- `memsubstr`. The difference of the sizes becomes an `int`. -/
def memsubstr (haystack : List UInt8) (haystackSize : ℕ) (needle : List UInt8) (needleSize : ℕ) : Option (BitVec 32) :=
  if haystackSize < needleSize then some ((BitVec.ofNat 64 haystackSize - BitVec.ofNat 64 needleSize).setWidth 32)
  else memsubstrLoop haystack haystackSize needle needleSize 0 0

section Search

variable {haystack needle : List UInt8}

/-- The needle is in the haystack from a place on. -/
def OccursAt (haystack needle : List UInt8) (k : ℕ) : Prop := ∀ i < needle.length, haystack[k + i]? = needle[i]?

theorem occursAt_iff_isPrefix (k : ℕ) : OccursAt haystack needle k ↔ needle <+: haystack.drop k := by
  rw [List.prefix_iff_getElem?]
  refine forall₂_congr fun i hi => ?_
  rw [List.getElem?_drop, List.getElem?_eq_getElem hi]

theorem infix_iff_occursAt : needle <:+: haystack ↔ ∃ k, OccursAt haystack needle k := by
  rw [List.infix_iff_prefix_suffix]
  constructor
  · rintro ⟨rest, hprefix, hsuffix⟩
    refine ⟨haystack.length - rest.length, (occursAt_iff_isPrefix _).mpr ?_⟩
    rwa [← List.suffix_iff_eq_drop.mp hsuffix]
  · rintro ⟨k, hk⟩
    exact ⟨_, (occursAt_iff_isPrefix k).mp hk, List.drop_suffix k haystack⟩

/-- A place where the needle is leaves room for it. -/
theorem OccursAt.add_le {k : ℕ} (h : OccursAt haystack needle k) (hne : needle ≠ []) :
    k + needle.length ≤ haystack.length := by
  have hpos := List.length_pos_of_ne_nil hne
  have hlast := h (needle.length - 1) (by omega)
  rw [List.getElem?_eq_getElem (l := needle) (by omega)] at hlast
  have hlt := (List.getElem?_eq_some_iff.mp hlast).1
  omega

/-- From where it is the loop finds the next place, and looks inside of the buffers. -/
theorem memsubstrLoop_spec (haystack : List UInt8) (start : ℕ) {match' : ℕ} (hmatch : match' < needle.length)
    (hfound : ∀ i < match', haystack[start + i]? = needle[i]?) :
    ∃ r, memsubstrLoop haystack haystack.length needle needle.length start match' = some r ∧
      (r = 0 ↔ ∃ k ≥ start, OccursAt haystack needle k) := by
  have hne : needle ≠ [] := List.ne_nil_of_length_pos (Nat.zero_lt_of_lt hmatch)
  fun_induction memsubstrLoop haystack haystack.length needle needle.length start match' with
  | case1 start match' hlt databuf hsearch hend hdata =>
    -- the last byte of the needle
    refine ⟨0, rfl, iff_of_true rfl ⟨start, le_rfl, fun i hi => ?_⟩⟩
    rcases Nat.lt_or_ge i match' with hi' | hi'
    · exact hfound i hi'
    · obtain rfl : i = match' := by omega
      rw [hdata, hsearch]
  | case2 start match' hlt databuf hsearch hend hdata ih =>
    refine ih (by omega) fun i hi => ?_
    rcases Nat.lt_or_ge i match' with hi' | hi'
    · exact hfound i hi'
    · obtain rfl : i = match' := by omega
      rw [hdata, hsearch]
  | case3 start match' hlt databuf searchbuf hdata hsearch hdiffers ih =>
    obtain ⟨r, hr, hiff⟩ := ih (List.length_pos_of_ne_nil hne) fun i hi => absurd hi (Nat.not_lt_zero i)
    refine ⟨r, hr, hiff.trans ⟨fun ⟨k, hk, hoccurs⟩ => ⟨k, by omega, hoccurs⟩, fun ⟨k, hk, hoccurs⟩ => ?_⟩⟩
    -- the needle is not at the start
    rcases Nat.lt_or_ge start k with hlt' | hle
    · exact ⟨k, hlt', hoccurs⟩
    · obtain rfl : k = start := by omega
      have hbyte := hoccurs match' hmatch
      rw [hdata, hsearch] at hbyte
      exact absurd (Option.some_inj.mp hbyte) hdiffers
  | case4 start match' hlt hnone =>
    exact absurd (List.getElem?_eq_getElem hmatch) fun h => hnone _ _ (List.getElem?_eq_getElem hlt) h
  | case5 start match' hlt =>
    refine ⟨1, rfl, iff_of_false (by decide) ?_⟩
    rintro ⟨k, hk, hoccurs⟩
    have hroom := hoccurs.add_le hne
    omega

/-- `memsubstr` returns 0 exactly if the needle is in the haystack, for sizes that fit an `unsigned int`. -/
theorem memsubstr_spec (haystack : List UInt8) (hne : needle ≠ []) (hneedle : needle.length < 2 ^ 32) :
    ∃ r, memsubstr haystack haystack.length needle needle.length = some r ∧ (r = 0 ↔ needle <:+: haystack) := by
  unfold memsubstr
  split_ifs with hshort
  · refine ⟨_, rfl, iff_of_false (fun hzero => ?_) fun hinfix => absurd hinfix.length_le (by omega)⟩
    have hnat : _ = 0 := congrArg BitVec.toNat hzero
    simp only [BitVec.toNat_setWidth, BitVec.toNat_sub, BitVec.toNat_ofNat, Nat.reducePow] at hnat
    omega
  · obtain ⟨r, hr, hiff⟩ := memsubstrLoop_spec haystack 0 (List.length_pos_of_ne_nil hne)
      fun i hi => absurd hi (Nat.not_lt_zero i)
    refine ⟨r, hr, hiff.trans ?_⟩
    rw [infix_iff_occursAt]
    exact exists_congr fun k => and_iff_right (Nat.zero_le k)

/-- The difference of the sizes is 0 as an `int` if it is a multiple of 2 ^ 32. -/
theorem sizeDifference_eq_zero {haystackSize needleSize : ℕ} (hshort : haystackSize < needleSize) :
    (BitVec.ofNat 64 haystackSize - BitVec.ofNat 64 needleSize).setWidth 32 = 0 ↔
      2 ^ 32 ∣ needleSize - haystackSize := by
  obtain ⟨d, rfl⟩ := Nat.exists_eq_add_of_le hshort.le
  have hzero : (0 : BitVec 32).toNat = 0 := rfl
  rw [BitVec.toNat_eq, hzero, Nat.add_sub_cancel_left]
  simp only [BitVec.toNat_setWidth, BitVec.toNat_sub, BitVec.toNat_ofNat, Nat.reducePow]
  omega

/-- What a search is for: it looks inside of the buffers only, and returns 0 if and only if the needle is in the
haystack. -/
def Finds (haystack needle : List UInt8) : Prop :=
  ∃ r, memsubstr haystack haystack.length needle needle.length = some r ∧ (r = 0 ↔ needle <:+: haystack)

/-- An empty needle is in every haystack, but its first byte is looked at, or there is nothing to look at. -/
theorem not_finds_nil (haystack : List UInt8) : ¬ Finds haystack [] := by
  rintro ⟨r, hr, hiff⟩
  have hzero : r = 0 := hiff.mpr List.nil_infix
  unfold memsubstr at hr
  rw [List.length_nil, if_neg (Nat.not_lt_zero _), memsubstrLoop] at hr
  subst hzero
  cases haystack with
  | nil => exact absurd (Option.some_inj.mp hr) (by decide)
  | cons c rest => simp at hr

/-- `memsubstr` finds what there is if and only if the needle is not empty, and a needle that is too long is not so by a
multiple of 2 ^ 32 bytes. -/
theorem memsubstr_finds_iff (haystack needle : List UInt8) : Finds haystack needle ↔
      needle ≠ [] ∧ (haystack.length < needle.length → ¬ 2 ^ 32 ∣ needle.length - haystack.length) := by
  by_cases hne : needle = []
  · subst hne
    exact iff_of_false (not_finds_nil haystack) fun h => h.1 rfl
  rw [and_iff_right hne]
  unfold Finds memsubstr
  by_cases hshort : haystack.length < needle.length
  · rw [if_pos hshort]
    have habsent : ¬ needle <:+: haystack := fun hinfix => absurd hinfix.length_le (by omega)
    rw [forall_prop_of_true hshort, ← sizeDifference_eq_zero hshort]
    constructor
    · rintro ⟨r, hr, hiff⟩ hzero
      exact habsent (hiff.mp (Option.some_inj.mp hr ▸ hzero))
    · exact fun hdiffer => ⟨_, rfl, iff_of_false hdiffer habsent⟩
  · rw [if_neg hshort]
    obtain ⟨r, hr, hiff⟩ := memsubstrLoop_spec haystack 0 (List.length_pos_of_ne_nil hne)
      fun i hi => absurd hi (Nat.not_lt_zero i)
    refine iff_of_true ⟨r, hr, hiff.trans ?_⟩ fun h => absurd h hshort
    rw [infix_iff_occursAt]
    exact exists_congr fun k => and_iff_right (Nat.zero_le k)

/-- The needle of no bytes is looked for in one byte. -/
theorem not_finds_emptyNeedle : ¬ Finds [97] [] := by
  rintro ⟨r, hr, -⟩
  unfold memsubstr at hr
  rw [if_neg (by decide), memsubstrLoop] at hr
  simp at hr

end Search

end Zcp.Common.StringUtil
