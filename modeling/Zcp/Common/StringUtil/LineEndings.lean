import Mathlib.Tactic.Common
import Mathlib.Tactic.ByContra
import Zcp.Common.StringUtil

/-!
# Line ends

`StringLFtoCRLF` looks at the byte before a line feed and leaves a line feed alone that has none before it;
`BufferLFtoCRLF` looks at the byte behind a carriage return. They agree on mail data that does not begin with a line
feed.
-/

namespace Zcp.Common.StringUtil

/-- Every line feed has a carriage return before it. -/
def CrBeforeLf (s : List UInt8) : Prop := ∀ front rest, s = front ++ 10 :: rest → front.getLast? = some 13

/-- Every carriage return has a line feed behind it. -/
def LfBehindCr (s : List UInt8) : Prop := ∀ front rest, s = front ++ 13 :: rest → rest.head? = some 10

/-- The bytes that are no part of a line end. -/
def text (s : List UInt8) : List UInt8 := s.filter (fun c => c ≠ 13 ∧ c ≠ 10)

def withoutCr (s : List UInt8) : List UInt8 := s.filter (· ≠ 13)

/-- What is asked of a function `f` at one string. -/
structure Normalises (f : List UInt8 → List UInt8) (s : List UInt8) : Prop where
  crBeforeLf : CrBeforeLf (f s)
  idem : f (f s) = f s
  sameText : text (f s) = text s
  length_le : (f s).length ≤ 2 * s.length

/-- `CrBeforeLf` along a loop that remembers the byte before. -/
def CrBeforeLfFrom : Option UInt8 → List UInt8 → Prop
  | _, [] => True
  | last, c :: rest => (c = 10 → last = some 13) ∧ CrBeforeLfFrom (some c) rest

theorem crBeforeLfFrom_split {front rest : List UInt8} {last : Option UInt8}
    (h : CrBeforeLfFrom last (front ++ 10 :: rest)) : front.getLast?.or last = some 13 := by
  induction front generalizing last with
  | nil => exact h.1 rfl
  | cons c front ih =>
    have hrest := ih h.2
    cases hlast : front.getLast? with
    | none =>
      rw [hlast] at hrest
      rw [List.getLast?_eq_none_iff.mp hlast]
      exact hrest
    | some d =>
      rw [hlast] at hrest
      rw [List.getLast?_cons, hlast]
      exact hrest

variable {s : List UInt8}

theorem crBeforeLf_of_from (h : CrBeforeLfFrom none s) : CrBeforeLf s := by
  intro front rest hs
  have hsplit := crBeforeLfFrom_split (hs ▸ h)
  rwa [Option.or_none] at hsplit

theorem LfBehindCr.tail {c : UInt8} (h : LfBehindCr (c :: s)) : LfBehindCr s := by
  intro front rest hs
  exact h (c :: front) rest (congrArg _ hs)

theorem LfBehindCr.head (h : LfBehindCr (13 :: s)) : s.head? = some 10 := h [] s rfl

theorem text_cons (c : UInt8) (s : List UInt8) : text (c :: s) = text [c] ++ text s := by
  rw [text, ← List.singleton_append, List.filter_append]
  rfl

theorem withoutCr_cons (c : UInt8) (s : List UInt8) : withoutCr (c :: s) = withoutCr [c] ++ withoutCr s := by
  rw [withoutCr, ← List.singleton_append, List.filter_append]
  rfl

section String

/-- Behind the first byte no line feed is left without its carriage return. -/
theorem lfToCrlfLoop_crBeforeLf (s : List UInt8) : ∀ p, CrBeforeLfFrom (some p) (lfToCrlfLoop (some p) s) := by
  induction s with
  | nil => exact fun _ => trivial
  | cons c s ih =>
    intro p
    rw [lfToCrlfLoop]
    by_cases hc : c = 10 ∧ some p ≠ none ∧ some p ≠ some 13
    · rw [if_pos hc]
      refine ⟨fun h => absurd h (by decide), fun _ => rfl, ?_⟩
      rw [← hc.1]
      exact ih c
    · rw [if_neg hc]
      refine ⟨fun h => ?_, ih c⟩
      by_contra hp
      exact hc ⟨h, Option.some_ne_none p, hp⟩

example : lfToCrlfLoop (some 97) [10, 10] = [13, 10, 13, 10] := by decide +kernel

/-- A string that has its carriage returns is copied. -/
theorem lfToCrlfLoop_of_crBeforeLf : ∀ {last}, CrBeforeLfFrom last s → lfToCrlfLoop last s = s := by
  induction s with
  | nil => exact fun _ => rfl
  | cons c s ih =>
    intro last h
    rw [lfToCrlfLoop, if_neg (fun hc => hc.2.2 (h.1 hc.1)), ih h.2]
    rfl

theorem text_lfToCrlfLoop (s : List UInt8) : ∀ last, text (lfToCrlfLoop last s) = text s := by
  induction s with
  | nil => exact fun _ => rfl
  | cons c s ih =>
    intro last
    rw [lfToCrlfLoop, text, List.filter_append, ← text, ← text, ih, text_cons c s]
    refine congrArg (· ++ text s) ?_
    by_cases hc : c = 10 ∧ last ≠ none ∧ last ≠ some 13
    · rw [if_pos hc, hc.1]
      rfl
    · rw [if_neg hc]

theorem length_lfToCrlfLoop (s : List UInt8) : ∀ last, (lfToCrlfLoop last s).length ≤ 2 * s.length := by
  induction s with
  | nil => exact fun _ => Nat.le_refl _
  | cons c s ih =>
    intro last
    have hturn : (if c = 10 ∧ last ≠ none ∧ last ≠ some 13 then [13, 10] else [c]).length ≤ 2 := by
      by_cases hc : c = 10 ∧ last ≠ none ∧ last ≠ some 13
      · rw [if_pos hc]
        exact Nat.le_refl _
      · rw [if_neg hc]
        exact Nat.le_succ 1
    have hrest := ih (some c)
    rw [lfToCrlfLoop, List.length_append, List.length_cons]
    omega

theorem stringLFtoCRLF_from (hs : s.head? ≠ some 10) : CrBeforeLfFrom none (StringLFtoCRLF s) := by
  match s with
  | [] => exact trivial
  | c :: s =>
    rw [StringLFtoCRLF, lfToCrlfLoop, if_neg (fun hc => hc.2.1 rfl)]
    refine ⟨fun h => absurd (congrArg some h) hs, lfToCrlfLoop_crBeforeLf s c⟩

theorem stringLFtoCRLF_normalises (hs : s.head? ≠ some 10) : Normalises StringLFtoCRLF s where
  crBeforeLf := crBeforeLf_of_from (stringLFtoCRLF_from hs)
  idem := lfToCrlfLoop_of_crBeforeLf (stringLFtoCRLF_from hs)
  sameText := text_lfToCrlfLoop s none
  length_le := length_lfToCrlfLoop s none

end String

section Buffer

theorem bufferLFtoCRLF_crlf (s : List UInt8) : BufferLFtoCRLF (13 :: 10 :: s) = 13 :: 10 :: BufferLFtoCRLF s := by
  rw [BufferLFtoCRLF, if_pos rfl]
  exact if_pos rfl

theorem bufferLFtoCRLF_text {c : UInt8} (hcr : c ≠ 13) (hlf : c ≠ 10) (s : List UInt8) :
    BufferLFtoCRLF (c :: s) = c :: BufferLFtoCRLF s := by
  rw [BufferLFtoCRLF.eq_def]
  exact (if_neg hcr).trans (if_neg hlf)

theorem bufferLFtoCRLF_from (s : List UInt8) : ∀ last, CrBeforeLfFrom last (BufferLFtoCRLF s) := by
  have hcrlf {out : List UInt8} (h : ∀ last, CrBeforeLfFrom last out) (last : Option UInt8) :
      CrBeforeLfFrom last (13 :: 10 :: out) := ⟨fun h => absurd h (by decide), fun _ => rfl, h _⟩
  fun_induction BufferLFtoCRLF s with
  | case1 => exact fun _ => trivial
  | case2 => exact hcrlf (fun _ => trivial)
  | case3 _ ih => exact hcrlf ih
  | case4 _ _ _ ih => exact hcrlf ih
  | case5 _ _ ih => exact hcrlf ih
  | case6 c s hcr hlf ih => exact fun last => ⟨fun h => absurd h hlf, ih _⟩

example : BufferLFtoCRLF [13, 98, 10] = [13, 10, 98, 13, 10] := by decide +kernel

theorem bufferLFtoCRLF_idem (s : List UInt8) : BufferLFtoCRLF (BufferLFtoCRLF s) = BufferLFtoCRLF s := by
  fun_induction BufferLFtoCRLF s with
  | case1 => rfl
  | case2 => rfl
  | case3 _ ih => rw [bufferLFtoCRLF_crlf, ih]
  | case4 _ _ _ ih => rw [bufferLFtoCRLF_crlf, ih]
  | case5 _ _ ih => rw [bufferLFtoCRLF_crlf, ih]
  | case6 c s hcr hlf ih => rw [bufferLFtoCRLF_text hcr hlf, ih]

theorem text_bufferLFtoCRLF (s : List UInt8) : text (BufferLFtoCRLF s) = text s := by
  fun_induction BufferLFtoCRLF s with
  | case1 => rfl
  | case2 => rfl
  | case3 _ ih => exact ih
  | case4 _ _ _ ih => exact ih
  | case5 _ _ ih => exact ih
  | case6 c s hcr hlf ih => rw [text_cons, ih, ← text_cons]

theorem length_bufferLFtoCRLF (s : List UInt8) : (BufferLFtoCRLF s).length ≤ 2 * s.length := by
  fun_induction BufferLFtoCRLF s with
  | case1 => exact Nat.le_refl _
  | case2 => exact Nat.le_refl _
  | case3 _ ih => simp only [List.length_cons] at *; omega
  | case4 _ _ _ ih => simp only [List.length_cons] at *; omega
  | case5 _ _ ih => simp only [List.length_cons] at *; omega
  | case6 _ _ _ _ ih => simp only [List.length_cons] at *; omega

theorem bufferLFtoCRLF_normalises (s : List UInt8) : Normalises BufferLFtoCRLF s where
  crBeforeLf := crBeforeLf_of_from (bufferLFtoCRLF_from s none)
  idem := bufferLFtoCRLF_idem s
  sameText := text_bufferLFtoCRLF s
  length_le := length_bufferLFtoCRLF s

/-- Where no carriage return stands alone, taking them all out again gives what the input is without them. -/
theorem withoutCr_bufferLFtoCRLF (s : List UInt8) (hs : LfBehindCr s) :
    withoutCr (BufferLFtoCRLF s) = withoutCr s := by
  fun_induction BufferLFtoCRLF s with
  | case1 => rfl
  | case2 => exact absurd hs.head (by simp)
  | case3 s ih => exact congrArg (10 :: ·) (ih hs.tail.tail)
  | case4 d s hd ih => exact absurd (Option.some.inj hs.head) hd
  | case5 s hcr ih => exact congrArg (10 :: ·) (ih hs.tail)
  | case6 c s hcr hlf ih => rw [withoutCr_cons, ih hs.tail, ← withoutCr_cons]

end Buffer

/-- The two loops agree from a point where the last byte was no carriage return, or where a line begins with text. -/
theorem lfToCrlfLoop_eq_buffer (s : List UInt8) (hs : LfBehindCr s) :
    ∀ last, last ≠ some 13 → (last = none → s.head? ≠ some 10) → lfToCrlfLoop last s = BufferLFtoCRLF s := by
  fun_induction BufferLFtoCRLF s with
  | case1 => exact fun _ _ _ => rfl
  | case2 => exact absurd hs.head (by simp)
  | case3 s ih =>
    intro last _ _
    have hrest := ih hs.tail.tail (some 10) (by decide) (fun h => absurd h (Option.some_ne_none _))
    exact congrArg (fun out => 13 :: 10 :: out) hrest
  | case4 d s hd ih => exact absurd (Option.some.inj hs.head) hd
  | case5 s hcr ih =>
    intro last hlast hnone
    have hsome : last ≠ none := fun h => hnone h rfl
    have hrest := ih hs.tail (some 10) (by decide) (fun h => absurd h (Option.some_ne_none _))
    rw [lfToCrlfLoop, if_pos ⟨rfl, hsome, hlast⟩, hrest]
    rfl
  | case6 c s hcr hlf ih =>
    intro last _ _
    have hrest := ih hs.tail (some c) (fun h => hcr (Option.some.inj h)) (fun h => absurd h (Option.some_ne_none _))
    rw [lfToCrlfLoop, if_neg (fun h => hlf h.1), hrest]
    rfl

/-- Both functions normalise the line ends of a string, and in the same way where no carriage return stands alone. -/
structure LineEndsNormalised (s : List UInt8) : Prop where
  string : Normalises StringLFtoCRLF s
  buffer : Normalises BufferLFtoCRLF s
  agree : LfBehindCr s → StringLFtoCRLF s = BufferLFtoCRLF s ∧ withoutCr (StringLFtoCRLF s) = withoutCr s

/-- Exactly the strings that do not begin with a line feed are normalised by both. -/
theorem lineEndsNormalised_iff (s : List UInt8) : LineEndsNormalised s ↔ s.head? ≠ some 10 := by
  constructor
  · intro h hs
    match s with
    | c :: s =>
      -- The line feed at the begin is copied, and nothing is before it.
      obtain rfl := Option.some.inj hs
      have hout : StringLFtoCRLF (10 :: s) = [] ++ 10 :: lfToCrlfLoop (some 10) s := by
        rw [StringLFtoCRLF, lfToCrlfLoop, if_neg (fun hc => hc.2.1 rfl)]
        rfl
      exact absurd (h.string.crBeforeLf [] _ hout) (Option.some_ne_none _).symm
  · intro hs
    refine ⟨stringLFtoCRLF_normalises hs, bufferLFtoCRLF_normalises s, ?_⟩
    intro hcr
    have hagree := lfToCrlfLoop_eq_buffer s hcr none (Option.some_ne_none _).symm (fun _ => hs)
    refine ⟨hagree, ?_⟩
    rw [StringLFtoCRLF, hagree]
    exact withoutCr_bufferLFtoCRLF s hcr

/-- An empty line at the begin. -/
theorem lineEndsNormalised_empty_line : ¬ ∀ s : List UInt8, LineEndsNormalised s := by
  intro h
  exact absurd ((h [10]).string.crBeforeLf [] [] rfl) (by decide)

end Zcp.Common.StringUtil
