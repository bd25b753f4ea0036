import Mathlib.Computability.Language

/-!
# Patterns of LIST

`IMAP::MatchFolderPath` compares the path of a folder, in capitals, with the pattern of a `LIST` command. It finds a
match just where the path is in the language of the pattern, and looks at no character behind the ends of the two
(`matchFolderPath_spec`).

Reference: `gateway/IMAP.cpp`. The positions are `int`s there, which the length of a path does not exceed.
-/

namespace Zcp.Gateway

abbrev WChar := UInt32

/-- A `std::wstring`. -/
abbrev WString := List WChar

/-- `::toupper` on wide characters, in some locale. A capital has no capital of its own, and only NUL becomes NUL. -/
structure Locale where
  toupper : WChar → WChar
  toupper_toupper : ∀ c, toupper (toupper c) = toupper c
  toupper_eq_zero : ∀ c, toupper c = 0 → c = 0

/-! ## The matcher -/

/-- What ends a match without an answer: a character or a substring behind the end of a string, or the bound on the
number of steps. -/
inductive Stop where
  | outOfRange
  | outOfFuel
deriving DecidableEq, Repr

/-- `str[pos]`. Behind the characters there is the terminator. -/
def charAt (str : WString) (pos : ℕ) : Except Stop WChar :=
  match str[pos]? with
  | some c => .ok c
  | none => if pos = str.length then .ok 0 else .error .outOfRange

/-- `str.substr(pos)`. -/
def substr (str : WString) (pos : ℕ) : Except Stop WString :=
  if pos ≤ str.length then .ok (str.drop pos) else .error .outOfRange

/-- `strFolder.find('/', f)`, or the length where there is none. -/
def slashFrom (strFolder : WString) (f : ℕ) : ℕ :=
  match (strFolder.drop f).findIdx? (· = 47) with
  | none => strFolder.length
  | some i => f + i

/-- The `for` loops over the position behind a wildcard. -/
def tryPositions (matchRest : ℕ → Except Stop Bool) : List ℕ → Except Stop Bool
  | [] => .ok false
  | i :: rest => do
    if ← matchRest i then .ok true
    else tryPositions matchRest rest

/-- The positions from `last` down to `f`. -/
def downTo (last f : ℕ) : List ℕ := (List.range' f (last + 1 - f)).reverse

section Matcher

variable (locale : Locale)

/-- The loop of `IMAP::MatchFolderPath`, with `strFolder` in capitals. The call of the function for the rest of the two
strings makes it capitals once more. -/
def matchLoop : ℕ → WString → WString → ℕ → ℕ → Except Stop Bool
  | 0, _, _, _, _ => .error .outOfFuel
  | fuel + 1, strFolder, strPattern, f, p =>
    if f = strFolder.length ∧ p = strPattern.length then .ok true
    else do
      let c ← charAt strPattern p
      let matchRest (i : ℕ) : Except Stop Bool := do
        let strFolder ← substr strFolder i
        let strPattern ← substr strPattern (p + 1)
        matchLoop fuel (strFolder.map locale.toupper) strPattern 0 0
      if c = 42 then
        -- match 0-n chars, try longest match first
        tryPositions matchRest (downTo strFolder.length f)
      else if c = 37 then
        -- match 0-n chars excluding '/', try longest match first
        tryPositions matchRest (downTo (slashFrom strFolder f) f)
      else if (← charAt strFolder f) = c then matchLoop fuel strFolder strPattern (f + 1) (p + 1)
      else .ok false

/-- `IMAP::MatchFolderPath`, with a bound on the number of steps. -/
def matchFolderPath (fuel : ℕ) (strFolder strPattern : WString) : Except Stop Bool :=
  matchLoop locale fuel (strFolder.map locale.toupper) strPattern 0 0

end Matcher

/-! ## The language of a pattern -/

/-- What stands for a character of a pattern: any text for a star, a text without a delimiter for a percent sign, and
otherwise the character. -/
def StandsFor (c : WChar) (text : WString) : Prop := if c = 42 then True else if c = 37 then 47 ∉ text else text = [c]

def symbol (c : WChar) : Language WChar := Set.ofPred (StandsFor c)

variable {c : WChar}

theorem mem_symbol {text : WString} : text ∈ symbol c ↔ StandsFor c text := Iff.rfl

/-- The texts that are obtained from a pattern. -/
def patternLanguage (strPattern : WString) : Language WChar := (strPattern.map symbol).prod

variable {path : WString}

theorem mem_patternLanguage_nil : path ∈ patternLanguage [] ↔ path = [] := by
  rw [patternLanguage, List.map_nil, List.prod_nil, Language.mem_one]

variable {strPattern : WString}

/-- A part of the path stands for the first character, and the rest for the others. -/
theorem mem_patternLanguage_cons : path ∈ patternLanguage (c :: strPattern) ↔
      ∃ i ≤ path.length, path.take i ∈ symbol c ∧ path.drop i ∈ patternLanguage strPattern := by
  rw [patternLanguage, List.map_cons, List.prod_cons, Language.mem_mul]
  constructor
  · rintro ⟨text, htext, rest, hrest, rfl⟩
    refine ⟨text.length, by rw [List.length_append]; omega, ?_, ?_⟩
    · rwa [List.take_left]
    · rwa [List.drop_left]
  · rintro ⟨i, -, htext, hrest⟩
    exact ⟨_, htext, _, hrest, List.take_append_drop i path⟩

/-- A character that is no wildcard stands for itself. -/
theorem mem_patternLanguage_literal (hstar : c ≠ 42) (hpercent : c ≠ 37) :
    path ∈ patternLanguage (c :: strPattern) ↔ ∃ rest, path = c :: rest ∧ rest ∈ patternLanguage strPattern := by
  have hsymbol : ∀ text, text ∈ symbol c ↔ text = [c] := by
    intro text
    rw [mem_symbol, StandsFor, if_neg hstar, if_neg hpercent]
  rw [patternLanguage, List.map_cons, List.prod_cons, Language.mem_mul]
  constructor
  · rintro ⟨text, htext, rest, hrest, rfl⟩
    obtain rfl := (hsymbol text).mp htext
    exact ⟨rest, rfl, hrest⟩
  · rintro ⟨rest, rfl, hrest⟩
    exact ⟨[c], (hsymbol [c]).mpr rfl, rest, hrest, rfl⟩

/-! ## Correctness -/

/-- A match has an answer, which says whether something is true. -/
def Decides (result : Except Stop Bool) (P : Prop) : Prop := ∃ bMatch, result = .ok bMatch ∧ (bMatch = true ↔ P)

theorem decides_true {P : Prop} (h : P) : Decides (.ok true) P := ⟨true, rfl, iff_of_true rfl h⟩

theorem decides_false {P : Prop} (h : ¬ P) : Decides (.ok false) P := ⟨false, rfl, iff_of_false Bool.false_ne_true h⟩

theorem charAt_of_lt {str : WString} {pos : ℕ} (h : pos < str.length) : charAt str pos = .ok str[pos] := by
  rw [charAt, List.getElem?_eq_getElem h]

/-- The terminator. -/
theorem charAt_length (str : WString) : charAt str str.length = .ok 0 := by
  rw [charAt, List.getElem?_eq_none le_rfl]
  exact if_pos rfl

theorem substr_of_le {str : WString} {pos : ℕ} (h : pos ≤ str.length) : substr str pos = .ok (str.drop pos) := if_pos h

variable {f : ℕ}

theorem mem_downTo {last i : ℕ} : i ∈ downTo last f ↔ f ≤ i ∧ i ≤ last := by
  rw [downTo, List.mem_reverse, List.mem_range'_1]
  omega

/-- A wildcard matches if the rest does from one of the positions. -/
theorem tryPositions_decides {matchRest : ℕ → Except Stop Bool} {Q : ℕ → Prop} {positions : List ℕ}
    (hrest : ∀ i ∈ positions, Decides (matchRest i) (Q i)) :
    Decides (tryPositions matchRest positions) (∃ i ∈ positions, Q i) := by
  induction positions with
  | nil => exact decides_false (by simp)
  | cons i positions ih =>
    obtain ⟨⟨bMatch, hmatch, hiff⟩, hpositions⟩ := List.forall_mem_cons.mp hrest
    rw [tryPositions, hmatch]
    match bMatch with
    | true => exact decides_true ⟨i, List.mem_cons_self, hiff.mp rfl⟩
    | false =>
      have hfirst : ¬ Q i := fun h => Bool.false_ne_true (hiff.mpr h)
      obtain ⟨bMatch, hmatch, hiff'⟩ := ih hpositions
      refine ⟨bMatch, hmatch, hiff'.trans ?_⟩
      rw [List.exists_mem_cons_iff, or_iff_right hfirst]

variable {strFolder : WString}

theorem slashFrom_le (hf : f ≤ strFolder.length) : slashFrom strFolder f ≤ strFolder.length := by
  unfold slashFrom
  split
  · exact le_rfl
  · next k hk =>
    obtain ⟨hlt, -⟩ := List.findIdx?_eq_some_iff_getElem.mp hk
    rw [List.length_drop] at hlt
    omega

/-- Up to the next delimiter there is none. -/
theorem le_slashFrom_iff {j : ℕ} (hj : j ≤ (strFolder.drop f).length)
    (hf : f ≤ strFolder.length) : f + j ≤ slashFrom strFolder f ↔ 47 ∉ (strFolder.drop f).take j := by
  rw [List.length_drop] at hj
  unfold slashFrom
  split
  · next hnone =>
    refine iff_of_true (by omega) fun hmem => ?_
    have hall := List.findIdx?_eq_none_iff.mp hnone 47 (List.mem_of_mem_take hmem)
    exact absurd hall (by decide)
  · next k hk =>
    obtain ⟨hlt, hslash, hbefore⟩ := List.findIdx?_eq_some_iff_getElem.mp hk
    rw [Nat.add_le_add_iff_left]
    constructor
    · intro hle hmem
      obtain ⟨n, hn, hget⟩ := List.mem_take_iff_getElem.mp hmem
      exact hbefore n (by omega) (decide_eq_true hget)
    · intro hnone
      by_contra hlt'
      refine hnone (List.mem_take_iff_getElem.mpr ⟨k, by omega, of_decide_eq_true hslash⟩)

section Spec

variable {locale : Locale}

/-- A wildcard is tried at each of its positions. -/
theorem wildcard_decides {matchRest : ℕ → Except Stop Bool} {last : ℕ}
    (hrest : ∀ i, f ≤ i → i ≤ last → Decides (matchRest i) (strFolder.drop i ∈ patternLanguage strPattern))
    (hf : f ≤ strFolder.length) (hlast : last ≤ strFolder.length)
    (hsymbol : ∀ j ≤ (strFolder.drop f).length, f + j ≤ last ↔ (strFolder.drop f).take j ∈ symbol c) :
    Decides (tryPositions matchRest (downTo last f)) (strFolder.drop f ∈ patternLanguage (c :: strPattern)) := by
  have hpositions : ∀ i ∈ downTo last f, Decides (matchRest i) (strFolder.drop i ∈ patternLanguage strPattern) :=
    fun i hi => hrest i (mem_downTo.mp hi).1 (mem_downTo.mp hi).2
  obtain ⟨bMatch, hmatch, hiff⟩ := tryPositions_decides hpositions
  refine ⟨bMatch, hmatch, hiff.trans ?_⟩
  rw [mem_patternLanguage_cons]
  constructor
  · rintro ⟨i, hi, hmem⟩
    obtain ⟨hle, hle'⟩ := mem_downTo.mp hi
    obtain ⟨j, rfl⟩ := Nat.exists_eq_add_of_le hle
    have hj : j ≤ (strFolder.drop f).length := by
      rw [List.length_drop]
      omega
    exact ⟨j, hj, (hsymbol j hj).mp hle', by rwa [List.drop_drop]⟩
  · rintro ⟨j, hj, htext, hmem⟩
    rw [List.drop_drop] at hmem
    exact ⟨f + j, mem_downTo.mpr ⟨Nat.le_add_right f j, (hsymbol j hj).mpr htext⟩, hmem⟩

/-- The loop says whether the rest of the path is in the language of the rest of the pattern. -/
theorem matchLoop_decides {fuel : ℕ} {p : ℕ}
    (hfuel : strPattern.length - p < fuel) (hupper : ∀ c ∈ strFolder, locale.toupper c = c) (hfolder : 0 ∉ strFolder)
    (hpattern : 0 ∉ strPattern) (hf : f ≤ strFolder.length) (hp : p ≤ strPattern.length) :
    Decides (matchLoop locale fuel strFolder strPattern f p) (strFolder.drop f ∈ patternLanguage (strPattern.drop p)) := by
  induction fuel generalizing strFolder strPattern f p with
  | zero => omega
  | succ fuel ih =>
    unfold matchLoop
    rcases hp.eq_or_lt with rfl | hlt
    · rw [List.drop_length, mem_patternLanguage_nil, List.drop_eq_nil_iff]
      rcases hf.eq_or_lt with rfl | hlt
      · rw [if_pos ⟨rfl, rfl⟩]
        exact decides_true le_rfl
      · -- a character of the path is compared with the terminator of the pattern
        have hne : strFolder[f] ≠ 0 := fun h => hfolder (h ▸ List.getElem_mem hlt)
        have hstar : (0 : WChar) ≠ 42 := by decide
        have hpercent : (0 : WChar) ≠ 37 := by decide
        simp only [charAt_length, charAt_of_lt hlt, bind, Except.bind, if_neg (fun h : f = _ ∧ _ => hlt.ne h.1),
          if_neg hstar, if_neg hpercent, if_neg hne]
        exact decides_false (Nat.not_le_of_lt hlt)
    · have hc : strPattern[p] ≠ 0 := fun h => hpattern (h ▸ List.getElem_mem hlt)
      -- a wildcard tries the rest of the pattern at each place of the path, which is in capitals already
      have hrest : ∀ i, f ≤ i → i ≤ strFolder.length →
          Decides (matchLoop locale fuel ((strFolder.drop i).map locale.toupper) (strPattern.drop (p + 1)) 0 0)
            (strFolder.drop i ∈ patternLanguage (strPattern.drop (p + 1))) := by
        intro i _ hi
        have hsame : (strFolder.drop i).map locale.toupper = strFolder.drop i :=
          (List.map_congr_left fun c hc => hupper c (List.mem_of_mem_drop hc)).trans (List.map_id _)
        rw [hsame]
        refine ih ?_ (fun c hc => hupper c (List.mem_of_mem_drop hc)) (fun h => hfolder (List.mem_of_mem_drop h))
          (fun h => hpattern (List.mem_of_mem_drop h)) (Nat.zero_le _) (Nat.zero_le _)
        rw [List.length_drop]
        omega
      rw [if_neg (fun h => hlt.ne h.2), charAt_of_lt hlt, List.drop_eq_getElem_cons hlt]
      have hsubstr := substr_of_le (Nat.succ_le_of_lt hlt)
      generalize strPattern[p] = c at hc ⊢
      -- `*` stands for any characters, `%` for those up to the next slash
      by_cases hstar : c = 42
      · simp only [bind, Except.bind, if_pos hstar, hsubstr]
        refine wildcard_decides (fun i hle hle' => ?_) hf le_rfl fun j hj => ?_
        · rw [substr_of_le hle']
          exact hrest i hle hle'
        · rw [List.length_drop] at hj
          rw [mem_symbol, StandsFor, if_pos hstar]
          exact iff_of_true (by omega) trivial
      · by_cases hpercent : c = 37
        · simp only [bind, Except.bind, if_neg hstar, if_pos hpercent, hsubstr]
          have hslash := slashFrom_le hf
          refine wildcard_decides (fun i hle hle' => ?_) hf hslash fun j hj => ?_
          · rw [substr_of_le (hle'.trans hslash)]
            exact hrest i hle (hle'.trans hslash)
          · rw [mem_symbol, StandsFor, if_neg hstar, if_pos hpercent]
            exact le_slashFrom_iff hj hf
        · simp only [bind, Except.bind, if_neg hstar, if_neg hpercent]
          rw [mem_patternLanguage_literal hstar hpercent]
          rcases hf.eq_or_lt with rfl | hlt'
          · -- a character of the pattern is compared with the terminator of the path
            simp only [charAt_length, if_neg hc.symm, List.drop_length]
            exact decides_false (by simp)
          · rw [charAt_of_lt hlt', List.drop_eq_getElem_cons hlt']
            dsimp only
            by_cases hsame : strFolder[f] = c
            · have hnext := ih (show strPattern.length - (p + 1) < fuel by omega) hupper hfolder hpattern
                (Nat.succ_le_of_lt hlt') (Nat.succ_le_of_lt hlt)
              rw [if_pos hsame]
              simpa only [List.cons.injEq, hsame, true_and, exists_eq_left'] using hnext
            · rw [if_neg hsame]
              refine decides_false ?_
              rintro ⟨rest, heq, -⟩
              exact hsame (List.cons.inj heq).1

/-- `MatchFolderPath` always has an answer, without a look behind the end of the path or the pattern: it says whether
the path, in capitals, is obtained from the pattern. -/
theorem matchFolderPath_spec {strFolder strPattern : WString} (hfolder : 0 ∉ strFolder) (hpattern : 0 ∉ strPattern)
    {fuel : ℕ} (hfuel : strPattern.length < fuel) : Decides (matchFolderPath locale fuel strFolder strPattern)
      (strFolder.map locale.toupper ∈ patternLanguage strPattern) := by
  refine matchLoop_decides hfuel ?_ ?_ hpattern (Nat.zero_le _) (Nat.zero_le _)
  · intro c hc
    obtain ⟨c, -, rfl⟩ := List.mem_map.mp hc
    exact locale.toupper_toupper c
  · intro hzero
    obtain ⟨c, hc, hc'⟩ := List.mem_map.mp hzero
    rw [locale.toupper_eq_zero c hc'] at hc
    exact hfolder hc

end Spec

/-- A NUL in the path is taken for the terminator of the pattern. The names of folders are C strings. -/
example (locale : Locale) (hzero : locale.toupper 0 = 0) : matchFolderPath locale 2 [0] [] = .error .outOfRange := by
  rw [matchFolderPath, List.map_cons, hzero]
  rfl

/-- The C locale. -/
def cLocale : Locale where
  toupper c := if 97 ≤ c ∧ c ≤ 122 then c - 32 else c
  toupper_toupper c := by
    split_ifs with hlower hupper
    · simp only [UInt32.le_iff_toNat_le, UInt32.toNat_sub, UInt32.reduceToNat] at hlower hupper
      omega
    · rfl
    · rfl
  toupper_eq_zero c h := by
    split_ifs at h with hlower
    · simp only [UInt32.le_iff_toNat_le, ← UInt32.toNat_inj, UInt32.toNat_sub, UInt32.reduceToNat] at hlower h
      omega
    · exact h

def wide (text : String) : WString := text.toList.map Char.val

/-- `INBOX/%` names the folders in the inbox, and not those in them. -/
theorem matchFolderPath_inbox : Decides (matchFolderPath cLocale 8 (wide "Inbox/Work") (wide "INBOX/%"))
        ((wide "Inbox/Work").map cLocale.toupper ∈ patternLanguage (wide "INBOX/%")) ∧
      matchFolderPath cLocale 8 (wide "Inbox/Work") (wide "INBOX/%") = .ok true ∧
      matchFolderPath cLocale 8 (wide "Inbox/Work/Done") (wide "INBOX/%") = .ok false :=
  ⟨matchFolderPath_spec (by decide) (by decide) (by decide), rfl, rfl⟩

end Zcp.Gateway
