import Zcp.Gateway.IMAP.MatchFolderPath
import Zcp.Gateway.IMAP.SequenceSets
import Zcp.Lib.Utf7

/-!
# Names of folders

`IMAP::MAPI2IMAPCharset` writes the name of a folder in the UTF-7 of IMAP, which has an ampersand for the plus sign and
a comma for the slash, and `IMAP::IMAP2MAPICharset` reads it. All characters between two printable ones are converted
together, and an ampersand is put over the first byte of the result. That is wrong where the first byte is a tabulator
or a line end, and later plus signs stay as they are. A name comes back exactly when neither happens
(`comesBack_folderName_iff`).

Reference: `gateway/IMAP.cpp`.
-/

namespace Zcp.Gateway

open Zcp.Lib.Utf7

/-- A character that is converted together with its neighbours. -/
def InRun (c : WChar) : Prop := c < 0x20 ∨ 0x7f ≤ c

instance (c : WChar) : Decidable (InRun c) := inferInstanceAs (Decidable (_ ∨ _))

/-- `convert_to` between UTF-7 and wide strings, which throws where there is nothing. What is UTF-7 is read as such; of
other text nothing is known. -/
structure Converter where
  toUtf7 : WString → Option Str
  ofUtf7 : Str → Option WString
  toUtf7_eq : ∀ s : WString, (∀ c ∈ s, IsBmp c) → (∀ c ∈ s, InRun c) → toUtf7 s = some (encode s)
  ofUtf7_eq : ∀ text s, decode text = some s → ofUtf7 text = some s

/-- The converter that throws for everything that is not UTF-7. -/
def Converter.strict : Converter where
  toUtf7 s := some (encode s)
  ofUtf7 := decode
  toUtf7_eq _ _ _ := rfl
  ofUtf7_eq _ _ h := h

/-! ## Writing and reading -/

/-- The slash of base64 becomes a comma. -/
def toComma (b : UInt8) : UInt8 := if b = 47 then 44 else b

def ofComma (b : UInt8) : UInt8 := if b = 44 then 47 else b

/-- What is made of the result of the conversion: `utf7[0] = '&'`, and commas. -/
def imapUtf7 (utf7 : Str) : Str := (utf7.set 0 38).map toComma

/-- A printable character, with a backslash before quotes and backslashes. -/
def plain (c : WChar) : Str := if c = 34 ∨ c = 92 then [92, c.toUInt8] else [c.toUInt8]

def MAPI2IMAPCharset (converter : Converter) : WString → Option Str
  | [] => some []
  | c :: rest =>
    if 0x20 ≤ c ∧ c ≤ 0x25 ∨ 0x27 ≤ c ∧ c ≤ 0x7e then
      (MAPI2IMAPCharset converter rest).map fun output => plain c ++ output
    else if c = 0x26 then (MAPI2IMAPCharset converter rest).map fun output => [38, 45] ++ output
    else
      (converter.toUtf7 (c :: rest.takeWhile fun next => InRun next)).bind fun utf7 =>
        (MAPI2IMAPCharset converter (rest.dropWhile fun next => InRun next)).map fun output =>
          imapUtf7 utf7 ++ output
termination_by input => input.length
decreasing_by
  · exact Nat.lt_succ_self _
  · exact Nat.lt_succ_self _
  · exact Nat.lt_succ_of_le (List.length_dropWhile_le _ _)

def IMAP2MAPICharset (converter : Converter) : Str → Option WString
  | [] => some []
  | c :: rest =>
    if 127 < c then none
    else if c = 38 then
      -- the premature end of the string
      if rest = [] then some [38]
      else if rest.head? = some 45 then (IMAP2MAPICharset converter rest.tail).map fun output => 38 :: output
      else
        (converter.ofUtf7 (43 :: (rest.takeWhile fun b => b ≠ 45).map ofComma)).bind fun conv =>
          (IMAP2MAPICharset converter (rest.dropWhile fun b => b ≠ 45).tail).map fun output => conv ++ output
    else if c = 92 ∧ (rest.head? = some 34 ∨ rest.head? = some 92) then
      (IMAP2MAPICharset converter rest.tail).map fun output => (rest.headD 0).toUInt32 :: output
    else (IMAP2MAPICharset converter rest).map fun output => c.toUInt32 :: output
termination_by input => input.length
decreasing_by
  · exact Nat.lt_succ_of_le (List.tail_sublist rest).length_le
  · exact Nat.lt_succ_of_le ((List.tail_sublist _).length_le.trans (List.length_dropWhile_le _ _))
  · exact Nat.lt_succ_of_le (List.tail_sublist rest).length_le
  · exact Nat.lt_succ_self _

/-- The name comes back, and has been sent in 7-bit characters. -/
def ComesBack (converter : Converter) (input : WString) : Prop :=
  ∃ output, MAPI2IMAPCharset converter input = some output ∧ (∀ b ∈ output, b < 128) ∧
    IMAP2MAPICharset converter output = some input

/-- The text has characters of the basic plane only. -/
abbrev BmpString := {s : WString // ∀ c ∈ s, IsBmp c}

/-- Two characters in a row: a tabulator or a line end stands behind a character that is not printable ASCII, and what
follows it is printable ASCII, or again a tabulator or line end. -/
def MayFollow (a b : WChar) : Prop :=
  (IsDirectControl b → InRun a) ∧ (IsDirectControl a → InRun b → IsDirectControl b)

instance (a b : WChar) : Decidable (MayFollow a b) := inferInstanceAs (Decidable (_ ∧ _))

/-- So it is for the whole name, which begins as if it stood behind a blank. -/
def ControlsEndRuns (s : WString) : Prop := (0x20 :: s).IsChain MayFollow

/-! ## Characters -/

variable {c : WChar}

theorem isPrintable_iff : 0x20 ≤ c ∧ c ≤ 0x25 ∨ 0x27 ≤ c ∧ c ≤ 0x7e ↔ ¬ InRun c ∧ c ≠ 0x26 := by
  simp only [InRun, ne_eq, UInt32.le_iff_toNat_le, UInt32.lt_iff_toNat_lt, ← UInt32.toNat_inj, UInt32.reduceToNat]
  omega

/-- A printable character is a byte. -/
theorem toUInt32_toUInt8 (hc : c < 0x80) : c.toUInt8.toUInt32 = c := by
  have hlt := UInt32.lt_iff_toNat_lt.mp hc
  apply UInt32.toNat.inj
  simp only [UInt8.toNat_toUInt32, UInt32.toNat_toUInt8, UInt32.reduceToNat] at hlt ⊢
  omega

theorem toUInt8_lt (hc : c < 0x80) : c.toUInt8 < 128 := by
  have hlt := UInt32.lt_iff_toNat_lt.mp hc
  apply UInt8.lt_iff_toNat_lt.mpr
  simp only [UInt32.toNat_toUInt8, UInt32.reduceToNat, UInt8.reduceToNat] at hlt ⊢
  omega

theorem lt_of_not_inRun (hc : ¬ InRun c) : c < 0x80 := by
  simp only [InRun, UInt32.le_iff_toNat_le, UInt32.lt_iff_toNat_lt, UInt32.reduceToNat] at hc ⊢
  omega

theorem inRun_of_isDirectControl (hc : IsDirectControl c) : InRun c := by
  rcases hc with rfl | rfl | rfl <;> decide

/-! ## Runs -/

/-- A name is cut into printable characters and runs of the others. -/
inductive Cut : WString → Prop
  | nil : Cut []
  | printable {c : WChar} {rest : WString} (hc : ¬ InRun c) (hrest : Cut rest) : Cut (c :: rest)
  | run {run rest : WString} (hne : run ≠ []) (hrun : ∀ c ∈ run, InRun c) (hend : ∀ c ∈ rest.head?, ¬ InRun c)
      (hrest : Cut rest) : Cut (run ++ rest)

/-- Every name is cut into printable characters and runs. -/
theorem cut (s : WString) : Cut s := by
  induction hn : s.length using Nat.strong_induction_on generalizing s with
  | h n ih =>
    cases s with
    | nil => exact .nil
    | cons c rest =>
      by_cases hc : InRun c
      · have hsplit : c :: rest = (c :: rest).takeWhile (fun c => InRun c) ++ (c :: rest).dropWhile (fun c => InRun c) :=
          List.takeWhile_append_dropWhile.symm
        rw [hsplit]
        have hlength : ((c :: rest).dropWhile fun c => InRun c).length < n := by
          rw [List.dropWhile_cons_of_pos (by simpa using hc), ← hn]
          exact Nat.lt_succ_of_le (List.length_dropWhile_le _ _)
        refine .run ?_ (fun x hx => by simpa using List.mem_takeWhile_imp hx) (fun x hx => ?_) (ih _ hlength _ rfl)
        · rw [List.takeWhile_cons_of_pos (by simpa using hc)]
          exact List.cons_ne_nil _ _
        · have hnot := List.head?_dropWhile_not (fun c => decide (InRun c)) (c :: rest)
          rw [Option.mem_def.mp hx] at hnot
          simpa using hnot
      · exact .printable hc (ih rest.length (by rw [← hn]; exact Nat.lt_succ_self _) rest rfl)

/-- The part of a run that is shifted first, and what is behind it. -/
def shiftedPart (run : WString) : WString := run.takeWhile fun c => ¬ IsDirectControl c

def behindShifted (run : WString) : WString := run.dropWhile fun c => ¬ IsDirectControl c

/-- A run in which nothing to be shifted follows a tabulator or a line end. -/
def IsEnding (run : WString) : Prop := ∀ c ∈ behindShifted run, IsDirectControl c

variable {run : WString}

section

variable {rest : WString} (hend : ∀ c ∈ rest.head?, ¬ InRun c)
include hend

/-- Behind a run it does not matter what the run was. -/
theorem isChain_cons_end (a : WChar) : (a :: rest).IsChain MayFollow ↔ ControlsEndRuns rest := by
  unfold ControlsEndRuns
  cases rest with
  | nil => simp
  | cons c rest =>
    have hc := hend c rfl
    have hfollow : ∀ a, MayFollow a c := fun a =>
      ⟨fun hcontrol => absurd (inRun_of_isDirectControl hcontrol) hc, fun _ hrun => absurd hrun hc⟩
    rw [List.isChain_cons_cons, List.isChain_cons_cons, and_iff_right (hfollow a), and_iff_right (hfollow 0x20)]

/-- Behind a control character that begins a run, only such characters may stand up to its end. -/
theorem isChain_control {a : WChar} (ha : IsDirectControl a) (hrun : ∀ c ∈ run, InRun c) :
    (a :: (run ++ rest)).IsChain MayFollow ↔ (∀ c ∈ run, IsDirectControl c) ∧ ControlsEndRuns rest := by
  induction run generalizing a with
  | nil =>
    rw [List.nil_append, isChain_cons_end hend]
    simp
  | cons c run ih =>
    obtain ⟨hc, hrun⟩ := List.forall_mem_cons.mp hrun
    have hfollow : MayFollow a c ↔ IsDirectControl c :=
      ⟨fun h => h.2 ha hc, fun h => ⟨fun _ => inRun_of_isDirectControl ha, fun _ _ => h⟩⟩
    rw [List.cons_append, List.isChain_cons_cons, hfollow, List.forall_mem_cons, and_assoc]
    exact and_congr_right fun hcontrol => ih hcontrol hrun

/-- A run that begins with a shifted character may end with control characters that UTF-7 writes as they are. -/
theorem isChain_shifted {a : WChar} (ha : InRun a) (hcontrol : ¬ IsDirectControl a) (hrun : ∀ c ∈ run, InRun c) :
    (a :: (run ++ rest)).IsChain MayFollow ↔ IsEnding run ∧ ControlsEndRuns rest := by
  induction run generalizing a with
  | nil =>
    rw [List.nil_append, isChain_cons_end hend]
    simp [IsEnding, behindShifted]
  | cons c run ih =>
    obtain ⟨hc, hrun⟩ := List.forall_mem_cons.mp hrun
    have hfollow : MayFollow a c := ⟨fun _ => ha, fun h => absurd h hcontrol⟩
    rw [List.cons_append, List.isChain_cons_cons, and_iff_right hfollow]
    unfold IsEnding behindShifted
    by_cases hdirect : IsDirectControl c
    · rw [isChain_control hend hdirect hrun, List.dropWhile_cons_of_neg (by simpa using hdirect), List.forall_mem_cons,
        and_iff_right hdirect]
    · rw [ih hc hdirect hrun, List.dropWhile_cons_of_pos (by simpa using hdirect)]
      rfl

/-- A run has to begin with a character to be shifted, and to end with all its tabulators and line ends. -/
theorem controlsEndRuns_run (hrun : ∀ x ∈ c :: run, InRun x) :
    ControlsEndRuns (c :: run ++ rest) ↔ ¬ IsDirectControl c ∧ IsEnding run ∧ ControlsEndRuns rest := by
  obtain ⟨hc, hrun⟩ := List.forall_mem_cons.mp hrun
  unfold ControlsEndRuns
  rw [List.cons_append, List.isChain_cons_cons]
  by_cases hcontrol : IsDirectControl c
  · exact iff_of_false (fun h => absurd (h.1.1 hcontrol) (by decide)) fun h => h.1 hcontrol
  · have hfollow : MayFollow 0x20 c := ⟨fun h => absurd h hcontrol, fun h => absurd h (by decide)⟩
    rw [and_iff_right hfollow, isChain_shifted hend hc hcontrol hrun, and_iff_right hcontrol]
    rfl

end

/-- A printable character ends a run, so that nothing is asked of what stands before it. -/
theorem controlsEndRuns_printable (hc : ¬ InRun c) (rest : WString) :
    ControlsEndRuns (c :: rest) ↔ ControlsEndRuns rest := by
  unfold ControlsEndRuns
  have hcontrol : ¬ IsDirectControl c := fun h => hc (inRun_of_isDirectControl h)
  have hfollow : MayFollow 0x20 c := ⟨fun h => absurd h hcontrol, fun h => absurd h (by decide)⟩
  rw [List.isChain_cons_cons, and_iff_right hfollow]
  cases rest with
  | nil => simp
  | cons b rest =>
    have hsame : MayFollow c b ↔ MayFollow 0x20 b := by
      have hblank : ¬ IsDirectControl (0x20 : WChar) ∧ ¬ InRun (0x20 : WChar) := by decide
      simp only [MayFollow, hc, hcontrol, hblank.1, hblank.2, false_imp_iff]
    rw [List.isChain_cons_cons, List.isChain_cons_cons, hsame]

/-! ## What is written -/

section

variable {α : Type*} {p : α → Bool} {l rest : List α} (hl : ∀ x ∈ l, p x = true) (hrest : ∀ x ∈ rest.head?, p x = false)
include hl hrest

theorem takeWhile_append_eq : (l ++ rest).takeWhile p = l := by
  rw [List.takeWhile_append_of_pos hl]
  cases rest with
  | nil => rw [List.takeWhile_nil, List.append_nil]
  | cons x rest => rw [List.takeWhile_cons_of_neg (by rw [hrest x rfl]; exact Bool.false_ne_true), List.append_nil]

theorem dropWhile_append_eq : (l ++ rest).dropWhile p = rest := by
  rw [List.dropWhile_append_of_pos hl]
  cases rest with
  | nil => rfl
  | cons x rest => rw [List.dropWhile_cons_of_neg (by rw [hrest x rfl]; exact Bool.false_ne_true)]

end

section

variable (converter : Converter)

theorem write_printable (hc : ¬ InRun c) (hampersand : c ≠ 0x26) (rest : WString) :
    MAPI2IMAPCharset converter (c :: rest) =
      (MAPI2IMAPCharset converter rest).map fun output => plain c ++ output := by
  rw [MAPI2IMAPCharset, if_pos (isPrintable_iff.mpr ⟨hc, hampersand⟩)]

theorem write_ampersand (rest : WString) : MAPI2IMAPCharset converter (0x26 :: rest) =
      (MAPI2IMAPCharset converter rest).map fun output => [38, 45] ++ output := by
  rw [MAPI2IMAPCharset, if_neg (by decide), if_pos rfl]

/-- The loop of the conversion over a run, which goes through the converter as a whole. -/
theorem write_run {rest : WString} (hne : run ≠ []) (hrun : ∀ c ∈ run, InRun c)
    (hend : ∀ c ∈ rest.head?, ¬ InRun c) {utf7 : Str} (hutf7 : converter.toUtf7 run = some utf7) :
    MAPI2IMAPCharset converter (run ++ rest) =
      (MAPI2IMAPCharset converter rest).map fun output => imapUtf7 utf7 ++ output := by
  cases run with
  | nil => exact absurd rfl hne
  | cons c run =>
    obtain ⟨hc, hrun'⟩ := List.forall_mem_cons.mp hrun
    have htake : (run ++ rest).takeWhile (fun c => decide (InRun c)) = run :=
      takeWhile_append_eq (fun x hx => decide_eq_true (hrun' x hx)) fun x hx => decide_eq_false (hend x hx)
    have hdrop : (run ++ rest).dropWhile (fun c => decide (InRun c)) = rest :=
      dropWhile_append_eq (fun x hx => decide_eq_true (hrun' x hx)) fun x hx => decide_eq_false (hend x hx)
    rw [List.cons_append, MAPI2IMAPCharset, if_neg fun h => (isPrintable_iff.mp h).1 hc,
      if_neg (by rintro rfl; revert hc; decide), htake, hdrop, hutf7]
    rfl

end

/-- What is written for a name. -/
def folderName (input : WString) : Str := (MAPI2IMAPCharset .strict input).getD []

/-- With the converter that follows the standard, every name is written as the specification says. -/
theorem write_strict (input : WString) : MAPI2IMAPCharset .strict input = some (folderName input) := by
  have hsome : (MAPI2IMAPCharset .strict input).isSome = true := by
    induction cut input with
    | nil => rw [MAPI2IMAPCharset]; rfl
    | @printable c rest hc hrest ih =>
      by_cases hampersand : c = 0x26
      · rw [hampersand, write_ampersand, Option.isSome_map, ih]
      · rw [write_printable _ hc hampersand, Option.isSome_map, ih]
    | run hne hrun hend hrest ih => rw [write_run .strict hne hrun hend rfl, Option.isSome_map, ih]
  obtain ⟨output, houtput⟩ := Option.isSome_iff_exists.mp hsome
  rw [folderName, houtput]
  rfl

theorem folderName_nil : folderName [] = [] := by
  rw [folderName, MAPI2IMAPCharset]
  rfl

theorem folderName_printable (hc : ¬ InRun c) (hampersand : c ≠ 0x26) (rest : WString) :
    folderName (c :: rest) = plain c ++ folderName rest := by
  rw [folderName, write_printable _ hc hampersand, write_strict]
  rfl

theorem folderName_ampersand (rest : WString) : folderName (0x26 :: rest) = 38 :: 45 :: folderName rest := by
  rw [folderName, write_ampersand, write_strict]
  rfl

theorem folderName_run {rest : WString} (hne : run ≠ []) (hrun : ∀ c ∈ run, InRun c)
    (hend : ∀ c ∈ rest.head?, ¬ InRun c) : folderName (run ++ rest) = imapUtf7 (encode run) ++ folderName rest := by
  rw [folderName, write_run .strict hne hrun hend rfl, write_strict]
  rfl

/-- All converters write the same. -/
theorem write_eq (converter : Converter) {input : WString} (hbmp : ∀ c ∈ input, IsBmp c) :
    MAPI2IMAPCharset converter input = some (folderName input) := by
  induction cut input with
  | nil => rw [MAPI2IMAPCharset, folderName_nil]
  | @printable c rest hc hrest ih =>
    have ih := ih fun x hx => hbmp x (List.mem_cons_of_mem c hx)
    by_cases hampersand : c = 0x26
    · rw [hampersand, write_ampersand, ih, folderName_ampersand]
      rfl
    · rw [write_printable _ hc hampersand, ih, folderName_printable hc hampersand]
      rfl
  | @run run rest hne hrun hend hrest ih =>
    have hutf7 := converter.toUtf7_eq run (fun x hx => hbmp x (List.mem_append_left rest hx)) hrun
    rw [write_run converter hne hrun hend hutf7, ih fun x hx => hbmp x (List.mem_append_right run hx),
      folderName_run hne hrun hend]
    rfl

variable {b : UInt8}

theorem plain_lt (hc : ¬ InRun c) (hb : b ∈ plain c) : b < 128 := by
  have hlt := toUInt8_lt (lt_of_not_inRun hc)
  unfold plain at hb
  split_ifs at hb
  · rcases List.mem_cons.mp hb with rfl | hb
    · decide
    · exact List.mem_singleton.mp hb ▸ hlt
  · exact List.mem_singleton.mp hb ▸ hlt

/-- What IMAP makes of UTF-7 has bytes of seven bits only. -/
theorem imapUtf7_lt {utf7 : Str} (h : ∀ b ∈ utf7, b < 128) (hb : b ∈ imapUtf7 utf7) : b < 128 := by
  obtain ⟨b', hb', rfl⟩ := List.mem_map.mp hb
  have hlt : b' < 128 := by
    rcases List.mem_or_eq_of_mem_set hb' with hb' | rfl
    · exact h b' hb'
    · decide
  unfold toComma
  split_ifs
  · decide
  · exact hlt

/-- Only 7-bit characters are written. -/
theorem folderName_lt (input : WString) : ∀ b ∈ folderName input, b < 128 := by
  induction cut input with
  | nil => simp [folderName_nil]
  | @printable c rest hc hrest ih =>
    by_cases hampersand : c = 0x26
    · rw [hampersand, folderName_ampersand]
      exact List.forall_mem_cons.mpr ⟨by decide, List.forall_mem_cons.mpr ⟨by decide, ih⟩⟩
    · rw [folderName_printable hc hampersand]
      exact List.forall_mem_append.mpr ⟨fun b => plain_lt hc, ih⟩
  | @run run rest hne hrun hend hrest ih =>
    rw [folderName_run hne hrun hend]
    exact List.forall_mem_append.mpr ⟨fun b => imapUtf7_lt fun b => encodeFrom_lt, ih⟩

/-! ## What is read -/

section

variable (converter : Converter)

theorem read_literal (hb : b < 128) (hampersand : b ≠ 38) (hbackslash : b ≠ 92) (rest : Str) :
    IMAP2MAPICharset converter (b :: rest) =
      (IMAP2MAPICharset converter rest).map fun output => b.toUInt32 :: output := by
  have hle : ¬ 127 < b := by
    rw [UInt8.lt_iff_toNat_lt] at hb ⊢
    simp only [UInt8.reduceToNat] at hb ⊢
    omega
  rw [IMAP2MAPICharset, if_neg hle, if_neg hampersand, if_neg fun h => hbackslash h.1]

/-- The loop of the reading over bytes that stand for themselves. The induction is on these bytes. -/
theorem read_literals {l : Str} (hl : ∀ b ∈ l, b < 128 ∧ b ≠ 38 ∧ b ≠ 92) (rest : Str) :
    IMAP2MAPICharset converter (l ++ rest) =
      (IMAP2MAPICharset converter rest).map fun output => l.map UInt8.toUInt32 ++ output := by
  induction l with
  | nil =>
    show _ = (IMAP2MAPICharset converter rest).map fun output => output
    rw [Option.map_id']
    rfl
  | cons b l ih =>
    obtain ⟨⟨hb, hampersand, hbackslash⟩, hl⟩ := List.forall_mem_cons.mp hl
    rw [List.cons_append, read_literal converter hb hampersand hbackslash, ih hl, Option.map_map]
    rfl

theorem read_escaped (hb : b = 34 ∨ b = 92) (rest : Str) : IMAP2MAPICharset converter (92 :: b :: rest) =
      (IMAP2MAPICharset converter rest).map fun output => b.toUInt32 :: output := by
  have hhead : (b :: rest).head? = some 34 ∨ (b :: rest).head? = some 92 := by
    rcases hb with rfl | rfl
    · exact Or.inl rfl
    · exact Or.inr rfl
  rw [IMAP2MAPICharset, if_neg (by decide), if_neg (by decide), if_pos ⟨rfl, hhead⟩]
  rfl

/-- What is written for a printable character is read as this character, with the backslash or without. -/
theorem read_plain (hc : ¬ InRun c) (hampersand : c ≠ 0x26) (rest : Str) :
    IMAP2MAPICharset converter (plain c ++ rest) =
      (IMAP2MAPICharset converter rest).map fun output => c :: output := by
  have hvalue := toUInt32_toUInt8 (lt_of_not_inRun hc)
  unfold plain
  split_ifs with hescape
  · have hbyte : c.toUInt8 = 34 ∨ c.toUInt8 = 92 := by rcases hescape with rfl | rfl <;> decide
    rw [List.cons_append, List.singleton_append, read_escaped converter hbyte, hvalue]
  · rw [not_or] at hescape
    have hne : ∀ b : UInt8, c ≠ b.toUInt32 → c.toUInt8 ≠ b := fun b h heq => h (heq ▸ hvalue.symm)
    rw [List.singleton_append, read_literal converter (toUInt8_lt (lt_of_not_inRun hc)) (hne 38 hampersand)
      (hne 92 hescape.2), hvalue]

theorem read_ampersand (rest : Str) : IMAP2MAPICharset converter (38 :: 45 :: rest) =
      (IMAP2MAPICharset converter rest).map fun output => 38 :: output := by
  rw [IMAP2MAPICharset, if_neg (by decide), if_pos rfl, if_neg (List.cons_ne_nil _ _), if_pos List.head?_cons]
  rfl

/-- A sequence behind an ampersand, up to a minus sign or the end. -/
theorem read_sequence {w rest : Str} (hne : w ≠ []) (hw : ∀ b ∈ w, b ≠ 45) (hrest : ∀ b ∈ rest.head?, b = 45) :
    IMAP2MAPICharset converter (38 :: (w ++ rest)) = (converter.ofUtf7 (43 :: w.map ofComma)).bind fun conv =>
        (IMAP2MAPICharset converter rest.tail).map fun output => conv ++ output := by
  have htake : (w ++ rest).takeWhile (fun b => decide (b ≠ 45)) = w :=
    takeWhile_append_eq (fun x hx => decide_eq_true (hw x hx)) fun x hx => decide_eq_false (not_not.mpr (hrest x hx))
  have hdrop : (w ++ rest).dropWhile (fun b => decide (b ≠ 45)) = rest :=
    dropWhile_append_eq (fun x hx => decide_eq_true (hw x hx)) fun x hx => decide_eq_false (not_not.mpr (hrest x hx))
  have hhead : (w ++ rest).head? ≠ some 45 := by
    cases w with
    | nil => exact absurd rfl hne
    | cons b w => exact fun h => hw b List.mem_cons_self (Option.some.inj h)
  rw [IMAP2MAPICharset, if_neg (by decide), if_pos rfl, if_neg (List.append_ne_nil_of_left_ne_nil hne rest),
    if_neg hhead, htake, hdrop]

end

/-! ## Runs that come back -/

theorem ofComma_toComma (hb : (charSextet b).isSome = true) : ofComma (toComma b) = b := by
  have hall : ∀ b : UInt8, (charSextet b).isSome = true → ofComma (toComma b) = b := by decide +kernel
  exact hall b hb

theorem toComma_ne_minus (hb : (charSextet b).isSome = true) : toComma b ≠ 45 := by
  have hall : ∀ b : UInt8, (charSextet b).isSome = true → toComma b ≠ 45 := by decide +kernel
  exact hall b hb

theorem map_ofComma_base64 (s : WString) : ((base64 s).map toComma).map ofComma = base64 s := by
  rw [List.map_map]
  refine (List.map_congr_left fun b hb => ?_).trans (List.map_id _)
  exact ofComma_toComma (isSome_of_mem_base64 hb)

theorem imapUtf7_shifted (hc : ¬ IsDirectControl c) (run : WString) :
    imapUtf7 (encode (c :: run)) = 38 :: ((base64 (c :: shiftedPart run)).map toComma ++
      45 :: (encode (behindShifted run)).map toComma) := by
  rw [encode, encodeFrom_eq, List.nil_append, List.takeWhile_cons_of_pos (by simpa using hc),
    List.dropWhile_cons_of_pos (by simpa using hc), shift_of_ne_nil (List.cons_ne_nil _ _), imapUtf7]
  simp only [List.cons_append, List.set_cons_zero, List.map_cons, List.map_append, List.append_assoc,
    List.nil_append, shiftedPart, behindShifted, encode, toComma]
  rfl

/-- A run that begins with characters to be shifted is read as these first. -/
theorem read_shifted (converter : Converter) (hc : ¬ IsDirectControl c)
    (hbmp : ∀ x ∈ c :: run, IsBmp x) (rest : Str) :
    IMAP2MAPICharset converter (imapUtf7 (encode (c :: run)) ++ rest) =
      (IMAP2MAPICharset converter ((encode (behindShifted run)).map toComma ++ rest)).map fun output =>
        c :: shiftedPart run ++ output := by
  have hshifted : ∀ x ∈ c :: shiftedPart run, IsBmp x := by
    obtain ⟨hfirst, hrun⟩ := List.forall_mem_cons.mp hbmp
    exact List.forall_mem_cons.mpr ⟨hfirst, fun x hx => hrun x ((List.takeWhile_sublist _).subset hx)⟩
  have hne : (base64 (c :: shiftedPart run)).map toComma ≠ [] := fun h =>
    base64_ne_nil (List.cons_ne_nil _ _) (List.map_eq_nil_iff.mp h)
  have hminus : ∀ b ∈ (base64 (c :: shiftedPart run)).map toComma, b ≠ 45 := by
    intro b hb
    obtain ⟨b', hb', rfl⟩ := List.mem_map.mp hb
    exact toComma_ne_minus (isSome_of_mem_base64 hb')
  rw [imapUtf7_shifted hc, List.cons_append, List.append_assoc,
    read_sequence converter hne hminus fun b hb => (Option.mem_some.mp hb).symm, map_ofComma_base64,
    converter.ofUtf7_eq _ _ (decode_shift hshifted (List.cons_ne_nil _ _))]
  rfl

/-- Tabulators and line ends are read as they are. -/
theorem read_controls (converter : Converter) {controls : WString} (hcontrols : ∀ c ∈ controls, IsDirectControl c)
    (rest : Str) : IMAP2MAPICharset converter ((controls.map UInt32.toUInt8).map toComma ++ rest) =
      (IMAP2MAPICharset converter rest).map fun output => controls ++ output := by
  have hliteral : ∀ b ∈ (controls.map UInt32.toUInt8).map toComma, b < 128 ∧ b ≠ 38 ∧ b ≠ 92 := by
    simp only [List.mem_map, forall_exists_index, and_imp, forall_apply_eq_imp_iff₂]
    intro c hc
    rcases hcontrols c hc with rfl | rfl | rfl <;> decide
  have hvalues : ((controls.map UInt32.toUInt8).map toComma).map UInt8.toUInt32 = controls := by
    rw [List.map_map, List.map_map]
    refine (List.map_congr_left fun c hc => ?_).trans (List.map_id _)
    rcases hcontrols c hc with rfl | rfl | rfl <;> rfl
  rw [read_literals converter hliteral, hvalues]

/-- A run comes back when all its tabulators and line ends are at its end. -/
theorem read_run (converter : Converter) (hc : ¬ IsDirectControl c)
    (hbmp : ∀ x ∈ c :: run, IsBmp x) (hending : IsEnding run) (rest : Str) :
    IMAP2MAPICharset converter (imapUtf7 (encode (c :: run)) ++ rest) =
      (IMAP2MAPICharset converter rest).map fun output => c :: run ++ output := by
  have hencode : encode (behindShifted run) = (behindShifted run).map UInt32.toUInt8 := by
    have hdirect := encodeFrom_direct hending []
    rwa [List.append_nil, encodeFrom, shift_nil, List.append_nil] at hdirect
  have hsplit : shiftedPart run ++ behindShifted run = run := List.takeWhile_append_dropWhile
  rw [read_shifted converter hc hbmp, hencode, read_controls converter hending, Option.map_map]
  refine congrArg (fun f => Option.map f _) (funext fun output => ?_)
  show c :: shiftedPart run ++ (behindShifted run ++ output) = c :: run ++ output
  rw [← List.append_assoc, List.cons_append, hsplit]

/-- The names that come back for every converter. -/
theorem read_folderName (converter : Converter) {input : WString} (hbmp : ∀ c ∈ input, IsBmp c)
    (hruns : ControlsEndRuns input) : IMAP2MAPICharset converter (folderName input) = some input := by
  induction cut input with
  | nil => rw [folderName_nil, IMAP2MAPICharset]
  | @printable c rest hc hrest ih =>
    have ih := ih (fun x hx => hbmp x (List.mem_cons_of_mem c hx)) ((controlsEndRuns_printable hc rest).mp hruns)
    by_cases hampersand : c = 0x26
    · rw [hampersand, folderName_ampersand, read_ampersand, ih]
      rfl
    · rw [folderName_printable hc hampersand, read_plain converter hc hampersand, ih]
      rfl
  | @run run rest hne hrun hend hrest ih =>
    cases run with
    | nil => exact absurd rfl hne
    | cons c run =>
      obtain ⟨hc, hending, hruns⟩ := (controlsEndRuns_run hend hrun).mp hruns
      rw [folderName_run hne hrun hend, read_run converter hc (fun x hx => hbmp x (List.mem_append_left rest hx)) hending,
        ih (fun x hx => hbmp x (List.mem_append_right _ hx)) hruns]
      rfl

/-! ## Runs that do not come back

Behind the first run that does not come back, what has been read is short of what has been written. The characters
that are missing are those that follow, and none of them can be the first of another run. -/

/-- A character that is one of base64 as IMAP has it. -/
def IsBase64Char (c : WChar) : Prop := ¬ InRun c ∧ (charSextet (ofComma c.toUInt8)).isSome = true

instance (c : WChar) : Decidable (IsBase64Char c) := inferInstanceAs (Decidable (_ ∧ _))

/-- A character that may be missing. -/
def MayMiss (c : WChar) : Prop := IsBase64Char c ∨ c = 45 ∨ IsDirectControl c

instance (c : WChar) : Decidable (MayMiss c) := inferInstanceAs (Decidable (_ ∨ _))

theorem MayMiss.lt (h : MayMiss c) : c < 0x80 := by
  rcases h with h | rfl | rfl | rfl | rfl
  · exact lt_of_not_inRun h.1
  all_goals decide

theorem not_mayMiss_of_inRun (hc : InRun c) (hcontrol : ¬ IsDirectControl c) : ¬ MayMiss c := by
  rintro (h | rfl | h)
  · exact h.1 hc
  · revert hc
    decide
  · exact hcontrol h

/-- The rest of a name is never read behind missing characters, and neither when it has a run itself that does not come
back. -/
def NeverRead (rest : WString) : Prop :=
  ∀ v, (∀ c ∈ v, MayMiss c) → v ≠ [] ∨ ¬ ControlsEndRuns rest →
    IMAP2MAPICharset .strict (folderName rest) ≠ some (v ++ rest)

/-- A run that does not end well has a shifted character behind control characters. -/
theorem exists_of_not_isEnding (h : ¬ IsEnding run) :
    ∃ controls x more, (∀ c ∈ controls, IsDirectControl c) ∧ behindShifted run = controls ++ x :: more ∧
      ¬ IsDirectControl x := by
  have hsplit : (behindShifted run).takeWhile (fun c => IsDirectControl c) ++
      (behindShifted run).dropWhile (fun c => IsDirectControl c) = behindShifted run :=
    List.takeWhile_append_dropWhile
  have hhead := List.head?_dropWhile_not (fun c => decide (IsDirectControl c)) (behindShifted run)
  cases hdrop : (behindShifted run).dropWhile fun c => IsDirectControl c with
  | nil =>
    refine absurd (fun c hc => ?_) h
    simpa using List.dropWhile_eq_nil_iff.mp hdrop c hc
  | cons x more =>
    rw [hdrop] at hsplit hhead
    exact ⟨_, x, more, fun c hc => by simpa using List.mem_takeWhile_imp hc, hsplit.symm, by simpa using hhead⟩

theorem encode_shifted (hc : ¬ IsDirectControl c) (run : WString) :
    encode (c :: run) = 43 :: (base64 (c :: shiftedPart run) ++ 45 :: encode (behindShifted run)) := by
  rw [encode, encodeFrom_eq, List.nil_append, List.takeWhile_cons_of_pos (by simpa using hc),
    List.dropWhile_cons_of_pos (by simpa using hc), shift_of_ne_nil (List.cons_ne_nil _ _), List.append_assoc]
  rfl

section

variable {v rest : WString}

variable {output : WString}

theorem mayMiss_head {d : WChar} (hv : ∀ c ∈ v, MayMiss c) (hd : MayMiss d)
    (heq : c :: output = v ++ d :: rest) : MayMiss c := by
  cases v with
  | nil => exact (List.cons.inj heq).1 ▸ hd
  | cons a v => exact (List.cons.inj heq).1 ▸ hv a List.mem_cons_self

/-- A character that is read as it is takes the place of the first one that is missing. -/
theorem NeverRead.cons (ih : NeverRead rest) (hv : ∀ c ∈ v, MayMiss c) (hruns : v ≠ [] ∨ ¬ ControlsEndRuns rest) :
    (IMAP2MAPICharset .strict (folderName rest)).map (fun output => c :: output) ≠ some (v ++ c :: rest) := by
  intro h
  obtain ⟨output, hread, heq⟩ := Option.map_eq_some_iff.mp h
  cases v with
  | nil =>
    obtain ⟨-, rfl⟩ := List.cons.inj heq
    exact ih [] (fun _ hx => nomatch hx) (Or.inr (hruns.resolve_left fun h => h rfl)) hread
  | cons a v =>
    obtain ⟨rfl, rfl⟩ := List.cons.inj heq
    obtain ⟨hc, hv⟩ := List.forall_mem_cons.mp hv
    refine ih (v ++ [c]) (fun x hx => ?_) (Or.inl (by simp)) ?_
    · rcases List.mem_append.mp hx with hx | hx
      · exact hv x hx
      · exact List.mem_singleton.mp hx ▸ hc
    · rw [hread, List.append_assoc, List.singleton_append]
      rfl

/-- A run that begins with characters to be shifted is read up to the first of them behind a tabulator or a line end,
where there is a plus sign instead. -/
theorem NeverRead.shifted (ih : NeverRead rest) (hv : ∀ c ∈ v, MayMiss c) (hc : ¬ IsDirectControl c)
    (hrun : ∀ x ∈ c :: run, InRun x) (hend : ∀ x ∈ rest.head?, ¬ InRun x)
    (hbmp : ∀ x ∈ c :: run, IsBmp x) (hruns : v ≠ [] ∨ ¬ ControlsEndRuns (c :: run ++ rest)) :
    IMAP2MAPICharset .strict (folderName (c :: run ++ rest)) ≠ some (v ++ (c :: run ++ rest)) := by
  intro h
  rw [folderName_run (List.cons_ne_nil _ _) hrun hend] at h
  cases v with
  | cons a v =>
    rw [read_shifted .strict hc hbmp] at h
    obtain ⟨output, -, heq⟩ := Option.map_eq_some_iff.mp h
    have hca : c = a := (List.cons.inj heq).1
    exact not_mayMiss_of_inRun (hrun c List.mem_cons_self) hc (hca ▸ hv a List.mem_cons_self)
  | nil =>
    rw [controlsEndRuns_run hend hrun] at hruns
    by_cases hending : IsEnding run
    · rw [read_run .strict hc hbmp hending] at h
      obtain ⟨output, hread, heq⟩ := Option.map_eq_some_iff.mp h
      obtain rfl : output = rest := List.append_cancel_left heq
      refine ih [] (fun _ hx => nomatch hx) (Or.inr fun hends => ?_) hread
      exact hruns.resolve_left (fun h => h rfl) ⟨hc, hending, hends⟩
    · obtain ⟨controls, x, more, hcontrols, hbehind, hx⟩ := exists_of_not_isEnding hending
      have hmem : x ∈ behindShifted run := hbehind ▸ List.mem_append_right controls List.mem_cons_self
      have hxrun : InRun x :=
        hrun x (List.mem_cons_of_mem c ((List.dropWhile_sublist _).subset hmem))
      have hsplit : shiftedPart run ++ behindShifted run = run := List.takeWhile_append_dropWhile
      rw [read_shifted .strict hc hbmp, hbehind, encode, encodeFrom_direct hcontrols, ← encode, encode_shifted hx,
        List.map_append, List.append_assoc, read_controls .strict hcontrols, List.map_cons, List.cons_append,
        show toComma 43 = 43 from rfl, read_literal .strict (by decide) (by decide) (by decide)] at h
      obtain ⟨output, hread, heq⟩ := Option.map_eq_some_iff.mp h
      obtain ⟨output', hread', rfl⟩ := Option.map_eq_some_iff.mp hread
      obtain ⟨output'', -, rfl⟩ := Option.map_eq_some_iff.mp hread'
      have hrest : run ++ rest = shiftedPart run ++ (controls ++ x :: (more ++ rest)) := by
        conv_lhs => rw [← hsplit, hbehind]
        rw [List.append_assoc, List.append_assoc, List.cons_append]
      have hplus := List.append_cancel_left (List.append_cancel_left ((List.cons.inj heq).2.trans hrest))
      have hx43 : x = 43 := (List.cons.inj hplus).1.symm
      rw [hx43] at hxrun
      exact absurd hxrun (by decide)

/-! ### Runs that begin with a tabulator or a line end -/

/-- What is behind an ampersand is not read when its first character is none of base64. -/
theorem read_illFormed (hb : charSextet (ofComma b) = none) (hminus : b ≠ 45) (t : Str) :
    IMAP2MAPICharset .strict (38 :: b :: t) = none := by
  have hminus' : ofComma b ≠ 45 := by
    unfold ofComma
    split_ifs
    · decide
    · exact hminus
  have hhead : (b :: t).head? ≠ some 45 := fun h => hminus (Option.some.inj h)
  have hdecode : ∀ t, Converter.strict.ofUtf7 (43 :: ofComma b :: t) = none := decode_plus_cons hb hminus'
  rw [IMAP2MAPICharset, if_neg (by decide), if_pos rfl, if_neg (List.cons_ne_nil _ _), if_neg hhead,
    List.takeWhile_cons_of_pos (by simpa using hminus), List.map_cons, hdecode]
  rfl

theorem imapUtf7_control {d : WChar} (hd : IsDirectControl d) (run : WString) :
    imapUtf7 (encode (d :: run)) = 38 :: (encode run).map toComma := by
  rw [encode, encodeFrom, if_pos hd, shift_nil, imapUtf7]
  rfl

variable {w : WString}

/-- Characters of base64 are written as they are. -/
theorem folderName_base64 (hw : ∀ c ∈ w, IsBase64Char c) (rest : WString) :
    folderName (w ++ rest) = w.map UInt32.toUInt8 ++ folderName rest := by
  induction w with
  | nil => rfl
  | cons c w ih =>
    obtain ⟨hc, hw⟩ := List.forall_mem_cons.mp hw
    have hne : ∀ c', ¬ IsBase64Char c' → c ≠ c' := fun c' hc' heq => hc' (heq ▸ hc)
    have hplain : plain c = [c.toUInt8] :=
      if_neg (not_or.mpr ⟨hne 34 (by decide), hne 92 (by decide)⟩)
    rw [List.cons_append, folderName_printable hc.1 (hne 0x26 (by decide)), hplain, ih hw]
    rfl

/-- Other characters than those, and the minus sign, begin with a byte that ends a sequence of base64. -/
theorem folderName_head (hc : ¬ IsBase64Char c) (hminus : c ≠ 45) (rest : WString) :
    ∃ b t, folderName (c :: rest) = b :: t ∧ charSextet (ofComma b) = none ∧ b ≠ 45 ∧ ¬ MayMiss b.toUInt32 := by
  by_cases hrun : InRun c
  · have hcut := cut (c :: rest)
    generalize hs : c :: rest = s at hcut
    cases hcut with
    | nil => cases hs
    | printable hc' _ => exact absurd ((List.cons.inj hs).1 ▸ hrun) hc'
    | @run run rest hne hrun' hend _ =>
      cases run with
      | nil => exact absurd rfl hne
      | cons x run =>
        have hfirst : ∃ b t, encode (x :: run) = b :: t := by
          by_cases hx : IsDirectControl x
          · exact ⟨_, _, by rw [encode, encodeFrom, if_pos hx, shift_nil]; rfl⟩
          · exact ⟨_, _, encode_shifted hx run⟩
        obtain ⟨b, t, hfirst⟩ := hfirst
        exact ⟨38, _, by rw [folderName_run hne hrun' hend, hfirst]; rfl, by decide, by decide, by decide⟩
  · by_cases hampersand : c = 0x26
    · exact ⟨38, _, by rw [hampersand, folderName_ampersand], by decide, by decide, by decide⟩
    · have hvalue := toUInt32_toUInt8 (lt_of_not_inRun hrun)
      rw [folderName_printable hrun hampersand]
      unfold plain
      split_ifs with hescape
      · exact ⟨92, _, rfl, by decide, by decide, by decide⟩
      · have hnone : charSextet (ofComma c.toUInt8) = none := by
          by_contra hsome
          exact hc ⟨hrun, Option.isSome_iff_ne_none.mpr hsome⟩
        refine ⟨c.toUInt8, _, rfl, hnone, fun heq => hminus ?_, ?_⟩
        · rw [← hvalue, heq]
          rfl
        · rw [hvalue]
          rintro (h | h | h)
          · exact hc h
          · exact hminus h
          · exact hrun (inRun_of_isDirectControl h)

theorem isSome_of_isBase64Char (hw : ∀ c ∈ w, IsBase64Char c) :
    ∀ b ∈ (w.map UInt32.toUInt8).map ofComma, (charSextet b).isSome = true := by
  simp only [List.mem_map, forall_exists_index, and_imp, forall_apply_eq_imp_iff₂]
  exact fun c hc => (hw c hc).2

theorem ne_minus_of_isBase64Char (hw : ∀ c ∈ w, IsBase64Char c) : ∀ b ∈ w.map UInt32.toUInt8, b ≠ 45 := by
  intro b hb heq
  obtain ⟨c, hc, rfl⟩ := List.mem_map.mp hb
  have hsome := (hw c hc).2
  rw [heq] at hsome
  exact absurd hsome (by decide)

/-- Characters of base64 in front of a minus sign or the end are read as no more characters than they are. -/
theorem read_base64 (hw : ∀ c ∈ w, IsBase64Char c) (hne : w ≠ []) {t : Str} (ht : ∀ b ∈ t.head?, b = 45)
    (h : IMAP2MAPICharset .strict (38 :: (w.map UInt32.toUInt8 ++ t)) = some output) :
    ∃ u behind, u.length ≤ w.length ∧ IMAP2MAPICharset .strict t.tail = some behind ∧ output = u ++ behind := by
  have hbytes : w.map UInt32.toUInt8 ≠ [] := fun h => hne (List.map_eq_nil_iff.mp h)
  have hbase64 := isSome_of_isBase64Char hw
  rw [read_sequence .strict hbytes (ne_minus_of_isBase64Char hw) ht] at h
  obtain ⟨u, hu, h⟩ := Option.bind_eq_some_iff.mp h
  obtain ⟨behind, hbehind, rfl⟩ := Option.map_eq_some_iff.mp h
  refine ⟨u, behind, ?_, hbehind, rfl⟩
  have hunits : units (sextets ((w.map UInt32.toUInt8).map ofComma)) = some u :=
    (decode_sequence hbase64 fun h => hbytes (List.map_eq_nil_iff.mp h)).symm.trans hu
  have hlength := length_units hunits
  rwa [length_sextets hbase64, List.length_map, List.length_map] at hlength

/-- In front of another byte that byte follows. -/
theorem read_base64_cons (hw : ∀ c ∈ w, IsBase64Char c) (hne : w ≠ [])
    (hb : charSextet (ofComma b) = none) (hminus : b ≠ 45) {t : Str}
    (h : IMAP2MAPICharset .strict (38 :: (w.map UInt32.toUInt8 ++ b :: t)) = some output) :
    ∃ u more, u.length ≤ w.length ∧ output = u ++ b.toUInt32 :: more := by
  have hbase64 := isSome_of_isBase64Char hw
  have hbytes : (w.map UInt32.toUInt8).map ofComma ≠ [] := fun h =>
    hne (List.map_eq_nil_iff.mp (List.map_eq_nil_iff.mp h))
  have hcomma : ofComma b = b := if_neg (by rintro rfl; revert hb; decide)
  have htext : w.map UInt32.toUInt8 ++ b :: t =
      (w.map UInt32.toUInt8 ++ b :: t.takeWhile fun b => b ≠ 45) ++ t.dropWhile fun b => b ≠ 45 := by
    rw [List.append_assoc, List.cons_append, List.takeWhile_append_dropWhile]
  have hhead : ∀ x ∈ (t.dropWhile fun b => b ≠ 45).head?, x = 45 := by
    intro x hx
    have hnot := List.head?_dropWhile_not (fun b => decide (b ≠ 45)) t
    rw [Option.mem_def.mp hx] at hnot
    simpa using hnot
  have hw' : ∀ x ∈ w.map UInt32.toUInt8 ++ b :: t.takeWhile fun b => b ≠ 45, x ≠ 45 := by
    refine List.forall_mem_append.mpr ⟨ne_minus_of_isBase64Char hw, List.forall_mem_cons.mpr ⟨hminus, fun x hx => ?_⟩⟩
    simpa using List.mem_takeWhile_imp hx
  rw [htext, read_sequence .strict (by simp) hw' hhead, List.map_append, List.map_cons, hcomma] at h
  rw [hcomma] at hb
  obtain ⟨s, hs, h⟩ := Option.bind_eq_some_iff.mp h
  obtain ⟨behind, -, rfl⟩ := Option.map_eq_some_iff.mp h
  obtain ⟨u, s', hunits, rfl⟩ := decode_sequence_cons hbase64 hbytes hb hminus hs
  refine ⟨u, s' ++ behind, ?_, by rw [List.append_assoc]; rfl⟩
  have hlength := length_units hunits
  rwa [length_sextets hbase64, List.length_map, List.length_map] at hlength

variable (hv : ∀ c ∈ v, MayMiss c) {d : WChar} (hd : IsDirectControl d)
include hv hd

/-- The second character of a run does not save it. -/
theorem read_control_run (t : Str) :
    IMAP2MAPICharset .strict (imapUtf7 (encode (d :: c :: run)) ++ t) ≠ some (v ++ d :: rest) := by
  intro h
  rw [imapUtf7_control hd] at h
  by_cases hc : IsDirectControl c
  · have hnone : IMAP2MAPICharset .strict (38 :: (encode (c :: run)).map toComma ++ t) = none := by
      rw [encode, encodeFrom, if_pos hc, shift_nil]
      rcases hc with rfl | rfl | rfl <;> exact read_illFormed (by decide) (by decide) _
    rw [hnone] at h
    cases h
  · have hw : ∀ b ∈ (43 :: base64 (c :: shiftedPart run)).map toComma, b ≠ 45 := by
      intro b hb
      obtain ⟨b', hb', rfl⟩ := List.mem_map.mp hb
      rcases List.mem_cons.mp hb' with rfl | hb'
      · decide
      · exact toComma_ne_minus (isSome_of_mem_base64 hb')
    have hvalue : ((43 :: base64 (c :: shiftedPart run)).map toComma).map ofComma =
        43 :: base64 (c :: shiftedPart run) := by
      rw [List.map_cons, List.map_cons, map_ofComma_base64]
      rfl
    have htext : (encode (c :: run)).map toComma ++ t = (43 :: base64 (c :: shiftedPart run)).map toComma ++
        45 :: ((encode (behindShifted run)).map toComma ++ t) := by
      rw [encode_shifted hc, ← List.cons_append, List.map_append, List.append_assoc]
      rfl
    rw [List.cons_append, htext, read_sequence .strict (by simp) hw fun b hb => (Option.mem_some.mp hb).symm,
      hvalue] at h
    obtain ⟨u, hu, h⟩ := Option.bind_eq_some_iff.mp h
    obtain ⟨output, -, heq⟩ := Option.map_eq_some_iff.mp h
    obtain ⟨c', u', rfl, hle⟩ := decode_plus_base64 (List.cons_ne_nil _ _) hu
    -- the first character that is read is far from those that may be missing
    have hlt := (mayMiss_head hv (Or.inr (Or.inr hd)) heq).lt
    exact absurd (UInt32.lt_of_lt_of_le hlt (by decide)) (UInt32.not_lt.mpr hle)

/-- Neither does one in front of characters of base64 come back. What is read for these is too short, and what is
missing then is never read. -/
theorem read_control_base64 {behind : WString} (hw : ∀ c ∈ w, IsBase64Char c) (hne : w ≠ [])
    (hbehind : ∀ c ∈ behind.head?, ¬ IsBase64Char c) (ih : ∀ rest, behind = 45 :: rest → NeverRead rest) :
    IMAP2MAPICharset .strict (38 :: folderName (w ++ behind)) ≠ some (v ++ d :: (w ++ behind)) := by
  intro h
  have hmiss : ∀ c ∈ v ++ d :: w, MayMiss c :=
    List.forall_mem_append.mpr ⟨hv, List.forall_mem_cons.mpr ⟨Or.inr (Or.inr hd), fun c hc => Or.inl (hw c hc)⟩⟩
  rw [folderName_base64 hw] at h
  cases behind with
  | nil =>
    rw [folderName_nil] at h
    obtain ⟨u, output, hlength, hread, heq⟩ := read_base64 hw hne (by simp) h
    rw [List.tail_nil, IMAP2MAPICharset] at hread
    obtain rfl := Option.some.inj hread
    have hlengths := congrArg List.length heq
    simp only [List.length_append, List.length_cons, List.length_nil] at hlengths
    omega
  | cons c rest =>
    by_cases hminus : c = 45
    · have hname : folderName (c :: rest) = 45 :: folderName rest := by
        rw [hminus, folderName_printable (by decide) (by decide)]
        rfl
      rw [hname] at h
      obtain ⟨u, output, hlength, hread, heq⟩ := read_base64 hw hne (fun b hb => (Option.mem_some.mp hb).symm) h
      have hsplit : (v ++ d :: w ++ [45]) ++ rest = u ++ output := by
        rw [← heq, hminus]
        simp only [List.append_assoc, List.cons_append, List.nil_append]
      rcases List.append_eq_append_iff.mp hsplit with ⟨extra, hextra, -⟩ | ⟨missing, hmissing, houtput⟩
      · have hlengths := congrArg List.length hextra
        simp only [List.length_append, List.length_cons, List.length_nil] at hlengths
        omega
      · refine ih rest (by rw [hminus]) missing (fun x hx => ?_) (Or.inl ?_) (hread.trans (congrArg some houtput))
        · have hmem : x ∈ v ++ d :: w ++ [45] := hmissing ▸ List.mem_append_right u hx
          rcases List.mem_append.mp hmem with hmem | hmem
          · exact hmiss x hmem
          · exact List.mem_singleton.mp hmem ▸ Or.inr (Or.inl rfl)
        · rintro rfl
          have hlengths := congrArg List.length hmissing
          simp only [List.length_append, List.length_cons, List.length_nil] at hlengths
          omega
    · obtain ⟨b, t, hname, hb, hbminus, hbmiss⟩ := folderName_head (hbehind c rfl) hminus rest
      rw [hname] at h
      obtain ⟨u, more, hlength, heq⟩ := read_base64_cons hw hne hb hbminus h
      have hsplit : (v ++ d :: w) ++ c :: rest = u ++ b.toUInt32 :: more := by
        rw [← heq]
        simp only [List.append_assoc, List.cons_append]
      rcases List.append_eq_append_iff.mp hsplit with ⟨extra, hextra, -⟩ | ⟨missing, hmissing, hmore⟩
      · have hlengths := congrArg List.length hextra
        simp only [List.length_append, List.length_cons] at hlengths
        omega
      · cases missing with
        | nil =>
          have hlengths := congrArg List.length hmissing
          simp only [List.length_append, List.length_cons, List.length_nil] at hlengths
          omega
        | cons x missing =>
          -- the byte behind the sequence would have to be one of the missing characters
          have hx : b.toUInt32 = x := (List.cons.inj hmore).1
          refine hbmiss (hmiss _ ?_)
          rw [hx, hmissing]
          exact List.mem_append_right u List.mem_cons_self

/-- A tabulator or a line end in front of a printable character does not come back. -/
theorem read_control (hend : ∀ x ∈ rest.head?, ¬ InRun x)
    (ih : ∀ w behind, rest = w ++ 45 :: behind → NeverRead behind) :
    IMAP2MAPICharset .strict (38 :: folderName rest) ≠ some (v ++ d :: rest) := by
  intro h
  have hdmiss : MayMiss d := Or.inr (Or.inr hd)
  have hampersand : ∀ output, 38 :: output ≠ v ++ d :: rest := fun output heq =>
    absurd (mayMiss_head hv hdmiss heq) (by decide)
  cases rest with
  | nil =>
    rw [folderName_nil, IMAP2MAPICharset, if_neg (by decide), if_pos rfl, if_pos rfl] at h
    exact hampersand [] (Option.some.inj h)
  | cons c tail =>
    by_cases hminus : c = 45
    · rw [hminus, folderName_printable (by decide) (by decide), show plain 45 = [45] from rfl, List.singleton_append,
        read_ampersand, ← hminus] at h
      obtain ⟨output, -, heq⟩ := Option.map_eq_some_iff.mp h
      exact hampersand output heq
    by_cases hbase64 : IsBase64Char c
    · have hsplit : (c :: tail).takeWhile (fun c => IsBase64Char c) ++ (c :: tail).dropWhile (fun c => IsBase64Char c) =
          c :: tail := List.takeWhile_append_dropWhile
      have hw : ∀ x ∈ (c :: tail).takeWhile fun c => IsBase64Char c, IsBase64Char x := fun x hx => by
        simpa using List.mem_takeWhile_imp hx
      have hne : (c :: tail).takeWhile (fun c => IsBase64Char c) ≠ [] := by
        rw [List.takeWhile_cons_of_pos (by simpa using hbase64)]
        exact List.cons_ne_nil _ _
      have hbehind : ∀ x ∈ ((c :: tail).dropWhile fun c => IsBase64Char c).head?, ¬ IsBase64Char x := by
        intro x hx
        have hnot := List.head?_dropWhile_not (fun c => decide (IsBase64Char c)) (c :: tail)
        rw [Option.mem_def.mp hx] at hnot
        simpa using hnot
      rw [← hsplit] at h
      refine read_control_base64 hv hd hw hne hbehind (fun behind heq =>
        ih ((c :: tail).takeWhile fun c => IsBase64Char c) behind ?_) h
      rw [← heq, hsplit]
    · obtain ⟨b, t, hname, hb, hbminus, -⟩ := folderName_head hbase64 hminus tail
      rw [hname, read_illFormed hb hbminus] at h
      cases h

end

/-! ## Which names come back -/

/-- A name in which the conversion has gone wrong is never read as the name that it was. -/
theorem neverRead {rest : WString} (hbmp : ∀ c ∈ rest, IsBmp c) : NeverRead rest := by
  induction hn : rest.length using Nat.strong_induction_on generalizing rest with
  | h n ih =>
    intro v hv hruns
    have hcut := cut rest
    cases hcut with
    | nil =>
      rw [folderName_nil, IMAP2MAPICharset]
      have hv : v ≠ [] := hruns.resolve_right fun h => h (by simp [ControlsEndRuns])
      exact fun h => hv (by simpa using h)
    | @printable c rest hc _ =>
      have hrest : NeverRead rest :=
        ih rest.length (hn ▸ Nat.lt_succ_self _) (fun x hx => hbmp x (List.mem_cons_of_mem c hx)) rfl
      rw [controlsEndRuns_printable hc] at hruns
      by_cases hampersand : c = 0x26
      · rw [hampersand, folderName_ampersand, read_ampersand]
        exact hrest.cons hv hruns
      · rw [folderName_printable hc hampersand, read_plain .strict hc hampersand]
        exact hrest.cons hv hruns
    | @run run rest hne hrun hend _ =>
      have hshort : ∀ {s : WString}, s.length ≤ rest.length → (∀ x ∈ s, x ∈ rest) → NeverRead s := by
        intro s hlength hsub
        have hpos := List.length_pos_iff.mpr hne
        rw [List.length_append] at hn
        exact ih s.length (by omega) (fun x hx => hbmp x (List.mem_append_right run (hsub x hx))) rfl
      cases run with
      | nil => exact absurd rfl hne
      | cons c run =>
        by_cases hc : IsDirectControl c
        · rw [folderName_run hne hrun hend]
          cases run with
          | nil =>
            rw [imapUtf7_control hc]
            refine read_control hv hc hend fun w behind heq => hshort ?_ fun x hx => ?_
            · rw [heq, List.length_append, List.length_cons]
              omega
            · exact heq ▸ List.mem_append_right w (List.mem_cons_of_mem 45 hx)
          | cons c' run => exact read_control_run hv hc (folderName rest)
        · exact (hshort (le_refl _) fun _ => id).shifted hv hc hrun hend
            (fun x hx => hbmp x (List.mem_append_left rest hx)) hruns

/-- A name comes back from every converter exactly when its tabulators and line ends are at the ends of runs. -/
theorem comesBack_folderName_iff (s : BmpString) : (∀ converter, ComesBack converter s.1) ↔ ControlsEndRuns s.1 := by
  constructor
  · intro h
    obtain ⟨output, hwrite, -, hread⟩ := h .strict
    by_contra hruns
    obtain rfl := Option.some.inj (hwrite.symm.trans (write_strict s.1))
    exact neverRead s.2 [] (fun _ hx => nomatch hx) (Or.inr hruns) hread
  · exact fun hruns converter => ⟨folderName s.1, write_eq converter s.2, folderName_lt s.1,
      read_folderName converter s.2 hruns⟩

/-- A tabulator at the end of a name becomes an ampersand. -/
theorem not_comesBack_tabulator : ¬ ∃ converter, ComesBack converter [97, 9] := by
  rintro ⟨converter, output, hwrite, -, hread⟩
  have hname : folderName [97, 9] = [97, 38] := by
    have hrun := folderName_run (List.cons_ne_nil (9 : WChar) []) (by decide) fun c (hc : c ∈ [].head?) => nomatch hc
    rw [List.append_nil, folderName_nil, List.append_nil] at hrun
    rw [folderName_printable (by decide) (by decide), hrun]
    decide
  rw [write_eq converter (by decide), hname] at hwrite
  obtain rfl := Option.some.inj hwrite
  rw [read_literal converter (by decide) (by decide) (by decide), IMAP2MAPICharset, if_neg (by decide), if_pos rfl,
    if_pos rfl] at hread
  revert hread
  decide

end Zcp.Gateway
