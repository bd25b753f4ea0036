import Mathlib.Data.Finset.Card
import Mathlib.Data.Finset.Range
import Zcp.Client.ECExchangeImportContentsChanges
import Zcp.Libserver.ECICS.PredecessorChangeList

/-!
# Any change list

`IsProcessed` and `IsConflict` on any bytes. Both go from one place of the list to the next by the size byte there,
which they read as a `char`: a size from 128 on leads back. `scansRight_iff` says for which lists and keys they end,
look at no byte outside, and give the right answer; `scansRight_encode_iff` what this is for a list of short keys.
-/

namespace Zcp.Client.ECExchangeImportContentsChanges

open Zcp.Lib
open Zcp.Libserver.ECICS

/-! ## What the functions should do -/

/-- The number behind the GUID of a change key, in as many of its 4 bytes as there are. -/
def numberOf (key : List UInt8) : ℕ := ofLittleEndian ((key.drop sizeofGUID).take 4)

/-- A change of the server that the key is from. -/
def SameSource (key : List UInt8) (e : ChangeKey) : Prop := e.guid = key.take sizeofGUID

instance (key : List UInt8) (e : ChangeKey) : Decidable (SameSource key e) := inferInstanceAs (Decidable (_ = _))

/-- A list has the change of a key, or a newer one of its source. -/
def Holds (key : List UInt8) (keys : List ChangeKey) : Prop :=
  key ∈ keys.map ChangeKey.bytes ∨ ∃ e ∈ keys, SameSource key e ∧ numberOf key < numberOf e.bytes

/-- A list has no change of the source of a key, or an older one. -/
def Unseen (key : List UInt8) (keys : List ChangeKey) : Prop :=
  (∀ e ∈ keys, ¬ SameSource key e) ∨ ∃ e ∈ keys, SameSource key e ∧ numberOf e.bytes < numberOf key

/-- Both functions end and look at bytes of the list and the key only. For a list of change keys `IsProcessed` finds
the key or a newer change of its source, and `IsConflict` no change of the source or an older one. -/
structure ScansRight (key list : List UInt8) : Prop where
  processed : ∃ b, isProcessed (some key) (some list) = some b ∧ ∀ keys, list = encode keys →
    (b = true ↔ Holds key keys)
  conflict : ∃ b, isConflict (some key) (some list) = some b ∧ ∀ keys, list = encode keys →
    (b = true ↔ Unseen key keys)

/-! ## Places -/

section Places

variable (key list : List UInt8)

/-- The size at a place. -/
def charAt (p : ℕ) : ℕ := ofChar 64 (list.getD p 0)

/-- The place behind an entry. -/
def nextPlace (p : ℕ) : ℕ := (p + 1 + charAt list p) % 2 ^ 64

/-- The loops end at a place. -/
def EndsAt (p : ℕ) : Prop := ¬ p < list.length ∨ charAt list p ≤ sizeofGUID

instance (p : ℕ) : Decidable (EndsAt list p) := inferInstanceAs (Decidable (_ ∨ _))

/-- The GUID behind the size at a place is that of the key. A key of nothing but a GUID is not looked for. -/
def SourceAt (p : ℕ) : Prop :=
  sizeofGUID < key.length ∧ (list.drop (p + 1)).take sizeofGUID = key.take sizeofGUID

/-- The key stands at a place, with its size in front. -/
def KeyAt (p : ℕ) : Prop :=
  sizeofGUID < key.length ∧ charAt list p = key.length ∧ (list.drop (p + 1)).take key.length = key

/-- The four bytes behind the GUID of the key are a lower number. -/
def OlderAt (p : ℕ) : Prop := SourceAt key list p ∧ numberOf (list.drop (p + 1)) < numberOf key

/-- The list has the bytes that `IsProcessed` compares at a place: a GUID, and all of the key where GUID and size are
those of the key. -/
def EntryInside (p : ℕ) : Prop := sizeofGUID < key.length → sizeofGUID ≤ (list.drop (p + 1)).length ∧
  (SourceAt key list p → charAt list p = key.length → key.length ≤ (list.drop (p + 1)).length)

/-- The list has the bytes that `IsConflict` compares at a place: a GUID, and a number where the GUID is that of the
key. Then the key has a number too. -/
def NumberInside (p : ℕ) : Prop := sizeofGUID < key.length → sizeofGUID ≤ (list.drop (p + 1)).length ∧
  (SourceAt key list p → sizeofGUID + 4 ≤ (list.drop (p + 1)).length ∧ sizeofGUID + 4 ≤ key.length)

instance (p : ℕ) : Decidable (SourceAt key list p) := inferInstanceAs (Decidable (_ ∧ _))

instance (p : ℕ) : Decidable (KeyAt key list p) := inferInstanceAs (Decidable (_ ∧ _))

instance (p : ℕ) : Decidable (OlderAt key list p) := inferInstanceAs (Decidable (_ ∧ _))

instance (p : ℕ) : Decidable (EntryInside key list p) := inferInstanceAs (Decidable (_ → _))

instance (p : ℕ) : Decidable (NumberInside key list p) := inferInstanceAs (Decidable (_ → _))

/-- The walk from a place meets one with a property. -/
inductive Meets (P : ℕ → Prop) : ℕ → Prop where
  | here {p : ℕ} (hgoes : ¬ EndsAt list p) (hP : P p) : Meets P p
  | step {p : ℕ} (hgoes : ¬ EndsAt list p) (hrest : Meets P (nextPlace list p)) : Meets P p

/-- The walk takes `n` steps until it ends or has found what it looks for, and everything on the way can be read. -/
inductive Scans (readable found : ℕ → Prop) : ℕ → ℕ → Prop where
  | ends {p : ℕ} (hends : EndsAt list p) : Scans readable found p 0
  | found {p : ℕ} (hgoes : ¬ EndsAt list p) (hread : readable p) (hfound : found p) : Scans readable found p 0
  | step {p n : ℕ} (hgoes : ¬ EndsAt list p) (hread : readable p) (hnot : ¬ found p)
    (hrest : Scans readable found (nextPlace list p) n) : Scans readable found p (n + 1)

end Places

/-! ## Which lists are scanned right -/

section Lists

variable (key : List UInt8)

/-- `IsConflict` reads a lower number at an entry: it takes four bytes behind the GUID also from an entry that has
fewer, and goes on with the bytes behind it. -/
def ReadsOlder (keys : List ChangeKey) (behind : List UInt8) : Prop :=
  ∃ before e after, keys = before ++ e :: after ∧ SameSource key e ∧
    numberOf (e.bytes ++ (encode after ++ behind)) < numberOf key

/-- What the entries of a list must be like when all have less than 128 bytes, so that the walk comes to each of them.
A newer change of the source counts only with the key itself. An older one must be read as an older one, and a key of
nothing but a GUID is not looked for. -/
structure ShortRight (keys : List ChangeKey) : Prop where
  newer : (∃ e ∈ keys, SameSource key e ∧ numberOf key < numberOf e.bytes) → key ∈ keys.map ChangeKey.bytes
  older : (∃ e ∈ keys, SameSource key e ∧ numberOf e.bytes < numberOf key) → ReadsOlder key keys []
  bare : ¬ sizeofGUID < key.length → ∀ e ∈ keys, ¬ SameSource key e

variable (pre : List ChangeKey) (e : ChangeKey) (rest : List ChangeKey)

/-- What the walk meets behind an entry of 128 bytes or more. The size is a negative `char` and leads back by 255 bytes
less the size, into the entries in front; if there are not as many bytes, the walk ends. -/
def MeetsBehind (P : ℕ → Prop) : Prop := 255 ≤ (encode pre).length + e.bytes.length ∧
  Meets (encode (pre ++ e :: rest)) P ((encode pre).length + e.bytes.length - 255)

/-- What a list must be like whose first entry of 128 bytes or more is behind the entries `pre`. These are read as
they are. That entry counts for its GUID and number only, and then it depends on the bytes to which it leads back. -/
structure LongRight : Prop where
  processed : key ∈ pre.map ChangeKey.bytes ∨
    (MeetsBehind pre e rest (KeyAt key (encode (pre ++ e :: rest))) ↔ Holds key (pre ++ e :: rest))
  conflict : ReadsOlder key (pre ++ [e]) (encode rest) ∨
    (MeetsBehind pre e rest (OlderAt key (encode (pre ++ e :: rest))) ∨
        (sizeofGUID < key.length → ∀ k ∈ pre ++ [e], ¬ SameSource key k) ∧
          ¬ MeetsBehind pre e rest (SourceAt key (encode (pre ++ e :: rest))) ↔
      Unseen key (pre ++ e :: rest))

/-- The walk by the sizes ends, or meets the key (a lower number), with every comparison inside the list and the key;
and if the list is one of change keys, then these are such that nothing is missed. -/
structure WalksRight (list : List UInt8) : Prop where
  entry : ∃ n, Scans list (EntryInside key list) (KeyAt key list) 0 n
  number : ∃ n, Scans list (NumberInside key list) (OlderAt key list) 0 n
  short : ∀ keys, list = encode keys → (∀ k ∈ keys, k.bytes.length < 128) → ShortRight key keys
  long : ∀ pre e rest, list = encode (pre ++ e :: rest) → (∀ k ∈ pre, k.bytes.length < 128) →
    128 ≤ e.bytes.length → LongRight key pre e rest

end Lists

variable {key list : List UInt8} {p n fuel : ℕ}

/-! ## Walks -/

section Meets

variable {P : ℕ → Prop}

theorem Meets.goes (h : Meets list P p) : ¬ EndsAt list p := by
  cases h with
  | here hgoes => exact hgoes
  | step hgoes => exact hgoes

/-- What is met is met at this place or from the next one on. -/
theorem meets_iff (hgoes : ¬ EndsAt list p) : Meets list P p ↔ P p ∨ Meets list P (nextPlace list p) := by
  constructor
  · intro h
    cases h with
    | here _ hP => exact .inl hP
    | step _ hrest => exact .inr hrest
  · rintro (hP | hrest)
    · exact .here hgoes hP
    · exact .step hgoes hrest

end Meets

section Scans

variable {readable found : ℕ → Prop}

theorem Scans.unique {m : ℕ} (h : Scans list readable found p n) (h' : Scans list readable found p m) : n = m := by
  induction h generalizing m with
  | ends hends =>
    cases h' with
    | ends => rfl
    | found => rfl
    | step hgoes => exact absurd hends hgoes
  | found hgoes hread hfound =>
    cases h' with
    | ends => rfl
    | found => rfl
    | step _ _ hnot => exact absurd hfound hnot
  | step hgoes hread hnot hrest ih =>
    cases h' with
    | ends hends => exact absurd hends hgoes
    | found _ _ hfound => exact absurd hfound hnot
    | step _ _ _ hrest' => rw [ih hrest']

/-- On the way to the end every number of steps that is left belongs to a place in the list. -/
theorem Scans.places (h : Scans list readable found p n) {k : ℕ} (hk : 0 < k) (hkn : k ≤ n) :
    ∃ q < list.length, Scans list readable found q k := by
  induction h with
  | ends => omega
  | found => omega
  | @step p n hgoes hread hnot hrest ih =>
    by_cases hlast : k = n + 1
    · subst hlast
      refine ⟨p, ?_, .step hgoes hread hnot hrest⟩
      by_contra hlt
      exact hgoes (.inl hlt)
    · exact ih (by omega)

/-- A walk that ends comes to no place twice. -/
theorem Scans.le_length (h : Scans list readable found p n) : n ≤ list.length := by
  classical
  have hplace : ∀ k ∈ Finset.range n, ∃ q < list.length, Scans list readable found q (k + 1) := fun k hk =>
    h.places (Nat.succ_pos k) (Finset.mem_range.mp hk)
  choose! q hq hscans using hplace
  have hcard : (Finset.range n).card ≤ (Finset.range list.length).card :=
    Finset.card_le_card_of_injOn q (fun k hk => Finset.mem_coe.mpr (Finset.mem_range.mpr (hq k hk)))
      fun k hk k' hk' heq => Nat.succ.inj ((hscans k hk).unique (heq ▸ hscans k' hk'))
  rwa [Finset.card_range, Finset.card_range] at hcard

end Scans

/-! ## The loop of `IsProcessed` -/

theorem memcmp_eq (a b : List UInt8) (m : ℕ) : memcmp a b m =
    if m ≤ a.length ∧ m ≤ b.length then some (decide (a.take m = b.take m)) else none := by
  unfold Libserver.ECICS.memcmp
  congr 2
  rw [Bool.eq_iff_iff, beq_iff_eq, decide_eq_true_eq]

/-- One comparison of `IsProcessed`: it is made on bytes of the list, and finds the key. -/
theorem isEntry_eq (key list : List UInt8) (p : ℕ) : isEntry key (list.drop (p + 1)) (charAt list p) =
    if EntryInside key list p then some (decide (KeyAt key list p)) else none := by
  unfold isEntry
  by_cases hkey : sizeofGUID < key.length
  · rw [if_pos hkey, memcmp_eq]
    by_cases hguid : sizeofGUID ≤ (list.drop (p + 1)).length
    · rw [if_pos ⟨hguid, hkey.le⟩]
      by_cases hsource : SourceAt key list p
      · rw [decide_eq_true hsource.2]
        by_cases hsize : charAt list p = key.length
        · rw [hsize, memcmp_eq, List.take_length]
          simp only [EntryInside, KeyAt, hkey, hguid, hsource, hsize, le_refl, true_and, and_true, forall_const,
            if_true]
        · have hinside : EntryInside key list p := fun _ => ⟨hguid, fun _ h => absurd h hsize⟩
          rw [if_pos hinside, decide_eq_false fun h : KeyAt key list p => hsize h.2.1]
          exact if_neg hsize
      · have hinside : EntryInside key list p := fun _ => ⟨hguid, fun h => absurd h hsource⟩
        have hnot : ¬ KeyAt key list p := by
          rintro ⟨-, -, hall⟩
          refine hsource ⟨hkey, ?_⟩
          rw [← hall, List.take_take, min_eq_left (by omega)]
        rw [if_pos hinside, decide_eq_false hnot, decide_eq_false fun h => hsource ⟨hkey, h⟩]
    · rw [if_neg fun h => hguid h.1, if_neg fun h : EntryInside key list p => hguid (h hkey).1]
  · have hinside : EntryInside key list p := fun h => absurd h hkey
    have hnot : ¬ KeyAt key list p := fun h => hkey h.1
    rw [if_neg hkey, if_pos hinside, decide_eq_false hnot]

theorem isProcessedLoop_succ (fuel p : ℕ) : isProcessedLoop key list (fuel + 1) p =
    if EndsAt list p then some false
    else if EntryInside key list p then
      if KeyAt key list p then some true else isProcessedLoop key list fuel (nextPlace list p)
    else none := by
  rw [isProcessedLoop]
  by_cases hp : p < list.length
  · rw [if_pos hp]
    by_cases hsize : charAt list p ≤ sizeofGUID
    · have hends : EndsAt list p := .inr hsize
      rw [if_pos hends]
      exact if_pos hsize
    · have hgoes : ¬ EndsAt list p := fun h => h.elim (fun hn => hn hp) hsize
      have hentry : isEntry key (list.drop (p + 1)) (ofChar 64 (list.getD p 0)) = _ := isEntry_eq key list p
      rw [if_neg hgoes]
      refine (if_neg hsize).trans ?_
      rw [hentry]
      by_cases hinside : EntryInside key list p
      · rw [if_pos hinside, if_pos hinside]
        by_cases hfound : KeyAt key list p
        · rw [decide_eq_true hfound, if_pos hfound]
        · rw [decide_eq_false hfound, if_neg hfound]
          rfl
      · rw [if_neg hinside, if_neg hinside]
  · have hends : EndsAt list p := .inl hp
    rw [if_neg hp, if_pos hends]

theorem isProcessedLoop_of_scans (h : Scans list (EntryInside key list) (KeyAt key list) p n) (hfuel : n < fuel) :
    ∃ b, isProcessedLoop key list fuel p = some b := by
  induction h generalizing fuel with
  | ends hends =>
    obtain ⟨fuel, rfl⟩ := Nat.exists_eq_succ_of_ne_zero (Nat.ne_of_gt hfuel)
    exact ⟨false, by rw [isProcessedLoop_succ, if_pos hends]⟩
  | found hgoes hread hfound =>
    obtain ⟨fuel, rfl⟩ := Nat.exists_eq_succ_of_ne_zero (Nat.ne_of_gt hfuel)
    exact ⟨true, by rw [isProcessedLoop_succ, if_neg hgoes, if_pos hread, if_pos hfound]⟩
  | @step p n hgoes hread hnot hrest ih =>
    obtain ⟨fuel, rfl⟩ := Nat.exists_eq_succ_of_ne_zero (Nat.ne_of_gt (Nat.zero_lt_of_lt hfuel))
    rw [isProcessedLoop_succ, if_neg hgoes, if_pos hread, if_neg hnot]
    exact ih (Nat.lt_of_succ_lt_succ hfuel)

/-- The loop that returns has made a walk, and says whether the walk meets the key. -/
theorem isProcessedLoop_some {b : Bool} (h : isProcessedLoop key list fuel p = some b) :
    (∃ n, Scans list (EntryInside key list) (KeyAt key list) p n) ∧ (b = true ↔ Meets list (KeyAt key list) p) := by
  induction fuel generalizing p with
  | zero => cases h
  | succ fuel ih =>
    rw [isProcessedLoop_succ] at h
    split_ifs at h with hends hread hfound
    · cases h
      exact ⟨⟨0, .ends hends⟩, iff_of_false nofun fun hmeets => hmeets.goes hends⟩
    · cases h
      exact ⟨⟨0, .found hends hread hfound⟩, iff_of_true rfl (.here hends hfound)⟩
    · obtain ⟨⟨n, hscans⟩, hiff⟩ := ih h
      refine ⟨⟨n + 1, .step hends hread hfound hscans⟩, ?_⟩
      rw [meets_iff hends, or_iff_right hfound, hiff]

/-! ## The loop of `IsConflict` -/

/-- One comparison of `IsConflict`: it is made on bytes of the list and the key, and of the numbers of one source. -/
theorem isNewer_eq (key list : List UInt8) (p : ℕ) : isNewer key (list.drop (p + 1)) =
    if NumberInside key list p then
      some (if SourceAt key list p then some (decide (OlderAt key list p)) else none)
    else none := by
  unfold isNewer
  by_cases hkey : sizeofGUID < key.length
  · rw [if_pos hkey, memcmp_eq]
    by_cases hguid : sizeofGUID ≤ (list.drop (p + 1)).length
    · rw [if_pos ⟨hguid, hkey.le⟩]
      by_cases hsource : SourceAt key list p
      · rw [decide_eq_true hsource.2, if_pos hsource]
        unfold changeNumber
        by_cases hinside : NumberInside key list p
        · obtain ⟨hthere, hown⟩ := (hinside hkey).2 hsource
          rw [if_pos hthere, if_pos hown, if_pos hinside, Option.some_inj, Option.some_inj]
          exact decide_eq_decide.mpr ⟨fun h => ⟨hsource, h⟩, fun h => h.2⟩
        · rw [if_neg hinside]
          by_cases hthere : sizeofGUID + 4 ≤ (list.drop (p + 1)).length
          · have hown : ¬ sizeofGUID + 4 ≤ key.length := fun hown =>
              hinside fun _ => ⟨hguid, fun _ => ⟨hthere, hown⟩⟩
            rw [if_pos hthere, if_neg hown]
          · rw [if_neg hthere]
      · have hinside : NumberInside key list p := fun _ => ⟨hguid, fun h => absurd h hsource⟩
        rw [if_pos hinside, if_neg hsource, decide_eq_false fun h => hsource ⟨hkey, h⟩]
    · rw [if_neg fun h => hguid h.1, if_neg fun h : NumberInside key list p => hguid (h hkey).1]
  · have hinside : NumberInside key list p := fun h => absurd h hkey
    have hsource : ¬ SourceAt key list p := fun h => hkey h.1
    rw [if_neg hkey, if_pos hinside, if_neg hsource]

theorem isConflictLoop_succ (fuel p : ℕ) (bGuidFound : Bool) : isConflictLoop key list (fuel + 1) p bGuidFound =
    if EndsAt list p then some (!bGuidFound)
    else if NumberInside key list p then
      if OlderAt key list p then some true
      else isConflictLoop key list fuel (nextPlace list p) (bGuidFound || decide (SourceAt key list p))
    else none := by
  rw [isConflictLoop]
  by_cases hp : p < list.length
  · rw [if_pos hp]
    by_cases hsize : charAt list p ≤ sizeofGUID
    · have hends : EndsAt list p := .inr hsize
      rw [if_pos hends]
      exact if_pos hsize
    · have hgoes : ¬ EndsAt list p := fun h => h.elim (fun hn => hn hp) hsize
      rw [if_neg hgoes]
      refine (if_neg hsize).trans ?_
      rw [isNewer_eq]
      by_cases hinside : NumberInside key list p
      · rw [if_pos hinside, if_pos hinside]
        by_cases hsource : SourceAt key list p
        · rw [if_pos hsource, decide_eq_true hsource, Bool.or_true]
          by_cases holder : OlderAt key list p
          · rw [decide_eq_true holder, if_pos holder]
          · rw [decide_eq_false holder, if_neg holder]
            rfl
        · rw [if_neg hsource, decide_eq_false hsource, Bool.or_false,
            if_neg fun h : OlderAt key list p => hsource h.1]
          rfl
      · rw [if_neg hinside, if_neg hinside]
  · have hends : EndsAt list p := .inl hp
    rw [if_neg hp, if_pos hends]

theorem isConflictLoop_of_scans (bGuidFound : Bool)
    (h : Scans list (NumberInside key list) (OlderAt key list) p n) (hfuel : n < fuel) :
    ∃ b, isConflictLoop key list fuel p bGuidFound = some b := by
  induction h generalizing fuel bGuidFound with
  | ends hends =>
    obtain ⟨fuel, rfl⟩ := Nat.exists_eq_succ_of_ne_zero (Nat.ne_of_gt hfuel)
    exact ⟨_, by rw [isConflictLoop_succ, if_pos hends]⟩
  | found hgoes hread hfound =>
    obtain ⟨fuel, rfl⟩ := Nat.exists_eq_succ_of_ne_zero (Nat.ne_of_gt hfuel)
    exact ⟨true, by rw [isConflictLoop_succ, if_neg hgoes, if_pos hread, if_pos hfound]⟩
  | @step p n hgoes hread hnot hrest ih =>
    obtain ⟨fuel, rfl⟩ := Nat.exists_eq_succ_of_ne_zero (Nat.ne_of_gt (Nat.zero_lt_of_lt hfuel))
    rw [isConflictLoop_succ, if_neg hgoes, if_pos hread, if_neg hnot]
    exact ih _ (Nat.lt_of_succ_lt_succ hfuel)

/-- The loop that returns has made a walk; there is a conflict if this meets a lower number, or no change of the
source. -/
theorem isConflictLoop_some {bGuidFound b : Bool} (h : isConflictLoop key list fuel p bGuidFound = some b) :
    (∃ n, Scans list (NumberInside key list) (OlderAt key list) p n) ∧ (b = true ↔ Meets list (OlderAt key list) p ∨
        bGuidFound = false ∧ ¬ Meets list (SourceAt key list) p) := by
  induction fuel generalizing p bGuidFound with
  | zero => cases h
  | succ fuel ih =>
    rw [isConflictLoop_succ] at h
    split_ifs at h with hends hread holder
    · cases h
      have hnot (P : ℕ → Prop) : ¬ Meets list P p := fun hmeets => hmeets.goes hends
      refine ⟨⟨0, .ends hends⟩, ?_⟩
      rw [Bool.not_eq_true', or_iff_right (hnot _), and_iff_left (hnot _)]
    · cases h
      exact ⟨⟨0, .found hends hread holder⟩, iff_of_true rfl (.inl (.here hends holder))⟩
    · obtain ⟨⟨n, hscans⟩, hiff⟩ := ih h
      refine ⟨⟨n + 1, .step hends hread holder hscans⟩, ?_⟩
      rw [meets_iff hends, or_iff_right holder, meets_iff hends, hiff, Bool.or_eq_false_iff,
        decide_eq_false_iff_not, not_or, and_assoc]

/-! ## The functions -/

/-- The functions are right just when the walks end inside, and meet in a list of keys what they are for. -/
theorem scansRight_iff_meets (key list : List UInt8) : ScansRight key list ↔
    (∃ n, Scans list (EntryInside key list) (KeyAt key list) 0 n) ∧
      (∃ n, Scans list (NumberInside key list) (OlderAt key list) 0 n) ∧
      ∀ keys, list = encode keys → (Meets list (KeyAt key list) 0 ↔ Holds key keys) ∧
        (Meets list (OlderAt key list) 0 ∨ ¬ Meets list (SourceAt key list) 0 ↔ Unseen key keys) := by
  constructor
  · rintro ⟨⟨b, hb, hprocessed⟩, ⟨b', hb', hconflict⟩⟩
    obtain ⟨hentry, hmeets⟩ := isProcessedLoop_some hb
    obtain ⟨hnumber, hmeets'⟩ := isConflictLoop_some hb'
    rw [eq_self_iff_true, true_and] at hmeets'
    exact ⟨hentry, hnumber, fun keys hkeys => ⟨hmeets.symm.trans (hprocessed keys hkeys),
      hmeets'.symm.trans (hconflict keys hkeys)⟩⟩
  · rintro ⟨⟨n, hentry⟩, ⟨m, hnumber⟩, hright⟩
    obtain ⟨b, hb⟩ := isProcessedLoop_of_scans hentry (Nat.lt_succ_of_le hentry.le_length)
    obtain ⟨b', hb'⟩ := isConflictLoop_of_scans false hnumber (Nat.lt_succ_of_le hnumber.le_length)
    have hmeets := (isProcessedLoop_some hb).2
    have hmeets' := (isConflictLoop_some hb').2
    rw [eq_self_iff_true, true_and] at hmeets'
    exact ⟨⟨b, hb, fun keys hkeys => hmeets.trans (hright keys hkeys).1⟩,
      ⟨b', hb', fun keys hkeys => hmeets'.trans (hright keys hkeys).2⟩⟩

/-! ## Lists of keys -/

section Keys

variable {before keys : List ChangeKey} {e : ChangeKey}

theorem length_encode_cons (before : List ChangeKey) (e : ChangeKey) (keys : List ChangeKey) :
    (encode (before ++ e :: keys)).length = (encode before).length + (e.bytes.length + 1) + (encode keys).length := by
  rw [encode_append, encode_cons, List.length_append, List.length_append, e.length_entry]
  omega

/-- What stands at the place of an entry. -/
theorem drop_place (before : List ChangeKey) (e : ChangeKey) (keys : List ChangeKey) :
    (encode (before ++ e :: keys)).drop ((encode before).length + 1) = e.bytes ++ encode keys := by
  rw [encode_append, ← List.drop_drop, List.drop_left]
  rfl

theorem charAt_place (before : List ChangeKey) (e : ChangeKey) (keys : List ChangeKey) :
    charAt (encode (before ++ e :: keys)) (encode before).length =
      if e.bytes.length < 128 then e.bytes.length else 2 ^ 64 - 256 + e.bytes.length := by
  have hbyte : (encode (before ++ e :: keys)).getD (encode before).length 0 = UInt8.ofNat e.bytes.length := by
    rw [encode_append, List.getD_eq_getElem?_getD, List.getElem?_append_right le_rfl, Nat.sub_self]
    rfl
  rw [charAt, hbyte, ofChar, e.toNat_size]
  exact if_congr (by rw [UInt8.lt_iff_toNat_lt, e.toNat_size]; rfl) rfl rfl

theorem goes_place (before : List ChangeKey) (e : ChangeKey) (keys : List ChangeKey) :
    ¬ EndsAt (encode (before ++ e :: keys)) (encode before).length := by
  have hlong := e.long
  have hlength := length_encode_cons before e keys
  rintro (hend | hend)
  · omega
  · rw [charAt_place] at hend
    split_ifs at hend <;> omega

theorem sourceAt_place (key : List UInt8) (before : List ChangeKey) (e : ChangeKey) (keys : List ChangeKey) :
    SourceAt key (encode (before ++ e :: keys)) (encode before).length ↔
      sizeofGUID < key.length ∧ SameSource key e := by
  rw [SourceAt, drop_place, List.take_append_of_le_length e.long.le]
  rfl

theorem olderAt_place (key : List UInt8) (before : List ChangeKey) (e : ChangeKey) (keys : List ChangeKey) :
    OlderAt key (encode (before ++ e :: keys)) (encode before).length ↔
      sizeofGUID < key.length ∧ SameSource key e ∧ numberOf (e.bytes ++ encode keys) < numberOf key := by
  rw [OlderAt, sourceAt_place, drop_place, and_assoc]

/-- A place with the key is that of an entry that is the key, if the entry has less than 128 bytes. -/
theorem keyAt_place (key : List UInt8) (before : List ChangeKey) (e : ChangeKey) (keys : List ChangeKey)
    (he : e.bytes.length < 128) :
    KeyAt key (encode (before ++ e :: keys)) (encode before).length ↔ key = e.bytes := by
  rw [KeyAt, drop_place, charAt_place, if_pos he]
  constructor
  · rintro ⟨-, hsize, hall⟩
    rw [← hsize, List.take_left] at hall
    exact hall.symm
  · rintro rfl
    exact ⟨e.long, rfl, List.take_left⟩

/-- Behind an entry of less than 128 bytes the walk comes to the next. -/
theorem nextPlace_short (before : List ChangeKey) (e : ChangeKey) (keys : List ChangeKey)
    (he : e.bytes.length < 128) (hlt : (encode (before ++ e :: keys)).length < 2 ^ 32) :
    nextPlace (encode (before ++ e :: keys)) (encode before).length = (encode (before ++ [e])).length := by
  rw [length_encode_cons] at hlt
  rw [nextPlace, charAt_place, if_pos he, encode_append, List.length_append, encode_cons, List.length_append,
    e.length_entry, Nat.mod_eq_of_lt (by omega)]
  simp only [encode, List.flatMap_nil, List.length_nil]
  omega

/-- The walk over entries of less than 128 bytes comes to each of them, and then to the place behind them. -/
theorem meets_short (P : ℕ → Prop) (before keys rest : List ChangeKey) (hshort : ∀ k ∈ keys, k.bytes.length < 128)
    (hlt : (encode (before ++ (keys ++ rest))).length < 2 ^ 32) :
    Meets (encode (before ++ (keys ++ rest))) P (encode before).length ↔
      (∃ a e b, keys = a ++ e :: b ∧ P (encode (before ++ a)).length) ∨
        Meets (encode (before ++ (keys ++ rest))) P (encode (before ++ keys)).length := by
  induction keys generalizing before with
  | nil => simp
  | cons e keys ih =>
    have hnext := nextPlace_short before e (keys ++ rest) (hshort e List.mem_cons_self) hlt
    have hrest := ih (before ++ [e]) (fun k hk => hshort k (List.mem_cons_of_mem e hk))
      (by rwa [List.append_assoc])
    simp only [List.append_assoc, List.singleton_append] at hrest
    rw [List.cons_append] at hlt ⊢
    rw [meets_iff (goes_place before e (keys ++ rest)), hnext, hrest, ← or_assoc]
    refine or_congr_left ⟨?_, ?_⟩
    · rintro (hP | ⟨a, k, b, rfl, hP⟩)
      · exact ⟨[], e, keys, rfl, by rwa [List.append_nil]⟩
      · exact ⟨e :: a, k, b, rfl, hP⟩
    · rintro ⟨a, k, b, hsplit, hP⟩
      cases a with
      | nil => exact .inl (by rwa [List.append_nil] at hP)
      | cons k' a =>
        obtain ⟨rfl, rfl⟩ := List.cons.inj hsplit
        exact .inr ⟨a, k, b, rfl, hP⟩

/-- The size of an entry of 128 bytes or more leads back, or over the beginning of the list, where the walk ends. -/
theorem meets_long (P : ℕ → Prop) (pre : List ChangeKey) (e : ChangeKey) (rest : List ChangeKey)
    (he : 128 ≤ e.bytes.length) (hlt : (encode (pre ++ e :: rest)).length < 2 ^ 32) :
    Meets (encode (pre ++ e :: rest)) P (encode pre).length ↔ P (encode pre).length ∨ MeetsBehind pre e rest P := by
  have hsize := e.short
  have hlength := length_encode_cons pre e rest
  rw [meets_iff (goes_place pre e rest), nextPlace, charAt_place, if_neg (not_lt.mpr he), MeetsBehind]
  refine or_congr_right ?_
  by_cases hback : 255 ≤ (encode pre).length + e.bytes.length
  · have hnext : ((encode pre).length + 1 + (2 ^ 64 - 256 + e.bytes.length)) % 2 ^ 64 =
        (encode pre).length + e.bytes.length - 255 := by omega
    rw [hnext, and_iff_right hback]
  · have hnext : ((encode pre).length + 1 + (2 ^ 64 - 256 + e.bytes.length)) % 2 ^ 64 =
        (encode pre).length + e.bytes.length + (2 ^ 64 - 255) := by omega
    rw [hnext]
    refine iff_of_false (fun h => h.goes (.inl ?_)) fun h => hback h.1
    omega

/-- The walk over short entries ends, if there is at each of them what is looked at. -/
theorem scans_short (readable found : ℕ → Prop) (before keys : List ChangeKey)
    (hshort : ∀ k ∈ keys, k.bytes.length < 128) (hlt : (encode (before ++ keys)).length < 2 ^ 32)
    (hread : ∀ a k b, before ++ keys = a ++ k :: b → k ∈ keys → readable (encode a).length) :
    ∃ n, Scans (encode (before ++ keys)) readable found (encode before).length n := by
  induction keys generalizing before with
  | nil => exact ⟨0, .ends (.inl (by simp))⟩
  | cons e keys ih =>
    have hgoes := goes_place before e keys
    have hplace := hread before e keys rfl List.mem_cons_self
    by_cases hfound : found (encode before).length
    · exact ⟨0, .found hgoes hplace hfound⟩
    · obtain ⟨n, hscans⟩ := ih (before ++ [e]) (fun k hk => hshort k (List.mem_cons_of_mem e hk))
        (by simpa using hlt) (fun a k b hsplit hk => hread a k b (by simpa using hsplit) (List.mem_cons_of_mem e hk))
      rw [List.append_assoc, List.singleton_append,
        ← nextPlace_short before e keys (hshort e List.mem_cons_self) hlt] at hscans
      exact ⟨n + 1, .step hgoes hplace hfound hscans⟩

/-- What the walk meets in a list of short entries. -/
theorem meets_encode_short (P : ℕ → Prop) (keys : List ChangeKey) (hshort : ∀ k ∈ keys, k.bytes.length < 128)
    (hlt : (encode keys).length < 2 ^ 32) :
    Meets (encode keys) P 0 ↔ ∃ a e b, keys = a ++ e :: b ∧ P (encode a).length := by
  have h := meets_short P [] keys [] hshort (by simpa using hlt)
  simp only [List.nil_append, List.append_nil] at h
  refine h.trans (or_iff_left fun hmeets => hmeets.goes (.inl (lt_irrefl _)))

/-- What the walk meets in a list with an entry of 128 bytes or more. -/
theorem meets_encode_long (P : ℕ → Prop) (pre : List ChangeKey) (e : ChangeKey) (rest : List ChangeKey)
    (hshort : ∀ k ∈ pre, k.bytes.length < 128) (he : 128 ≤ e.bytes.length)
    (hlt : (encode (pre ++ e :: rest)).length < 2 ^ 32) : Meets (encode (pre ++ e :: rest)) P 0 ↔
      ((∃ a k b, pre = a ++ k :: b ∧ P (encode a).length) ∨ P (encode pre).length) ∨ MeetsBehind pre e rest P := by
  have h := meets_short P [] pre (e :: rest) hshort hlt
  simp only [List.nil_append] at h
  rw [or_assoc, ← meets_long P pre e rest he hlt]
  exact h

/-- The places of a list with one more entry behind it. -/
theorem split_snoc (P : List ChangeKey → ChangeKey → Prop) (pre : List ChangeKey) (e : ChangeKey) :
    ((∃ a k b, pre = a ++ k :: b ∧ P a k) ∨ P pre e) ↔ ∃ a k b, pre ++ [e] = a ++ k :: b ∧ P a k := by
  constructor
  · rintro (⟨a, k, b, rfl, hP⟩ | hP)
    · exact ⟨a, k, b ++ [e], by simp, hP⟩
    · exact ⟨pre, e, [], rfl, hP⟩
  · rintro ⟨a, k, b, hsplit, hP⟩
    rcases List.eq_nil_or_concat b with rfl | ⟨b, e', rfl⟩
    · obtain ⟨rfl, hk⟩ := List.append_inj' hsplit rfl
      cases hk
      exact .inr hP
    · have hsplit' : pre ++ [e] = (a ++ k :: b) ++ [e'] := by
        rw [hsplit, List.concat_eq_append, List.append_assoc, List.cons_append]
      exact .inl ⟨a, k, b, (List.append_inj' hsplit' rfl).1, hP⟩

end Keys

/-! ## What the entries say -/

section Entries

variable (key : List UInt8) (seen rest : List ChangeKey)

theorem ofLittleEndian_le_append (a b : List UInt8) : ofLittleEndian a ≤ ofLittleEndian (a ++ b) := by
  induction a with
  | nil => exact Nat.zero_le _
  | cons x a ih =>
    rw [List.cons_append, ofLittleEndian, ofLittleEndian]
    omega

/-- More bytes behind a key do not make its number lower. -/
theorem numberOf_le (a b : List UInt8) : numberOf a ≤ numberOf (a ++ b) := by
  obtain ⟨c, hc⟩ := ((List.prefix_append a b).drop sizeofGUID).take 4
  rw [numberOf, numberOf, ← hc]
  exact ofLittleEndian_le_append _ _

/-- A key with a number above 0 has more than a GUID. -/
theorem long_of_numberOf {m : ℕ} (h : m < numberOf key) : sizeofGUID < key.length := by
  by_contra hle
  rw [numberOf, List.drop_of_length_le (not_lt.mp hle)] at h
  exact Nat.not_lt_zero m h

/-- Some entry of a list at its place. -/
theorem places_iff (P : ℕ → Prop) (Q : ChangeKey → Prop)
    (h : ∀ a k b, seen = a ++ k :: b → (P (encode a).length ↔ Q k)) :
    (∃ a k b, seen = a ++ k :: b ∧ P (encode a).length) ↔ ∃ k ∈ seen, Q k := by
  constructor
  · rintro ⟨a, k, b, rfl, hP⟩
    exact ⟨k, List.mem_append_right a List.mem_cons_self, (h a k b rfl).mp hP⟩
  · rintro ⟨k, hk, hQ⟩
    obtain ⟨a, b, rfl⟩ := List.append_of_mem hk
    exact ⟨a, k, b, rfl, (h a k b rfl).mpr hQ⟩

theorem sourceAt_places : (∃ a k b, seen = a ++ k :: b ∧ SourceAt key (encode (seen ++ rest)) (encode a).length) ↔
      sizeofGUID < key.length ∧ ∃ k ∈ seen, SameSource key k := by
  rw [places_iff seen _ (fun k => sizeofGUID < key.length ∧ SameSource key k)]
  · constructor
    · rintro ⟨k, hk, hkey, hsame⟩
      exact ⟨hkey, k, hk, hsame⟩
    · rintro ⟨hkey, k, hk, hsame⟩
      exact ⟨k, hk, hkey, hsame⟩
  · rintro a k b rfl
    rw [List.append_assoc, List.cons_append, sourceAt_place]

theorem olderAt_places : (∃ a k b, seen = a ++ k :: b ∧ OlderAt key (encode (seen ++ rest)) (encode a).length) ↔
      ReadsOlder key seen (encode rest) := by
  refine exists_congr fun a => exists_congr fun k => exists_congr fun b => and_congr_right ?_
  rintro rfl
  rw [List.append_assoc, List.cons_append, olderAt_place, encode_append]
  exact ⟨fun h => h.2, fun h => ⟨long_of_numberOf key h.2, h⟩⟩

theorem keyAt_places (hshort : ∀ k ∈ seen, k.bytes.length < 128) :
    (∃ a k b, seen = a ++ k :: b ∧ KeyAt key (encode (seen ++ rest)) (encode a).length) ↔
      key ∈ seen.map ChangeKey.bytes := by
  rw [places_iff seen _ (fun k => key = k.bytes), List.mem_map]
  · exact exists_congr fun k => and_congr_right fun _ => eq_comm
  · rintro a k b rfl
    rw [List.append_assoc, List.cons_append,
      keyAt_place key a k _ (hshort k (List.mem_append_right a List.mem_cons_self))]

theorem ReadsOlder.older {behind : List UInt8} (h : ReadsOlder key seen behind) :
    ∃ e ∈ seen, SameSource key e ∧ numberOf e.bytes < numberOf key := by
  obtain ⟨a, e, b, rfl, hsame, hlower⟩ := h
  exact ⟨e, List.mem_append_right a List.mem_cons_self, hsame, lt_of_le_of_lt (numberOf_le _ _) hlower⟩

end Entries

/-! ## The lists that are scanned right -/

section Right

variable {key : List UInt8}

/-- Of short entries, only a newer change of the source and a number of fewer than four bytes can be missed. -/
theorem shortRight_iff {keys : List ChangeKey} (hshort : ∀ k ∈ keys, k.bytes.length < 128)
    (hlt : (encode keys).length < 2 ^ 32) : (Meets (encode keys) (KeyAt key (encode keys)) 0 ↔ Holds key keys) ∧
      (Meets (encode keys) (OlderAt key (encode keys)) 0 ∨ ¬ Meets (encode keys) (SourceAt key (encode keys)) 0 ↔
        Unseen key keys) ↔ ShortRight key keys := by
  have hkey := keyAt_places key keys [] hshort
  have holder := olderAt_places key keys []
  have hsource := sourceAt_places key keys []
  rw [List.append_nil] at hkey holder hsource
  rw [meets_encode_short _ keys hshort hlt, meets_encode_short _ keys hshort hlt,
    meets_encode_short _ keys hshort hlt, hkey, holder, hsource]
  constructor
  · rintro ⟨hprocessed, hconflict⟩
    refine ⟨fun hnewer => hprocessed.mpr (.inr hnewer), fun hold => ?_, fun hbare e he hsame => ?_⟩
    · -- the key has a number, so an entry of its source is read
      obtain ⟨e, he, hsame, hlower⟩ := hold
      refine (hconflict.mpr (.inr ⟨e, he, hsame, hlower⟩)).resolve_right fun hnone => ?_
      exact hnone ⟨long_of_numberOf key hlower, e, he, hsame⟩
    · rcases hconflict.mp (.inr fun h => hbare h.1) with hnone | ⟨e', -, -, hlower⟩
      · exact hnone e he hsame
      · exact hbare (long_of_numberOf key hlower)
  · rintro ⟨hnewer, hold, hbare⟩
    refine ⟨⟨.inl, fun h => h.elim id hnewer⟩, ?_, ?_⟩
    · rintro (hread | hnone)
      · exact .inr hread.older
      · refine .inl fun e he hsame => ?_
        by_cases hlong : sizeofGUID < key.length
        · exact hnone ⟨hlong, e, he, hsame⟩
        · exact hbare hlong e he hsame
    · rintro (hnone | hlower)
      · exact .inr fun ⟨_, e, he, hsame⟩ => hnone e he hsame
      · exact .inl (hold hlower)

/-- Of entries with one of 128 bytes or more behind them, this is what the walk makes. -/
theorem longRight_iff {pre : List ChangeKey} {e : ChangeKey} {rest : List ChangeKey}
    (hkey : key.length < 2 ^ 32) (hshort : ∀ k ∈ pre, k.bytes.length < 128) (he : 128 ≤ e.bytes.length)
    (hlt : (encode (pre ++ e :: rest)).length < 2 ^ 32) :
    (Meets (encode (pre ++ e :: rest)) (KeyAt key (encode (pre ++ e :: rest))) 0 ↔ Holds key (pre ++ e :: rest)) ∧
      (Meets (encode (pre ++ e :: rest)) (OlderAt key (encode (pre ++ e :: rest))) 0 ∨
          ¬ Meets (encode (pre ++ e :: rest)) (SourceAt key (encode (pre ++ e :: rest))) 0 ↔
        Unseen key (pre ++ e :: rest)) ↔ LongRight key pre e rest := by
  have hnot : ¬ KeyAt key (encode (pre ++ e :: rest)) (encode pre).length := by
    rintro ⟨-, hsize, -⟩
    rw [charAt_place, if_neg (not_lt.mpr he)] at hsize
    omega
  have hown := keyAt_places key pre (e :: rest) hshort
  have holder := olderAt_places key (pre ++ [e]) rest
  have hsource := sourceAt_places key (pre ++ [e]) rest
  rw [List.append_assoc, List.singleton_append] at holder hsource
  rw [meets_encode_long _ pre e rest hshort he hlt, meets_encode_long _ pre e rest hshort he hlt,
    meets_encode_long _ pre e rest hshort he hlt, or_iff_left hnot, hown,
    split_snoc (fun a _ => OlderAt key (encode (pre ++ e :: rest)) (encode a).length), holder,
    split_snoc (fun a _ => SourceAt key (encode (pre ++ e :: rest)) (encode a).length), hsource]
  have hholds : key ∈ pre.map ChangeKey.bytes → Holds key (pre ++ e :: rest) := fun h =>
    .inl (by rw [List.map_append]; exact List.mem_append_left _ h)
  have hunseen : ReadsOlder key (pre ++ [e]) (encode rest) → Unseen key (pre ++ e :: rest) := by
    intro h
    obtain ⟨k, hk, hsame, hlower⟩ := h.older
    refine .inr ⟨k, ?_, hsame, hlower⟩
    rw [← List.singleton_append, ← List.append_assoc]
    exact List.mem_append_left rest hk
  have hnone : ¬ (sizeofGUID < key.length ∧ ∃ k ∈ pre ++ [e], SameSource key k) ↔
      (sizeofGUID < key.length → ∀ k ∈ pre ++ [e], ¬ SameSource key k) := by
    rw [not_and]
    exact forall_congr' fun _ => not_exists.trans (forall_congr' fun k => not_and)
  rw [not_or, hnone, or_assoc]
  constructor
  · rintro ⟨hprocessed, hconflict⟩
    refine ⟨or_iff_not_imp_left.mpr fun hpre => ?_, or_iff_not_imp_left.mpr fun hread => ?_⟩
    · rwa [or_iff_right hpre] at hprocessed
    · rwa [or_iff_right hread] at hconflict
  · rintro ⟨hprocessed, hconflict⟩
    constructor
    · by_cases hpre : key ∈ pre.map ChangeKey.bytes
      · exact iff_of_true (.inl hpre) (hholds hpre)
      · rw [or_iff_right hpre]
        exact hprocessed.resolve_left hpre
    · by_cases hread : ReadsOlder key (pre ++ [e]) (encode rest)
      · exact iff_of_true (.inl hread) (hunseen hread)
      · rw [or_iff_right hread]
        exact hconflict.resolve_left hread

/-- A list of keys is one of short keys, or there is a first one that is not. -/
theorem short_or_long (keys : List ChangeKey) : (∀ k ∈ keys, k.bytes.length < 128) ∨
    ∃ pre e rest, keys = pre ++ e :: rest ∧ (∀ k ∈ pre, k.bytes.length < 128) ∧ 128 ≤ e.bytes.length := by
  induction keys with
  | nil => exact .inl nofun
  | cons e keys ih =>
    by_cases he : e.bytes.length < 128
    · rcases ih with hshort | ⟨pre, e', rest, rfl, hpre, he'⟩
      · exact .inl (List.forall_mem_cons.mpr ⟨he, hshort⟩)
      · exact .inr ⟨e :: pre, e', rest, rfl, List.forall_mem_cons.mpr ⟨he, hpre⟩, he'⟩
    · exact .inr ⟨[], e, keys, rfl, nofun, not_lt.mp he⟩

/-- Over entries of 20 to 127 bytes the walks end inside, whatever the key is. -/
theorem scans_encode (key : List UInt8) (keys : List ChangeKey) (hkey : sizeofGUID + 4 ≤ key.length)
    (hshort : ∀ k ∈ keys, sizeofGUID + 4 ≤ k.bytes.length ∧ k.bytes.length < 128)
    (hlt : (encode keys).length < 2 ^ 32) :
    (∃ n, Scans (encode keys) (EntryInside key (encode keys)) (KeyAt key (encode keys)) 0 n) ∧
      ∃ n, Scans (encode keys) (NumberInside key (encode keys)) (OlderAt key (encode keys)) 0 n := by
  constructor
  · refine scans_short _ _ [] keys (fun k hk => (hshort k hk).2) hlt fun a k b hsplit hk _ => ?_
    rw [List.nil_append] at hsplit
    rw [hsplit, drop_place, charAt_place, if_pos (hshort k hk).2, List.length_append]
    have hlong := k.long
    exact ⟨by omega, fun _ hsize => by omega⟩
  · refine scans_short _ _ [] keys (fun k hk => (hshort k hk).2) hlt fun a k b hsplit hk _ => ?_
    rw [List.nil_append] at hsplit
    rw [hsplit, drop_place, List.length_append]
    have hlong := (hshort k hk).1
    exact ⟨by omega, fun _ => ⟨by omega, hkey⟩⟩

/-- The functions are right just when the walks end inside, and the entries of a list of keys are such that none is
missed. The sizes of list and key are those of a binary property. -/
theorem scansRight_iff (key list : List UInt8) (hkey : key.length < 2 ^ 32) (hlist : list.length < 2 ^ 32) :
    ScansRight key list ↔ WalksRight key list := by
  rw [scansRight_iff_meets]
  constructor
  · rintro ⟨hentry, hnumber, hright⟩
    refine ⟨hentry, hnumber, fun keys hkeys hshort => ?_, fun pre e rest hkeys hshort he => ?_⟩
    · subst hkeys
      exact (shortRight_iff hshort hlist).mp (hright keys rfl)
    · subst hkeys
      exact (longRight_iff hkey hshort he hlist).mp (hright _ rfl)
  · rintro ⟨hentry, hnumber, hshort, hlong⟩
    refine ⟨hentry, hnumber, fun keys hkeys => ?_⟩
    subst hkeys
    rcases short_or_long keys with hkeys | ⟨pre, e, rest, rfl, hpre, he⟩
    · exact (shortRight_iff hkeys hlist).mpr (hshort keys rfl hkeys)
    · exact (longRight_iff hkey hpre he hlist).mpr (hlong pre e rest rfl hpre he)

/-- A change key: zeros for the GUID, and a number. -/
def sampleKey (n : UInt8) : List UInt8 := List.replicate 16 0 ++ [n, 0, 0, 0]

/-- The list has change 2 of a source, and change 1 counts as one that has not been processed. -/
theorem not_scansRight_newer : ¬ ∀ key list, ScansRight key list := by
  intro h
  obtain ⟨b, hb, hright⟩ := (h (sampleKey 1) (encode [⟨sampleKey 2, by decide, by decide⟩])).processed
  have hfalse : isProcessed (some (sampleKey 1)) (some (encode [⟨sampleKey 2, by decide, by decide⟩])) = some false := by
    decide
  rw [hfalse] at hb
  cases hb
  exact absurd ((hright _ rfl).mpr (.inr ⟨_, List.mem_cons_self, rfl, by decide⟩)) Bool.false_ne_true

/-- A change of another source and the key itself are scanned right. With an entry of 140 bytes between them they are
not: this leads the walk over the beginning of the list, so that it does not come to the key. -/
theorem scansRight_iff_two : ScansRight (sampleKey 2) (encode [⟨List.replicate 20 1, by decide, by decide⟩,
        ⟨sampleKey 2, by decide, by decide⟩]) ∧
      ¬ ScansRight (sampleKey 2) (encode [⟨List.replicate 20 1, by decide, by decide⟩,
        ⟨List.replicate 140 1, by simp [sizeofGUID], by simp⟩, ⟨sampleKey 2, by decide, by decide⟩]) := by
  constructor
  · obtain ⟨hentry, hnumber⟩ := scans_encode (sampleKey 2)
      [⟨List.replicate 20 1, by decide, by decide⟩, ⟨sampleKey 2, by decide, by decide⟩] (by decide) (by decide)
      (by decide)
    refine (scansRight_iff _ _ (by decide) (by decide)).mpr ⟨hentry, hnumber, fun keys hkeys _ => ?_,
      fun pre e rest hkeys _ he => ?_⟩
    · rw [← encode_injective hkeys]
      exact ⟨fun _ => by decide, fun h => absurd h (by decide), fun h => absurd (by decide) h⟩
    · have hmem : e ∈ pre ++ e :: rest := List.mem_append_right pre List.mem_cons_self
      rw [← encode_injective hkeys] at hmem
      have hshort : ∀ k ∈ [(⟨List.replicate 20 1, by decide, by decide⟩ : ChangeKey),
          ⟨sampleKey 2, by decide, by decide⟩], k.bytes.length < 128 := by decide
      exact absurd (hshort e hmem) (not_lt.mpr he)
  · intro h
    have hlength := length_encode_cons [⟨List.replicate 20 1, by decide, by decide⟩]
      ⟨List.replicate 140 1, by simp [sizeofGUID], by simp⟩ [⟨sampleKey 2, by decide, by decide⟩]
    simp only [List.length_replicate] at hlength
    have hright := ((scansRight_iff _ _ (by decide) (lt_of_eq_of_lt hlength (by decide))).mp h).long
      [⟨List.replicate 20 1, by decide, by decide⟩] ⟨List.replicate 140 1, by simp [sizeofGUID], by simp⟩
      [⟨sampleKey 2, by decide, by decide⟩] rfl (by decide) (by simp)
    rcases hright.processed with hown | hbehind
    · exact absurd hown (by decide)
    · have hback := (hbehind.mpr (.inl (by simp))).1
      simp [encode, ChangeKey.entry] at hback

-- a size byte 255 leads to itself
example : isProcessed (some (sampleKey 1)) (some (255 :: List.replicate 16 1)) = none := by decide

end Right

end Zcp.Client.ECExchangeImportContentsChanges
