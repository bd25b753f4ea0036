import Zcp.Libserver.ECICS

/-!
# Keys of any size in a list

`AddChangeKeyToChangeList` for lists of keys of any size. The loop goes from one place to the next by the
size byte there, which it reads as a `char`, also in a list that it has just changed. `walksRight_updates`
says for which lists this gives the list with the key in it.
-/

namespace Zcp.Libserver.ECICS

open Zcp.Lib

/-! ## Lists of keys -/

/-- A change key, behind whose GUID there is something. Its size fits in a byte. -/
structure ChangeKey where
  bytes : List UInt8
  long : sizeofGUID < bytes.length
  short : bytes.length ≤ 255
deriving DecidableEq

namespace ChangeKey

/-- The GUID of the server. -/
def guid (k : ChangeKey) : List UInt8 := k.bytes.take sizeofGUID

/-- A key with its size in front. -/
def entry (k : ChangeKey) : List UInt8 := UInt8.ofNat k.bytes.length :: k.bytes

theorem length_entry (k : ChangeKey) : k.entry.length = k.bytes.length + 1 := rfl

theorem toNat_size (k : ChangeKey) : (UInt8.ofNat k.bytes.length).toNat = k.bytes.length :=
  UInt8.toNat_ofNat_of_lt' (Nat.lt_succ_of_le k.short)

end ChangeKey

/-- `PR_PREDECESSOR_CHANGE_LIST` with some keys. -/
def encode (keys : List ChangeKey) : List UInt8 := keys.flatMap ChangeKey.entry

theorem encode_cons (k : ChangeKey) (keys : List ChangeKey) : encode (k :: keys) = k.entry ++ encode keys :=
  rfl

theorem encode_append (keys keys' : List ChangeKey) : encode (keys ++ keys') = encode keys ++ encode keys' :=
  List.flatMap_append

/-- The keys can be read back. -/
theorem encode_injective : Function.Injective encode := by
  intro keys
  induction keys with
  | nil =>
    intro keys' h
    cases keys' with
    | nil => rfl
    | cons k keys' => exact nomatch h
  | cons k keys ih =>
    intro keys' h
    cases keys' with
    | nil => exact nomatch h
    | cons k' keys' =>
      rw [encode_cons, encode_cons] at h
      obtain ⟨hsize, hrest⟩ := List.cons.inj h
      have hlength : k.bytes.length = k'.bytes.length := by
        rw [← k.toNat_size, hsize, k'.toNat_size]
      obtain ⟨hbytes, hkeys⟩ := List.append_inj hrest hlength
      have hk : k = k' := by
        obtain ⟨bytes, long, short⟩ := k
        cases hbytes
        rfl
      rw [hk, ih hkeys]

/-- The list with the key in the place of the one of its server, or behind the others. -/
def Updated (keys : List ChangeKey) (key : ChangeKey) (result : List UInt8) : Prop :=
  ∃ keys', result = encode keys' ∧ keys'.filter (fun k => k.guid = key.guid) = [key] ∧
    keys'.filter (fun k => k.guid ≠ key.guid) = keys.filter fun k => k.guid ≠ key.guid

/-! ## Passes of the loop -/

variable {fuel : ℕ} {bFound : Bool} {r : List UInt8 × Bool}

section Passes

variable (key : ChangeKey) (s : List UInt8) (ulPos : ℕ)

/-- The size at a place. -/
def sizeAt : ℕ := ofChar 32 (s.getD ulPos 0)

/-- The place behind the size at a place. -/
def nextPos : ℕ := (ulPos + sizeAt s ulPos + 1) % 2 ^ 32

/-- The loop ends at a place. -/
def Stops : Prop :=
  s.length ≤ ulPos ∨ sizeAt s ulPos ≤ sizeofGUID ∨ sizeAt s ulPos = 2 ^ 32 - 1

instance : Decidable (Stops s ulPos) := inferInstanceAs (Decidable (_ ∨ _))

/-- What is behind the size, compared with the GUID of the key. -/
def compareAt : Option Bool :=
  memcmp ((s.drop (ulPos + 1)).take (sizeAt s ulPos)) key.bytes sizeofGUID

/-- The list with the key at a place. -/
def replaceAt : List UInt8 := s.take ulPos ++ key.entry ++ s.drop (ulPos + (sizeAt s ulPos + 1))

/-- One turn of the loop: it stops at the end, goes on behind an entry of another server, and replaces an entry of
the same one. -/
theorem addLoop_succ (fuel : ℕ) (bFound : Bool) :
    addLoop key.entry key.bytes (fuel + 1) s ulPos bFound =
      if Stops s ulPos then some (s, bFound)
      else match compareAt key s ulPos with
        | none => none
        | some true => addLoop key.entry key.bytes fuel (replaceAt key s ulPos) (nextPos s ulPos) true
        | some false => addLoop key.entry key.bytes fuel s (nextPos s ulPos) bFound := by
  rw [addLoop]
  by_cases hend : ulPos < s.length
  · by_cases hsize : sizeAt s ulPos ≤ sizeofGUID ∨ sizeAt s ulPos = 2 ^ 32 - 1
    · have hstops : Stops s ulPos := .inr hsize
      rw [if_pos hend, if_pos hstops]
      exact if_pos hsize
    · have hstops : ¬ Stops s ulPos := not_or.mpr ⟨not_le.mpr hend, hsize⟩
      rw [if_pos hend, if_neg hstops]
      exact if_neg hsize
  · have hstops : Stops s ulPos := .inl (not_lt.mp hend)
    rw [if_neg hend, if_pos hstops]

/-- More passes than needed make no difference. -/
theorem addLoop_mono {fuel' : ℕ} (hle : fuel ≤ fuel') (h : addLoop key.entry key.bytes fuel s ulPos bFound = some r) :
    addLoop key.entry key.bytes fuel' s ulPos bFound = some r := by
  induction fuel generalizing fuel' s ulPos bFound with
  | zero => cases h
  | succ fuel ih =>
    obtain ⟨fuel', rfl⟩ := Nat.exists_eq_succ_of_ne_zero (Nat.ne_of_gt (Nat.zero_lt_of_lt hle))
    have hle' := Nat.le_of_succ_le_succ hle
    rw [addLoop_succ] at h ⊢
    split_ifs at h ⊢
    · exact h
    · cases hcompare : compareAt key s ulPos with
      | none => simp [hcompare] at h
      | some m =>
        rw [hcompare] at h
        cases m with
        | true => exact ih _ _ hle' h
        | false => exact ih _ _ hle' h

end Passes

/-- `AddChangeKeyToChangeList`, with some passes of the loop. -/
def addWithin (fuel : ℕ) (strChangeList lpChangeKey : List UInt8) : Option (List UInt8) :=
  let cbChangeKey := lpChangeKey.length
  if cbChangeKey ≤ sizeofGUID ∨ 255 < cbChangeKey then some strChangeList
  else
    let strChangeKey := UInt8.ofNat cbChangeKey :: lpChangeKey
    (addLoop strChangeKey lpChangeKey fuel strChangeList 0 false).map fun r =>
      if r.2 then r.1 else r.1 ++ strChangeKey

theorem addWithin_key (fuel : ℕ) (s : List UInt8) (key : ChangeKey) :
    addWithin fuel s key.bytes = (addLoop key.entry key.bytes fuel s 0 false).map fun r =>
      if r.2 then r.1 else r.1 ++ key.entry :=
  if_neg (not_or.mpr ⟨not_le.mpr key.long, not_lt.mpr key.short⟩)

/-! ## Walks -/

/-- The loop comes from one place to another without finding the key. -/
inductive Walk (key : ChangeKey) (s : List UInt8) : ℕ → ℕ → Prop
  | here (p : ℕ) : Walk key s p p
  | step {p q : ℕ} (hgoes : ¬ Stops s p) (hdiffers : compareAt key s p = some false)
      (hrest : Walk key s (nextPos s p) q) : Walk key s p q

/-- The loop comes to its end, and leaves the list as it is. -/
inductive Settles (key : ChangeKey) (s : List UInt8) : ℕ → Prop
  | stop {p : ℕ} (hstops : Stops s p) : Settles key s p
  | step {p : ℕ} {m : Bool} (hgoes : ¬ Stops s p) (hcompare : compareAt key s p = some m)
      (hsame : m = true → replaceAt key s p = s) (hrest : Settles key s (nextPos s p)) : Settles key s p

section Walks

variable {key : ChangeKey} {s : List UInt8} {p q : ℕ}

/-- A loop that returns from the end of a walk returns the same from its start, with enough turns. -/
theorem Walk.addLoop (h : Walk key s p q) (hq : addLoop key.entry key.bytes fuel s q bFound = some r) :
    ∃ fuel, addLoop key.entry key.bytes fuel s p bFound = some r := by
  induction h with
  | here => exact ⟨fuel, hq⟩
  | step hgoes hdiffers _ ih =>
    obtain ⟨fuel, hfuel⟩ := ih hq
    refine ⟨fuel + 1, ?_⟩
    rw [addLoop_succ, if_neg hgoes, hdiffers]
    exact hfuel

/-- From a place where it settles, the loop returns the list as it is. -/
theorem Settles.addLoop (h : Settles key s p) :
    ∃ fuel, addLoop key.entry key.bytes fuel s p true = some (s, true) := by
  induction h with
  | stop hstops => exact ⟨1, by rw [addLoop_succ, if_pos hstops]⟩
  | @step p m hgoes hcompare hsame _ ih =>
    obtain ⟨fuel, hfuel⟩ := ih
    refine ⟨fuel + 1, ?_⟩
    rw [addLoop_succ, if_neg hgoes, hcompare]
    cases m with
    | true => exact (hsame rfl).symm ▸ hfuel
    | false => exact hfuel

/-- The loop that has found no key yet: it ends, or it comes to a place where it finds one. -/
theorem walk_of_addLoop (h : addLoop key.entry key.bytes fuel s p bFound = some r) :
    (∃ q, Walk key s p q ∧ Stops s q ∧ r = (s, bFound)) ∨
      ∃ q fuel, Walk key s p q ∧ ¬ Stops s q ∧ compareAt key s q = some true ∧
        addLoop key.entry key.bytes fuel (replaceAt key s q) (nextPos s q) true = some r := by
  induction fuel generalizing p with
  | zero => cases h
  | succ fuel ih =>
    rw [addLoop_succ] at h
    by_cases hstops : Stops s p
    · rw [if_pos hstops] at h
      exact .inl ⟨p, .here p, hstops, (Option.some.inj h).symm⟩
    · rw [if_neg hstops] at h
      cases hcompare : compareAt key s p with
      | none => simp [hcompare] at h
      | some m =>
        rw [hcompare] at h
        cases m with
        | true => exact .inr ⟨p, fuel, .here p, hstops, hcompare, h⟩
        | false =>
          rcases ih h with ⟨q, hwalk, hend⟩ | ⟨q, fuel', hwalk, hfound⟩
          · exact .inl ⟨q, .step hstops hcompare hwalk, hend⟩
          · exact .inr ⟨q, fuel', .step hstops hcompare hwalk, hfound⟩

/-- The loop over a list which no key that it may find changes. -/
theorem settles_of_addLoop (hsame : ∀ q, ¬ Stops s q → compareAt key s q = some true → replaceAt key s q = s)
    (h : addLoop key.entry key.bytes fuel s p true = some r) : Settles key s p ∧ r = (s, true) := by
  induction fuel generalizing p with
  | zero => cases h
  | succ fuel ih =>
    rw [addLoop_succ] at h
    by_cases hstops : Stops s p
    · rw [if_pos hstops] at h
      exact ⟨.stop hstops, (Option.some.inj h).symm⟩
    · rw [if_neg hstops] at h
      cases hcompare : compareAt key s p with
      | none => simp [hcompare] at h
      | some m =>
        rw [hcompare] at h
        cases m with
        | true =>
          have hedit := hsame p hstops hcompare
          have h : addLoop key.entry key.bytes fuel (replaceAt key s p) (nextPos s p) true = some r := h
          rw [hedit] at h
          obtain ⟨hsettles, hr⟩ := ih h
          exact ⟨.step hstops hcompare (fun _ => hedit) hsettles, hr⟩
        | false =>
          obtain ⟨hsettles, hr⟩ := ih h
          exact ⟨.step hstops hcompare (fun hm => nomatch hm) hsettles, hr⟩

theorem Walk.settles (h : Walk key s p q) (hq : Settles key s q) : Settles key s p := by
  induction h with
  | here => exact hq
  | step hgoes hdiffers _ ih => exact .step hgoes hdiffers (fun hm => nomatch hm) (ih hq)

end Walks

/-! ## Places of keys -/

section Places

variable (key e : ChangeKey) (before after : List ChangeKey)

/-- The place of a key behind some others. -/
abbrev placeBehind (before : List ChangeKey) : ℕ := (encode before).length

theorem sizeAt_place : sizeAt (encode (before ++ e :: after)) (placeBehind before) =
    ofChar 32 (UInt8.ofNat e.bytes.length) := by
  rw [sizeAt, encode_append, List.getD_eq_getElem?_getD, List.getElem?_append_right le_rfl, Nat.sub_self]
  rfl

theorem drop_place : (encode (before ++ e :: after)).drop (placeBehind before + 1) = e.bytes ++ encode after := by
  rw [encode_append, ← List.drop_drop, List.drop_left]
  rfl

theorem sizeAt_of_lt (h : e.bytes.length < 128) :
    sizeAt (encode (before ++ e :: after)) (placeBehind before) = e.bytes.length := by
  have hlt : UInt8.ofNat e.bytes.length < 128 := by
    rw [UInt8.lt_iff_toNat_lt, e.toNat_size]
    exact h
  rw [sizeAt_place, ofChar, if_pos hlt, e.toNat_size]

/-- A size from 128 on becomes a large number. -/
theorem sizeAt_of_le (h : 128 ≤ e.bytes.length) :
    sizeAt (encode (before ++ e :: after)) (placeBehind before) = 2 ^ 32 - 256 + e.bytes.length := by
  have hge : ¬ UInt8.ofNat e.bytes.length < 128 := by
    rw [UInt8.lt_iff_toNat_lt, e.toNat_size]
    exact not_lt.mpr h
  rw [sizeAt_place, ofChar, if_neg hge, e.toNat_size]

theorem sizeofGUID_lt_sizeAt : sizeofGUID < sizeAt (encode (before ++ e :: after)) (placeBehind before) := by
  by_cases h : e.bytes.length < 128
  · rw [sizeAt_of_lt e before after h]
    exact e.long
  · rw [sizeAt_of_le e before after (not_lt.mp h), sizeofGUID]
    omega

/-- The loop stops at an entry only where its key has 255 bytes, since this size is read as -1. -/
theorem stops_place_iff : Stops (encode (before ++ e :: after)) (placeBehind before) ↔ e.bytes.length = 255 := by
  have hinside : ¬ (encode (before ++ e :: after)).length ≤ placeBehind before := by
    rw [encode_append, List.length_append, encode_cons, List.length_append, e.length_entry, placeBehind]
    omega
  have hlong := sizeofGUID_lt_sizeAt e before after
  unfold Stops
  rw [or_iff_right hinside, or_iff_right (not_le.mpr hlong)]
  have hshort := e.short
  by_cases h : e.bytes.length < 128
  · rw [sizeAt_of_lt e before after h]
    omega
  · rw [sizeAt_of_le e before after (not_lt.mp h)]
    omega

/-- At an entry the GUID of its key is compared with that of the new key. -/
theorem compareAt_place : compareAt key (encode (before ++ e :: after)) (placeBehind before) =
    some (decide (e.guid = key.guid)) := by
  have hlong := sizeofGUID_lt_sizeAt e before after
  have he := e.long
  have htake : ((e.bytes ++ encode after).take
      (sizeAt (encode (before ++ e :: after)) (placeBehind before))).take sizeofGUID = e.guid := by
    rw [List.take_take, min_eq_left hlong.le, List.take_append_of_le_length he.le]
    rfl
  have hlength : sizeofGUID ≤ ((e.bytes ++ encode after).take
      (sizeAt (encode (before ++ e :: after)) (placeBehind before))).length := by
    rw [List.length_take, List.length_append]
    omega
  unfold compareAt memcmp
  rw [drop_place, if_pos ⟨hlength, key.long.le⟩, htake]
  exact congrArg some (Bool.eq_iff_iff.mpr (beq_iff_eq.trans decide_eq_true_iff.symm))

/-- What the list is when the key is put in the place of another one. -/
theorem replaceAt_place (rest : List UInt8) (hrest : (e.bytes ++ encode after).drop
      (sizeAt (encode (before ++ e :: after)) (placeBehind before)) = rest) :
    replaceAt key (encode (before ++ e :: after)) (placeBehind before) = encode before ++ key.entry ++ rest := by
  have hbefore : (encode (before ++ e :: after)).take (placeBehind before) = encode before := by
    rw [encode_append]
    exact List.take_left
  unfold replaceAt
  rw [hbefore, add_comm (sizeAt _ _), ← add_assoc, ← List.drop_drop, drop_place, hrest]

theorem replaceAt_of_lt (h : e.bytes.length < 128) :
    replaceAt key (encode (before ++ e :: after)) (placeBehind before) = encode (before ++ key :: after) := by
  have hrest : (e.bytes ++ encode after).drop
      (sizeAt (encode (before ++ e :: after)) (placeBehind before)) = encode after := by
    rw [sizeAt_of_lt e before after h, List.drop_left]
  rw [replaceAt_place key e before after _ hrest, encode_append, encode_cons, List.append_assoc]

/-- The keys behind one whose size is read as a large number are lost. -/
theorem replaceAt_of_le (h : 128 ≤ e.bytes.length) (hafter : (encode after).length ≤ 2 ^ 32 - 256) :
    replaceAt key (encode (before ++ e :: after)) (placeBehind before) = encode (before ++ [key]) := by
  have hrest : (e.bytes ++ encode after).drop
      (sizeAt (encode (before ++ e :: after)) (placeBehind before)) = [] := by
    rw [sizeAt_of_le e before after h]
    refine List.drop_eq_nil_of_le ?_
    rw [List.length_append]
    omega
  rw [replaceAt_place key e before after _ hrest, encode_append, encode_cons, List.append_nil]
  exact congrArg (encode before ++ ·) (List.append_nil _).symm

end Places

/-! ## Updates -/

section Updates

variable {keys before after : List ChangeKey} {key old : ChangeKey}

/-- The loop ends, looks only at the list, and leaves the list with the key. -/
def Updates (keys : List ChangeKey) (key : ChangeKey) : Prop :=
  ∃ fuel result, addWithin fuel (encode keys) key.bytes = some result ∧ Updated keys key result

/-- What the loop needs of a list. Without a key of the server, it comes to its end. Otherwise it comes to this
key, and from there, by the old size, through the new list, which it leaves as it is. -/
inductive WalksRight (keys : List ChangeKey) (key : ChangeKey) : Prop
  | absent {q : ℕ} (hnone : ∀ k ∈ keys, k.guid ≠ key.guid) (hwalk : Walk key (encode keys) 0 q)
      (hstops : Stops (encode keys) q) : WalksRight keys key
  | present {before after : List ChangeKey} {old : ChangeKey} (heq : keys = before ++ old :: after)
      (hguid : old.guid = key.guid) (hwalk : Walk key (encode keys) 0 (placeBehind before))
      (hread : old.bytes.length ≠ 255) (hkept : old.bytes.length < 128 ∨ after = [])
      (hsettles : Settles key (encode (before ++ key :: after))
        (nextPos (encode keys) (placeBehind before))) : WalksRight keys key

/-- The other keys have other servers. -/
theorem filter_others (hnodup : ((before ++ old :: after).map ChangeKey.guid).Nodup)
    (hguid : old.guid = key.guid) : ∀ k ∈ before ++ after, k.guid ≠ key.guid := by
  intro k hk heq
  rw [List.map_append, List.map_cons, List.nodup_middle, List.nodup_cons, ← List.map_append] at hnodup
  exact hnodup.1 (List.mem_map.mpr ⟨k, hk, heq.trans hguid.symm⟩)

theorem updated_append (hnone : ∀ k ∈ keys, k.guid ≠ key.guid) : Updated keys key (encode (keys ++ [key])) := by
  refine ⟨_, rfl, ?_, ?_⟩
  · rw [List.filter_append, List.filter_eq_nil_iff.mpr fun k hk => by simpa using hnone k hk]
    simp
  · rw [List.filter_append]
    simp

/-- Putting the key into the place of the one of its server is right where each server has one key. -/
theorem updated_replace (hnodup : ((before ++ old :: after).map ChangeKey.guid).Nodup) (hguid : old.guid = key.guid) :
    Updated (before ++ old :: after) key (encode (before ++ key :: after)) := by
  have hothers := filter_others hnodup hguid
  have hnone (l : List ChangeKey) (hl : ∀ k ∈ l, k.guid ≠ key.guid) :
      l.filter (fun k => k.guid = key.guid) = [] := List.filter_eq_nil_iff.mpr fun k hk => by simpa using hl k hk
  refine ⟨_, rfl, ?_, ?_⟩
  · rw [List.filter_append, List.filter_cons_of_pos (by simp),
      hnone before fun k hk => hothers k (List.mem_append_left _ hk),
      hnone after fun k hk => hothers k (List.mem_append_right _ hk), List.nil_append]
  · rw [List.filter_append, List.filter_append, List.filter_cons_of_neg (by simp),
      List.filter_cons_of_neg (by simpa using hguid)]

/-- A list through which the loop walks right gets the key. -/
theorem WalksRight.updates (hnodup : (keys.map ChangeKey.guid).Nodup) (h : WalksRight keys key) :
    Updates keys key := by
  cases h with
  | @absent q hnone hwalk hstops =>
    have hstop : addLoop key.entry key.bytes 1 (encode keys) q false = some (encode keys, false) := by
      rw [addLoop_succ, if_pos hstops]
    obtain ⟨fuel, hfuel⟩ := hwalk.addLoop hstop
    refine ⟨fuel, encode (keys ++ [key]), ?_, updated_append hnone⟩
    rw [addWithin_key, hfuel, encode_append]
    exact congrArg (fun l => some (encode keys ++ l)) (List.append_nil _).symm
  | @present before after old heq hguid hwalk hread hkept hsettles =>
    subst heq
    obtain ⟨fuel, hfuel⟩ := hsettles.addLoop
    have hreplace : replaceAt key (encode (before ++ old :: after)) (placeBehind before) =
        encode (before ++ key :: after) := by
      by_cases hlt : old.bytes.length < 128
      · exact replaceAt_of_lt key old before after hlt
      · obtain rfl := hkept.resolve_left hlt
        exact replaceAt_of_le key old before [] (not_lt.mp hlt) (Nat.zero_le _)
    have hfound : addLoop key.entry key.bytes (fuel + 1) (encode (before ++ old :: after))
        (placeBehind before) false = some (encode (before ++ key :: after), true) := by
      rw [addLoop_succ, if_neg fun hstops => hread ((stops_place_iff old before after).mp hstops),
        compareAt_place, decide_eq_true hguid, hreplace]
      exact hfuel
    obtain ⟨fuel', hfuel'⟩ := hwalk.addLoop hfound
    refine ⟨fuel', encode (before ++ key :: after), ?_, updated_replace hnodup hguid⟩
    rw [addWithin_key, hfuel']
    rfl

/-! ## Lists in which the GUID stands nowhere else -/

/-- The GUID of the key stands only where a key starts. -/
def GuidAlone (keys : List ChangeKey) (key : ChangeKey) : Prop :=
  ∀ p, ((encode keys).drop (p + 1)).take sizeofGUID = key.guid →
    ∃ before old after, keys = before ++ old :: after ∧ p = placeBehind before

/-- The same of the list and of the one with the key. -/
def GuidsApart (keys : List ChangeKey) (key : ChangeKey) : Prop :=
  GuidAlone keys key ∧ ∀ before old after, keys = before ++ old :: after → old.guid = key.guid →
    GuidAlone (before ++ key :: after) key

/-- Where the comparison succeeds, the GUID of the key stands in the list. -/
theorem guid_of_compareAt {s : List UInt8} {p : ℕ} (h : compareAt key s p = some true) :
    (s.drop (p + 1)).take sizeofGUID = key.guid := by
  unfold compareAt memcmp at h
  split_ifs at h with hlength
  have hbytes := beq_iff_eq.mp (Option.some.inj h)
  have hle : sizeofGUID ≤ sizeAt s p := by
    have hlong := hlength.1
    rw [List.length_take] at hlong
    exact hlong.trans (min_le_left _ _)
  rwa [List.take_take, min_eq_left hle] at hbytes

/-- The GUID of the key stands only at the key of the server. -/
theorem place_of_guid (hnodup : ((before ++ old :: after).map ChangeKey.guid).Nodup)
    (hguid : old.guid = key.guid) (halone : GuidAlone (before ++ old :: after) key) {p : ℕ}
    (h : ((encode (before ++ old :: after)).drop (p + 1)).take sizeofGUID = key.guid) : p = placeBehind before := by
  obtain ⟨before', old', after', heq, rfl⟩ := halone p h
  have hguid' : old'.guid = key.guid := by
    rw [heq, drop_place, List.take_append_of_le_length old'.long.le] at h
    exact h
  have hothers := filter_others hnodup hguid
  have hbefore : old' ∉ before := fun hmem => hothers old' (List.mem_append_left _ hmem) hguid'
  have hafter : old' ∉ after := fun hmem => hothers old' (List.mem_append_right _ hmem) hguid'
  obtain ⟨rfl, -, -⟩ := (List.append_cons_inj_of_notMem hbefore hafter).mp heq
  rfl

/-- The loop over the list that ends with the key leaves it as it is. -/
theorem settles_last (hnodup : ((before ++ key :: after).map ChangeKey.guid).Nodup)
    (halone : GuidAlone (before ++ key :: after) key) {p : ℕ}
    (h : addLoop key.entry key.bytes fuel (encode (before ++ [key])) p true = some r) :
    Settles key (encode (before ++ [key])) p ∧ r = (encode (before ++ [key]), true) := by
  refine settles_of_addLoop (fun q hgoes hcompare => ?_) h
  -- the list is the front of the one with all keys
  have hfront : ((encode (before ++ key :: after)).drop (q + 1)).take sizeofGUID = key.guid := by
    have hshort := guid_of_compareAt hcompare
    have hlength : sizeofGUID ≤ ((encode (before ++ [key])).drop (q + 1)).length := by
      have hall := congrArg List.length hshort
      rw [List.length_take, ChangeKey.guid, List.length_take] at hall
      have hlong := key.long
      omega
    have hsplit : encode (before ++ key :: after) = encode (before ++ [key]) ++ encode after := by
      rw [← encode_append, List.append_assoc, List.singleton_append]
    have hq : q + 1 ≤ (encode (before ++ [key])).length := by
      rw [List.length_drop] at hlength
      unfold sizeofGUID at hlength
      omega
    rw [hsplit, List.drop_append_of_le_length hq, List.take_append_of_le_length hlength, hshort]
  obtain rfl := place_of_guid hnodup rfl halone hfront
  by_cases hlt : key.bytes.length < 128
  · exact replaceAt_of_lt key key before [] hlt
  · exact replaceAt_of_le key key before [] (not_lt.mp hlt) (Nat.zero_le _)

/-- The list that ends with the key has lost the keys behind it. -/
theorem after_eq_nil (hnodup : ((before ++ old :: after).map ChangeKey.guid).Nodup) (hguid : old.guid = key.guid)
    (h : Updated (before ++ old :: after) key (encode (before ++ [key]))) : after = [] := by
  have hothers := filter_others hnodup hguid
  have hall (l : List ChangeKey) (hl : ∀ k ∈ l, k.guid ≠ key.guid) :
      l.filter (fun k => k.guid ≠ key.guid) = l := List.filter_eq_self.mpr fun k hk => by simpa using hl k hk
  obtain ⟨keys', hkeys', -, hrest⟩ := h
  obtain rfl := encode_injective hkeys'
  rw [List.filter_append, List.filter_append, List.filter_cons_of_neg (by simp),
    List.filter_cons_of_neg (by simpa using hguid), List.filter_nil, List.append_nil,
    hall before fun k hk => hothers k (List.mem_append_left _ hk),
    hall after fun k hk => hothers k (List.mem_append_right _ hk)] at hrest
  exact List.self_eq_append_right.mp hrest

/-- The key behind a list that has one of its server is not an update. -/
theorem not_updated_append (h : Updated keys key (encode keys ++ key.entry)) : ∀ k ∈ keys, k.guid ≠ key.guid := by
  intro k hk hguid
  obtain ⟨keys', hkeys', hone, -⟩ := h
  have hkeys' : encode (keys ++ [key]) = encode keys' := by
    rw [← hkeys', encode_append]
    exact congrArg (encode keys ++ ·) (List.append_nil _)
  obtain rfl := encode_injective hkeys'
  rw [List.filter_append] at hone
  have hnone : ∀ k ∈ keys, ¬ k.guid = key.guid := by simpa using hone
  exact hnone k hk hguid

/-- Where the GUID of the key stands nowhere else, the loop has to walk right. -/
theorem walksRight_of_updates (hnodup : (keys.map ChangeKey.guid).Nodup) (hapart : GuidsApart keys key)
    (hlength : (encode keys).length < 2 ^ 31) (h : Updates keys key) : WalksRight keys key := by
  obtain ⟨fuel, result, hadd, hupdated⟩ := h
  rw [addWithin_key] at hadd
  obtain ⟨r, hloop, hresult⟩ := Option.map_eq_some_iff.mp hadd
  rcases walk_of_addLoop hloop with ⟨q, hwalk, hstops, rfl⟩ | ⟨q, fuel', hwalk, hgoes, hcompare, hrest⟩
  · obtain rfl : encode keys ++ key.entry = result := hresult
    exact .absent (not_updated_append hupdated) hwalk hstops
  · obtain ⟨before, old, after, rfl, rfl⟩ := hapart.1 q (guid_of_compareAt hcompare)
    rw [compareAt_place] at hcompare
    have hguid : old.guid = key.guid := of_decide_eq_true (Option.some.inj hcompare)
    have hread : old.bytes.length ≠ 255 := fun h255 => hgoes ((stops_place_iff old before after).mpr h255)
    have halone := hapart.2 before old after rfl hguid
    have hnodup' : ((before ++ key :: after).map ChangeKey.guid).Nodup := by
      rw [List.map_append, List.map_cons, ← hguid, ← List.map_cons, ← List.map_append]
      exact hnodup
    have hlost {fuel p : ℕ} (hlast : addLoop key.entry key.bytes fuel (encode (before ++ [key])) p true =
        some r) : after = [] ∧ Settles key (encode (before ++ [key])) p := by
      obtain ⟨hsettles, rfl⟩ := settles_last hnodup' halone hlast
      obtain rfl : encode (before ++ [key]) = result := hresult
      exact ⟨after_eq_nil hnodup hguid hupdated, hsettles⟩
    have hsmall : (encode after).length ≤ 2 ^ 32 - 256 := by
      rw [encode_append, List.length_append, encode_cons, List.length_append] at hlength
      omega
    by_cases hold : old.bytes.length < 128
    · rw [replaceAt_of_lt key old before after hold] at hrest
      refine .present rfl hguid hwalk hread (.inl hold) ?_
      rcases walk_of_addLoop hrest with ⟨q, hwalk', hstops', -⟩ | ⟨q, fuel'', hwalk', hgoes', hcompare', hrest'⟩
      · exact hwalk'.settles (.stop hstops')
      · -- the loop has come back to the key
        obtain rfl := place_of_guid hnodup' rfl halone (guid_of_compareAt hcompare')
        by_cases hkey : key.bytes.length < 128
        · refine (settles_of_addLoop (fun q _ hq => ?_) hrest).1
          obtain rfl := place_of_guid hnodup' rfl halone (guid_of_compareAt hq)
          exact replaceAt_of_lt key key before after hkey
        · have hcut := replaceAt_of_le key key before after (not_lt.mp hkey) hsmall
          rw [hcut] at hrest'
          obtain ⟨rfl, hsettles⟩ := hlost hrest'
          exact hwalk'.settles (.step hgoes' hcompare' (fun _ => hcut) hsettles)
    · rw [replaceAt_of_le key old before after (not_lt.mp hold) hsmall] at hrest
      obtain ⟨rfl, hsettles⟩ := hlost hrest
      exact .present rfl hguid hwalk hread (.inr rfl) hsettles

/-! ## Short keys -/

/-- Behind a key of less than 128 bytes the loop goes on at the entry that follows. -/
theorem nextPos_place (before after : List ChangeKey) (e : ChangeKey) (he : e.bytes.length < 128)
    (hlength : (encode (before ++ e :: after)).length < 2 ^ 32) :
    nextPos (encode (before ++ e :: after)) (placeBehind before) = placeBehind (before ++ [e]) := by
  have hplace : placeBehind (before ++ [e]) = placeBehind before + e.bytes.length + 1 := by
    rw [placeBehind, encode_append, List.length_append]
    show _ + (e.entry ++ []).length = _
    rw [List.append_nil, e.length_entry, add_assoc]
  rw [encode_append, List.length_append, encode_cons, List.length_append, e.length_entry] at hlength
  rw [nextPos, sizeAt_of_lt e before after he, hplace, Nat.mod_eq_of_lt]
  unfold placeBehind
  omega

/-- The loop passes short keys of other servers. -/
theorem walk_short (front mid rest : List ChangeKey) (hshort : ∀ k ∈ mid, k.bytes.length < 128)
    (hothers : ∀ k ∈ mid, k.guid ≠ key.guid) (hlength : (encode (front ++ mid ++ rest)).length < 2 ^ 32) :
    Walk key (encode (front ++ mid ++ rest)) (placeBehind front) (placeBehind (front ++ mid)) := by
  induction mid generalizing front with
  | nil =>
    rw [List.append_nil]
    exact .here _
  | cons k mid ih =>
    have hk := hshort k List.mem_cons_self
    have hmid : front ++ k :: mid ++ rest = front ++ k :: (mid ++ rest) := by rw [List.append_assoc]; rfl
    have hnext : front ++ k :: mid = front ++ [k] ++ mid := by rw [List.append_assoc]; rfl
    rw [hmid] at hlength ⊢
    refine .step (fun hstops => ?_) ?_ ?_
    · have h255 := (stops_place_iff k front (mid ++ rest)).mp hstops
      omega
    · rw [compareAt_place, decide_eq_false (hothers k List.mem_cons_self)]
    · rw [nextPos_place front (mid ++ rest) k hk hlength, hnext]
      have hrest : front ++ k :: (mid ++ rest) = front ++ [k] ++ mid ++ rest := by simp
      rw [hrest] at hlength ⊢
      exact ih (front ++ [k]) (fun k' hk' => hshort k' (List.mem_cons_of_mem k hk'))
        (fun k' hk' => hothers k' (List.mem_cons_of_mem k hk')) hlength

/-- A list of short keys in which the key has the size of the one before it. -/
theorem walksRight_of_short (hnodup : (keys.map ChangeKey.guid).Nodup) (hshort : ∀ k ∈ keys, k.bytes.length < 128)
    (hsize : ∀ k ∈ keys, k.guid = key.guid → k.bytes.length = key.bytes.length)
    (hlength : (encode keys).length < 2 ^ 32) : WalksRight keys key := by
  have hend (l : List ChangeKey) : Stops (encode (l ++ [])) (placeBehind l) := .inl (by rw [List.append_nil])
  by_cases hnone : ∀ k ∈ keys, k.guid ≠ key.guid
  · have hwalk : Walk key (encode keys) (placeBehind []) (placeBehind keys) := by
      simpa using walk_short [] keys [] hshort hnone (by simpa using hlength)
    exact .absent hnone hwalk (by simpa using hend keys)
  · obtain ⟨old, hold, hguid⟩ : ∃ k ∈ keys, k.guid = key.guid := by simpa using hnone
    obtain ⟨before, after, rfl⟩ := List.append_of_mem hold
    have hothers := filter_others hnodup hguid
    have hkey : key.bytes.length < 128 := hsize old hold hguid ▸ hshort old hold
    have hsame : (encode (before ++ key :: after)).length = (encode (before ++ old :: after)).length := by
      rw [encode_append, encode_append, List.length_append, List.length_append, encode_cons, encode_cons,
        List.length_append, List.length_append, key.length_entry, old.length_entry, hsize old hold hguid]
    have hplace : placeBehind (before ++ [old]) = placeBehind (before ++ [key]) := by
      unfold placeBehind
      rw [encode_append, encode_append, List.length_append, List.length_append]
      show _ + (old.entry ++ []).length = _ + (key.entry ++ []).length
      rw [List.append_nil, List.append_nil, old.length_entry, key.length_entry, hsize old hold hguid]
    have hfirst : Walk key (encode ([] ++ before ++ old :: after)) (placeBehind [])
        (placeBehind ([] ++ before)) := walk_short [] before (old :: after)
      (fun k hk => hshort k (List.mem_append_left _ hk)) (fun k hk => hothers k (List.mem_append_left _ hk))
      (by simpa using hlength)
    have hlater : Walk key (encode (before ++ [key] ++ after ++ [])) (placeBehind (before ++ [key]))
        (placeBehind (before ++ [key] ++ after)) := walk_short (before ++ [key]) after []
      (fun k hk => hshort k (List.mem_append_right _ (List.mem_cons_of_mem old hk)))
      (fun k hk => hothers k (List.mem_append_right _ hk)) (by simpa using hsame ▸ hlength)
    rw [List.nil_append] at hfirst
    refine .present rfl hguid hfirst (by have := hshort old hold; omega)
      (.inl (hshort old hold)) ?_
    rw [nextPos_place before after old (hshort old hold) hlength, hplace]
    have hsettles := hlater.settles (.stop (hend _))
    simpa using hsettles

/-! ## The condition -/

/-- A walk that goes right is enough. Where the GUID of the key stands nowhere else, it is needed. -/
theorem updates_iff_walksRight (keys : List ChangeKey) (key : ChangeKey) (hnodup : (keys.map ChangeKey.guid).Nodup) :
    (WalksRight keys key → Updates keys key) ∧
      (GuidsApart keys key → (encode keys).length < 2 ^ 31 → Updates keys key → WalksRight keys key) :=
  ⟨fun h => h.updates hnodup, fun hapart hlength => walksRight_of_updates hnodup hapart hlength⟩

end Updates

/-- A key of the size that the server makes. -/
def serverKey (server changeid : UInt8) : ChangeKey where
  bytes := [server, 1, 2, 3, 4, 5, 6, 7, 8, 9, 10, 11, 12, 13, 14, 15, changeid, 0, 0, 0]
  long := show 16 < 20 by decide
  short := show 20 ≤ 255 by decide

/-- A key of 200 bytes. -/
def longKey : ChangeKey where
  bytes := List.replicate 200 7
  long := List.length_replicate.symm ▸ by decide
  short := List.length_replicate.symm ▸ by decide

/-- The next change of a server, between the changes of two other servers, is put in the place of the one before. -/
theorem updates_iff_walksRight_next : Updates [serverKey 15 4, serverKey 16 1, serverKey 17 9] (serverKey 16 2) ∧
      WalksRight [serverKey 15 4, serverKey 16 1, serverKey 17 9] (serverKey 16 2) := by
  have h := updates_iff_walksRight [serverKey 15 4, serverKey 16 1, serverKey 17 9] (serverKey 16 2) (by decide)
  have hupdates := h.1 (walksRight_of_short (by decide) (by decide) (by decide) (by decide))
  -- the GUID stands nowhere but at the second of the three keys
  have halone (n : UInt8) (hsecond : ∀ p < 63, ((encode [serverKey 15 4, serverKey 16 n, serverKey 17 9]).drop
      (p + 1)).take sizeofGUID = (serverKey 16 2).guid → p = 21) :
      GuidAlone [serverKey 15 4, serverKey 16 n, serverKey 17 9] (serverKey 16 2) := by
    intro p hp
    by_cases hlt : p < 63
    · exact ⟨[serverKey 15 4], _, [serverKey 17 9], rfl, hsecond p hlt hp⟩
    · have hnil : (encode [serverKey 15 4, serverKey 16 n, serverKey 17 9]).drop (p + 1) = [] :=
        List.drop_eq_nil_of_le (show 63 ≤ p + 1 by omega)
      rw [hnil] at hp
      exact nomatch hp
  refine ⟨hupdates, h.2 ⟨halone 1 (by decide), fun before old after heq hguid => ?_⟩ (by decide) hupdates⟩
  rcases before with - | ⟨k, - | ⟨k', before⟩⟩ <;>
    simp only [List.nil_append, List.cons_append, List.cons.injEq] at heq
  · obtain ⟨rfl, -⟩ := heq
    exact absurd hguid (by decide)
  · obtain ⟨rfl, -, rfl⟩ := heq
    exact halone 2 (by decide)
  · obtain ⟨rfl, -⟩ : old = serverKey 17 9 ∧ after = [] := by
      cases before with
      | nil => simpa [eq_comm] using heq.2.2
      | cons k'' before => simp at heq
    exact absurd hguid (by decide)

/-- The size of a long key is read as a negative number, and the key of the server behind it is not found. -/
theorem not_updates_longKey : ([longKey, serverKey 16 1].map ChangeKey.guid).Nodup ∧
    ¬ Updates [longKey, serverKey 16 1] (serverKey 16 2) := by
  refine ⟨by decide, ?_⟩
  rintro ⟨fuel, result, hadd, hupdated⟩
  rw [addWithin_key] at hadd
  obtain ⟨r, hloop, hresult⟩ := Option.map_eq_some_iff.mp hadd
  have hvalue : addLoop (serverKey 16 2).entry (serverKey 16 2).bytes 2 (encode [longKey, serverKey 16 1]) 0
      false = some (encode [longKey, serverKey 16 1], false) := by decide +kernel
  have hlong := addLoop_mono _ _ _ (Nat.le_add_right fuel 2) hloop
  rw [addLoop_mono _ _ _ (Nat.le_add_left 2 fuel) hvalue] at hlong
  obtain rfl := Option.some.inj hlong
  obtain rfl : encode [longKey, serverKey 16 1] ++ (serverKey 16 2).entry = result := hresult
  exact not_updated_append hupdated (serverKey 16 1) (by simp) rfl

end Zcp.Libserver.ECICS
