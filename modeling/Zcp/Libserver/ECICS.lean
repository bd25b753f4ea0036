import Zcp.Common.PropValues
import Zcp.Lib.Endian

/-!
# Change keys

The parts of `provider/libserver/ECICS.cpp` that keep `PR_CHANGE_KEY` and `PR_PREDECESSOR_CHANGE_LIST` of a
message. A change key is the GUID of a server and a number of a change there; a list of them has the size of
a key in front of each.
-/

namespace Zcp.Libserver.ECICS

open Zcp.Lib
open Zcp.Common

/-- `sizeof(GUID)`. -/
def sizeofGUID : ℕ := 16

/-- A `char` as an unsigned number of `w` bits. -/
def ofChar (w : ℕ) (c : UInt8) : ℕ := if c < 128 then c.toNat else 2 ^ w - 256 + c.toNat

/-- `memcmp`, equal or not; `none` when there are not so many bytes to look at. -/
def memcmp (a b : List UInt8) (n : ℕ) : Option Bool :=
  if n ≤ a.length ∧ n ≤ b.length then some (a.take n == b.take n) else none

/-- The loop of `AddChangeKeyToChangeList`: the list, and if there was a key with the same GUID. It is `none`
when memory outside of the list is looked at, or when the loop does not come to an end. -/
def addLoop (strChangeKey lpChangeKey : List UInt8) :
    ℕ → List UInt8 → ℕ → Bool → Option (List UInt8 × Bool)
  | 0, _, _, _ => none
  | fuel + 1, strChangeList, ulPos, bFound =>
    if ulPos < strChangeList.length then
      let ulSize := ofChar 32 (strChangeList.getD ulPos 0)
      if ulSize ≤ sizeofGUID ∨ ulSize = 2 ^ 32 - 1 then some (strChangeList, bFound)
      else
        let ulNext := (ulPos + ulSize + 1) % 2 ^ 32
        match memcmp ((strChangeList.drop (ulPos + 1)).take ulSize) lpChangeKey sizeofGUID with
        | none => none
        | some true =>
          let strReplaced :=
            strChangeList.take ulPos ++ strChangeKey ++ strChangeList.drop (ulPos + (ulSize + 1))
          addLoop strChangeKey lpChangeKey fuel strReplaced ulNext true
        | some false => addLoop strChangeKey lpChangeKey fuel strChangeList ulNext bFound
    else some (strChangeList, bFound)

/-- `AddChangeKeyToChangeList`. -/
def addChangeKeyToChangeList (strChangeList lpChangeKey : List UInt8) : Option (List UInt8) :=
  let cbChangeKey := lpChangeKey.length
  if cbChangeKey ≤ sizeofGUID ∨ 255 < cbChangeKey then some strChangeList
  else
    let strChangeKey := UInt8.ofNat cbChangeKey :: lpChangeKey
    match addLoop strChangeKey lpChangeKey (strChangeList.length + 1) strChangeList 0 false with
    | none => none
    | some (strChangeList, true) => some strChangeList
    | some (strChangeList, false) => some (strChangeList ++ strChangeKey)

/-- The value of a binary property, when it is longer than a GUID. -/
def longerThanGUID (value : Option (List UInt8)) : Option (List UInt8) :=
  value.filter fun bytes => sizeofGUID < bytes.length

/-- `szChangeKey`, of the GUID of the server and the number of the change. -/
def szChangeKey (sServerGUID : GUID) (changeid : BitVec 32) : List UInt8 :=
  sServerGUID.bytes ++ littleEndian 4 changeid.toNat

/-- `AddChange`, from where the change has been recorded: `PR_CHANGE_KEY` and `PR_PREDECESSOR_CHANGE_LIST` of
the object afterwards. -/
def addChange (sServerGUID : GUID) (changeid ulSyncId : BitVec 32) (fForceNewChangeKey : Bool)
    (changeKey changeList : Option (List UInt8)) :
    Option (Option (List UInt8) × Option (List UInt8)) := do
  let strChangeList := (longerThanGUID changeList).getD []
  let strChangeList ←
    match longerThanGUID changeKey with
    | none => some strChangeList
    | some lpChangeKey => addChangeKeyToChangeList strChangeList lpChangeKey
  if ulSyncId = 0 ∨ fForceNewChangeKey = true then
    let lpChangeKey := szChangeKey sServerGUID changeid
    let strChangeList ← addChangeKeyToChangeList strChangeList lpChangeKey
    return (some lpChangeKey, some strChangeList)
  else return (changeKey, changeList)

/-! ## Lists of change keys -/

/-- The list of some changes. -/
def changeList (changes : List (GUID × BitVec 32)) : List UInt8 :=
  changes.flatMap fun change => 20 :: szChangeKey change.1 change.2

/-- The changes with the number of a server put in the place of its last one, or behind the others. -/
def putChange (changes : List (GUID × BitVec 32)) (sServerGUID : GUID) (changeid : BitVec 32) :
    List (GUID × BitVec 32) :=
  if changes.any fun change => change.1 = sServerGUID then
    changes.map fun change => if change.1 = sServerGUID then (sServerGUID, changeid) else change
  else changes ++ [(sServerGUID, changeid)]

theorem length_szChangeKey (sServerGUID : GUID) (changeid : BitVec 32) :
    (szChangeKey sServerGUID changeid).length = 20 := by
  rw [szChangeKey, List.length_append, sServerGUID.length_eq, length_littleEndian]

theorem ofChar_key (w : ℕ) : ofChar w 20 = 20 := rfl

/-- The GUID in front of two keys, with anything behind them. -/
theorem memcmp_szChangeKey (change change' : GUID × BitVec 32) (rest rest' : List UInt8) :
    memcmp (szChangeKey change.1 change.2 ++ rest) (szChangeKey change'.1 change'.2 ++ rest')
      sizeofGUID = some (decide (change.1 = change'.1)) := by
  have hlength (c : GUID × BitVec 32) (r : List UInt8) :
      sizeofGUID ≤ (szChangeKey c.1 c.2 ++ r).length := by
    rw [List.length_append, length_szChangeKey]
    exact Nat.le_add_right_of_le (by decide)
  have htake (c : GUID × BitVec 32) (r : List UInt8) :
      (szChangeKey c.1 c.2 ++ r).take sizeofGUID = c.1.bytes := by
    rw [szChangeKey, List.append_assoc]
    exact List.take_left' c.1.length_eq
  unfold memcmp
  rw [if_pos ⟨hlength _ _, hlength _ _⟩, htake, htake, Option.some_inj, Bool.eq_iff_iff, beq_iff_eq,
    decide_eq_true_eq]
  constructor
  · intro hbytes
    obtain ⟨⟨bytes, hlen⟩, n⟩ := change
    obtain ⟨⟨bytes', hlen'⟩, n'⟩ := change'
    cases hbytes
    rfl
  · exact congrArg GUID.bytes

theorem memcmp_szChangeKey_self (change change' : GUID × BitVec 32) :
    memcmp (szChangeKey change.1 change.2) (szChangeKey change'.1 change'.2) sizeofGUID =
      some (decide (change.1 = change'.1)) := by
  have h := memcmp_szChangeKey change change' [] []
  rwa [List.append_nil, List.append_nil] at h

section Entries

variable (before entry : List UInt8)

/-- The size of the entry at a place between two entries. -/
theorem getD_entry : (before ++ 20 :: entry).getD before.length 0 = 20 := by
  rw [List.getD_eq_getElem?_getD, List.getElem?_append_right le_rfl, Nat.sub_self]
  rfl

theorem drop_entry : (before ++ 20 :: entry).drop (before.length + 1) = entry := by
  rw [← List.drop_drop, List.drop_left]
  rfl

theorem length_entry : before.length < (before ++ 20 :: entry).length := by
  rw [List.length_append, List.length_cons]
  omega

end Entries

theorem changeList_cons (change : GUID × BitVec 32) (changes : List (GUID × BitVec 32)) :
    changeList (change :: changes) =
      20 :: (szChangeKey change.1 change.2 ++ changeList changes) := rfl

/-- The loop, from a place between two keys on. -/
theorem addLoop_changeList (sServerGUID : GUID) (changeid : BitVec 32) (fuel : ℕ)
    (changes : List (GUID × BitVec 32)) (before : List UInt8) (bFound : Bool)
    (hfuel : changes.length < fuel) (hlt : (before ++ changeList changes).length < 2 ^ 31) :
    addLoop (20 :: szChangeKey sServerGUID changeid) (szChangeKey sServerGUID changeid) fuel
        (before ++ changeList changes) before.length bFound = some (before ++ changeList (changes.map fun change =>
          if change.1 = sServerGUID then (sServerGUID, changeid) else change),
        bFound || changes.any fun change => change.1 = sServerGUID) := by
  induction changes generalizing fuel before bFound with
  | nil =>
    obtain ⟨fuel, rfl⟩ := Nat.exists_eq_succ_of_ne_zero (Nat.ne_of_gt hfuel)
    have hend : ¬ before.length < (before ++ changeList []).length := by
      rw [List.length_append]
      exact lt_irrefl _
    rw [addLoop, if_neg hend, List.any_nil, Bool.or_false]
    rfl
  | cons change changes ih =>
    obtain ⟨fuel, rfl⟩ := Nat.exists_eq_succ_of_ne_zero (Nat.ne_of_gt (Nat.zero_lt_of_lt hfuel))
    rw [changeList_cons] at hlt ⊢
    have hkey := length_szChangeKey change.1 change.2
    have hnext : (before.length + 20 + 1) % 2 ^ 32 = before.length + 21 := by
      rw [List.length_append, List.length_cons, List.length_append] at hlt
      exact Nat.mod_eq_of_lt (by omega)
    have hentry : ((before ++ 20 :: (szChangeKey change.1 change.2 ++ changeList changes)).drop
        (before.length + 1)).take 20 = szChangeKey change.1 change.2 := by
      rw [drop_entry]
      exact List.take_left' hkey
    have hmemcmp := memcmp_szChangeKey_self change (sServerGUID, changeid)
    have hsmall : ¬ (20 ≤ sizeofGUID ∨ 20 = 2 ^ 32 - 1) := by decide
    -- what is left of the list, with the entry or the one that is put in its place in front
    have hrest (key : List UInt8) (hlength : key.length = 20) (b : Bool) :
        addLoop (20 :: szChangeKey sServerGUID changeid) (szChangeKey sServerGUID changeid) fuel
            (before ++ 20 :: (key ++ changeList changes)) (before.length + 21) b =
          some (before ++ 20 :: (key ++ changeList (changes.map fun change =>
              if change.1 = sServerGUID then (sServerGUID, changeid) else change)),
            b || changes.any fun change => change.1 = sServerGUID) := by
      have hplace : (before ++ 20 :: key).length = before.length + 21 := by
        rw [List.length_append, List.length_cons, hlength]
      have happend (rest : List UInt8) :
          before ++ 20 :: (key ++ rest) = (before ++ 20 :: key) ++ rest := by
        rw [List.append_assoc, List.cons_append]
      rw [happend, happend, ← hplace]
      refine ih fuel (before ++ 20 :: key) b (Nat.lt_of_succ_lt_succ hfuel) ?_
      rw [List.length_append, hplace]
      rw [List.length_append, List.length_cons, List.length_append] at hlt
      omega
    rw [addLoop, if_pos (length_entry before _)]
    simp only [getD_entry, ofChar_key, hentry, hnext, hmemcmp, if_neg hsmall]
    by_cases heq : change.1 = sServerGUID
    · subst heq
      have hreplace : (before ++ 20 :: (szChangeKey change.1 change.2 ++ changeList changes)).take
            before.length ++ 20 :: szChangeKey change.1 changeid ++
          (before ++ 20 :: (szChangeKey change.1 change.2 ++ changeList changes)).drop
            (before.length + (20 + 1)) =
          before ++ 20 :: (szChangeKey change.1 changeid ++ changeList changes) := by
        have hskip : (before ++ 20 :: (szChangeKey change.1 change.2 ++ changeList changes)).drop
            (before.length + (20 + 1)) = changeList changes := by
          rw [← List.drop_drop, List.drop_left, List.drop_succ_cons]
          exact List.drop_left' hkey
        rw [hskip, List.take_left, List.append_assoc, List.cons_append]
      simp only [decide_true, List.map_cons, if_true, List.any_cons, Bool.true_or, Bool.or_true,
        changeList_cons]
      rw [hreplace]
      exact hrest _ (length_szChangeKey _ _) true
    · simp only [heq, decide_false, List.map_cons, if_false, List.any_cons, Bool.false_or,
        changeList_cons]
      exact hrest _ hkey bFound

theorem length_changeList (changes : List (GUID × BitVec 32)) :
    (changeList changes).length = 21 * changes.length := by
  induction changes with
  | nil => rfl
  | cons change changes ih =>
    rw [changeList_cons, List.length_cons, List.length_append, length_szChangeKey, ih,
      List.length_cons]
    omega

theorem length_le_changeList (changes : List (GUID × BitVec 32)) : changes.length ≤ (changeList changes).length := by
  rw [length_changeList]
  omega

/-- A change is put in its place. -/
theorem addChangeKeyToChangeList_eq (changes : List (GUID × BitVec 32)) (sServerGUID : GUID)
    (changeid : BitVec 32) (hlt : (changeList changes).length < 2 ^ 31) :
    addChangeKeyToChangeList (changeList changes) (szChangeKey sServerGUID changeid) =
      some (changeList (putChange changes sServerGUID changeid)) := by
  have hlength := length_szChangeKey sServerGUID changeid
  have hloop := addLoop_changeList sServerGUID changeid ((changeList changes).length + 1) changes []
    false (Nat.lt_succ_of_le (length_le_changeList changes)) hlt
  rw [List.nil_append, List.nil_append, List.length_nil, Bool.false_or] at hloop
  unfold addChangeKeyToChangeList putChange
  simp only [hlength]
  rw [if_neg (by decide)]
  change (match addLoop (20 :: _) _ _ _ _ _ with
    | none => none
    | some (strChangeList, true) => some strChangeList
    | some (strChangeList, false) => some (strChangeList ++ _)) = _
  rw [hloop]
  cases hany : changes.any fun change => change.1 = sServerGUID with
  | true => rfl
  | false =>
    -- nothing has been replaced
    have hsame : (changes.map fun change =>
        if change.1 = sServerGUID then (sServerGUID, changeid) else change) = changes := by
      refine (List.map_congr_left (g := id) fun change hmem => ?_).trans (List.map_id changes)
      exact if_neg fun heq => List.any_eq_false.mp hany change hmem (decide_eq_true heq)
    rw [hsame]
    simp only [Bool.false_eq_true, if_false]
    rw [changeList, changeList, List.flatMap_append, List.flatMap_singleton]
    rfl

/-- What is in the list afterwards. -/
theorem mem_putChange {changes : List (GUID × BitVec 32)} {sServerGUID : GUID} {changeid : BitVec 32}
    {change : GUID × BitVec 32} : change ∈ putChange changes sServerGUID changeid ↔
      change = (sServerGUID, changeid) ∨ change ∈ changes ∧ change.1 ≠ sServerGUID := by
  unfold putChange
  split_ifs with hany
  · obtain ⟨old, hold, hsame⟩ := List.any_eq_true.mp hany
    rw [List.mem_map]
    constructor
    · rintro ⟨change', hmem, rfl⟩
      split_ifs with heq
      · exact .inl rfl
      · exact .inr ⟨hmem, heq⟩
    · rintro (rfl | ⟨hmem, hne⟩)
      · exact ⟨old, hold, if_pos (of_decide_eq_true hsame)⟩
      · exact ⟨change, hmem, if_neg hne⟩
  · rw [List.mem_append, List.mem_singleton, or_comm]
    refine or_congr_right (and_iff_left_of_imp fun hmem heq => hany ?_).symm
    exact List.any_eq_true.mpr ⟨change, hmem, decide_eq_true heq⟩

/-- A change of a server that has one in the list makes the list no longer. -/
theorem length_putChange {changes : List (GUID × BitVec 32)} {change : GUID × BitVec 32}
    (h : change ∈ changes) (changeid : BitVec 32) :
    (putChange changes change.1 changeid).length = changes.length := by
  have hany : (changes.any fun c => c.1 = change.1) = true :=
    List.any_eq_true.mpr ⟨change, h, decide_eq_true rfl⟩
  unfold putChange
  rw [if_pos hany, List.length_map]

/-- A key, or a list that is not empty, is longer than a GUID. -/
theorem longerThanGUID_key (sServerGUID : GUID) (changeid : BitVec 32) :
    longerThanGUID (some (szChangeKey sServerGUID changeid)) = some (szChangeKey sServerGUID changeid) := by
  refine Option.filter_some_pos (decide_eq_true ?_)
  rw [length_szChangeKey]
  decide

theorem longerThanGUID_list (changes : List (GUID × BitVec 32)) :
    (longerThanGUID (some (changeList changes))).getD [] = changeList changes := by
  cases changes with
  | nil => rfl
  | cons change changes =>
    have hlong : sizeofGUID < (changeList (change :: changes)).length := by
      rw [changeList_cons, List.length_cons, List.length_append, length_szChangeKey]
      exact Nat.lt_of_lt_of_le (by decide) (Nat.succ_le_succ (Nat.le_add_right 20 _))
    have hsome : longerThanGUID (some (changeList (change :: changes))) =
        some (changeList (change :: changes)) := Option.filter_some_pos (decide_eq_true hlong)
    rw [hsome, Option.getD_some]

/-- The first change of an object. -/
theorem addChange_first (sServerGUID : GUID) (changeid : BitVec 32) :
    addChange sServerGUID changeid 0 false none none =
      some (some (szChangeKey sServerGUID changeid), some (changeList [(sServerGUID, changeid)])) := by
  have hput := addChangeKeyToChangeList_eq [] sServerGUID changeid (by decide)
  unfold addChange
  simp only [longerThanGUID, Option.filter_none, Option.getD_none, true_or, if_true]
  exact congrArg (Option.bind · _) hput

/-- A later change: the old key and the new one are put into the list. -/
theorem addChange_next {changes : List (GUID × BitVec 32)} (change : GUID × BitVec 32)
    (hlt : (changeList changes).length < 2 ^ 31)
    (hput : (changeList (putChange changes change.1 change.2)).length < 2 ^ 31)
    (sServerGUID : GUID) (changeid : BitVec 32) :
    addChange sServerGUID changeid 0 false (some (szChangeKey change.1 change.2)) (some (changeList changes)) =
      some (some (szChangeKey sServerGUID changeid), some (changeList
        (putChange (putChange changes change.1 change.2) sServerGUID changeid))) := by
  have hold := addChangeKeyToChangeList_eq changes change.1 change.2 hlt
  have hnew := addChangeKeyToChangeList_eq _ sServerGUID changeid hput
  unfold addChange
  simp only [longerThanGUID_key, longerThanGUID_list, hold, Option.bind_eq_bind, Option.bind_some,
    true_or, if_true, hnew]
  rfl

end Zcp.Libserver.ECICS
