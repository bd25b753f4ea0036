import Zcp.FreeBusy.PublishFreeBusy
import Zcp.Lib.OrderedMap

/-!
# Lists of free/busy blocks

`ECFBBlockList` of `libfreebusy/ECFBBlockList.cpp` keeps blocks in a map from their starts and hands
them out one after another, as far as they match a restriction.
-/

namespace Zcp.FreeBusy

open Zcp.Lib

/-- `ECFBBlockList`. The iterator is the blocks that it has not passed. -/
structure ECFBBlockList where
  m_FBMap : List FBBlock_1
  m_FBIter : List FBBlock_1
  m_tmRestictStart : ℤ
  m_tmRestictEnd : ℤ
  m_bInitIter : Bool
  sorted : OrderedMap.Sorted FBBlock_1.m_tmStart m_FBMap

namespace ECFBBlockList

inductive HRESULT where
  | hrSuccess
  | MAPI_E_NOT_FOUND
  | MAPI_E_INVALID_PARAMETER
deriving DecidableEq, Repr

/-- The constructor. -/
def new : ECFBBlockList := ⟨[], [], 0, 0, false, List.Pairwise.nil⟩

/-- `std::map::insert`, which keeps an entry that is there. -/
def insert (b : FBBlock_1) (m : List FBBlock_1) : List FBBlock_1 :=
  if (OrderedMap.get FBBlock_1.m_tmStart b.m_tmStart m).isSome then m
  else OrderedMap.set FBBlock_1.m_tmStart b m

theorem sorted_insert {m : List FBBlock_1} (hm : OrderedMap.Sorted FBBlock_1.m_tmStart m)
    (b : FBBlock_1) : OrderedMap.Sorted FBBlock_1.m_tmStart (insert b m) := by
  unfold insert
  split_ifs
  · exact hm
  · exact hm.set b

/-- The first block that ends where another one starts ends where that one ends. -/
def mergeEnd (b : FBBlock_1) : List FBBlock_1 → List FBBlock_1
  | [] => []
  | a :: m =>
    if a.m_tmEnd = b.m_tmStart then { a with m_tmEnd := b.m_tmEnd } :: m else a :: mergeEnd b m

theorem map_start_mergeEnd (b : FBBlock_1) (m : List FBBlock_1) :
    (mergeEnd b m).map FBBlock_1.m_tmStart = m.map FBBlock_1.m_tmStart := by
  induction m with
  | nil => rfl
  | cons a m ih =>
    rw [mergeEnd]
    split_ifs
    · rfl
    · rw [List.map_cons, ih, List.map_cons]

theorem sorted_iff_map {m : List FBBlock_1} : OrderedMap.Sorted FBBlock_1.m_tmStart m ↔
    (m.map FBBlock_1.m_tmStart).Pairwise (· < ·) := by
  rw [List.pairwise_map]
  rfl

variable (l : ECFBBlockList)

/-- `Add`. -/
def add (lpFBBlock : FBBlock_1) : ECFBBlockList :=
  { l with
    m_FBMap := insert lpFBBlock l.m_FBMap
    sorted := sorted_insert l.sorted lpFBBlock }

/-- `Merge`. -/
def merge (lpFBBlock : FBBlock_1) : HRESULT × ECFBBlockList :=
  if l.m_FBMap.any fun b => b.m_tmEnd = lpFBBlock.m_tmStart then
    (.hrSuccess, { l with
      m_FBMap := mergeEnd lpFBBlock l.m_FBMap
      sorted := by
        rw [sorted_iff_map, map_start_mergeEnd]
        exact sorted_iff_map.mp l.sorted })
  else (.MAPI_E_NOT_FOUND, l)

/-- A `LONG` as an `ULONG`. -/
def asULONG (t : ℤ) : ℤ := t % 2 ^ 32

/-- The blocks in front of the restriction are passed. -/
def afterStart : List FBBlock_1 :=
  if l.m_tmRestictStart = 0 then l.m_FBMap
  else l.m_FBMap.dropWhile fun b => ¬ asULONG b.m_tmEnd > asULONG l.m_tmRestictStart

/-- A block is behind the restriction. -/
def behindEnd (b : FBBlock_1) : Bool :=
  l.m_tmRestictEnd ≠ 0 ∧ asULONG b.m_tmStart > asULONG l.m_tmRestictEnd

/-- `Restrict`. -/
def restrict (tmStart tmEnd : ℤ) : ECFBBlockList :=
  let l' := { l with m_tmRestictStart := tmStart, m_tmRestictEnd := tmEnd }
  { l' with m_FBIter := l'.afterStart, m_bInitIter := true }

/-- `Reset`. -/
def reset : ECFBBlockList := { l with m_bInitIter := false }

/-- `Next`. -/
def next : Option FBBlock_1 × ECFBBlockList :=
  let l := if l.m_bInitIter then l else l.restrict l.m_tmRestictStart l.m_tmRestictEnd
  match l.m_FBIter with
  | [] => (none, l)
  | b :: iter =>
    if l.behindEnd b then (none, l)
    else
      let pblk := if b.m_tmStart < l.m_tmRestictStart then { b with m_tmStart := l.m_tmRestictStart } else b
      (some pblk, { l with m_FBIter := iter })

/-- The blocks that `Next` returns, one call after another. -/
def nexts : ℕ → ECFBBlockList → List FBBlock_1
  | 0, _ => []
  | n + 1, l => match l.next with
    | (none, _) => []
    | (some b, l') => b :: nexts n l'

/-- The blocks of the list that match the restriction, as `Next` returns them after `Reset`. -/
def blocks : List FBBlock_1 := nexts l.m_FBMap.length l.reset

/-- `Size`, an `ULONG`. -/
def size : ℕ := (l.afterStart.takeWhile fun b => ¬ l.behindEnd b).length % 2 ^ 32

/-! ## What `Next` returns -/

/-- A block that starts before the restriction starts with it. -/
def cap (b : FBBlock_1) : FBBlock_1 :=
  if b.m_tmStart < l.m_tmRestictStart then { b with m_tmStart := l.m_tmRestictStart } else b

variable {l}

theorem nexts_eq (hinit : l.m_bInitIter = true) {n : ℕ} (hn : l.m_FBIter.length ≤ n) :
    l.nexts n = (l.m_FBIter.takeWhile fun b => ¬ l.behindEnd b).map l.cap := by
  induction n generalizing l with
  | zero =>
    rw [List.eq_nil_of_length_eq_zero (Nat.le_zero.mp hn)]
    rfl
  | succ n ih =>
    have hnext : l.next = match l.m_FBIter with
        | [] => (none, l)
        | b :: iter => if l.behindEnd b then (none, l)
          else (some (l.cap b), { l with m_FBIter := iter }) := by
      unfold next
      rw [if_pos hinit]
      rfl
    rw [nexts, hnext]
    cases hiter : l.m_FBIter with
    | nil => rfl
    | cons b iter =>
      rw [hiter] at hn
      dsimp only
      by_cases hb : l.behindEnd b = true
      · rw [if_pos hb, List.takeWhile_cons_of_neg (by simpa using hb)]
        rfl
      · rw [if_neg hb, List.takeWhile_cons_of_pos (by simpa using hb), List.map_cons]
        have hrest : iter.length ≤ n := Nat.le_of_succ_le_succ hn
        exact congrArg _ (ih (l := { l with m_FBIter := iter }) hinit hrest)

/-- The blocks that match the restriction. -/
theorem blocks_eq : l.blocks = (l.afterStart.takeWhile fun b => ¬ l.behindEnd b).map l.cap := by
  have hreset (n : ℕ) : l.reset.nexts n = (l.restrict l.m_tmRestictStart l.m_tmRestictEnd).nexts n := by
    cases n <;> rfl
  have hlength : l.afterStart.length ≤ l.m_FBMap.length := by
    unfold afterStart
    split_ifs
    · exact le_rfl
    · exact (List.dropWhile_sublist _).length_le
  rw [blocks, hreset, nexts_eq rfl hlength]
  rfl

theorem size_eq : l.size = l.blocks.length % 2 ^ 32 := by
  rw [blocks_eq, List.length_map, size]

/-- The blocks are in the order of their starts. -/
theorem blocks_sorted : l.blocks.Pairwise fun a b => a.m_tmStart ≤ b.m_tmStart := by
  have hsub : (l.afterStart.takeWhile fun b => ¬ l.behindEnd b).Sublist l.m_FBMap := by
    refine (List.takeWhile_sublist _).trans ?_
    unfold afterStart
    split_ifs
    · exact List.Sublist.refl _
    · exact List.dropWhile_sublist _
  rw [blocks_eq]
  refine List.pairwise_map.mpr ((l.sorted.sublist hsub).imp fun {a b} hlt => ?_)
  have hlt : a.m_tmStart < b.m_tmStart := hlt
  unfold cap
  split_ifs
  · exact le_rfl
  · exact not_lt.mp ‹_›
  · omega
  · exact hlt.le

end ECFBBlockList

end Zcp.FreeBusy
