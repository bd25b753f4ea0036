import Zcp.Common.SOAPUtils.MVPropProxy

/-!
# Some element of a multi-value

A multi-value is compared by a switch of its own, which cuts differences to 32 bits, reads `PT_MV_I8` values as words,
truncates floats and knows nothing of the names and entry ids that `CompareProp` treats specially. `someElement_iff` says
exactly where it finds what `CompareProp` says of the elements.
-/

namespace Zcp.Common.SOAPUtils

open Zcp.Lib Float.Model

variable (d : Comparers) (fd : FloatDifferences) (lpMVProp1 lpProp2 : PropVal) (ulType : Option Relop)

/-! ## Where the two comparisons differ -/

/-- An operator other than `RELOP_EQ` and `RELOP_NE`. -/
def Orders : Option Relop → Prop
  | some .RELOP_LT | some .RELOP_LE | some .RELOP_GT | some .RELOP_GE => True
  | _ => False

/-- The difference of two words is not the one of the numbers, when it is an `int`. -/
def Wraps (a b : BitVec 32) : Prop := b.toNat + 2 ^ 31 ≤ a.toNat ∨ a.toNat + 2 ^ 31 < b.toNat

/-- A result of the proxy and one of `CompareProp` that the operator tells apart. -/
def Differ (a b : ℤ) : Prop := relopHolds ulType a ≠ relopHolds ulType b

/-- An order in which the operator holds. -/
def Holds : Option Relop → Ordering → Prop
  | some .RELOP_LT, o => o = .lt
  | some .RELOP_LE, o => o ≠ .gt
  | some .RELOP_GT, o => o = .gt
  | some .RELOP_GE, o => o ≠ .lt
  | some .RELOP_EQ, o => o = .eq
  | some .RELOP_NE, o => o ≠ .eq
  | none, _ => False

/-- Two orders that the operator tells apart. -/
def Tells (o o' : Ordering) : Prop := ¬ (Holds ulType o ↔ Holds ulType o')

/-- A text that is found by its start: `CompareProp` treats `PR_ANR` so. -/
def TextDiffers (a b : List UInt8) : Prop :=
  lpProp2.ulPropId = PR_ANR ∧ Differ ulType (d.u8_icompare a b) (d.u8_istartswith a b)

/-- Two numbers that the operator tells from equal ones. -/
def TellsApart : Option Relop → ℚ → ℚ → Prop
  | some .RELOP_EQ, x, y | some .RELOP_NE, x, y => x ≠ y
  | some .RELOP_LT, x, y | some .RELOP_GE, x, y => x < y
  | some .RELOP_LE, x, y | some .RELOP_GT, x, y => y < x
  | none, _, _ => False

/-- Two numbers whose difference, rounded to a mantissa of `p` bits, is cut to 0, and that the operator tells apart. -/
def CutsToZero (p : ℕ) (x y : ℚ) : Prop := |FloatValue.roundTo p (x - y)| < 1 ∧ TellsApart ulType x y

/-- Two numbers whose difference is an `int` without its fraction. -/
def HasDifference (p : ℕ) (v w : FloatValue) : Prop :=
  ∃ x y, v = .number x ∧ w = .number y ∧
    -2 ^ 31 - 1 < FloatValue.roundTo p (x - y) ∧ FloatValue.roundTo p (x - y) < 2 ^ 31

/-- The order of two floats; what is neither equal nor less counts as greater. -/
def floatOrder (v w : FloatValue) : Ordering := if v.eq w then .eq else if v.lt w then .lt else .gt

/-- Two floats that the proxy compares in another way: numbers with a difference that is cut to 0, or floats without a
difference that is an `int`, for which the operator tells what the conversion gives from their order. -/
def FloatsDiffer (p : ℕ) (conversion : ℤ) (v w : FloatValue) : Prop :=
  (∃ x y, v = .number x ∧ w = .number y ∧ CutsToZero ulType p x y) ∨
    ¬ HasDifference p v w ∧ Tells ulType (sgn conversion) (floatOrder v w)

/-- The order of two values by their sizes and bytes. -/
def bytesOrder (p q : List UInt8) : Ordering := (compare p.length q.length).then (compare p q)

/-- The order of two entry ids by their members: those of one version by their sizes, ids and types, others by the
differences of their ids and types. -/
def abeidOrder (p q : List UInt8) : Ordering :=
  if ABEID.ulVersion p = ABEID.ulVersion q then entryCmp ((ABEID.ulVersion p).getD 0) p q
  else (diffCmp (idOf p) (idOf q)).then (diffCmp ((ABEID.ulType p).getD 0) ((ABEID.ulType q).getD 0))

/-- Two values of which one is in `PR_ADDRESS_BOOK_ENTRYID`: entry ids of the address book, whose members have another
order than their bytes, or entry ids that are too short for their members. -/
def EntryIdsDiffer (p q : List UInt8) : Prop :=
  (ABEID.guid p = some MUIDECSAB ∧ ABEID.guid q = some MUIDECSAB ∧ (entryResult p q).isSome ∧
    Tells ulType (bytesOrder p q) (abeidOrder p q)) ∨
      compareABEID p q = none ∧ Holds ulType (bytesOrder p q)

/-- The element at `i` is tested in another way than by `CompareProp`. -/
def Deviates (i : ℕ) : Prop :=
  match lpMVProp1.Value, lpProp2.Value with
  | .PT_MV_LONG mvl, .PT_LONG ul => ∃ e, mvl.elems[i]? = some e ∧ Orders ulType ∧ Wraps e ul
  | .PT_MV_R4 mvflt, .PT_R4 flt =>
    ∃ e, mvflt.elems[i]? = some e ∧
      FloatsDiffer ulType 24 (fd.subFloat e flt) (.ofBits Format.binary32 e) (.ofBits Format.binary32 flt)
  | .PT_MV_DOUBLE mvdbl, .PT_DOUBLE dbl | .PT_MV_APPTIME mvdbl, .PT_APPTIME dbl =>
    ∃ e, mvdbl.elems[i]? = some e ∧
      FloatsDiffer ulType 53 (fd.subDouble e dbl) (.ofBits Format.binary64 e) (.ofBits Format.binary64 dbl)
  | .PT_MV_I8 mvli, .PT_I8 li =>
    -- the word at `i` is a half of the element at `i / 2`
    ∃ e w, mvli.elems[i]? = some e ∧ (words mvli.elems)[i]? = some w ∧
      Tells ulType (diffCmp w (li.setWidth 32)) (compare e.toInt li.toInt)
  | .PT_MV_SYSTIME mvhilo, .PT_SYSTIME hilo | .PT_MV_CURRENCY mvhilo, .PT_CURRENCY hilo =>
    ∃ e, mvhilo.elems[i]? = some e ∧ Orders ulType ∧ e.hi = hilo.hi ∧ Wraps e.lo hilo.lo
  | .PT_MV_CLSID mvbin, .PT_CLSID bin =>
    -- an element that is no list of GUIDs is refused by `CompareProp`
    bin.elems.length % 16 = 0 ∧ ∃ e, mvbin.elems[i]? = some e ∧ e.elems.length % 16 ≠ 0 ∧
      relopHolds ulType (e.elems.length - bin.elems.length) = true
  | .PT_MV_BINARY mvbin, .PT_BINARY bin =>
    (lpMVProp1.ulPropId = PR_ADDRESS_BOOK_ENTRYID ∨ lpProp2.ulPropId = PR_ADDRESS_BOOK_ENTRYID) ∧
      ∃ e, mvbin.elems[i]? = some e ∧ EntryIdsDiffer ulType e.elems bin.elems
  | .PT_MV_STRING8 mvszA, .PT_STRING8 (some text) =>
    mvszA.elems[i]? = some none ∧ relopHolds ulType 1 = true ∨
      ∃ e, mvszA.elems[i]? = some (some e) ∧ TextDiffers d lpProp2 ulType e text
  | .PT_MV_UNICODE mvszA, .PT_UNICODE (some text) =>
    ∃ e, mvszA.elems[i]? = some (some e) ∧ TextDiffers d lpProp2 ulType e text
  | .PT_MV_UNICODE mvszA, .PT_UNICODE none =>
    -- a text is taken to be less, and the first null pointer ends the call
    ∃ e, mvszA.elems[i]? = some e ∧
      ¬ ((relopHolds ulType (-1) = true ∧ none ∉ mvszA.elems.take (i + 1)) ↔
        relopHolds ulType (boolInt e.isSome) = true)
  | _, _ => False

/-- The element at `i` stands in the relation. -/
def StandsAt (i : ℕ) : Prop :=
  ∃ e, (elements lpMVProp1.Value)[i]? = some e ∧ Stands d lpMVProp1 lpProp2 ulType e

/-- If some element deviates, then one that does not stands in the relation, or of those that do one stands in it and
another one does not. -/
def Compensated : Prop :=
  (∀ i, ¬ Deviates d fd lpMVProp1 lpProp2 ulType i) ∨
    (∃ i, ¬ Deviates d fd lpMVProp1 lpProp2 ulType i ∧ StandsAt d lpMVProp1 lpProp2 ulType i) ∨
    (∃ i, Deviates d fd lpMVProp1 lpProp2 ulType i ∧ StandsAt d lpMVProp1 lpProp2 ulType i) ∧
      ∃ i, Deviates d fd lpMVProp1 lpProp2 ulType i ∧ ¬ StandsAt d lpMVProp1 lpProp2 ulType i

/-! ## The loop -/

section Loop

variable {compare : ℕ → Option (Except ECRESULT ℤ)} {holds : ℤ → Bool}

/-- The test of the element at `i`, which is reached only if no comparison before it fails. -/
def Tests (compare : ℕ → Option (Except ECRESULT ℤ)) (holds : ℤ → Bool) (i : ℕ) : Prop :=
  (∃ r, compare i = some (.ok r) ∧ holds r = true) ∧ ∀ j < i, ∃ r, compare j = some (.ok r)

/-- The loop over the elements finds one that holds, as long as no comparison before it fails. -/
theorem matchLoop_iff (n : ℕ) : ∀ i, (∀ j < i, ∃ r, compare j = some (.ok r)) →
    (matchLoop compare holds i n = some (.ok true) ↔ (∃ j < i + n, i ≤ j ∧ Tests compare holds j)) := by
  induction n with
  | zero =>
    intro i _
    refine iff_of_false (by simp [matchLoop]) ?_
    rintro ⟨j, hlt, hle, -⟩
    omega
  | succ n ih =>
    intro i hbefore
    -- a comparison that fails ends the loop, and no later element is tested
    have hstop (hi : ¬ ∃ r, compare i = some (.ok r)) : ¬ ∃ j < i + (n + 1), i ≤ j ∧ Tests compare holds j := by
      rintro ⟨j, -, hle, ⟨r, hr, -⟩, hreached⟩
      rcases eq_or_lt_of_le hle with rfl | hlt
      · exact hi ⟨r, hr⟩
      · exact hi (hreached i hlt)
    rw [matchLoop]
    cases hi : compare i with
    | none => exact iff_of_false (by simp) (hstop (by simp [hi]))
    | some result =>
      cases result with
      | error er => exact iff_of_false (by simp) (hstop (by simp [hi]))
      | ok r =>
        by_cases hr : holds r = true
        · simp only [hr, if_true, true_iff]
          exact ⟨i, by omega, le_rfl, ⟨r, hi, hr⟩, hbefore⟩
        · simp only [hr]
          have hbefore' : ∀ j < i + 1, ∃ r, compare j = some (.ok r) := by
            intro j hj
            rcases eq_or_lt_of_le (Nat.le_of_lt_succ hj) with rfl | hlt
            · exact ⟨r, hi⟩
            · exact hbefore j hlt
          refine (ih (i + 1) hbefore').trans ⟨?_, ?_⟩
          · rintro ⟨j, hlt, hle, htest⟩
            exact ⟨j, by omega, by omega, htest⟩
          · rintro ⟨j, hlt, hle, htest⟩
            refine ⟨j, by omega, Nat.lt_of_le_of_ne hle ?_, htest⟩
            rintro rfl
            obtain ⟨⟨r', hr', hholds⟩, -⟩ := htest
            rw [hi] at hr'
            exact hr (Except.ok.inj (Option.some.inj hr') ▸ hholds)

/-- One test that does not agree with another one is made good by an index at which they do, or by the opposite error. -/
theorem exists_iff_exists_iff {ι : Type} {t r dev : ι → Prop} (hdev : ∀ i, dev i ↔ ¬ (t i ↔ r i)) :
    ((∃ i, t i) ↔ ∃ i, r i) ↔ (∀ i, ¬ dev i) ∨ (∃ i, ¬ dev i ∧ r i) ∨ (∃ i, dev i ∧ r i) ∧ ∃ i, dev i ∧ ¬ r i := by
  constructor
  · intro h
    by_contra hnot
    rw [not_or, not_or] at hnot
    obtain ⟨hsome, hagree, hboth⟩ := hnot
    obtain ⟨i, hi⟩ := not_forall_not.mp hsome
    by_cases hr : r i
    · -- the element is missed, and all that are found are found by error
      obtain ⟨j, hj⟩ := h.mpr ⟨i, hr⟩
      by_cases hdevj : dev j
      · have hrj : ¬ r j := fun hrj => (hdev j).mp hdevj (iff_of_true hj hrj)
        exact hboth ⟨⟨i, hi, hr⟩, j, hdevj, hrj⟩
      · exact hagree ⟨j, hdevj, (not_not.mp ((hdev j).not.mp hdevj)).mp hj⟩
    · have ht : t i := by
        by_contra ht
        exact (hdev i).mp hi (iff_of_false ht hr)
      obtain ⟨j, hj⟩ := h.mp ⟨i, ht⟩
      by_cases hdevj : dev j
      · exact hboth ⟨⟨j, hdevj, hj⟩, i, hi, hr⟩
      · exact hagree ⟨j, hdevj, hj⟩
  · rintro (hnone | ⟨i, hi, hr⟩ | ⟨⟨i, -, hr⟩, j, hj, hnr⟩)
    · exact exists_congr fun i => not_not.mp ((hdev i).not.mp (hnone i))
    · exact iff_of_true ⟨i, (not_not.mp ((hdev i).not.mp hi)).mpr hr⟩ ⟨i, hr⟩
    · refine iff_of_true ⟨j, ?_⟩ ⟨i, hr⟩
      by_contra ht
      exact (hdev j).mp hj (iff_of_false ht hnr)

end Loop

/-! ## The types -/

/-- A multi-value and a single value of its base type. -/
inductive Paired : PropValData → PropValData → Prop where
  | i2 (mvi i) : Paired (.PT_MV_I2 mvi) (.PT_I2 i)
  | long (mvl ul) : Paired (.PT_MV_LONG mvl) (.PT_LONG ul)
  | r4 (mvflt flt) : Paired (.PT_MV_R4 mvflt) (.PT_R4 flt)
  | double (mvdbl dbl) : Paired (.PT_MV_DOUBLE mvdbl) (.PT_DOUBLE dbl)
  | apptime (mvdbl dbl) : Paired (.PT_MV_APPTIME mvdbl) (.PT_APPTIME dbl)
  | i8 (mvli li) : Paired (.PT_MV_I8 mvli) (.PT_I8 li)
  | systime (mvhilo hilo) : Paired (.PT_MV_SYSTIME mvhilo) (.PT_SYSTIME hilo)
  | currency (mvhilo hilo) : Paired (.PT_MV_CURRENCY mvhilo) (.PT_CURRENCY hilo)
  | clsid (mvbin bin) : Paired (.PT_MV_CLSID mvbin) (.PT_CLSID bin)
  | binary (mvbin bin) : Paired (.PT_MV_BINARY mvbin) (.PT_BINARY bin)
  | string8 (mvszA lpszA) : Paired (.PT_MV_STRING8 mvszA) (.PT_STRING8 lpszA)
  | unicode (mvszA lpszA) : Paired (.PT_MV_UNICODE mvszA) (.PT_UNICODE lpszA)

variable {v mv : PropValData}

/-- The type of a single value is the base type of at most one type of multi-values. -/
theorem paired_of_sameBase (h : SameBase mv v) : Paired mv v ∨ MVPropProxy.size mv = 0 ∧ elements mv = [] := by
  cases mv with
  | PT_MV_I2 mv =>
    cases v <;> first | exact .inl (.i2 _ _) | (dsimp only [SameBase, PROP_TYPE] at h; exact absurd h (by decide))
  | PT_MV_LONG mv =>
    cases v <;> first | exact .inl (.long _ _) | (dsimp only [SameBase, PROP_TYPE] at h; exact absurd h (by decide))
  | PT_MV_R4 mv =>
    cases v <;> first | exact .inl (.r4 _ _) | (dsimp only [SameBase, PROP_TYPE] at h; exact absurd h (by decide))
  | PT_MV_DOUBLE mv =>
    cases v <;> first | exact .inl (.double _ _) | (dsimp only [SameBase, PROP_TYPE] at h; exact absurd h (by decide))
  | PT_MV_APPTIME mv =>
    cases v <;> first | exact .inl (.apptime _ _) | (dsimp only [SameBase, PROP_TYPE] at h; exact absurd h (by decide))
  | PT_MV_I8 mv =>
    cases v <;> first | exact .inl (.i8 _ _) | (dsimp only [SameBase, PROP_TYPE] at h; exact absurd h (by decide))
  | PT_MV_SYSTIME mv =>
    cases v <;> first | exact .inl (.systime _ _) | (dsimp only [SameBase, PROP_TYPE] at h; exact absurd h (by decide))
  | PT_MV_CURRENCY mv =>
    cases v <;> first | exact .inl (.currency _ _) | (dsimp only [SameBase, PROP_TYPE] at h; exact absurd h (by decide))
  | PT_MV_CLSID mv =>
    cases v <;> first | exact .inl (.clsid _ _) | (dsimp only [SameBase, PROP_TYPE] at h; exact absurd h (by decide))
  | PT_MV_BINARY mv =>
    cases v <;> first | exact .inl (.binary _ _) | (dsimp only [SameBase, PROP_TYPE] at h; exact absurd h (by decide))
  | PT_MV_STRING8 mv =>
    cases v <;> first | exact .inl (.string8 _ _) | (dsimp only [SameBase, PROP_TYPE] at h; exact absurd h (by decide))
  | PT_MV_UNICODE mv =>
    cases v <;> first | exact .inl (.unicode _ _) | (dsimp only [SameBase, PROP_TYPE] at h; exact absurd h (by decide))
  | _ => exact .inr ⟨rfl, rfl⟩

section Elements

variable {d fd lpMVProp1 lpProp2 ulType}

variable {r : ℤ}

theorem result_of_compareValues {a b : PropVal} (hspecial : special a b = none) (ha : propCheck a.Value = true)
    (hb : propCheck b.Value = true) (hr : compareValues d b.ulPropId a.Value b.Value = some r) :
    result d a b = some r := by
  rw [result_eq hspecial, if_neg (by simp [ha, hb])]
  exact hr

theorem stands_iff {e : PropValData} (h : result d ⟨lpMVProp1.ulPropId, e⟩ lpProp2 = some r) :
    Stands d lpMVProp1 lpProp2 ulType e ↔ relopHolds ulType r = true := by
  rw [Stands, h]
  simp

/-- Comparisons that succeed: an element deviates if its test and `CompareProp` differ. -/
theorem deviates_iff_of_total {α : Type} {l : List α} {C : α → PropValData} {f : α → ℤ} {dev : ℕ → Prop}
    {compare : ℕ → Option (Except ECRESULT ℤ)}
    (hcompare : ∀ j, compare j = MVPropProxy.atIndex l j fun e => some (f e))
    (helements : elements lpMVProp1.Value = l.map C) (hdev : ∀ i, dev i ↔ ∃ e, l[i]? = some e ∧
      ¬ (relopHolds ulType (f e) = true ↔ Stands d lpMVProp1 lpProp2 ulType (C e))) (i : ℕ) :
    dev i ↔ ¬ (Tests compare (relopHolds ulType) i ↔ StandsAt d lpMVProp1 lpProp2 ulType i) := by
  have hok {j : ℕ} {e : α} (he : l[j]? = some e) : compare j = some (.ok (f e)) := by
    rw [hcompare, MVPropProxy.atIndex, he]
    rfl
  rw [hdev, StandsAt, helements, List.getElem?_map]
  cases he : l[i]? with
  | none =>
    refine iff_of_false (by simp) (not_not.mpr (iff_of_false ?_ (by simp)))
    rintro ⟨⟨r, hr, -⟩, -⟩
    rw [hcompare, MVPropProxy.atIndex, he] at hr
    cases hr
  | some e =>
    have htests : Tests compare (relopHolds ulType) i ↔ relopHolds ulType (f e) = true := by
      constructor
      · rintro ⟨⟨r, hr, hholds⟩, -⟩
        rw [hok he] at hr
        exact Except.ok.inj (Option.some.inj hr) ▸ hholds
      · intro hholds
        refine ⟨⟨f e, hok he, hholds⟩, fun j hj => ?_⟩
        have hlt : j < l.length := hj.trans (List.getElem?_eq_some_iff.mp he).1
        exact ⟨_, hok (List.getElem?_eq_getElem hlt)⟩
    rw [htests]
    simp

variable {a b : ℤ}

theorem differ_iff : Differ ulType a b ↔ ¬ (relopHolds ulType a = true ↔ relopHolds ulType b = true) := by
  rw [Differ, ne_eq, Bool.eq_iff_iff]

/-- Results of the same sign are not told apart. -/
theorem not_differ_of_sgn_eq (h : sgn a = sgn b) : ¬ Differ ulType a b := by
  have hlt : a < 0 ↔ b < 0 := by rw [← sgn_eq_lt, ← sgn_eq_lt, h]
  have hgt : 0 < a ↔ 0 < b := by rw [← sgn_eq_gt, ← sgn_eq_gt, h]
  rw [differ_iff, not_not]
  cases ulType with
  | none => rfl
  | some relop => cases relop <;> simp only [relopHolds, Relop.holds, decide_eq_true_eq] <;> omega

/-- The difference of two words as an `int`: it wraps from one sign to the other. -/
theorem toInt_sub_cases (a b : BitVec 32) : ¬ Wraps a b ∧ (a - b).toInt = (a.toNat : ℤ) - b.toNat ∨
      Wraps a b ∧ ((a - b).toInt < 0 ∧ b.toNat < a.toNat ∨ 0 < (a - b).toInt ∧ a.toNat < b.toNat) := by
  have ha := a.isLt
  have hb := b.isLt
  rw [Wraps, BitVec.toInt_eq_toNat_cond, BitVec.toNat_sub]
  split_ifs <;> omega

/-- A difference that wraps is taken for its opposite by the operators that order. -/
theorem differ_word_iff (a b : BitVec 32) :
    Differ ulType (a - b).toInt (compareBranches a.toNat b.toNat) ↔ Orders ulType ∧ Wraps a b := by
  rcases toInt_sub_cases a b with ⟨hwraps, hsub⟩ | ⟨hwraps, hsign⟩
  · refine iff_of_false (not_differ_of_sgn_eq ?_) fun h => hwraps h.2
    rw [hsub, sgn_sub, sgn_compareBranches]
  · have hopposite : (a - b).toInt < 0 ∧ compareBranches a.toNat b.toNat = 1 ∨
        0 < (a - b).toInt ∧ compareBranches a.toNat b.toNat = -1 := by
      rw [compareBranches]
      rcases hsign with ⟨hneg, hlt⟩ | ⟨hpos, hlt⟩
      · exact .inl ⟨hneg, by rw [if_neg (by omega), if_neg (by omega)]⟩
      · exact .inr ⟨hpos, by rw [if_neg (by omega), if_pos (by omega)]⟩
    rw [and_iff_left hwraps, differ_iff]
    generalize (a - b).toInt = x at hopposite ⊢
    generalize compareBranches a.toNat b.toNat = y at hopposite ⊢
    cases ulType with
    | none => simp [relopHolds, Orders]
    | some relop =>
      cases relop <;> simp only [relopHolds, Relop.holds, Orders, decide_eq_true_eq, iff_true, iff_false] <;> omega

theorem relopHolds_iff (r : ℤ) : relopHolds ulType r = true ↔ Holds ulType (sgn r) := by
  cases ulType with
  | none => simp [relopHolds, Holds]
  | some relop =>
    cases relop <;>
      simp only [relopHolds, Relop.holds, Holds, ne_eq, sgn_eq_lt, sgn_eq_eq, sgn_eq_gt, decide_eq_true_eq] <;> omega

theorem differ_iff_tells : Differ ulType a b ↔ Tells ulType (sgn a) (sgn b) := by
  rw [differ_iff, Tells, relopHolds_iff, relopHolds_iff]

variable {i : ℕ}

/-- The element at `i` and its test, where the result and the one of `CompareProp` differ. -/
theorem exists_differ_iff {α : Type} {elems : List α} {C : α → PropValData} {f g : α → ℤ}
    (hresult : ∀ e, result d ⟨lpMVProp1.ulPropId, C e⟩ lpProp2 = some (g e)) :
    (∃ e, elems[i]? = some e ∧ Differ ulType (f e) (g e)) ↔ ∃ e, elems[i]? = some e ∧
      ¬ (relopHolds ulType (f e) = true ↔ Stands d lpMVProp1 lpProp2 ulType (C e)) := by
  refine exists_congr fun e => and_congr_right fun _ => ?_
  rw [differ_iff, stands_iff (hresult e)]

/-- For 64-bit values the operator and the order differ where the high halves are equal and the difference of the
low ones wraps. -/
theorem compareHilo_differ_iff (a b : HiloLong) :
    Differ ulType (MVPropProxy.compareHilo a b) (compareHilo a b) ↔ Orders ulType ∧ a.hi = b.hi ∧ Wraps a.lo b.lo := by
  by_cases hhi : a.hi = b.hi
  · have hlow : compareHilo a b = compareBranches a.lo.toNat b.lo.toNat := by
      have hzero : (a.hi - b.hi).toInt = 0 := by
        rw [hhi, sub_self]
        rfl
      rw [compareHilo, compareBranches, hzero]
      simp only [hhi, true_and]
      split_ifs <;> omega
    rw [MVPropProxy.compareHilo, if_pos hhi, hlow, differ_word_iff, and_iff_right hhi]
  · rw [MVPropProxy.compareHilo, compareHilo, if_neg hhi, if_neg fun h => hhi h.1, if_neg fun h => hhi h.1]
    exact iff_of_false (fun h => h rfl) fun h => hhi h.2.1

theorem floatOrder_number (x y : ℚ) : floatOrder (.number x) (.number y) = compare x y := by
  rw [floatOrder]
  rcases lt_trichotomy x y with hlt | rfl | hlt
  · simp [FloatValue.eq, FloatValue.lt, hlt, hlt.ne, compare_lt_iff_lt.mpr hlt]
  · simp [FloatValue.eq]
  · simp [FloatValue.eq, FloatValue.lt, hlt.ne', hlt.le, compare_gt_iff_gt.mpr hlt]

/-- A difference of numbers is told from their order only where it is cut to 0. -/
theorem tells_truncate_iff (p : ℕ) (x y : ℚ) :
    Tells ulType (sgn (FloatValue.truncate (FloatValue.roundTo p (x - y)))) (compare x y) ↔ CutsToZero ulType p x y := by
  rw [CutsToZero, Tells]
  by_cases hsmall : |FloatValue.roundTo p (x - y)| < 1
  · rw [FloatValue.truncate_eq_zero hsmall, and_iff_right hsmall, sgn_eq_eq.mpr rfl]
    cases ulType with
    | none => simp [Holds, TellsApart]
    | some relop =>
      rcases lt_trichotomy x y with hlt | rfl | hlt
      · rw [compare_lt_iff_lt.mpr hlt]
        cases relop <;> simp [Holds, TellsApart, hlt, hlt.ne, hlt.le]
      · rw [Std.compare_self]
        cases relop <;> simp [Holds, TellsApart]
      · rw [compare_gt_iff_gt.mpr hlt]
        cases relop <;> simp [Holds, TellsApart, hlt, hlt.ne', hlt.le]
  · refine iff_of_false (not_not.mpr ?_) fun h => hsmall h.1
    rw [not_lt] at hsmall
    rcases lt_trichotomy x y with hlt | rfl | hlt
    · rw [sgn_eq_lt.mpr (FloatValue.truncate_roundTo_neg hsmall (sub_neg.mpr hlt)), compare_lt_iff_lt.mpr hlt]
    · rw [sub_self, FloatValue.roundTo_zero, abs_zero] at hsmall
      exact absurd hsmall (by norm_num)
    · rw [sgn_eq_gt.mpr (FloatValue.truncate_roundTo_pos hsmall (sub_pos.mpr hlt)), compare_gt_iff_gt.mpr hlt]

theorem CutsToZero.hasDifference {p : ℕ} {x y : ℚ} (h : CutsToZero ulType p x y) :
    HasDifference p (.number x) (.number y) := by
  obtain ⟨hlo, hhi⟩ := abs_lt.mp h.1
  exact ⟨x, y, rfl, rfl, by linarith, by linarith⟩

/-- The operator takes the difference of two numbers as an integer, and so differs from their order where this cuts
it to 0. -/
theorem tells_compareFloats_iff (p : ℕ) (conversion : ℤ) (v w : FloatValue) :
    Tells ulType (sgn (MVPropProxy.compareFloats p conversion v w)) (floatOrder v w) ↔
      FloatsDiffer ulType p conversion v w := by
  rw [FloatsDiffer]
  by_cases hdiff : HasDifference p v w
  · rw [or_iff_left fun h => h.1 hdiff]
    obtain ⟨x, y, rfl, rfl, hrange⟩ := hdiff
    rw [MVPropProxy.compareFloats, if_pos hrange, floatOrder_number, tells_truncate_iff]
    constructor
    · exact fun h => ⟨x, y, rfl, rfl, h⟩
    · rintro ⟨x', y', hx, hy, h⟩
      cases hx
      cases hy
      exact h
  · have hopen : MVPropProxy.compareFloats p conversion v w = conversion := by
      rw [MVPropProxy.compareFloats.eq_def]
      split
      · rename_i x y
        exact if_neg fun hrange => hdiff ⟨x, y, rfl, rfl, hrange⟩
      · rfl
    rw [hopen, and_iff_right hdiff, or_iff_right]
    rintro ⟨x, y, rfl, rfl, h⟩
    exact hdiff h.hasDifference

theorem sgn_compareFloats {n : ℕ} {eq lt : BitVec n → BitVec n → Bool} {v : BitVec n → FloatValue}
    (heq : ∀ a b, eq a b = (v a).eq (v b)) (hlt : ∀ a b, lt a b = (v a).lt (v b)) (a b : BitVec n) :
    sgn (compareFloats eq lt a b) = floatOrder (v a) (v b) := by
  rw [compareFloats, floatOrder, heq, hlt]
  split_ifs <;> rfl

/-- For numbers of 32 bits the operator and the order differ where the rounded difference is cut to 0. -/
theorem differ_compareFlt_iff {u8_icompare u8_istartswith : List UInt8 → List UInt8 → ℤ} (a b : BitVec 32) :
    Differ ulType (MVPropProxy.compareFlt fd a b) (compareFloats (Comparers.ieee u8_icompare u8_istartswith).eqFloat
          (Comparers.ieee u8_icompare u8_istartswith).ltFloat a b) ↔
      FloatsDiffer ulType 24 (fd.subFloat a b) (.ofBits Format.binary32 a) (.ofBits Format.binary32 b) := by
  have horder : sgn (compareFloats (Comparers.ieee u8_icompare u8_istartswith).eqFloat
      (Comparers.ieee u8_icompare u8_istartswith).ltFloat a b) =
        floatOrder (.ofBits Format.binary32 a) (.ofBits Format.binary32 b) :=
    sgn_compareFloats (fun _ _ => rfl) (fun _ _ => rfl) a b
  rw [differ_iff_tells, horder]
  exact tells_compareFloats_iff _ _ _ _

/-- For numbers of 64 bits the operator and the order differ where the rounded difference is cut to 0. -/
theorem differ_compareDbl_iff {u8_icompare u8_istartswith : List UInt8 → List UInt8 → ℤ} (a b : BitVec 64) :
    Differ ulType (MVPropProxy.compareDbl fd a b) (compareFloats (Comparers.ieee u8_icompare u8_istartswith).eqDouble
          (Comparers.ieee u8_icompare u8_istartswith).ltDouble a b) ↔
      FloatsDiffer ulType 53 (fd.subDouble a b) (.ofBits Format.binary64 a) (.ofBits Format.binary64 b) := by
  have horder : sgn (compareFloats (Comparers.ieee u8_icompare u8_istartswith).eqDouble
      (Comparers.ieee u8_icompare u8_istartswith).ltDouble a b) =
        floatOrder (.ofBits Format.binary64 a) (.ofBits Format.binary64 b) :=
    sgn_compareFloats (fun _ _ => rfl) (fun _ _ => rfl) a b
  rw [differ_iff_tells, horder]
  exact tells_compareFloats_iff _ _ _ _

/-- The members of two entry ids are compared in their order. -/
theorem sgn_entryResult_eq {p q : List UInt8} (h : entryResult p q = some r) : sgn r = abeidOrder p q := by
  obtain ⟨i, hi, hr⟩ := Option.bind_eq_some_iff.mp h
  obtain ⟨v, hv, hi⟩ := Option.bind_eq_some_iff.mp hi
  obtain ⟨v', hv', hi⟩ := Option.bind_eq_some_iff.mp hi
  rw [abeidOrder, hv, hv']
  by_cases hversion : v = v'
  · subst hversion
    rw [if_pos rfl, Option.getD_some]
    exact sgn_entryResult hv hv' h
  · rw [if_neg fun h => hversion (Option.some.inj h)]
    rw [if_neg fun h => hversion h.1, if_neg fun h => hversion h.1] at hi
    obtain ⟨id, hid, hi⟩ := Option.bind_eq_some_iff.mp hi
    obtain ⟨id', hid', hi⟩ := Option.bind_eq_some_iff.mp hi
    rw [idOf, idOf, hid, hid', Option.getD_some, Option.getD_some]
    obtain rfl := Option.some.inj hi
    rw [compareABEIDTypes] at hr
    split_ifs at hr with hzero
    · obtain ⟨ty, hty, hr⟩ := Option.bind_eq_some_iff.mp hr
      obtain ⟨ty', hty', hr⟩ := Option.bind_eq_some_iff.mp hr
      have heq : diffCmp id id' = .eq := sgn_eq_eq.mpr hzero
      rw [hty, hty', heq, ← Option.some.inj hr]
      rfl
    · have hne : diffCmp id id' ≠ .eq := fun h => hzero (sgn_eq_eq.mp h)
      rw [← Option.some.inj hr]
      show diffCmp id id' = _
      cases hcmp : diffCmp id id' with
      | eq => exact absurd hcmp hne
      | lt => rfl
      | gt => rfl

/-- A value in `PR_ADDRESS_BOOK_ENTRYID` and its test. -/
theorem entryIdsDiffer_iff {id1 id2 : BitVec 16} {e bin : Base64Binary}
    (hid : id1 = PR_ADDRESS_BOOK_ENTRYID ∨ id2 = PR_ADDRESS_BOOK_ENTRYID) : EntryIdsDiffer ulType e.elems bin.elems ↔
      ¬ (relopHolds ulType (compareBinary e bin) = true ↔ Stands d ⟨id1, mv⟩ ⟨id2, .PT_BINARY bin⟩ ulType (.PT_BINARY e)) := by
  have hspecial : special ⟨id1, .PT_BINARY e⟩ ⟨id2, .PT_BINARY bin⟩ = some (e.elems, bin.elems) := if_pos hid
  have hresult : result d ⟨id1, .PT_BINARY e⟩ ⟨id2, .PT_BINARY bin⟩ = _ := result_special hspecial
  have hab : compareABEID (PropVal.mk id1 (.PT_BINARY e)).eid (PropVal.mk id2 (.PT_BINARY bin)).eid =
      compareABEID e.elems bin.elems := rfl
  have hvalues : compareValues d id2 (.PT_BINARY e) (.PT_BINARY bin) = some (compareBinary e bin) := rfl
  have hbytes : relopHolds ulType (compareBinary e bin) = true ↔ Holds ulType (bytesOrder e.elems bin.elems) := by
    rw [relopHolds_iff, sgn_compareBinary, bytesOrder]
  rw [EntryIdsDiffer, Stands, hresult, hab]
  by_cases hguid : ABEID.guid e.elems = some MUIDECSAB ∧ ABEID.guid bin.elems = some MUIDECSAB
  · -- two entry ids of the address book
    rw [compareABEID_eq hguid.1 hguid.2]
    cases hentry : entryResult e.elems bin.elems with
    | none => simp [hbytes]
    | some r =>
      have hmembers : relopHolds ulType r = true ↔ Holds ulType (abeidOrder e.elems bin.elems) := by
        rw [relopHolds_iff, sgn_entryResult_eq hentry]
      simp [hguid, hbytes, hmembers, Tells]
  · rw [or_iff_right fun h => hguid ⟨h.1, h.2.1⟩]
    rcases compareABEID_of_guid_ne (not_and_or.mp hguid) with hnone | ⟨er, herror⟩
    · simp [hnone, hbytes]
    · -- their bytes are compared here too
      simp [herror, hvalues]

/-- The operator compares binary values as the order does. -/
theorem compareBinary_eq (a b : Base64Binary) : MVPropProxy.compareBinary a b = compareBinary a b := by
  rw [MVPropProxy.compareBinary, compareBinary]
  by_cases hlen : a.elems.length = b.elems.length
  · by_cases hzero : b.elems.length = 0
    · have ha : a.elems = [] := List.eq_nil_of_length_eq_zero (hlen.trans hzero)
      have hb : b.elems = [] := List.eq_nil_of_length_eq_zero hzero
      rw [ha, hb]
      rfl
    · rw [if_pos (by omega), if_pos ⟨by omega, hzero, hlen⟩]
  · rw [if_neg (by omega), if_neg fun h => hlen h.2.2]

/-- The test of a text where the single value is one. -/
def textResult (d : Comparers) (text : List UInt8) : LPSTR → ℤ
  | none => 1
  | some e => d.u8_icompare e text

theorem compareText_some (text : List UInt8) (e : LPSTR) :
    MVPropProxy.compareText d e (some text) = some (textResult d text e) := by
  match e with
  | none => rfl
  | some _ => rfl

theorem textDiffers_iff (a b : List UInt8) : TextDiffers d lpProp2 ulType a b ↔ Differ ulType (d.u8_icompare a b)
      ((if lpProp2.ulPropId = PR_ANR then d.u8_istartswith else d.u8_icompare) a b) := by
  rw [TextDiffers]
  by_cases hanr : lpProp2.ulPropId = PR_ANR
  · rw [if_pos hanr, and_iff_right hanr]
  · rw [if_neg hanr]
    exact iff_of_false (fun h => hanr h.1) fun h => h rfl

/-- The words at the places of the elements, with the elements. -/
def wordPairs (mvli : List (BitVec 64)) : List (BitVec 32 × BitVec 64) := ((words mvli).take mvli.length).zip mvli

theorem length_words (mvli : List (BitVec 64)) : (words mvli).length = 2 * mvli.length := by
  induction mvli with
  | nil => rfl
  | cons li mvli ih =>
    rw [words, List.flatMap_cons, List.length_append, ← words, ih, List.length_cons]
    simp only [List.length_cons, List.length_nil]
    omega

theorem wordPairs_getElem? (mvli : List (BitVec 64)) (i : ℕ) (w : BitVec 32) (e : BitVec 64) :
    (wordPairs mvli)[i]? = some (w, e) ↔ mvli[i]? = some e ∧ (words mvli)[i]? = some w := by
  rw [wordPairs, List.getElem?_zip_eq_some, List.getElem?_take, and_comm]
  refine and_congr_right fun he => ?_
  rw [if_pos (List.getElem?_eq_some_iff.mp he).1]

theorem wordPairs_fst (mvli : List (BitVec 64)) : (wordPairs mvli).map Prod.fst = (words mvli).take mvli.length := by
  rw [wordPairs, List.map_fst_zip]
  rw [List.length_take]
  exact min_le_left _ _

theorem wordPairs_snd (mvli : List (BitVec 64)) : (wordPairs mvli).map Prod.snd = mvli := by
  rw [wordPairs, List.map_snd_zip]
  rw [List.length_take, length_words]
  omega

/-- The low word of a difference of long numbers. -/
theorem setWidth_sub (w : BitVec 32) (li : BitVec 64) : (w.setWidth 64 - li).setWidth 32 = w - li.setWidth 32 := by
  apply BitVec.eq_of_toNat_eq
  have hw := w.isLt
  have hli := li.isLt
  simp only [BitVec.toNat_setWidth, BitVec.toNat_sub]
  omega

/-- Two texts that can be null, where the single value is not. -/
theorem deviates_text {C : LPSTR → PropValData} {mvszA : Counted 31 LPSTR} {text : List UInt8} {dev : ℕ → Prop}
    {compare : ℕ → Option (Except ECRESULT ℤ)}
    (hcompare : ∀ j, compare j = MVPropProxy.atIndex mvszA.elems j fun e => MVPropProxy.compareText d e (some text))
    (helements : elements lpMVProp1.Value = mvszA.elems.map C)
    (hresult : ∀ e, result d ⟨lpMVProp1.ulPropId, C (some e)⟩ lpProp2 =
      some ((if lpProp2.ulPropId = PR_ANR then d.u8_istartswith else d.u8_icompare) e text))
    (hdev : ∀ i, dev i ↔ mvszA.elems[i]? = some none ∧
        ¬ (relopHolds ulType 1 = true ↔ Stands d lpMVProp1 lpProp2 ulType (C none)) ∨
      ∃ e, mvszA.elems[i]? = some (some e) ∧ TextDiffers d lpProp2 ulType e text) (i : ℕ) :
    dev i ↔ ¬ (Tests compare (relopHolds ulType) i ↔ StandsAt d lpMVProp1 lpProp2 ulType i) := by
  refine deviates_iff_of_total (C := C) (f := textResult d text) ?_ helements (fun i => ?_) i
  · intro j
    rw [hcompare]
    exact congrArg _ (funext fun e => compareText_some text e)
  · rw [hdev]
    constructor
    · rintro (⟨he, hnot⟩ | ⟨e, he, hdiffers⟩)
      · exact ⟨none, he, hnot⟩
      · rw [textDiffers_iff, differ_iff, ← stands_iff (hresult e)] at hdiffers
        exact ⟨some e, he, hdiffers⟩
    · rintro ⟨_ | e, he, hnot⟩
      · exact .inl ⟨he, hnot⟩
      · rw [stands_iff (hresult e)] at hnot
        exact .inr ⟨e, he, (textDiffers_iff e text).mpr (differ_iff.mpr hnot)⟩

/-- Where the single value is a null pointer, the first null pointer among the elements ends the loop. -/
theorem deviates_null {mvszA : Counted 31 LPSTR} {compare : ℕ → Option (Except ECRESULT ℤ)} {C : LPSTR → PropValData}
    (hcompare : ∀ j, compare j = MVPropProxy.atIndex mvszA.elems j fun e => MVPropProxy.compareText d e none)
    (helements : elements lpMVProp1.Value = mvszA.elems.map C)
    (hresult : ∀ e, result d ⟨lpMVProp1.ulPropId, C e⟩ lpProp2 = some (boolInt e.isSome)) (i : ℕ) :
    (∃ e, mvszA.elems[i]? = some e ∧ ¬ ((relopHolds ulType (-1) = true ∧ none ∉ mvszA.elems.take (i + 1)) ↔
        relopHolds ulType (boolInt e.isSome) = true)) ↔
      ¬ (Tests compare (relopHolds ulType) i ↔ StandsAt d lpMVProp1 lpProp2 ulType i) := by
  have hok {j : ℕ} {r : ℤ} : compare j = some (.ok r) ↔ ∃ e, mvszA.elems[j]? = some (some e) ∧ r = -1 := by
    rw [hcompare, MVPropProxy.atIndex]
    cases mvszA.elems[j]? with
    | none => simp
    | some e =>
      cases e with
      | none => simp [MVPropProxy.compareText]
      | some e => simp [MVPropProxy.compareText, eq_comm]
  rw [StandsAt, helements, List.getElem?_map]
  cases he : mvszA.elems[i]? with
  | none =>
    refine iff_of_false (by simp) (not_not.mpr (iff_of_false ?_ (by simp)))
    rintro ⟨⟨r, hr, -⟩, -⟩
    obtain ⟨e, hsome, -⟩ := hok.mp hr
    rw [he] at hsome
    cases hsome
  | some e =>
    have hlt := (List.getElem?_eq_some_iff.mp he).1
    have hreached : none ∉ mvszA.elems.take (i + 1) ↔ ∀ j ≤ i, ∃ e, mvszA.elems[j]? = some (some e) := by
      constructor
      · intro hnone j hj
        have hjlt : j < mvszA.elems.length := by omega
        cases hej : mvszA.elems[j] with
        | none =>
          refine absurd (List.mem_take_iff_getElem.mpr ⟨j, by omega, hej⟩) hnone
        | some e => exact ⟨e, by rw [List.getElem?_eq_getElem hjlt, hej]⟩
      · intro hall hmem
        obtain ⟨j, hj, hej⟩ := List.mem_take_iff_getElem.mp hmem
        obtain ⟨e, hsome⟩ := hall j (by omega)
        rw [List.getElem?_eq_getElem (by omega), hej] at hsome
        cases hsome
    have htests : Tests compare (relopHolds ulType) i ↔
        relopHolds ulType (-1) = true ∧ none ∉ mvszA.elems.take (i + 1) := by
      rw [hreached]
      constructor
      · rintro ⟨⟨r, hr, hholds⟩, hbefore⟩
        obtain ⟨e, hsome, rfl⟩ := hok.mp hr
        refine ⟨hholds, fun j hj => ?_⟩
        rcases eq_or_lt_of_le hj with rfl | hlt
        · exact ⟨e, hsome⟩
        · obtain ⟨r, hr⟩ := hbefore j hlt
          obtain ⟨e, hsome, -⟩ := hok.mp hr
          exact ⟨e, hsome⟩
      · rintro ⟨hholds, hall⟩
        obtain ⟨e, hsome⟩ := hall i le_rfl
        refine ⟨⟨-1, hok.mpr ⟨e, hsome, rfl⟩, hholds⟩, fun j hj => ?_⟩
        obtain ⟨e, hsome⟩ := hall j hj.le
        exact ⟨-1, hok.mpr ⟨e, hsome, rfl⟩⟩
    rw [htests]
    simp [stands_iff (hresult e)]

/-- An element deviates exactly if its test says something else than `CompareProp`. -/
theorem deviates_iff {u8_icompare u8_istartswith : List UInt8 → List UInt8 → ℤ}
    (hpaired : Paired lpMVProp1.Value lpProp2.Value) (hcheck : propCheck lpProp2.Value = true) (i : ℕ) :
    Deviates (.ieee u8_icompare u8_istartswith) fd lpMVProp1 lpProp2 ulType i ↔
      ¬ (Tests (MVPropProxy.compare (.ieee u8_icompare u8_istartswith) fd lpMVProp1.Value lpProp2.Value)
          (relopHolds ulType) i ↔ StandsAt (.ieee u8_icompare u8_istartswith) lpMVProp1 lpProp2 ulType i) := by
  obtain ⟨id1, mv⟩ := lpMVProp1
  obtain ⟨id2, v⟩ := lpProp2
  -- one case for each type of a vector; in each, `exists_differ_iff` asks for an element whose two comparisons
  -- differ
  cases hpaired with
  | i2 mvi i2 =>
    refine deviates_iff_of_total (C := .PT_I2) (l := mvi.elems) (fun _ => rfl) rfl (fun i => ?_) i
    rw [← exists_differ_iff fun e => result_of_compareValues rfl rfl rfl rfl]
    refine iff_of_false id ?_
    rintro ⟨e, -, hdiffer⟩
    exact hdiffer rfl
  | long mvl ul =>
    refine deviates_iff_of_total (C := .PT_LONG) (l := mvl.elems) (fun _ => rfl) rfl (fun i => ?_) i
    rw [← exists_differ_iff fun e => result_of_compareValues rfl rfl rfl rfl]
    exact exists_congr fun e => and_congr_right fun _ => (differ_word_iff e ul).symm
  | r4 mvflt flt =>
    refine deviates_iff_of_total (C := .PT_R4) (l := mvflt.elems) (fun _ => rfl) rfl (fun i => ?_) i
    rw [← exists_differ_iff fun e => result_of_compareValues rfl rfl rfl rfl]
    exact exists_congr fun e => and_congr_right fun _ => (differ_compareFlt_iff e flt).symm
  | double mvdbl dbl =>
    refine deviates_iff_of_total (C := .PT_DOUBLE) (l := mvdbl.elems) (fun _ => rfl) rfl (fun i => ?_) i
    rw [← exists_differ_iff fun e => result_of_compareValues rfl rfl rfl rfl]
    exact exists_congr fun e => and_congr_right fun _ => (differ_compareDbl_iff e dbl).symm
  | apptime mvdbl dbl =>
    refine deviates_iff_of_total (C := .PT_APPTIME) (l := mvdbl.elems) (fun _ => rfl) rfl (fun i => ?_) i
    rw [← exists_differ_iff fun e => result_of_compareValues rfl rfl rfl rfl]
    exact exists_congr fun e => and_congr_right fun _ => (differ_compareDbl_iff e dbl).symm
  -- the loop reads this vector as words, so that its comparisons are those of words with values
  | i8 mvli li =>
    refine deviates_iff_of_total (l := wordPairs mvli.elems) (C := fun p => .PT_I8 p.2)
      (f := fun p => (p.1 - li.setWidth 32).toInt) (fun j => ?_) ?_ (fun i => ?_) i
    · show MVPropProxy.atIndex _ _ _ = _
      rw [← wordPairs_fst, MVPropProxy.atIndex, List.getElem?_map, MVPropProxy.atIndex]
      cases (wordPairs mvli.elems)[j]? with
      | none => rfl
      | some p => exact congrArg (fun w : BitVec 32 => some (Except.ok w.toInt)) (setWidth_sub p.1 li)
    · exact (congrArg (List.map PropValData.PT_I8) (wordPairs_snd mvli.elems)).symm.trans List.map_map
    · rw [← exists_differ_iff fun e => result_of_compareValues rfl rfl rfl rfl]
      constructor
      · rintro ⟨e, w, he, hw, htells⟩
        refine ⟨(w, e), (wordPairs_getElem? _ _ _ _).mpr ⟨he, hw⟩, ?_⟩
        rw [differ_iff_tells, sgn_compareBranches]
        exact htells
      · rintro ⟨⟨w, e⟩, hpair, hdiffer⟩
        obtain ⟨he, hw⟩ := (wordPairs_getElem? _ _ _ _).mp hpair
        rw [differ_iff_tells, sgn_compareBranches] at hdiffer
        exact ⟨e, w, he, hw, hdiffer⟩
  | systime mvhilo hilo =>
    refine deviates_iff_of_total (C := .PT_SYSTIME) (l := mvhilo.elems) (fun _ => rfl) rfl (fun i => ?_) i
    rw [← exists_differ_iff fun e => result_of_compareValues rfl rfl rfl rfl]
    exact exists_congr fun e => and_congr_right fun _ => (compareHilo_differ_iff e hilo).symm
  | currency mvhilo hilo =>
    refine deviates_iff_of_total (C := .PT_CURRENCY) (l := mvhilo.elems) (fun _ => rfl) rfl (fun i => ?_) i
    rw [← exists_differ_iff fun e => result_of_compareValues rfl rfl rfl rfl]
    exact exists_congr fun e => and_congr_right fun _ => (compareHilo_differ_iff e hilo).symm
  | clsid mvbin bin =>
    refine deviates_iff_of_total (C := .PT_CLSID) (l := mvbin.elems) (fun _ => rfl) rfl (fun i => ?_) i
    have hbin : bin.elems.length % 16 = 0 := of_decide_eq_true hcheck
    refine (and_iff_right hbin).trans (exists_congr fun e => and_congr_right fun _ => ?_)
    -- a GUID of another length is refused by the comparison, and taken by the operator
    by_cases hguids : e.elems.length % 16 = 0
    · have hresult := result_of_compareValues (d := .ieee u8_icompare u8_istartswith) (a := ⟨id1, .PT_CLSID e⟩) (b := ⟨id2, .PT_CLSID bin⟩) rfl
        (decide_eq_true hguids) hcheck rfl
      rw [stands_iff hresult, compareBinary_eq]
      exact iff_of_false (fun h => h.1 hguids) fun h => h Iff.rfl
    · have hrefused : ¬ Stands (.ieee u8_icompare u8_istartswith) ⟨id1, .PT_MV_CLSID mvbin⟩ ⟨id2, .PT_CLSID bin⟩ ulType (.PT_CLSID e) := by
        rintro ⟨r, hr, -⟩
        rw [result_eq rfl, if_pos (.inl (decide_eq_false hguids))] at hr
        cases hr
      have hsize : MVPropProxy.compareBinary e bin = e.elems.length - bin.elems.length := if_neg (by omega)
      rw [and_iff_right hguids, hsize, iff_false_intro hrefused, iff_false, not_not]
  | binary mvbin bin =>
    refine deviates_iff_of_total (C := .PT_BINARY) (l := mvbin.elems) (fun _ => rfl) rfl (fun i => ?_) i
    simp only [compareBinary_eq]
    by_cases hid : id1 = PR_ADDRESS_BOOK_ENTRYID ∨ id2 = PR_ADDRESS_BOOK_ENTRYID
    · exact (and_iff_right hid).trans (exists_congr fun e => and_congr_right fun _ => entryIdsDiffer_iff hid)
    · -- other properties are compared as here
      refine iff_of_false (fun h => hid h.1) ?_
      rintro ⟨e, -, hnot⟩
      have hspecial : special ⟨id1, .PT_BINARY e⟩ ⟨id2, .PT_BINARY bin⟩ = none := if_neg hid
      exact hnot (stands_iff (result_of_compareValues hspecial rfl rfl rfl)).symm
  | string8 mvszA lpszA =>
    -- `NULL` elements are refused here, and taken as empty by the operator
    obtain ⟨text, rfl⟩ := Option.isSome_iff_exists.mp hcheck
    refine deviates_text (C := .PT_STRING8) (fun _ => rfl) rfl
      (fun e => result_of_compareValues rfl rfl rfl rfl) (fun i => or_congr_left (and_congr_right fun _ => ?_)) i
    have hrefused : ¬ Stands (.ieee u8_icompare u8_istartswith) ⟨id1, .PT_MV_STRING8 mvszA⟩ ⟨id2, .PT_STRING8 (some text)⟩ ulType (.PT_STRING8 none) := by
      rintro ⟨r, hr, -⟩
      rw [result_eq rfl, if_pos (.inl rfl)] at hr
      cases hr
    rw [iff_false_intro hrefused, iff_false, not_not]
  | unicode mvszA lpszA =>
    cases lpszA with
    | none =>
      refine deviates_null (C := .PT_UNICODE) (fun _ => rfl) rfl (fun e => ?_) i
      refine result_of_compareValues rfl rfl rfl ?_
      cases e <;> rfl
    | some text =>
      refine deviates_text (C := .PT_UNICODE) (fun _ => rfl) rfl
        (fun e => result_of_compareValues rfl rfl rfl rfl) (fun i => ?_) i
      refine (or_iff_right ?_).symm
      rintro ⟨-, hnot⟩
      exact hnot (stands_iff (result_of_compareValues rfl rfl rfl rfl)).symm

theorem Paired.propCheck (h : Paired mv v) : propCheck mv = true := by
  cases h <;> rfl

/-- Only elements are tested. -/
theorem Tests.lt_size {holds : ℤ → Bool}
    (h : Tests (MVPropProxy.compare d fd mv v) holds i) (hpaired : Paired mv v) : i < MVPropProxy.size mv := by
  obtain ⟨⟨r, hr, -⟩, -⟩ := h
  by_contra hge
  have hnone {α : Type} {elems : List α} {f : α → Option ℤ} (hlen : elems.length ≤ i) :
      MVPropProxy.atIndex elems i f ≠ some (.ok r) := by
    rw [MVPropProxy.atIndex, List.getElem?_eq_none hlen]
    rintro ⟨⟩
  cases hpaired with
  | i8 mvli li => exact hnone ((List.length_take_le _ _).trans (not_lt.mp hge)) hr
  | _ => exact hnone (not_lt.mp hge) hr

theorem Deviates.paired (h : Deviates d fd lpMVProp1 lpProp2 ulType i) : Paired lpMVProp1.Value lpProp2.Value := by
  obtain ⟨id1, mv⟩ := lpMVProp1
  obtain ⟨id2, v⟩ := lpProp2
  dsimp only [Deviates] at h ⊢
  split at h <;> first | constructor | exact h.elim

/-- No element deviates from a single value that is refused. -/
theorem Deviates.propCheck (h : Deviates d fd lpMVProp1 lpProp2 ulType i) : propCheck lpProp2.Value = true := by
  have hpaired := h.paired
  obtain ⟨id1, mv⟩ := lpMVProp1
  obtain ⟨id2, v⟩ := lpProp2
  cases hpaired with
  | string8 mvszA lpszA =>
    cases lpszA with
    | none => exact h.elim
    | some text => rfl
  | clsid mvbin bin => exact decide_eq_true h.1
  | _ => rfl

theorem exists_stands_iff : (∃ e ∈ elements lpMVProp1.Value, Stands d lpMVProp1 lpProp2 ulType e) ↔
    ∃ i, StandsAt d lpMVProp1 lpProp2 ulType i := by
  constructor
  · rintro ⟨e, he, hstands⟩
    obtain ⟨i, hi⟩ := List.mem_iff_getElem?.mp he
    exact ⟨i, e, hi, hstands⟩
  · rintro ⟨i, e, hi, hstands⟩
    exact ⟨e, List.mem_of_getElem? hi, hstands⟩

end Elements

/-- A match means that some element stands in the relation exactly if no element deviates, or those that do are made up
for. -/
theorem someElement_iff (u8_icompare u8_istartswith : List UInt8 → List UInt8 → ℤ) (fd : FloatDifferences)
    (lpMVProp1 lpProp2 : PropVal) (ulType : Option Relop) (hbase : SameBase lpMVProp1.Value lpProp2.Value) :
    SomeElement (.ieee u8_icompare u8_istartswith) fd lpMVProp1 lpProp2 ulType ↔
      Compensated (.ieee u8_icompare u8_istartswith) fd lpMVProp1 lpProp2 ulType := by
  rw [SomeElement, exists_stands_iff]
  by_cases hpaired : Paired lpMVProp1.Value lpProp2.Value
  · by_cases hcheck : propCheck lpProp2.Value = true
    · have hmv := hpaired.propCheck
      rw [compareMVPropWithProp, if_neg (not_not.mpr hbase), if_neg (by simp [hmv, hcheck]),
        matchLoop_iff _ 0 (fun j hj => absurd hj (Nat.not_lt_zero j))]
      refine Iff.trans (iff_congr ?_ Iff.rfl) (exists_iff_exists_iff (deviates_iff hpaired hcheck))
      constructor
      · rintro ⟨j, -, -, htest⟩
        exact ⟨j, htest⟩
      · rintro ⟨j, htest⟩
        exact ⟨j, by simpa using htest.lt_size hpaired, Nat.zero_le j, htest⟩
    · -- the value is refused, here and by `CompareProp`
      refine iff_of_true (iff_of_false ?_ ?_) (.inl fun i h => hcheck h.propCheck)
      · rw [compareMVPropWithProp, if_neg (not_not.mpr hbase), if_pos (.inr (by simpa using hcheck))]
        rintro ⟨⟩
      · rintro ⟨i, e, -, r, hr, -⟩
        rw [result, compareProp, if_pos (.inr (by simpa using hcheck))] at hr
        cases hr
  · obtain ⟨hsize, hnil⟩ := (paired_of_sameBase hbase).resolve_left hpaired
    refine iff_of_true (iff_of_false ?_ ?_) (.inl fun i h => hpaired h.paired)
    · rw [compareMVPropWithProp, if_neg (not_not.mpr hbase), hsize, matchLoop]
      split_ifs <;> rintro ⟨⟩
    · rintro ⟨i, e, he, -⟩
      rw [hnil] at he
      cases he

/-- One element that is 2^31 greater than the single value, which it is taken to be less than. -/
theorem someElement_great : ¬ ∀ u8_icompare u8_istartswith fd lpMVProp1 lpProp2 ulType,
    SameBase lpMVProp1.Value lpProp2.Value →
      SomeElement (.ieee u8_icompare u8_istartswith) fd lpMVProp1 lpProp2 ulType := by
  intro h
  have hsome := h (fun _ _ => 0) (fun _ _ => 0) ⟨fun _ _ => 0, fun _ _ => 0⟩
    ⟨0x6800, .PT_MV_LONG ⟨[0x80000000], by decide⟩⟩ ⟨0x6800, .PT_LONG 0⟩ (some .RELOP_GT) (by decide)
  have hmatch := hsome.mpr ⟨.PT_LONG 0x80000000, List.mem_singleton_self _, 1, rfl, rfl⟩
  exact absurd (Except.ok.inj (Option.some.inj hmatch)) Bool.false_ne_true

/-- A small element, which is compared as it is, and floats. -/
theorem someElement_iff_small :
    let d := Comparers.ieee (fun _ _ => 0) fun _ _ => 0
    let fd : FloatDifferences := ⟨fun _ _ => 0, fun _ _ => 0⟩
    (SomeElement d fd ⟨0x6800, .PT_MV_LONG ⟨[7], by decide⟩⟩ ⟨0x6800, .PT_LONG 5⟩ (some .RELOP_GT) ↔
      Compensated d fd ⟨0x6800, .PT_MV_LONG ⟨[7], by decide⟩⟩ ⟨0x6800, .PT_LONG 5⟩ (some .RELOP_GT)) ∧
    (SomeElement d fd ⟨0x6801, .PT_MV_R4 ⟨[0x3FC00000, 0x40000000], by decide⟩⟩ ⟨0x6801, .PT_R4 0x3F800000⟩
        (some .RELOP_EQ) ↔
      Compensated d fd ⟨0x6801, .PT_MV_R4 ⟨[0x3FC00000, 0x40000000], by decide⟩⟩ ⟨0x6801, .PT_R4 0x3F800000⟩
        (some .RELOP_EQ)) :=
  ⟨someElement_iff _ _ _ _ _ _ (by decide), someElement_iff _ _ _ _ _ _ (by decide)⟩

end Zcp.Common.SOAPUtils
