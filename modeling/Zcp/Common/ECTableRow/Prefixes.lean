import Zcp.Common.ECTableRow

/-!
# Rows with the same first columns

Rows of one table without float columns. `rowcompare` orders them weakly, with and without the directions of the
columns, and the rows that agree in their first columns are next to one another (`rowcompare_order`).
-/

namespace Zcp.Common

open Std Zcp.Lib

/-- The sort columns of a row of a table that has no float columns. -/
structure PlainRow (fl : ColumnFlags) where
  cols : List SortCol
  sameFlags : SameFlags fl cols
  notFloat : ∀ c ∈ cols, ¬ c.float

theorem SameFlags.fits {fl : ColumnFlags} {cols : List SortCol} (h : SameFlags fl cols)
    (hfloat : ∀ c ∈ cols, ¬ c.float) : FitsFlags fl cols := by
  induction cols generalizing fl with
  | nil => trivial
  | cons c cols ih =>
    have hc := hfloat c List.mem_cons_self
    exact ⟨⟨.inl h.1, fun hfl => absurd hfl hc⟩, ih h.2 fun d hd => hfloat d (List.mem_cons_of_mem c hd)⟩

/-! ## Without the directions -/

/-- The column as `fIgnoreOrder` takes it. -/
def SortCol.ascending (c : SortCol) : SortCol := { c with flags := c.flags &&& 0xfe }

theorem SortCol.key_ascending (c : SortCol) : c.ascending.key = c.key := rfl

theorem SortCol.desc_ascending (c : SortCol) : c.ascending.desc = false := by
  show (c.flags &&& 0xfe &&& TABLEROW_FLAG_DESC != 0) = false
  rw [UInt8.and_assoc]
  exact bne_eq_false_iff_eq.mpr UInt8.and_zero

theorem SortCol.float_ascending (c : SortCol) : c.ascending.float = c.float := by
  show (c.flags &&& 0xfe &&& TABLEROW_FLAG_FLOAT != 0) = _
  rw [UInt8.and_assoc]
  rfl

theorem SortCol.string_ascending (c : SortCol) : c.ascending.string = c.string := by
  show (c.flags &&& 0xfe &&& TABLEROW_FLAG_STRING != 0) = _
  rw [UInt8.and_assoc]
  rfl

theorem columnCmp_ascending [CollationKeys] (a b : SortCol) : columnCmp a.ascending b.ascending = columnCmp a b := by
  unfold columnCmp
  rw [SortCol.float_ascending, SortCol.string_ascending]
  rfl

/-- Ignoring the directions is comparing the columns in ascending order. -/
theorem rowcompareCols_ignoreOrder [CollationKeys] (as bs : List SortCol) :
    rowcompareCols true as bs = rowcompareCols false (as.map SortCol.ascending) (bs.map SortCol.ascending) := by
  induction as generalizing bs with
  | nil => cases bs <;> rfl
  | cons a as ih =>
    cases bs with
    | nil => rfl
    | cons b bs =>
      rw [List.map_cons, List.map_cons, rowcompareCols, rowcompareCols, columnCmp_ascending, SortCol.desc_ascending,
        SortCol.key_ascending, SortCol.key_ascending]
      cases (columnCmp a b).then (compare a.key.length b.key.length) with
      | lt => rfl
      | eq => exact ih bs
      | gt => rfl

theorem SameFlags.ascending {fl : ColumnFlags} {cols : List SortCol} (h : SameFlags fl cols) :
    SameFlags (fun i => fl i &&& 0xfe) (cols.map SortCol.ascending) := by
  induction cols generalizing fl with
  | nil => trivial
  | cons c cols ih => exact ⟨congrArg (· &&& 0xfe) h.1, ih h.2⟩

namespace PlainRow

variable {fl : ColumnFlags}

theorem fits (a : PlainRow fl) : FitsFlags fl a.cols := a.sameFlags.fits a.notFloat

/-- The row with all its columns in ascending order. -/
def ascending (a : PlainRow fl) : PlainRow fun i => fl i &&& 0xfe where
  cols := a.cols.map SortCol.ascending
  sameFlags := SameFlags.ascending a.sameFlags
  notFloat := by
    intro c hc
    obtain ⟨d, hd, rfl⟩ := List.mem_map.mp hc
    rw [SortCol.float_ascending]
    exact a.notFloat d hd

/-- `rowcompare` of two rows. -/
def lt [CollationKeys] (fIgnoreOrder : Bool) (a b : PlainRow fl) : Prop := rowcompareCols fIgnoreOrder a.cols b.cols

/-- Neither of two rows is in front of the other one. -/
def Incomparable [CollationKeys] (fIgnoreOrder : Bool) (a b : PlainRow fl) : Prop :=
  ¬ a.lt fIgnoreOrder b ∧ ¬ b.lt fIgnoreOrder a

/-- `rowcompareprefix` finds no difference between two rows. -/
def SamePrefix [CollationKeys] (ulPrefix : ℕ) (a b : PlainRow fl) : Prop :=
  rowcompareprefix ulPrefix a.cols b.cols = false ∧ rowcompareprefix ulPrefix b.cols a.cols = false

theorem strictWeak [CollationKeys] (fIgnoreOrder : Bool) :
    (∀ a b : PlainRow fl, a.lt fIgnoreOrder b → ¬ b.lt fIgnoreOrder a) ∧
      ∀ a b c : PlainRow fl, ¬ a.lt fIgnoreOrder b → ¬ b.lt fIgnoreOrder c → ¬ a.lt fIgnoreOrder c := by
  cases fIgnoreOrder with
  | false =>
    have h := rowcompare_strictWeak fl
    exact ⟨fun a b => h.asymm a.fits b.fits, fun a b c => h.negTrans a.fits b.fits c.fits⟩
  | true =>
    have h := rowcompare_strictWeak fun i => fl i &&& 0xfe
    unfold lt
    simp only [rowcompareCols_ignoreOrder]
    exact ⟨fun a b => h.asymm a.ascending.fits b.ascending.fits,
      fun a b c => h.negTrans a.ascending.fits b.ascending.fits c.ascending.fits⟩

/-- A difference in the first columns is one of the rows. -/
theorem rowcompareCols_of_prefix [CollationKeys] {ulPrefix : ℕ} {as bs : List SortCol}
    (h : rowcompareprefix ulPrefix as bs = true) : rowcompareCols false as bs = true := by
  unfold rowcompareprefix at h
  induction ulPrefix generalizing as bs with
  | zero => exact absurd h Bool.false_ne_true
  | succ n ih =>
    cases as with
    | nil => cases bs with
      | nil => exact h
      | cons b bs => rfl
    | cons a as =>
      cases bs with
      | nil => exact h
      | cons b bs =>
        rw [List.take_succ_cons, List.take_succ_cons, rowcompareCols] at h
        rw [rowcompareCols]
        cases hcmp : (columnCmp a b).then (compare a.key.length b.key.length) with
        | lt => rwa [hcmp] at h
        | gt => rwa [hcmp] at h
        | eq =>
          rw [hcmp] at h
          exact ih h

/-- A row between two rows that agree in their first columns agrees with them. -/
theorem SamePrefix.between [CollationKeys] {ulPrefix : ℕ} {a b c : PlainRow fl} (hab : ¬ b.lt false a)
    (hbc : ¬ c.lt false b) (hac : SamePrefix ulPrefix a c) : SamePrefix ulPrefix a b ∧ SamePrefix ulPrefix b c := by
  have h := rowcompare_strictWeak fl
  have hfits (x : PlainRow fl) : FitsFlags fl (x.cols.take ulPrefix) := x.fits.take ulPrefix
  have hba : ¬ rowcompareprefix ulPrefix b.cols a.cols = true := mt rowcompareCols_of_prefix hab
  have hcb : ¬ rowcompareprefix ulPrefix c.cols b.cols = true := mt rowcompareCols_of_prefix hbc
  have hab' : ¬ rowcompareprefix ulPrefix a.cols b.cols = true := by
    intro hlt
    have hlt' := h.lt_of_lt_of_not_lt (hfits a) (hfits b) (hfits c) hlt hcb
    exact absurd (hac.1.symm.trans hlt') Bool.false_ne_true
  have hbc' : ¬ rowcompareprefix ulPrefix b.cols c.cols = true := by
    intro hlt
    have hlt' := h.lt_of_not_lt_of_lt (hfits a) (hfits b) (hfits c) hba hlt
    exact absurd (hac.1.symm.trans hlt') Bool.false_ne_true
  simp only [Bool.not_eq_true] at hba hcb hab' hbc'
  exact ⟨⟨hab', hba⟩, ⟨hbc', hcb⟩⟩

/-- **`rowcompare` is a strict weak order** on the rows without float columns of a table, whether it takes notice of the
directions or not: no row is in front of itself, and both being in front and being incomparable are transitive. Rows
that agree in their first columns are next to one another. -/
theorem rowcompare_order [CollationKeys] (fl : ColumnFlags) : (∀ (fIgnoreOrder : Bool),
      (∀ a : PlainRow fl, ¬ a.lt fIgnoreOrder a) ∧
      (∀ a b c : PlainRow fl, a.lt fIgnoreOrder b → b.lt fIgnoreOrder c → a.lt fIgnoreOrder c) ∧
      (∀ a b c : PlainRow fl, a.Incomparable fIgnoreOrder b → b.Incomparable fIgnoreOrder c →
        a.Incomparable fIgnoreOrder c)) ∧
    ∀ (ulPrefix : ℕ) (a b c : PlainRow fl), ¬ b.lt false a → ¬ c.lt false b → SamePrefix ulPrefix a c →
      SamePrefix ulPrefix a b ∧ SamePrefix ulPrefix b c := by
  refine ⟨fun fIgnoreOrder => ?_, fun ulPrefix a b c => SamePrefix.between⟩
  obtain ⟨hasymm, hneg⟩ := @strictWeak fl _ fIgnoreOrder
  refine ⟨fun a h => hasymm a a h h, ?_, ?_⟩
  · intro a b c hab hbc
    by_contra hac
    exact hneg a c b hac (hasymm b c hbc) hab
  · rintro a b c ⟨hab, hba⟩ ⟨hbc, hcb⟩
    exact ⟨hneg a b c hab hbc, hneg c b a hcb hba⟩

end PlainRow

end Zcp.Common
