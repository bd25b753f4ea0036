import Zcp.Libserver.ECDatabaseUtils

/-!
# The items of a multi-value

`ParseMVProp` reads an item of a text, with its length in front of it, and says when there is none. The loops that call it
do not ask, so that a text with too few items gives the last one again (`readsItems_iff`).
-/

namespace Zcp.Libserver.ECDatabaseUtils

open Zcp.Common Zcp.Lib

/-- The text of an item: its length in decimal digits, a colon and the bytes. -/
def IsItem (text s : List UInt8) : Prop :=
  ∃ ds, text = ds ++ 58 :: s ∧ ds ≠ [] ∧ (∀ c ∈ ds, isDigit c = true) ∧ digitsValue ds = s.length

/-- The texts of some items, one behind the other. -/
inductive AreItems : List UInt8 → List (List UInt8) → Prop where
  | nil : AreItems [] []
  | cons {text s rest items} : IsItem text s → AreItems rest items → AreItems (text ++ rest) (s :: items)

/-- A text begins with some items. -/
def BeginsWith (text : List UInt8) (items : List (List UInt8)) : Prop :=
  ∃ front rest, text = front ++ rest ∧ AreItems front items

theorem endsNumber_colon (s : List UInt8) : EndsNumber (58 :: s) := by
  intro c hc
  obtain rfl : 58 = c := Option.some.inj hc
  rfl

/-! ## Reading an item -/

/-- `ParseMVProp` reads the item that starts where it is. -/
theorem parseMVProp_isItem {front text s rest : List UInt8} (hitem : IsItem text s)
    (hlen : (front ++ text ++ rest).length < 2 ^ 32) :
    parseMVProp (front ++ text ++ rest) front.length = .ok ⟨(front ++ text).length, s⟩ := by
  obtain ⟨ds, rfl, hne, hds, hvalue⟩ := hitem
  have htext : (front ++ (ds ++ 58 :: s) ++ rest).drop front.length = ds ++ 58 :: (s ++ rest) := by
    rw [List.append_assoc, List.drop_left, List.append_assoc, List.cons_append]
  have hpos : 0 < ds.length := List.length_pos_of_ne_nil hne
  simp only [List.length_append, List.length_cons] at hlen
  rw [parseMVProp, htext, strtoul_digits hne hds (by omega) (endsNumber_colon _), hvalue]
  simp only [List.length_append, List.length_cons, List.head?_cons, List.drop_succ_cons, List.drop_zero]
  rw [Nat.mod_eq_of_lt hlen, Nat.mod_eq_of_lt (by omega : s.length < 2 ^ 32), if_neg (by omega),
    if_neg (not_or.mpr ⟨by omega, fun h => h rfl⟩), if_neg (by omega), List.take_left]
  congr 2
  omega

/-- The bytes that `strtoul` looks at: spaces, a sign, digits and what is behind them. -/
def strtoulReads (s : List UInt8) : ℕ :=
  s.length - ((scanSign (s.dropWhile isSpace)).2.dropWhile isDigit).length + 1

/-- The end of the bytes that `ParseMVProp` looks at. -/
def parseReads (lpRowData : List UInt8) (ulLastPos : ℕ) : ℕ :=
  if ulLastPos ≥ lpRowData.length % 2 ^ 32 then 0
  else
    let number := ulLastPos + strtoulReads (lpRowData.drop ulLastPos)
    match parseMVProp lpRowData ulLastPos with
    | .ok scan => max number scan.ulLastPos
    | .error _ => number

theorem parseReads_isItem {front text s rest : List UInt8} (hitem : IsItem text s)
    (hlen : (front ++ text ++ rest).length < 2 ^ 32) :
    parseReads (front ++ text ++ rest) front.length ≤ (front ++ text ++ rest).length := by
  have hparse := parseMVProp_isItem hitem hlen
  obtain ⟨ds, rfl, hne, hds, -⟩ := hitem
  have htext : (front ++ (ds ++ 58 :: s) ++ rest).drop front.length = ds ++ 58 :: (s ++ rest) := by
    rw [List.append_assoc, List.drop_left, List.append_assoc, List.cons_append]
  obtain ⟨hspace, hsign⟩ := scanSign_digits hne hds (58 :: (s ++ rest))
  unfold parseReads strtoulReads
  rw [hparse, htext, hspace, hsign]
  dsimp only
  rw [(takeWhile_digits hds (endsNumber_colon _)).2]
  split_ifs with hend
  · exact Nat.zero_le _
  · simp only [List.length_append, List.length_cons]
    omega

/-! ## Reading them all -/

/-- What a turn of a loop goes on with. -/
def nextScan (lpRowData : List UInt8) (scan : MVScan) : MVScan :=
  (parseMVProp lpRowData scan.ulLastPos).toOption.getD scan

/-- A loop of `n` turns looks inside of the column only. -/
def ReadsInside (lpRowData : List UInt8) : ℕ → MVScan → Prop
  | 0, _ => True
  | n + 1, scan =>
    parseReads lpRowData scan.ulLastPos ≤ lpRowData.length ∧ ReadsInside lpRowData n (nextScan lpRowData scan)

/-- From where the items begin, they are read one after the other. -/
theorem scanMV_areItems {front text rest strData : List UInt8} {items : List (List UInt8)} (hitems : AreItems text items)
    (hlen : (front ++ text ++ rest).length < 2 ^ 32) :
    scanMV (front ++ text ++ rest) items.length ⟨front.length, strData⟩ = items ∧
      ReadsInside (front ++ text ++ rest) items.length ⟨front.length, strData⟩ := by
  induction hitems generalizing front strData with
  | nil => exact ⟨rfl, trivial⟩
  | @cons text s more items hitem hmore ih =>
    have hsplit : front ++ (text ++ more) ++ rest = front ++ text ++ (more ++ rest) := by
      simp only [List.append_assoc]
    have hnext : nextScan (front ++ text ++ (more ++ rest)) ⟨front.length, strData⟩ = ⟨(front ++ text).length, s⟩ := by
      rw [nextScan, parseMVProp_isItem hitem (hsplit ▸ hlen)]
      rfl
    have hrest : scanMV (front ++ text ++ more ++ rest) items.length ⟨(front ++ text).length, s⟩ = items ∧
        ReadsInside (front ++ text ++ more ++ rest) items.length ⟨(front ++ text).length, s⟩ :=
      ih (by rwa [List.append_assoc, ← hsplit])
    have hshift : front ++ text ++ more ++ rest = front ++ text ++ (more ++ rest) := by
      rw [List.append_assoc]
    rw [hshift] at hrest
    rw [hsplit, List.length_cons]
    refine ⟨?_, parseReads_isItem hitem (hsplit ▸ hlen), ?_⟩
    · show (nextScan _ _).strData :: scanMV _ _ (nextScan _ _) = _
      rw [hnext, hrest.1]
    · rw [hnext]
      exact hrest.2

theorem mvStrings_beginsWith {text : List UInt8} {items : List (List UInt8)} {size : BitVec 32}
    (hitems : BeginsWith text items) (hsize : (items.length : ℤ) = size.toInt) (hlen : text.length < 2 ^ 32) :
    mvStrings text size = items ∧ ReadsInside text items.length ⟨0, []⟩ := by
  obtain ⟨front, rest, rfl, hfront⟩ := hitems
  rw [mvStrings, ← hsize, Int.toNat_natCast]
  exact @scanMV_areItems [] _ rest [] items hfront hlen

/-! ## Multi-values -/

/-- The columns that are read for a multi-value, when none of them is `NULL`. -/
def mvColumns (p : PropType) (values : DbValues) : Option (List (List UInt8)) :=
  match p with
  | .PT_MV_I2 | .PT_MV_LONG => values.val_ulong.map fun s => [s]
  | .PT_MV_R4 | .PT_MV_DOUBLE | .PT_MV_APPTIME => values.val_double.map fun s => [s]
  | .PT_MV_CURRENCY | .PT_MV_SYSTIME => values.val_hi.bind fun hi => values.val_lo.map fun lo => [hi, lo]
  | .PT_MV_BINARY | .PT_MV_CLSID => values.val_binary.map fun s => [s]
  | .PT_MV_STRING8 | .PT_MV_UNICODE => values.val_string.map fun s => [s]
  | .PT_MV_I8 => values.val_longint.map fun s => [s]
  | _ => none

/-! ## The type of a row -/

theorem PropType.ofCode_code (p : PropType) : PropType.ofCode p.code = some p := by
  cases p <;> rfl

/-- No type is that of an instance of a multi-value. -/
theorem PropType.not_instance (p : PropType) : ¬ p.code &&& MVI_FLAG = MVI_FLAG := by
  cases p <;> decide

/-- The number of a type or an id is read back. -/
theorem atoi_decimal_setWidth (x : BitVec 16) : (atoi (decimal x.toNat)).setWidth 16 = x := by
  have h := atoi_decimal (x.setWidth 32)
  rw [BitVec.toNat_setWidth_of_le (by decide)] at h
  rw [h, BitVec.setWidth_setWidth_of_le _ (by decide), BitVec.setWidth_eq]

section Externals

variable (d : Externals)

/-- The value of the items of the columns. -/
def itemsValue (p : PropType) (size : BitVec 32) (items : List (List (List UInt8))) : PropValUnion :=
  let mv {α : Type} (read : List UInt8 → α) : SizedPtr α := ⟨some ((items.headD []).map read), size⟩
  match p with
  | .PT_MV_I2 => .mvi (mv fun strData => (atoui strData).setWidth 16)
  | .PT_MV_LONG => .mvl (mv atoui)
  | .PT_MV_R4 => .mvflt (mv fun strData => d.toFloat (d.strtod strData))
  | .PT_MV_DOUBLE | .PT_MV_APPTIME => .mvdbl (mv d.strtod)
  | .PT_MV_CURRENCY | .PT_MV_SYSTIME =>
    .mvhilo ⟨some (((items.headD []).map atoi).zipWith HiloLong.mk ((items.getD 1 []).map atoui)), size⟩
  | .PT_MV_BINARY | .PT_MV_CLSID => .mvbin (mv binaryOf)
  | .PT_MV_I8 => .mvli (mv atoll)
  | _ => .mvszA (mv fun strData => some (cstr strData))

/-- A row with a multi-value. Its columns are shorter than 2^32 bytes, as those of every result. -/
structure MVRow (p : PropType) extends DbRow where
  isMulti : p.code &&& MV_FLAG = MV_FLAG
  type_eq : type = decimal p.code.toNat
  fits : ∀ texts, mvColumns p values = some texts → ∀ text ∈ texts, text.length < 2 ^ 32

variable {p : PropType}

/-- The number of items that a row announces. -/
def MVRow.size (row : MVRow p) : BitVec 32 := atoi row.id

/-- Each column begins with as many items as are announced. -/
def MVRow.HasItems (row : MVRow p) (texts : List (List UInt8)) (items : List (List (List UInt8))) : Prop :=
  List.Forall₂ (fun text items => BeginsWith text items ∧ (items.length : ℤ) = row.size.toInt) texts items

/-- There is no value, or one with the announced number of elements, which are the items of the columns; to read them
only bytes of the columns are looked at. -/
def MVRow.ReadsItems (row : MVRow p) : Prop :=
  ∀ v, copyDatabasePropValToSOAPPropVal d row.toDbRow = .ok v →
    ∃ texts items, mvColumns p row.values = some texts ∧ row.HasItems texts items ∧
      v.Value = itemsValue d p row.size items ∧ ∀ text ∈ texts, ReadsInside text row.size.toInt.toNat ⟨0, []⟩

/-- The value of the columns, if there are. -/
theorem readValue_multi (row : MVRow p) :
    readValue d p row.toDbRow =
      match mvColumns p row.values with
      | none => .error .ZARAFA_E_NOT_FOUND
      | some texts => .ok (itemsValue d p row.size (texts.map fun text => mvStrings text row.size)) := by
  have hmulti := row.isMulti
  unfold readValue mvColumns column
  cases p with
  | PT_MV_I2 | PT_MV_LONG => cases row.values.val_ulong <;> rfl
  | PT_MV_R4 | PT_MV_DOUBLE | PT_MV_APPTIME => cases row.values.val_double <;> rfl
  | PT_MV_CURRENCY | PT_MV_SYSTIME => cases row.values.val_hi <;> cases row.values.val_lo <;> rfl
  | PT_MV_BINARY | PT_MV_CLSID => cases row.values.val_binary <;> rfl
  | PT_MV_STRING8 | PT_MV_UNICODE => cases row.values.val_string <;> rfl
  | PT_MV_I8 => cases row.values.val_longint <;> rfl
  | _ => exact absurd hmulti (by decide)

/-- The columns make a value, whatever is in them. -/
theorem copyDatabasePropVal_multi (row : MVRow p) :
    (copyDatabasePropValToSOAPPropVal d row.toDbRow).map PropVal.Value =
      match mvColumns p row.values with
      | none => .error .ZARAFA_E_NOT_FOUND
      | some texts => .ok (itemsValue d p row.size (texts.map fun text => mvStrings text row.size)) := by
  rw [← readValue_multi, copyDatabasePropValToSOAPPropVal, row.type_eq, atoi_decimal_setWidth]
  simp only [PropType.not_instance, if_false, PropType.ofCode_code]
  cases readValue d p row.toDbRow <;> rfl

variable {d} in
theorem MVRow.ReadsItems.hasItems {row : MVRow p} (h : row.ReadsItems d) {texts : List (List UInt8)}
    (htexts : mvColumns p row.values = some texts) : ∃ items, row.HasItems texts items := by
  have hvalue := copyDatabasePropVal_multi d row
  rw [htexts] at hvalue
  cases hv : copyDatabasePropValToSOAPPropVal d row.toDbRow with
  | error e =>
    rw [hv] at hvalue
    cases hvalue
  | ok v =>
    obtain ⟨texts', items, htexts', hitems, -⟩ := h v hv
    obtain rfl := Option.some.inj (htexts.symm.trans htexts')
    exact ⟨items, hitems⟩

/-- Multi-values are read as they are announced if and only if a column is `NULL`, which is an error, or each column begins
with as many items as are announced. -/
theorem readsItems_iff (row : MVRow p) :
    row.ReadsItems d ↔ ∀ texts, mvColumns p row.values = some texts → ∃ items, row.HasItems texts items := by
  constructor
  · exact fun h texts htexts => h.hasItems htexts
  · intro h v hv
    have hvalue := copyDatabasePropVal_multi d row
    rw [hv] at hvalue
    cases htexts : mvColumns p row.values with
    | none =>
      rw [htexts] at hvalue
      cases hvalue
    | some texts =>
      rw [htexts] at hvalue
      obtain ⟨items, hitems⟩ := h texts htexts
      have hread : texts.map (fun text => mvStrings text row.size) = items ∧
          ∀ text ∈ texts, ReadsInside text row.size.toInt.toNat ⟨0, []⟩ := by
        have hfits := row.fits texts htexts
        clear hvalue htexts
        unfold MVRow.HasItems at hitems
        induction hitems with
        | nil => exact ⟨rfl, fun text htext => absurd htext List.not_mem_nil⟩
        | @cons text l texts items hitem hmore ih =>
          obtain ⟨hfirst, hinside⟩ := mvStrings_beginsWith hitem.1 hitem.2 (hfits text List.mem_cons_self)
          obtain ⟨hrest, hall⟩ := ih fun t ht => hfits t (List.mem_cons_of_mem _ ht)
          rw [List.map_cons, hfirst, hrest, ← hitem.2, Int.toNat_natCast]
          rw [← hitem.2, Int.toNat_natCast] at hall
          exact ⟨rfl, List.forall_mem_cons.mpr ⟨hinside, hall⟩⟩
      refine ⟨texts, items, rfl, hitems, ?_, hread.2⟩
      rw [← hread.1]
      exact Except.ok.inj hvalue

/-- Two numbers are announced and the second one is cut off: `3:123`. -/
def cutOff : MVRow .PT_MV_LONG where
  id := [50]
  tag := []
  type := decimal 0x1003
  values := ⟨some [51, 58, 49, 50, 51], none, none, none, none, none, none⟩
  isMulti := by decide
  type_eq := rfl
  fits := by
    rintro texts h text htext
    obtain rfl : [[51, 58, 49, 50, 51]] = texts := Option.some.inj h
    obtain rfl := List.mem_singleton.mp htext
    decide

theorem AreItems.length_le {text : List UInt8} {items : List (List UInt8)} (h : AreItems text items) :
    (items.map fun s => s.length + 2).sum ≤ text.length := by
  induction h with
  | nil => exact le_rfl
  | cons hitem _ ih =>
    obtain ⟨ds, rfl, hne, -, -⟩ := hitem
    have hpos : 0 < ds.length := List.length_pos_of_ne_nil hne
    rw [List.map_cons, List.sum_cons, List.length_append, List.length_append, List.length_cons]
    omega

/-- The number is read twice. -/
theorem not_readsItems_cutOff : ¬ ∃ d, cutOff.ReadsItems d := by
  rintro ⟨d, h⟩
  have hcolumns : mvColumns .PT_MV_LONG cutOff.values = some [[51, 58, 49, 50, 51]] := rfl
  obtain ⟨items, hitems⟩ := h.hasItems hcolumns
  obtain ⟨l, _, ⟨hbegins, hsize⟩, -, -⟩ := List.forall₂_cons_left_iff.mp hitems
  have hread := (mvStrings_beginsWith hbegins hsize (by decide)).1
  have htwice : mvStrings [51, 58, 49, 50, 51] cutOff.size = [[49, 50, 51], [49, 50, 51]] := by decide +kernel
  obtain rfl : [[49, 50, 51], [49, 50, 51]] = l := htwice.symm.trans hread
  obtain ⟨front, rest, htext, hfront⟩ := hbegins
  have hlength := congrArg List.length htext
  have hle := hfront.length_le
  simp only [List.length_append, List.length_cons, List.length_nil, List.map_cons, List.map_nil, List.sum_cons,
    List.sum_nil] at hlength hle
  omega

end Externals

end Zcp.Libserver.ECDatabaseUtils
