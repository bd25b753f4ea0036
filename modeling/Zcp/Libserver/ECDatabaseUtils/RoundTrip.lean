import Zcp.Libserver.ECDatabaseUtils.Items

/-!
# Stored properties read back

A well-formed value is written as texts that the tables take, and what is read from their columns is the value again;
strings are returned with their Unicode type (`stored_reads_back`).
-/

namespace Zcp.Libserver.ECDatabaseUtils

open Zcp.Common Zcp.Lib

/-- What the documentation of the database promises about escaped texts. -/
structure Externals.Documented (d : Externals) : Prop where
  literal_escape : ∀ s, d.literal (quote (d.mysql_real_escape_string s)) = some s
  escape_noNul : ∀ s, (0 : UInt8) ∉ d.mysql_real_escape_string s

/-! ## Strings -/

/-- A text within the basic multilingual plane and without NUL. -/
structure BmpText where
  chars : List Char
  plain : ∀ c ∈ chars, c.toNat ≠ 0 ∧ c.toNat < 0x10000

/-- The bytes of a text in UTF-8. -/
def BmpText.utf8 (s : BmpText) : List UInt8 := s.chars.flatMap String.utf8EncodeChar

/-- `FilterBMP` takes a character of the plane for what it is. -/
theorem utf8EncodeChar_spec {c : Char} (hc : c.toNat ≠ 0 ∧ c.toNat < 0x10000) :
    ∃ lead tail, String.utf8EncodeChar c = lead :: tail ∧ sequenceLength lead = tail.length + 1 ∧ tail.length < 3 ∧
      ∀ b ∈ lead :: tail, b ≠ 0 := by
  have htail : ∀ m < 64, UInt8.ofNat (m + 0x80) ≠ 0 := by decide
  have hmod (n k : ℕ) (hk : 0 < k) : n % k < k := Nat.mod_lt n hk
  have hc' : c.val.toNat ≠ 0 ∧ c.val.toNat < 0x10000 := hc
  rw [String.utf8EncodeChar]
  generalize c.val.toNat = n at hc'
  by_cases h1 : n ≤ 0x7f
  · have hone : ∀ m < 128, m ≠ 0 → sequenceLength (UInt8.ofNat m) = 1 ∧ UInt8.ofNat m ≠ 0 := by decide
    obtain ⟨hlen, hne⟩ := hone n (by omega) hc'.1
    refine ⟨_, _, if_pos h1, hlen, by simp, fun b hb => ?_⟩
    rw [List.mem_singleton.mp hb]
    exact hne
  · by_cases h2 : n ≤ 0x7ff
    · have htwo : ∀ m < 32, sequenceLength (UInt8.ofNat (m + 0xc0)) = 2 ∧ UInt8.ofNat (m + 0xc0) ≠ 0 := by decide
      obtain ⟨hlen, hne⟩ := htwo _ (hmod (n / 64) 32 (by decide))
      refine ⟨_, _, (if_neg h1).trans (if_pos h2), hlen, by simp, fun b hb => ?_⟩
      simp only [List.mem_cons, List.not_mem_nil, or_false] at hb
      rcases hb with rfl | rfl
      · exact hne
      · exact htail _ (hmod n 64 (by decide))
    · have hthree : ∀ m < 16, sequenceLength (UInt8.ofNat (m + 0xe0)) = 3 ∧ UInt8.ofNat (m + 0xe0) ≠ 0 := by decide
      obtain ⟨hlen, hne⟩ := hthree _ (hmod (n / 4096) 16 (by decide))
      refine ⟨_, _, (if_neg h1).trans ((if_neg h2).trans (if_pos (by omega))), hlen, by simp, fun b hb => ?_⟩
      simp only [List.mem_cons, List.not_mem_nil, or_false] at hb
      rcases hb with rfl | rfl | rfl
      · exact hne
      · exact htail _ (hmod _ 64 (by decide))
      · exact htail _ (hmod n 64 (by decide))

theorem filterBMPLoop_utf8 {cs : List Char} (hcs : ∀ c ∈ cs, c.toNat ≠ 0 ∧ c.toNat < 0x10000) {fuel : ℕ}
    (hfuel : (cs.flatMap String.utf8EncodeChar).length ≤ fuel) :
    filterBMPLoop fuel (cs.flatMap String.utf8EncodeChar) = .ok (cs.flatMap String.utf8EncodeChar) := by
  induction cs generalizing fuel with
  | nil => cases fuel <;> rfl
  | cons c cs ih =>
    obtain ⟨lead, tail, hc, hlen, hshort, -⟩ := utf8EncodeChar_spec (hcs c List.mem_cons_self)
    rw [List.flatMap_cons, hc, List.cons_append, List.length_cons, List.length_append] at hfuel
    obtain ⟨fuel, rfl⟩ : ∃ k, fuel = k + 1 := ⟨fuel - 1, by omega⟩
    have hfuel' : (cs.flatMap String.utf8EncodeChar).length ≤ fuel := by omega
    have hrest := ih (fun x hx => hcs x (List.mem_cons_of_mem _ hx)) hfuel'
    rw [List.flatMap_cons, hc, List.cons_append, filterBMPLoop, hlen, if_neg (by rw [List.length_append]; omega),
      List.drop_succ_cons, List.drop_left, hrest]
    show Except.ok ((if tail.length + 1 < 4 then (lead :: (tail ++ cs.flatMap String.utf8EncodeChar) ++ [0]).take
      (tail.length + 1) else []) ++ cs.flatMap String.utf8EncodeChar) = _
    rw [if_pos (by omega)]
    simp

/-- A text of the plane is stored as it is. -/
theorem filterBMP_utf8 (s : BmpText) : filterBMP s.utf8 = .ok s.utf8 :=
  filterBMPLoop_utf8 s.plain le_rfl

theorem cstr_eq {s : List UInt8} (hs : (0 : UInt8) ∉ s) : cstr s = s := by
  rw [cstr, List.takeWhile_eq_self_iff]
  intro b hb
  rw [decide_eq_true_eq]
  rintro rfl
  exact hs hb

theorem cstr_utf8 (s : BmpText) : cstr s.utf8 = s.utf8 := by
  apply cstr_eq
  intro h0
  obtain ⟨c, hc, hb⟩ := List.mem_flatMap.mp h0
  obtain ⟨lead, tail, he, -, -, hne⟩ := utf8EncodeChar_spec (s.plain c hc)
  rw [he] at hb
  exact hne 0 hb rfl

section Externals

variable {d : Externals}

theorem literal_escape (hd : d.Documented) (s : List UInt8) : d.literal (quote (escape d s)) = some s := by
  rw [escape, cstr_eq (hd.escape_noNul s), hd.literal_escape]

theorem stringData_utf8 (s : BmpText) : stringData d (cstr s.utf8) = .ok (quote (escape d s.utf8)) := by
  rw [stringData, cstr_utf8, filterBMP_utf8]
  rfl

end Externals

/-! ## Well-formed values -/

/-- A pointer to elements, with their number. -/
def SizedPtr.ofCounted {α β : Type} (f : α → β) (x : Counted 31 α) : SizedPtr β :=
  ⟨some (x.elems.map f), BitVec.ofNat 32 x.elems.length⟩

/-- A binary value. -/
def binary (x : Base64Binary) : SizedPtr UInt8 := .ofCounted id x

/-- The single values that are no floating-point numbers, by their types. -/
inductive SingleValue : PropType → PropValUnion → Prop
  | PT_I2 (i) : SingleValue .PT_I2 (.i i)
  | PT_LONG (ul) : SingleValue .PT_LONG (.ul ul)
  | PT_BOOLEAN (b) : SingleValue .PT_BOOLEAN (.b b)
  | PT_CURRENCY (hilo) : SingleValue .PT_CURRENCY (.hilo (some hilo))
  | PT_SYSTIME (hilo) : SingleValue .PT_SYSTIME (.hilo (some hilo))
  | PT_I8 (li) : SingleValue .PT_I8 (.li li)
  | PT_STRING8 (s : BmpText) : SingleValue .PT_STRING8 (.lpszA (some s.utf8))
  | PT_UNICODE (s : BmpText) : SingleValue .PT_UNICODE (.lpszA (some s.utf8))
  | PT_BINARY (x) : SingleValue .PT_BINARY (.bin (some (binary x)))
  | PT_CLSID (x) : SingleValue .PT_CLSID (.bin (some (binary x)))

/-- The multi-values with one element or more. -/
inductive MultiValue : PropType → PropValUnion → Prop
  | PT_MV_I2 (x : Counted 31 (BitVec 16)) (hx : x.elems ≠ []) : MultiValue .PT_MV_I2 (.mvi (.ofCounted id x))
  | PT_MV_LONG (x : Counted 31 (BitVec 32)) (hx : x.elems ≠ []) : MultiValue .PT_MV_LONG (.mvl (.ofCounted id x))
  | PT_MV_CURRENCY (x : Counted 31 HiloLong) (hx : x.elems ≠ []) :
      MultiValue .PT_MV_CURRENCY (.mvhilo (.ofCounted id x))
  | PT_MV_SYSTIME (x : Counted 31 HiloLong) (hx : x.elems ≠ []) :
      MultiValue .PT_MV_SYSTIME (.mvhilo (.ofCounted id x))
  | PT_MV_I8 (x : Counted 31 (BitVec 64)) (hx : x.elems ≠ []) : MultiValue .PT_MV_I8 (.mvli (.ofCounted id x))
  | PT_MV_STRING8 (x : Counted 31 BmpText) (hx : x.elems ≠ []) :
      MultiValue .PT_MV_STRING8 (.mvszA (.ofCounted (fun s => some s.utf8) x))
  | PT_MV_UNICODE (x : Counted 31 BmpText) (hx : x.elems ≠ []) :
      MultiValue .PT_MV_UNICODE (.mvszA (.ofCounted (fun s => some s.utf8) x))
  | PT_MV_BINARY (x : Counted 31 Base64Binary) (hx : x.elems ≠ []) :
      MultiValue .PT_MV_BINARY (.mvbin (.ofCounted binary x))
  | PT_MV_CLSID (x : Counted 31 Base64Binary) (hx : x.elems ≠ []) :
      MultiValue .PT_MV_CLSID (.mvbin (.ofCounted binary x))

/-- A value of the type that its tag names. -/
def PropVal.WellFormed (v : PropVal) (p : PropType) : Prop :=
  PROP_TYPE v.ulPropTag = p.code ∧ (SingleValue p v.Value ∨ MultiValue p v.Value)

theorem SingleValue.isSingle {p : PropType} {u : PropValUnion} (h : SingleValue p u) :
    ¬ p.code &&& MV_FLAG = MV_FLAG := by
  cases h <;> decide

theorem MultiValue.isMulti {p : PropType} {u : PropValUnion} (h : MultiValue p u) : p.code &&& MV_FLAG = MV_FLAG := by
  cases h <;> decide

theorem SizedPtr.toNat_size {α β : Type} (f : α → β) (x : Counted 31 α) : (ofCounted f x).size.toNat = x.elems.length := by
  have hx := x.length_lt
  rw [ofCounted, BitVec.toNat_ofNat, Nat.mod_eq_of_lt (by omega)]

theorem SizedPtr.toInt_size {α β : Type} (f : α → β) (x : Counted 31 α) :
    (ofCounted f x).size.toInt.toNat = x.elems.length := by
  have hx := x.length_lt
  rw [BitVec.toInt_eq_toNat_of_lt (by rw [toNat_size]; omega), toNat_size, Int.toNat_natCast]

/-! ## Single values -/

theorem integerColumn_signedDecimal {lo hi z : ℤ} (hlo : lo ≤ z) (hhi : z ≤ hi) :
    integerColumn lo hi (signedDecimal z) = some (signedDecimal z) := by
  have hscan := scanInt_signedDecimal z endsNumber_nil
  rw [List.append_nil] at hscan
  have hne : signedDecimal z ≠ [] := by
    rw [signedDecimal]
    split_ifs
    · exact List.cons_ne_nil _ _
    · exact decimal_ne_nil _
  rw [integerColumn, hscan]
  exact if_pos ⟨hne, rfl, hlo, hhi⟩

/-- An `unsigned int` fits its column. -/
theorem unsignedColumn_stringify (x : BitVec 32) : unsignedColumn (stringify x false) = some (decimal x.toNat) := by
  have hx := x.isLt
  have h : integerColumn 0 (2 ^ 32 - 1) (signedDecimal x.toNat) = some (signedDecimal x.toNat) :=
    integerColumn_signedDecimal (by omega) (by omega)
  rw [signedDecimal_natCast] at h
  exact h

/-- An `int` fits its column. -/
theorem signedColumn_stringify (x : BitVec 32) :
    integerColumn (-2 ^ 31) (2 ^ 31 - 1) (stringify x true) = some (signedDecimal x.toInt) := by
  have hlo := x.le_toInt
  have hhi := x.toInt_lt
  exact integerColumn_signedDecimal (by omega) (by omega)

theorem longintColumn_stringify (x : BitVec 64) :
    integerColumn (-2 ^ 63) (2 ^ 63 - 1) (stringify_int64 x) = some (signedDecimal x.toInt) := by
  have hlo := x.le_toInt
  have hhi := x.toInt_lt
  exact integerColumn_signedDecimal (by omega) (by omega)

theorem atoui_decimal (x : BitVec 32) : atoui (decimal x.toNat) = x := by
  have hx := x.isLt
  have hscan := strtoul_decimal (n := x.toNat) (by omega) endsNumber_nil
  rw [List.append_nil] at hscan
  rw [atoui, hscan, BitVec.ofNat_toNat, BitVec.setWidth_eq]

theorem setWidth_signExtend (i : BitVec 16) : (i.signExtend 32).setWidth 16 = i := by
  apply BitVec.eq_of_getLsbD_eq
  intro k hk
  simp [BitVec.getLsbD_signExtend, hk]
  omega

/-- A time or a currency fits its two columns. -/
theorem insertValue_hilo (d : Externals) (hilo : HiloLong) :
    insertValue d .HILO (hiloData hilo) = some ⟨none, none, none, none, none,
      some (signedDecimal hilo.hi.toInt), some (decimal hilo.lo.toNat)⟩ := by
  have hplain : ∀ c ∈ stringify hilo.hi true, decide (c ≠ 44) = true := by
    intro c hc
    rw [decide_eq_true_eq]
    rintro rfl
    rcases mem_signedDecimal hc with hdigit | hminus
    · exact absurd hdigit (by decide)
    · exact absurd hminus (by decide)
  have hhi : (hiloData hilo).takeWhile (· ≠ 44) = stringify hilo.hi true := by
    rw [hiloData, List.takeWhile_append_of_pos hplain, List.takeWhile_cons_of_neg (by decide), List.append_nil]
  have hlo : ((hiloData hilo).dropWhile (· ≠ 44)).drop 1 = stringify hilo.lo false := by
    rw [hiloData, List.dropWhile_append_of_pos hplain, List.dropWhile_cons_of_neg (by decide), List.drop_one,
      List.tail_cons]
  rw [insertValue]
  simp only [hhi, hlo, signedColumn_stringify, unsignedColumn_stringify, Option.bind_eq_bind, Option.bind_some]

/-- The text of a binary value. -/
theorem escapeBinary_binary (d : Externals) (x : Base64Binary) :
    escapeBinary d x.elems (binary x).size.toNat = .ok (quote (escape d x.elems)) := by
  rw [escapeBinary, binary, SizedPtr.toNat_size, if_pos le_rfl, List.take_length]

theorem binaryData_binary (d : Externals) (x : Base64Binary) {cap : BitVec 32 → BitVec 32}
    (hcap : cap (binary x).size = (binary x).size) :
    binaryData d (some (binary x)) cap = .ok (.BINARY, quote (escape d x.elems)) := by
  show (escapeBinary d (x.elems.map id) (cap (binary x).size).toNat).map _ = _
  rw [List.map_id, hcap, escapeBinary_binary]
  rfl

variable {v : PropVal}

/-- What a value is written as goes into its column, and is read back from there. -/
theorem single_spec {d : Externals} (hd : d.Documented) {p : PropType} (hv : PROP_TYPE v.ulPropTag = p.code)
    (hs : SingleValue p v.Value) :
    ∃ col s vals, copySOAPPropValToDatabasePropVal d v false = .ok (col, s) ∧ insertValue d col s = some vals ∧
      ∀ row : DbRow, row.values = vals → readValue d p row = .ok v.Value := by
  obtain ⟨tag, Value⟩ := v
  have hp : PropType.ofCode (PROP_TYPE tag) = some p := by
    rw [← PropType.ofCode_code p]
    exact congrArg _ hv
  have hlit := literal_escape hd
  -- one column for each type; a number is printed and scanned again
  cases hs with
  | PT_I2 i =>
    refine ⟨_, _, _, by rw [copySOAPPropValToDatabasePropVal, hp], by rw [insertValue, unsignedColumn_stringify]; rfl, ?_⟩
    intro row hrow
    rw [readValue, hrow]
    show Except.ok (PropValUnion.i ((atoi (decimal (i.signExtend 32).toNat)).setWidth 16)) = _
    rw [atoi_decimal, setWidth_signExtend]
  | PT_LONG ul =>
    refine ⟨_, _, _, by rw [copySOAPPropValToDatabasePropVal, hp], by rw [insertValue, unsignedColumn_stringify]; rfl, ?_⟩
    intro row hrow
    rw [readValue, hrow]
    show Except.ok (PropValUnion.ul (atoui (decimal ul.toNat))) = _
    rw [atoui_decimal]
  | PT_BOOLEAN b =>
    refine ⟨_, _, _, by rw [copySOAPPropValToDatabasePropVal, hp], by rw [insertValue, unsignedColumn_stringify]; rfl, ?_⟩
    intro row hrow
    rw [readValue, hrow]
    show Except.ok (PropValUnion.b (atoi (decimal (if b then 1#32 else 0#32).toNat) ≠ 0)) = _
    rw [atoi_decimal]
    cases b <;> rfl
  | PT_CURRENCY hilo | PT_SYSTIME hilo =>
    refine ⟨_, _, _, by rw [copySOAPPropValToDatabasePropVal, hp], insertValue_hilo d hilo, ?_⟩
    intro row hrow
    rw [readValue, hrow]
    show Except.ok (PropValUnion.hilo (some ⟨atoi (signedDecimal hilo.hi.toInt), atoui (decimal hilo.lo.toNat)⟩)) = _
    rw [atoi_signedDecimal, atoui_decimal]
  | PT_I8 li =>
    refine ⟨_, _, _, by rw [copySOAPPropValToDatabasePropVal, hp], by rw [insertValue, longintColumn_stringify]; rfl, ?_⟩
    intro row hrow
    rw [readValue, hrow]
    show Except.ok (PropValUnion.li (atoll (signedDecimal li.toInt))) = _
    rw [atoll_signedDecimal]
  | PT_STRING8 s | PT_UNICODE s =>
    refine ⟨.STRING, quote (escape d s.utf8), _, ?_, by rw [insertValue, hlit]; rfl, ?_⟩
    · rw [copySOAPPropValToDatabasePropVal, hp]
      show (stringData d (cstr s.utf8)).map _ = _
      rw [stringData_utf8]
      rfl
    · intro row hrow
      rw [readValue, hrow]
      show Except.ok (PropValUnion.lpszA (some (cstr s.utf8))) = _
      rw [cstr_utf8]
  | PT_BINARY x | PT_CLSID x =>
    refine ⟨.BINARY, quote (escape d x.elems), _, ?_, by rw [insertValue, hlit]; rfl, ?_⟩
    · rw [copySOAPPropValToDatabasePropVal, hp]
      exact binaryData_binary d x (by simp)
    · intro row hrow
      rw [readValue, hrow]
      show Except.ok (PropValUnion.bin (some (binaryOf x.elems))) = _
      rw [binaryOf, binary, SizedPtr.ofCounted, List.map_id]


variable {row : DbRow}

/-- What is selected for the row of a single value. -/
theorem selectProperty_spec {ulPropTag : BitVec 32} {vals : DbValues} (h : selectProperty ulPropTag vals = some row) :
    row.tag = decimal (PROP_ID ulPropTag).toNat ∧ row.type = decimal (PROP_TYPE ulPropTag).toNat ∧ row.values = vals := by
  have hcolumn {s t : Option (List UInt8)} (hs : resultColumn s = some t) : t = s := by
    rw [resultColumn] at hs
    split_ifs at hs
    exact (Option.some.inj hs).symm
  rw [selectProperty] at h
  obtain ⟨val_string, hstring, h⟩ := Option.bind_eq_some_iff.mp h
  obtain ⟨val_binary, hbinary, h⟩ := Option.bind_eq_some_iff.mp h
  rw [← Option.some.inj h, hcolumn hstring, hcolumn hbinary]
  exact ⟨rfl, rfl, rfl⟩

/-! ## Elements of multi-values -/

/-- An element as `group_concat` has it. -/
def mvItem (s : List UInt8) : List UInt8 := decimal s.length ++ 58 :: s

theorem isItem_mvItem (s : List UInt8) : IsItem (mvItem s) s :=
  ⟨decimal s.length, rfl, decimal_ne_nil _, isDigit_decimal, digitsValue_decimal _⟩

theorem areItems_flatMap (items : List (List UInt8)) : AreItems (items.flatMap mvItem) items := by
  induction items with
  | nil => exact .nil
  | cons s items ih =>
    rw [List.flatMap_cons]
    exact .cons (isItem_mvItem s) ih

/-- **Elements are found again** in the column that `group_concat` makes of them. -/
theorem mvStrings_groupConcat {items : List (List UInt8)} {vals : List (Option (List UInt8))} {s : Option (List UInt8)}
    {size : BitVec 32} (hvals : vals = items.map some) (hne : items ≠ []) (hs : resultColumn (groupConcat vals) = some s)
    (hsize : size.toInt.toNat = items.length) : ∃ text, s = some text ∧ mvStrings text size = items := by
  have hconcat : groupConcat vals = some (items.flatMap mvItem) := by
    have hitems : (items.map some).filterMap id = items := by
      rw [List.filterMap_map]
      exact List.filterMap_some
    rw [groupConcat, hvals, hitems, if_neg hne]
    rfl
  rw [hconcat, resultColumn, Option.getD_some] at hs
  split_ifs at hs with hlen
  have hpos := List.length_pos_of_ne_nil hne
  have hbegins : BeginsWith (items.flatMap mvItem) items :=
    ⟨_, [], (List.append_nil _).symm, areItems_flatMap items⟩
  exact ⟨_, (Option.some.inj hs).symm, (mvStrings_beginsWith hbegins (by omega) hlen).1⟩

/-! ## Multi-values -/

theorem mapM_eq_pure {m : Type → Type} [Monad m] [LawfulMonad m] {α β : Type} {f : α → m β} {g : α → β} {l : List α}
    (h : ∀ a ∈ l, f a = pure (g a)) : l.mapM f = pure (l.map g) := by
  induction l with
  | nil => rfl
  | cons a l ih =>
    rw [List.mapM_cons, h a List.mem_cons_self, ih fun x hx => h x (List.mem_cons_of_mem _ hx), pure_bind, pure_bind,
      List.map_cons]

/-- The elements are written one after the other. -/
theorem mapM_itemData {α β : Type} (x : Counted 31 α) (f : α → β) (col : ValueColumn)
    {text : β → Except PropError (List UInt8)} {data : α → List UInt8} (htext : ∀ a ∈ x.elems, text (f a) = .ok (data a)) :
    (List.range (SizedPtr.ofCounted f x).size.toNat).mapM (fun j => itemData (.ofCounted f x) j col text) =
      .ok (x.elems.map fun a => (col, data a)) := by
  have hitem : ∀ j ∈ List.range (SizedPtr.ofCounted f x).size.toNat,
      itemData (.ofCounted f x) j col text = pure ((x.elems.map fun a => (col, data a))[j]?.getD (col, [])) := by
    intro j hj
    rw [List.mem_range, SizedPtr.toNat_size] at hj
    have hget : (x.elems.map f)[j]? = some (f x.elems[j]) := by
      rw [List.getElem?_map, List.getElem?_eq_getElem hj]
      rfl
    rw [itemData, SizedPtr.ofCounted]
    simp only [hget, htext _ (List.getElem_mem hj), List.getElem?_map, List.getElem?_eq_getElem hj]
    rfl
  rw [mapM_eq_pure hitem]
  refine congrArg Except.ok (List.ext_getElem ?_ ?_)
  · rw [List.length_map, List.length_range, SizedPtr.toNat_size, List.length_map]
  · intro j h1 h2
    rw [List.getElem_map, List.getElem_range, List.getElem?_eq_getElem h2, Option.getD_some]

/-- The texts of the elements go into one column, and what is read from there are their items. -/
theorem mvStrings_selected {α β : Type} (x : Counted 31 α) (hx : x.elems ≠ []) (f : α → β) {vals : α → DbValues}
    {val : DbValues → Option (List UInt8)} {item : α → List UInt8} (hval : ∀ a, val (vals a) = some (item a))
    {s : Option (List UInt8)} (hs : resultColumn (groupConcat ((x.elems.map vals).map val)) = some s) :
    ∃ text, s = some text ∧ mvStrings text (SizedPtr.ofCounted f x).size = x.elems.map item := by
  apply mvStrings_groupConcat ?_ ?_ hs ?_
  · rw [List.map_map, List.map_map]
    exact List.map_congr_left fun a _ => hval a
  · exact fun h => hx (List.map_eq_nil_iff.mp h)
  · rw [SizedPtr.toInt_size, List.length_map]

/-- The columns of the row that is selected for the rows of a multi-value. -/
structure MVSelected (ulPropTag : BitVec 32) (rows : List DbValues) (row : DbRow) : Prop where
  id : row.id = decimal rows.length
  tag : row.tag = decimal (PROP_ID ulPropTag).toNat
  type : row.type = decimal (PROP_TYPE ulPropTag).toNat
  val_ulong : resultColumn (groupConcat (rows.map DbValues.val_ulong)) = some row.values.val_ulong
  val_string : resultColumn (groupConcat (rows.map DbValues.val_string)) = some row.values.val_string
  val_binary : resultColumn (groupConcat (rows.map DbValues.val_binary)) = some row.values.val_binary
  val_longint : resultColumn (groupConcat (rows.map DbValues.val_longint)) = some row.values.val_longint
  val_hi : resultColumn (groupConcat (rows.map DbValues.val_hi)) = some row.values.val_hi
  val_lo : resultColumn (groupConcat (rows.map DbValues.val_lo)) = some row.values.val_lo

theorem selectMVProperty_spec {ulPropTag : BitVec 32} {rows : List DbValues}
    (h : selectMVProperty ulPropTag rows = some row) : MVSelected ulPropTag rows row := by
  rw [selectMVProperty] at h
  obtain ⟨val_ulong, hulong, h⟩ := Option.bind_eq_some_iff.mp h
  obtain ⟨val_string, hstring, h⟩ := Option.bind_eq_some_iff.mp h
  obtain ⟨val_binary, hbinary, h⟩ := Option.bind_eq_some_iff.mp h
  obtain ⟨val_double, -, h⟩ := Option.bind_eq_some_iff.mp h
  obtain ⟨val_longint, hlongint, h⟩ := Option.bind_eq_some_iff.mp h
  obtain ⟨val_hi, hhi, h⟩ := Option.bind_eq_some_iff.mp h
  obtain ⟨val_lo, hlo, h⟩ := Option.bind_eq_some_iff.mp h
  rw [← Option.some.inj h]
  exact ⟨rfl, rfl, rfl, hulong, hstring, hbinary, hlongint, hhi, hlo⟩

/-- A value is written as texts that become rows, and read from the row that is selected for them. -/
def MVStored (d : Externals) (v : PropVal) (p : PropType) (Value : PropValUnion) : Prop :=
  ∃ texts rows, (List.range (getMVItemCount v).toNat).mapM (copySOAPPropValToDatabaseMVPropVal d v) = .ok texts ∧
    texts.mapM (fun text => insertValue d text.1 text.2) = some rows ∧
    ∀ row, MVSelected v.ulPropTag rows row → readValue d p row = .ok Value

/-- How an element `a` is written into the column `val` of a row when the value has `f a` for it, and read from there. -/
structure ItemCodec (d : Externals) {α β : Type} (f : α → β) where
  col : ValueColumn
  val : DbValues → Option (List UInt8)
  text : β → Except PropError (List UInt8)
  read : List UInt8 → β
  data : α → List UInt8
  row : α → DbValues
  item : α → List UInt8
  text_eq : ∀ a, text (f a) = .ok (data a)
  insert_eq : ∀ a, insertValue d col (data a) = some (row a)
  val_row : ∀ a, val (row a) = some (item a)
  read_item : ∀ a, read (item a) = f a
  selected : ∀ {ulPropTag rows r}, MVSelected ulPropTag rows r →
    resultColumn (groupConcat (rows.map val)) = some (val r.values)

section Multi

variable {d : Externals} {α β : Type} {f : α → β}

/-- The count that is selected is the size again. -/
theorem atoi_count (x : Counted 31 α) (f : α → β) (rows : α → DbValues) :
    atoi (decimal (x.elems.map rows).length) = (SizedPtr.ofCounted f x).size := by
  rw [List.length_map, ← SizedPtr.toNat_size f x, atoi_decimal]

/-- The rows of a multi-value. -/
theorem mapM_insertValue {l : List α} {col : ValueColumn} {data : α → List UInt8} {row : α → DbValues}
    (hinsert : ∀ a, insertValue d col (data a) = some (row a)) :
    (l.map fun a => (col, data a)).mapM (fun text => insertValue d text.1 text.2) = some (l.map row) := by
  rw [List.mapM_map]
  exact mapM_eq_pure fun a _ => hinsert a

/-- A multi-value with elements of one column is stored and read back. -/
theorem ItemCodec.stored (c : ItemCodec d f) {x : Counted 31 α} (hx : x.elems ≠ []) {p : PropType}
    {mk : SizedPtr β → PropValUnion} (hcount : getMVItemCount v = (SizedPtr.ofCounted f x).size)
    (hitem : copySOAPPropValToDatabaseMVPropVal d v = fun j => itemData (.ofCounted f x) j c.col c.text)
    (hread : ∀ r text, c.val r.values = some text →
      readValue d p r = .ok (mk ⟨some ((mvStrings text (atoi r.id)).map c.read), atoi r.id⟩)) :
    MVStored d v p (mk (.ofCounted f x)) := by
  refine ⟨x.elems.map fun a => (c.col, c.data a), x.elems.map c.row, ?_, mapM_insertValue c.insert_eq, fun r hr => ?_⟩
  · rw [hcount, hitem, mapM_itemData x f c.col fun a _ => c.text_eq a]
  · have hid : atoi r.id = (SizedPtr.ofCounted f x).size := by rw [hr.id, atoi_count x f]
    obtain ⟨text, htext, hitems⟩ := mvStrings_selected x hx f c.val_row (c.selected hr)
    rw [hread r text htext, hid, hitems, List.map_map]
    have hvalues : x.elems.map (c.read ∘ c.item) = x.elems.map f := List.map_congr_left fun a _ => c.read_item a
    rw [hvalues]
    rfl

end Multi

/-! The columns of the types. -/

def shortItems (d : Externals) : ItemCodec d (id : BitVec 16 → BitVec 16) where
  col := .ULONG
  val := DbValues.val_ulong
  text i := .ok (stringify (i.signExtend 32) false)
  read strData := (atoui strData).setWidth 16
  data i := stringify (i.signExtend 32) false
  row i := ⟨some (decimal (i.signExtend 32).toNat), none, none, none, none, none, none⟩
  item i := decimal (i.signExtend 32).toNat
  text_eq _ := rfl
  insert_eq i := by rw [insertValue, unsignedColumn_stringify]; rfl
  val_row _ := rfl
  read_item i := by rw [atoui_decimal, setWidth_signExtend]; rfl
  selected hr := hr.val_ulong

def longItems (d : Externals) : ItemCodec d (id : BitVec 32 → BitVec 32) where
  col := .ULONG
  val := DbValues.val_ulong
  text ul := .ok (stringify ul false)
  read := atoui
  data ul := stringify ul false
  row ul := ⟨some (decimal ul.toNat), none, none, none, none, none, none⟩
  item ul := decimal ul.toNat
  text_eq _ := rfl
  insert_eq ul := by rw [insertValue, unsignedColumn_stringify]; rfl
  val_row _ := rfl
  read_item ul := atoui_decimal ul
  selected hr := hr.val_ulong

def longlongItems (d : Externals) : ItemCodec d (id : BitVec 64 → BitVec 64) where
  col := .LONGINT
  val := DbValues.val_longint
  text li := .ok (stringify_int64 li)
  read := atoll
  data li := stringify_int64 li
  row li := ⟨none, none, none, none, some (signedDecimal li.toInt), none, none⟩
  item li := signedDecimal li.toInt
  text_eq _ := rfl
  insert_eq li := by rw [insertValue, longintColumn_stringify]; rfl
  val_row _ := rfl
  read_item li := atoll_signedDecimal li
  selected hr := hr.val_longint

def stringItems {d : Externals} (hd : d.Documented) : ItemCodec d (fun s : BmpText => some s.utf8) where
  col := .STRING
  val := DbValues.val_string
  text := stringItem d
  read strData := some (cstr strData)
  data s := quote (escape d s.utf8)
  row s := ⟨none, some s.utf8, none, none, none, none, none⟩
  item s := s.utf8
  text_eq s := stringData_utf8 s
  insert_eq s := by rw [insertValue, literal_escape hd]; rfl
  val_row _ := rfl
  read_item s := by rw [cstr_utf8]
  selected hr := hr.val_string

def binaryItems {d : Externals} (hd : d.Documented) : ItemCodec d binary where
  col := .BINARY
  val := DbValues.val_binary
  text := binaryItem d
  read := binaryOf
  data x := quote (escape d x.elems)
  row x := ⟨none, none, some x.elems, none, none, none, none⟩
  item x := x.elems
  text_eq x := by
    show escapeBinary d (x.elems.map id) (binary x).size.toNat = _
    rw [List.map_id, escapeBinary_binary]
  insert_eq x := by rw [insertValue, literal_escape hd]; rfl
  val_row _ := rfl
  read_item x := by rw [binaryOf, binary, SizedPtr.ofCounted, List.map_id]
  selected hr := hr.val_binary

/-- Times and currencies have two columns. -/
theorem hilo_stored (d : Externals) {x : Counted 31 HiloLong} (hx : x.elems ≠ []) {p : PropType}
    (hp : p = .PT_MV_CURRENCY ∨ p = .PT_MV_SYSTIME) (hcount : getMVItemCount v = (SizedPtr.ofCounted id x).size)
    (hitem : copySOAPPropValToDatabaseMVPropVal d v =
      fun j => itemData (.ofCounted id x) j .HILO fun hilo => .ok (hiloData hilo)) :
    MVStored d v p (.mvhilo (.ofCounted id x)) := by
  refine ⟨x.elems.map fun hilo => (.HILO, hiloData hilo), _, ?_, mapM_insertValue (insertValue_hilo d), fun r hr => ?_⟩
  · rw [hcount, hitem, mapM_itemData x id .HILO fun _ _ => rfl]
    rfl
  have hid : atoi r.id = (SizedPtr.ofCounted id x).size := by rw [hr.id, atoi_count x id]
  obtain ⟨hi, hhi, hhis⟩ := mvStrings_selected x hx id
    (fun hilo : HiloLong => (rfl : _ = some (signedDecimal hilo.hi.toInt))) hr.val_hi
  obtain ⟨lo, hlo, hlos⟩ := mvStrings_selected x hx id
    (fun hilo : HiloLong => (rfl : _ = some (decimal hilo.lo.toNat))) hr.val_lo
  have hread : readValue d p r = .ok (.mvhilo
      ⟨some (((mvStrings hi (atoi r.id)).map atoi).zipWith HiloLong.mk ((mvStrings lo (atoi r.id)).map atoui)),
        atoi r.id⟩) := by
    rcases hp with rfl | rfl
    · rw [readValue, hhi, hlo]
      rfl
    · rw [readValue, hhi, hlo]
      rfl
  have hvalues : ((x.elems.map fun hilo => signedDecimal hilo.hi.toInt).map atoi).zipWith HiloLong.mk
      ((x.elems.map fun hilo => decimal hilo.lo.toNat).map atoui) = x.elems.map id := by
    rw [List.map_map, List.map_map, List.zipWith_map_left, List.zipWith_map_right, List.zipWith_self]
    apply List.map_congr_left
    intro hilo _
    show HiloLong.mk (atoi (signedDecimal hilo.hi.toInt)) (atoui (decimal hilo.lo.toNat)) = hilo
    rw [atoi_signedDecimal, atoui_decimal]
  rw [hread, hid, hhis, hlos, hvalues]
  rfl

/-- What a multi-value is written as goes into its column, and is read back from there. -/
theorem multi_spec {d : Externals} (hd : d.Documented) {p : PropType} (hv : PROP_TYPE v.ulPropTag = p.code)
    (hs : MultiValue p v.Value) : MVStored d v p v.Value := by
  obtain ⟨tag, Value⟩ := v
  have hp : PropType.ofCode (PROP_TYPE tag) = some p := by
    rw [← PropType.ofCode_code p]
    exact congrArg _ hv
  -- each type: how many items its columns announce, what each of them holds, and how the columns are read
  cases hs with
  | PT_MV_I2 x hx =>
    apply (shortItems d).stored hx
    · rw [getMVItemCount, hp]
      rfl
    · funext j
      rw [copySOAPPropValToDatabaseMVPropVal, hp]
      rfl
    · intro r text htext
      rw [readValue, show r.values.val_ulong = some text from htext]
      rfl
  | PT_MV_LONG x hx =>
    apply (longItems d).stored hx
    · rw [getMVItemCount, hp]
      rfl
    · funext j
      rw [copySOAPPropValToDatabaseMVPropVal, hp]
      rfl
    · intro r text htext
      rw [readValue, show r.values.val_ulong = some text from htext]
      rfl
  -- 64-bit values stand in two columns
  | PT_MV_CURRENCY x hx =>
    apply hilo_stored d hx (.inl rfl)
    · rw [getMVItemCount, hp]
      rfl
    · funext j
      rw [copySOAPPropValToDatabaseMVPropVal, hp]
  | PT_MV_SYSTIME x hx =>
    apply hilo_stored d hx (.inr rfl)
    · rw [getMVItemCount, hp]
      rfl
    · funext j
      rw [copySOAPPropValToDatabaseMVPropVal, hp]
  | PT_MV_I8 x hx =>
    apply (longlongItems d).stored hx
    · rw [getMVItemCount, hp]
      rfl
    · funext j
      rw [copySOAPPropValToDatabaseMVPropVal, hp]
      rfl
    · intro r text htext
      rw [readValue, show r.values.val_longint = some text from htext]
      rfl
  | PT_MV_STRING8 x hx | PT_MV_UNICODE x hx =>
    apply (stringItems hd).stored hx
    · rw [getMVItemCount, hp]
      rfl
    · funext j
      rw [copySOAPPropValToDatabaseMVPropVal, hp]
      rfl
    · intro r text htext
      rw [readValue, show r.values.val_string = some text from htext]
      rfl
  | PT_MV_BINARY x hx | PT_MV_CLSID x hx =>
    apply (binaryItems hd).stored hx
    · rw [getMVItemCount, hp]
      rfl
    · funext j
      rw [copySOAPPropValToDatabaseMVPropVal, hp]
      rfl
    · intro r text htext
      rw [readValue, show r.values.val_binary = some text from htext]
      rfl

/-! ## Stored properties -/

/-- The tag that a value is returned with. -/
def PropVal.returnedTag (v : PropVal) (p : PropType) : BitVec 32 := CHANGE_PROP_TYPE v.ulPropTag p.toUnicode

/-- The type and the id of a tag are read back. -/
theorem copyDatabasePropVal_spec {d : Externals} {p : PropType} {Value : PropValUnion}
    (hv : PROP_TYPE v.ulPropTag = p.code) (htag : row.tag = decimal (PROP_ID v.ulPropTag).toNat)
    (htype : row.type = decimal (PROP_TYPE v.ulPropTag).toNat) (hread : readValue d p row = .ok Value) :
    copyDatabasePropValToSOAPPropVal d row = .ok ⟨v.returnedTag p, Value⟩ := by
  rw [copyDatabasePropValToSOAPPropVal, htype, hv, atoi_decimal_setWidth]
  simp only [PropType.not_instance, if_false, PropType.ofCode_code, hread, htag, atoi_decimal_setWidth]
  rfl

/-- **Stored properties read back**: the texts of a well-formed value go into the tables, and the row that is selected
for them is read as the value. -/
theorem stored_reads_back {d : Externals} (hd : d.Documented) {v : PropVal} {p : PropType} (hv : v.WellFormed p) :
    ∃ texts rows, written d v = .ok texts ∧ texts.mapM (fun text => insertValue d text.1 text.2) = some rows ∧
      ∀ row, selected v.ulPropTag rows = some row →
        copyDatabasePropValToSOAPPropVal d row = .ok ⟨v.returnedTag p, v.Value⟩ := by
  obtain ⟨htag, hs | hs⟩ := hv
  · have hsingle : ¬ PROP_TYPE v.ulPropTag &&& MV_FLAG = MV_FLAG := by
      rw [htag]
      exact hs.isSingle
    obtain ⟨col, s, vals, hwritten, hinsert, hread⟩ := single_spec hd htag hs
    refine ⟨[(col, s)], [vals], ?_, ?_, fun row hrow => ?_⟩
    · rw [written, if_neg hsingle, hwritten]
      rfl
    · rw [List.mapM_cons, hinsert]
      rfl
    · rw [selected, if_neg hsingle] at hrow
      obtain ⟨htag', htype, hvalues⟩ := selectProperty_spec hrow
      exact copyDatabasePropVal_spec htag htag' htype (hread row hvalues)
  · have hmulti : PROP_TYPE v.ulPropTag &&& MV_FLAG = MV_FLAG := by
      rw [htag]
      exact hs.isMulti
    obtain ⟨texts, rows, hwritten, hinsert, hread⟩ := multi_spec hd htag hs
    refine ⟨texts, rows, ?_, hinsert, fun row hrow => ?_⟩
    · rw [written, if_pos hmulti, hwritten]
    · rw [selected, if_pos hmulti] at hrow
      have hsel := selectMVProperty_spec hrow
      exact copyDatabasePropVal_spec htag hsel.tag hsel.type (hread row hsel)

/-! ## The escapes of the database -/

/-- What the client library writes for a byte in a literal. -/
def escapeByte (c : UInt8) : List UInt8 :=
  if c = 0 then [92, 48]
  else if c = 10 then [92, 110]
  else if c = 13 then [92, 114]
  else if c = 26 then [92, 90]
  else if c = 34 ∨ c = 39 ∨ c = 92 then [92, c]
  else [c]

/-- The byte that an escape in a literal stands for. -/
def unescapeByte (c : UInt8) : UInt8 :=
  if c = 48 then 0 else if c = 110 then 10 else if c = 114 then 13 else if c = 90 then 26 else c

/-- The string of a literal, from behind its first quote on. -/
def literalBody : List UInt8 → Option (List UInt8)
  | [] => none
  | [c] => if c = 39 then some [] else none
  | c :: c' :: s =>
    if c = 92 then (literalBody s).map (unescapeByte c' :: ·)
    else if c = 39 then none
    else (literalBody (c' :: s)).map (c :: ·)

/-- A database whose literals are as documented. -/
def mysql : Externals where
  mysql_real_escape_string s := s.flatMap escapeByte
  literal
    | 39 :: s => literalBody s
    | _ => none
  doubleColumn := some
  stringify_float _ := []
  stringify_double _ := []
  strtod _ := 0
  toFloat _ := 0
  next s := (s.headD 0 |>.toNat, s.tail)

/-- A byte is escaped, or it is one that means itself. -/
theorem escapeByte_spec (c : UInt8) : (∃ c', escapeByte c = [92, c'] ∧ unescapeByte c' = c ∧ c' ≠ 0) ∨
      (escapeByte c = [c] ∧ c ≠ 92 ∧ c ≠ 39 ∧ c ≠ 0) := by
  rw [escapeByte]
  split_ifs with h0 h10 h13 h26 hself
  · exact .inl ⟨48, rfl, h0.symm, by decide⟩
  · exact .inl ⟨110, rfl, h10.symm, by decide⟩
  · exact .inl ⟨114, rfl, h13.symm, by decide⟩
  · exact .inl ⟨90, rfl, h26.symm, by decide⟩
  · refine .inl ⟨c, rfl, ?_, h0⟩
    rcases hself with rfl | rfl | rfl <;> rfl
  · exact .inr ⟨rfl, fun h => hself (.inr (.inr h)), fun h => hself (.inr (.inl h)), h0⟩

theorem literalBody_escape (s : List UInt8) : literalBody (s.flatMap escapeByte ++ [39]) = some s := by
  induction s with
  | nil => rfl
  | cons c s ih =>
    rw [List.flatMap_cons, List.append_assoc]
    rcases escapeByte_spec c with ⟨c', he, hc', -⟩ | ⟨he, hbackslash, hquote, -⟩
    · rw [he, List.cons_append, List.cons_append, List.nil_append, literalBody, if_pos rfl, ih, Option.map_some, hc']
    · obtain ⟨c', t, ht⟩ := List.exists_cons_of_ne_nil (List.append_ne_nil_of_right_ne_nil (s.flatMap escapeByte)
        (List.cons_ne_nil (39 : UInt8) []))
      rw [he, List.singleton_append, ht, literalBody, if_neg hbackslash, if_neg hquote, ← ht, ih, Option.map_some]

theorem mysql_documented : mysql.Documented where
  literal_escape s := literalBody_escape s
  escape_noNul s := by
    intro h0
    obtain ⟨c, -, hc⟩ := List.mem_flatMap.mp h0
    rcases escapeByte_spec c with ⟨c', he, -, hne⟩ | ⟨he, -, -, hne⟩
    · rw [he, List.mem_cons, List.mem_singleton] at hc
      rcases hc with hc | hc
      · exact absurd hc (by decide)
      · exact hne hc.symm
    · rw [he, List.mem_singleton] at hc
      exact hne hc.symm

/-- A multi-value with an empty element, and one that has a quote and looks like an item. -/
def itemBytes : PropVal where
  ulPropTag := 0x66201102
  Value := .mvbin (.ofCounted binary ⟨[⟨[], by decide⟩, ⟨[49, 58, 39], by decide⟩], by decide⟩)

theorem stored_reads_back_items : ∃ row, ((written mysql itemBytes).toOption.bind fun texts =>
      (texts.mapM fun text => insertValue mysql text.1 text.2).bind (selected itemBytes.ulPropTag)) = some row ∧
    copyDatabasePropValToSOAPPropVal mysql row = .ok itemBytes := by
  obtain ⟨texts, rows, hwritten, hrows, hread⟩ := stored_reads_back mysql_documented (v := itemBytes)
    (p := .PT_MV_BINARY) ⟨by decide, .inr (.PT_MV_BINARY _ (by decide))⟩
  have hselected : ((written mysql itemBytes).toOption.bind fun texts =>
      (texts.mapM fun text => insertValue mysql text.1 text.2).bind (selected itemBytes.ulPropTag)).isSome := by
    decide +kernel
  obtain ⟨row, hrow⟩ := Option.isSome_iff_exists.mp hselected
  refine ⟨row, hrow, ?_⟩
  rw [hwritten] at hrow
  change (texts.mapM fun text => insertValue mysql text.1 text.2).bind (selected itemBytes.ulPropTag) = some row at hrow
  rw [hrows] at hrow
  rw [hread row hrow]
  rfl

end Zcp.Libserver.ECDatabaseUtils
