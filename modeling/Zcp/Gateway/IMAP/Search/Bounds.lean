import Zcp.Gateway.IMAP.Search

/-!
# Reading behind the criteria

Most keys check that their arguments are there. `UID` does not, and a group without words is replaced by nothing, so
that either of them as the last criterion makes the search read behind the end of the list (`outOfRange_iff`).
`KEYWORD`, `UNKEYWORD`, `NOT` and `OR` do not check either, but read nothing: they are answered as if they were complete
(`searchesRight_iff`).
-/

namespace Zcp.Gateway

open Zcp.Common

/-! ## The words of a group -/

theorem weight_nil : weight [] = 0 := rfl

theorem weight_cons (token : Str) (lst : List Str) : weight (token :: lst) = token.length + 1 + weight lst := by
  rw [weight, weight, List.map_cons, List.sum_cons]

theorem weight_append (lst lst' : List Str) : weight (lst ++ lst') = weight lst + weight lst' := by
  rw [weight, weight, weight, List.map_append, List.sum_append]

theorem weight_singleton (token : Str) : weight [token] = token.length + 1 := by
  rw [weight_cons, weight_nil]

theorem weight_drop_le (lst : List Str) (n : ℕ) : weight (lst.drop n) ≤ weight lst := by
  conv_rhs => rw [← List.take_append_drop n lst, weight_append]
  omega

/-- The words take no more characters than there are, each of them with the delimiter behind it. -/
theorem weight_splitLoop (strInput : Str) (uSpecialCount : ℕ) {beginPos currentPos : ℕ} {vWords : List Str}
    (hpos : beginPos ≤ currentPos) (hend : currentPos ≤ strInput.length) (hwords : weight vWords ≤ beginPos) :
    weight (splitLoop strInput uSpecialCount beginPos currentPos vWords) ≤ strInput.length + 1 := by
  fun_induction splitLoop strInput uSpecialCount beginPos currentPos vWords with
  | case1 uSpecialCount beginPos currentPos vWords hnone hlast =>
    rw [weight_append, weight_singleton, List.length_drop]
    omega
  | case2 uSpecialCount beginPos currentPos vWords hnone hlast => omega
  | case3 uSpecialCount beginPos currentPos vWords findPos hfind c hquote hnone ih =>
    have hbounds := findFirstOf_bounds hfind
    exact ih (by omega) (by omega) hwords
  | case4 uSpecialCount beginPos currentPos vWords findPos hfind c hquote specialPos hclose ih =>
    have hbounds := findFirstOf_bounds hfind
    have hcloses := closingQuote_bounds hclose
    refine ih le_rfl (by omega) ?_
    rw [weight_append, weight_singleton, List.length_take, List.length_drop]
    omega
  | case5 uSpecialCount beginPos currentPos vWords findPos hfind c hquote hopen ih =>
    have hbounds := findFirstOf_bounds hfind
    exact ih (by omega) (by omega) hwords
  | case6 uSpecialCount beginPos currentPos vWords findPos hfind c hquote hopen hclose ih =>
    have hbounds := findFirstOf_bounds hfind
    exact ih (by omega) (by omega) hwords
  | case7 beginPos currentPos vWords findPos hfind c hquote hopen hclose ih =>
    have hbounds := findFirstOf_bounds hfind
    refine ih le_rfl (by omega) ?_
    split_ifs
    · rw [weight_append, weight_singleton, List.length_take, List.length_drop]
      omega
    · omega
  | case8 uSpecialCount beginPos currentPos vWords findPos hfind c hquote hopen hclose hcount ih =>
    have hbounds := findFirstOf_bounds hfind
    exact ih (by omega) (by omega) hwords

theorem weight_HrSplitInput (strInput : Str) : weight (HrSplitInput strInput) ≤ strInput.length + 1 :=
  weight_splitLoop strInput 0 le_rfl (Nat.zero_le _) le_rfl

variable {token : Str}

theorem length_stripGroup (hgroup : IsGroup token) : (stripGroup token).length < token.length := by
  match token with
  | [] => cases hgroup
  | c :: rest =>
    obtain rfl : c = 40 := Option.some.inj hgroup
    have hle := List.length_filter_le (fun c => decide ¬ (c = 40 ∨ c = 41 ∨ c = 91 ∨ c = 93)) rest
    rw [stripGroup, List.filter_cons_of_neg (by decide), List.length_cons]
    exact Nat.lt_succ_of_le hle

/-- A group makes the criteria no longer. -/
theorem weight_expandGroup (lst : List Str) : weight (expandGroup lst) ≤ weight lst := by
  match lst with
  | [] => rfl
  | token :: rest =>
    rw [expandGroup]
    split_ifs with hgroup
    · have hwords := weight_HrSplitInput (stripGroup token)
      have hlength := length_stripGroup hgroup
      rw [weight_append, weight_cons]
      omega
    · rfl

/-! ## The criteria of a key -/

/-- The criteria that a key takes, itself and its arguments. -/
def SearchKey.takes : SearchKey → ℕ
  | .HEADER => 3
  | .BEFORE | .BODY | .FROM | .KEYWORD | .LARGER | .ON | .SENTBEFORE | .SENTON | .SENTSINCE | .SINCE | .SMALLER
  | .SUBJECT | .TEXT | .TO | .CC | .BCC | .UID | .UNKEYWORD => 2
  | _ => 1

/-- The criteria that a key reads. -/
def SearchKey.reads : SearchKey → ℕ
  | .KEYWORD | .UNKEYWORD => 1
  | key => key.takes

/-- The keys that are to come behind a key as its operands. -/
def SearchKey.operands : SearchKey → ℕ
  | .NOT => 1
  | .OR => 2
  | _ => 0

/-- The nodes that an action opens. -/
def KeyAction.operands : KeyAction → ℕ
  | .fill _ => 0
  | .not => 1
  | .or => 2

theorem SearchKey.takes_pos (key : SearchKey) : 0 < key.takes := by
  cases key <;> decide

theorem SearchKey.reads_le_takes (key : SearchKey) : key.reads ≤ key.takes := by
  cases key <;> decide

variable {key : SearchKey}

section Keys

variable {calls : SearchCalls} {lstFolderMailEIDs : List SMail} {lst : List Str} {strSearchCriterium : Str}

theorem readKey_sequenceSet {lstMails : List ℕ} (hset : HrParseSeqSet lstFolderMailEIDs strSearchCriterium = .ok lstMails) :
    readKey calls lstFolderMailEIDs lst strSearchCriterium .sequenceSet =
      .ok (.fill (uidsCondition lstFolderMailEIDs lstMails), 1) := by
  rw [readKey, hset]

theorem readKey_wrongSet {hr : HRESULT} (hset : HrParseSeqSet lstFolderMailEIDs strSearchCriterium = .error hr) :
    readKey calls lstFolderMailEIDs lst strSearchCriterium .sequenceSet = .error (.hr hr) := by
  rw [readKey, hset]

/-- A key with all criteria that it reads fills its node or opens nodes below it, unless it is a wrong sequence set. -/
theorem readKey_complete (key : SearchKey) (hreads : key.reads ≤ lst.length)
    (hset : key = .sequenceSet → (HrParseSeqSet lstFolderMailEIDs strSearchCriterium).isOk) :
    ∃ action, readKey calls lstFolderMailEIDs lst strSearchCriterium key = .ok (action, key.takes) ∧
      action.operands = key.operands := by
  by_cases hkey : key = .sequenceSet
  · obtain rfl := hkey
    match hparsed : HrParseSeqSet lstFolderMailEIDs strSearchCriterium with
    | .error hr =>
      rw [hparsed] at hset
      cases hset rfl
    | .ok lstMails => exact ⟨_, readKey_sequenceSet hparsed, rfl⟩
  · match lst with
    | [] =>
      replace hreads : key.reads ≤ 0 := hreads
      cases key <;> exact absurd hreads (by decide)
    | [_] =>
      replace hreads : key.reads ≤ 1 := hreads
      cases key <;> first | exact ⟨_, rfl, rfl⟩ | exact absurd hreads (by decide) | exact absurd rfl hkey
    | [_, _] =>
      replace hreads : key.reads ≤ 2 := hreads
      cases key <;> first | exact ⟨_, rfl, rfl⟩ | exact absurd hreads (by decide) | exact absurd rfl hkey
    | _ :: _ :: _ :: _ => cases key <;> first | exact ⟨_, rfl, rfl⟩ | exact absurd rfl hkey

/-- A key without some of the criteria that it reads is answered with an error, unless it is `UID`. -/
theorem readKey_truncated (hreads : lst.length < key.reads) (hne : lst ≠ []) :
    readKey calls lstFolderMailEIDs lst strSearchCriterium key =
      .error (if key = .UID then .outOfRange else .hr .MAPI_E_CALL_FAILED) := by
  match lst with
  | [] => exact absurd rfl hne
  | [_] =>
    replace hreads : 1 < key.reads := hreads
    cases key <;> first | exact absurd hreads (by decide) | rfl
  | [_, _] =>
    replace hreads : 2 < key.reads := hreads
    cases key <;> first | exact absurd hreads (by decide) | rfl
  | _ :: _ :: _ :: _ =>
    rw [List.length_cons, List.length_cons, List.length_cons] at hreads
    have htakes : key.reads ≤ 3 := by cases key <;> decide
    omega

end Keys

/-! ## Where reading comes to -/

/-- Reading complete criteria one after the other comes to criteria with a property. Beside them this is about the number
of operands that are still to come: every key is one of them. -/
inductive Comes (lstFolderMailEIDs : List SMail) (P : ℕ → List Str → Prop) : ℕ → List Str → Prop where
  | here {n : ℕ} {lst : List Str} (hP : P n lst) : Comes lstFolderMailEIDs P n lst
  | next {n : ℕ} (lst : List Str) (token : Str) (rest : List Str) (hlst : expandGroup lst = token :: rest)
      (key : SearchKey) (hkey : searchKey (ToUpper token) = some key) (htakes : key.takes ≤ rest.length + 1)
      (hset : key = .sequenceSet → (HrParseSeqSet lstFolderMailEIDs (ToUpper token)).isOk)
      (hrest : Comes lstFolderMailEIDs P (n - 1 + key.operands) ((token :: rest).drop key.takes)) :
    Comes lstFolderMailEIDs P n lst

/-- Criteria that are read behind their end: a group without words as the last one, or `UID`. -/
def ReadsBehind (_ : ℕ) (lst : List Str) : Prop :=
  (∃ token, lst = [token] ∧ IsGroup token ∧ HrSplitInput (stripGroup token) = []) ∨
    ∃ token, expandGroup lst = [token] ∧ searchKey (ToUpper token) = some .UID

/-- Criteria that end within one: arguments of the first are not there, or there is nothing and operands are to come. -/
def CutShort (n : ℕ) (lst : List Str) : Prop :=
  (∃ token rest key, expandGroup lst = token :: rest ∧ searchKey (ToUpper token) = some key ∧
    rest.length + 1 < key.takes) ∨ lst = [] ∧ 0 < n

/-- Criteria that end within one that does not look: a keyword that is not read, or operands. -/
def Unnoticed (n : ℕ) (lst : List Str) : Prop :=
  (∃ token key, expandGroup lst = [token] ∧ searchKey (ToUpper token) = some key ∧
    (key = .KEYWORD ∨ key = .UNKEYWORD)) ∨ lst = [] ∧ 0 < n

/-- Criteria that end within one that looks. -/
def Noticed (_ : ℕ) (lst : List Str) : Prop :=
  ∃ token rest key, expandGroup lst = token :: rest ∧ searchKey (ToUpper token) = some key ∧
    rest.length + 1 < key.reads ∧ key ≠ .UID

section Search

variable {calls : SearchCalls} {lstFolderMailEIDs : List SMail} {P : ℕ → List Str → Prop} {n : ℕ}

theorem comes_nil_iff : Comes lstFolderMailEIDs P n [] ↔ P n [] := by
  constructor
  · intro h
    cases h with
    | here hP => exact hP
    | next _ token rest hlst => cases hlst
  · exact .here

variable {rest : List Str}

/-- What the first key says about where reading comes to. -/
theorem comes_iff {lst : List Str} (hlst : expandGroup lst = token :: rest)
    (hkey : searchKey (ToUpper token) = some key) : Comes lstFolderMailEIDs P n lst ↔ P n lst ∨
      key.takes ≤ rest.length + 1 ∧ (key = .sequenceSet → (HrParseSeqSet lstFolderMailEIDs (ToUpper token)).isOk) ∧
        Comes lstFolderMailEIDs P (n - 1 + key.operands) ((token :: rest).drop key.takes) := by
  constructor
  · intro h
    cases h with
    | here hP => exact .inl hP
    | next _ token' rest' hlst' key' hkey' htakes hset hrest =>
      obtain ⟨rfl, rfl⟩ := List.cons.inj (hlst'.symm.trans hlst)
      obtain rfl := Option.some.inj (hkey.symm.trans hkey')
      exact .inr ⟨htakes, hset, hrest⟩
  · rintro (hP | ⟨htakes, hset, hrest⟩)
    · exact .here hP
    · exact .next lst token rest hlst key hkey htakes hset hrest

/-- Where the first criterion is no key, reading comes no further. -/
theorem comes_of_none {lst : List Str} (hlst : expandGroup lst = token :: rest)
    (hkey : searchKey (ToUpper token) = none) : Comes lstFolderMailEIDs P n lst ↔ P n lst := by
  constructor
  · intro h
    cases h with
    | here hP => exact hP
    | next _ token' rest' hlst' key hkey' =>
      obtain ⟨rfl, -⟩ := List.cons.inj (hlst'.symm.trans hlst)
      rw [hkey] at hkey'
      cases hkey'
  · exact .here

theorem Comes.imp {Q : ℕ → List Str → Prop} (h : Comes lstFolderMailEIDs P n lst)
    (himp : ∀ n lst, P n lst → Comes lstFolderMailEIDs Q n lst) : Comes lstFolderMailEIDs Q n lst := by
  induction h with
  | here hP => exact himp _ _ hP
  | next lst token rest hlst key hkey htakes hset hrest ih => exact .next lst token rest hlst key hkey htakes hset ih

/-! ## Overruns -/

/-- Reading comes to criteria that are read behind their end. -/
def Overruns (lstFolderMailEIDs : List SMail) : ℕ → List Str → Prop := Comes lstFolderMailEIDs ReadsBehind

/-- With one token in front, only `UID` is read behind the end. -/
theorem readsBehind_iff {lst : List Str} (hlst : expandGroup lst = token :: rest) :
    ReadsBehind n lst ↔ rest = [] ∧ searchKey (ToUpper token) = some .UID := by
  constructor
  · rintro (⟨token', rfl, hgroup, hwords⟩ | ⟨token', hlst', hkey⟩)
    · rw [expandGroup, if_pos hgroup, hwords] at hlst
      cases hlst
    · obtain ⟨rfl, rfl⟩ := List.cons.inj (hlst'.symm.trans hlst)
      exact ⟨rfl, hkey⟩
  · rintro ⟨rfl, hkey⟩
    exact .inr ⟨token, hlst, hkey⟩

theorem not_overruns_nil : ¬ Overruns lstFolderMailEIDs n [] := by
  rw [Overruns, comes_nil_iff]
  rintro (⟨token, hlst, -⟩ | ⟨token, hlst, -⟩) <;> cases hlst

/-- Behind a group without words there is nothing only when it is the last criterion. -/
theorem overruns_of_expandGroup {lst : List Str} (hne : lst ≠ []) (hlst : expandGroup lst = []) :
    Overruns lstFolderMailEIDs n lst := by
  match lst with
  | [] => exact absurd rfl hne
  | token :: rest =>
    rw [expandGroup] at hlst
    split_ifs at hlst with hgroup
    obtain ⟨hwords, rfl⟩ := List.append_eq_nil_iff.mp hlst
    exact .here (.inl ⟨token, rfl, hgroup, hwords⟩)

/-- Where the first criterion is no key, nothing is read behind the end. -/
theorem not_overruns_of_none {lst : List Str} (hlst : expandGroup lst = token :: rest)
    (hkey : searchKey (ToUpper token) = none) : ¬ Overruns lstFolderMailEIDs n lst := by
  rw [Overruns, comes_of_none hlst hkey, readsBehind_iff hlst, hkey]
  rintro ⟨-, huid⟩
  cases huid

/-- What the first key says about reading behind the end. -/
theorem overruns_iff {lst : List Str} (hlst : expandGroup lst = token :: rest)
    (hkey : searchKey (ToUpper token) = some key) : Overruns lstFolderMailEIDs n lst ↔ key = .UID ∧ rest = [] ∨
      key.reads ≤ rest.length + 1 ∧ (key = .sequenceSet → (HrParseSeqSet lstFolderMailEIDs (ToUpper token)).isOk) ∧
        Overruns lstFolderMailEIDs (n - 1 + key.operands) ((token :: rest).drop key.takes) := by
  rw [Overruns, comes_iff hlst hkey, readsBehind_iff hlst, hkey, Option.some_inj, and_comm (a := rest = [])]
  refine or_congr_right ⟨fun ⟨htakes, h⟩ => ⟨key.reads_le_takes.trans htakes, h⟩, fun ⟨_, hset, hrest⟩ => ⟨?_, hset, hrest⟩⟩
  -- behind a keyword that is not there nothing is read
  by_contra hlt
  have hdrop : (token :: rest).drop key.takes = [] := List.drop_of_length_le (by rw [List.length_cons]; omega)
  rw [hdrop] at hrest
  exact not_overruns_nil hrest

variable {tree : Tree}

/-- A turn of the loop on a key. -/
theorem searchStep_key {lst : List Str}
    (hlst : expandGroup lst = token :: rest) (hkey : searchKey (ToUpper token) = some key) :
    searchStep calls lstFolderMailEIDs tree lst =
      (readKey calls lstFolderMailEIDs (token :: rest) (ToUpper token) key).map fun (action, n) =>
        (tree.next.2.apply tree.next.1 action, (token :: rest).drop n) := by
  have hcriterion : criterion (token :: rest) 0 = .ok token := rfl
  rw [searchStep, hlst]
  simp only [hcriterion, hkey, bind, Except.bind, Except.map]

/-- A turn of the loop on something that is no key. -/
theorem searchStep_none {lst : List Str}
    (hlst : expandGroup lst = token :: rest) (hkey : searchKey (ToUpper token) = none) :
    searchStep calls lstFolderMailEIDs tree lst = .error (.hr .MAPI_E_CALL_FAILED) := by
  have hcriterion : criterion (token :: rest) 0 = .ok token := rfl
  rw [searchStep, hlst]
  simp only [hcriterion, hkey, bind, Except.bind]

/-- A turn of the loop without any criterion left. -/
theorem searchStep_end {lst : List Str} (hlst : expandGroup lst = []) :
    searchStep calls lstFolderMailEIDs tree lst = .error .outOfRange := by
  rw [searchStep, hlst]
  rfl

variable {fuel : ℕ}

theorem searchLoop_error {first : Str} {more : List Str} {fault : Fault}
    (hstep : searchStep calls lstFolderMailEIDs tree (first :: more) = .error fault) :
    searchLoop calls lstFolderMailEIDs (fuel + 1) tree (first :: more) = some (.error fault) := by
  unfold searchLoop
  rw [hstep]

theorem searchLoop_ok {first : Str} {more : List Str} {tree' : Tree} {lst' : List Str}
    (hstep : searchStep calls lstFolderMailEIDs tree (first :: more) = .ok (tree', lst')) :
    searchLoop calls lstFolderMailEIDs (fuel + 1) tree (first :: more) =
      searchLoop calls lstFolderMailEIDs fuel tree' lst' := by
  conv_lhs => unfold searchLoop
  rw [hstep]

/-- A key leaves fewer criteria behind. -/
theorem weight_behind_key {lst : List Str} (hlst : expandGroup lst = token :: rest)
    (key : SearchKey) : weight ((token :: rest).drop key.takes) < weight lst := by
  have hgroup := weight_expandGroup lst
  obtain ⟨n, hn⟩ : ∃ n, key.takes = n + 1 := ⟨_, (Nat.succ_pred_eq_of_pos key.takes_pos).symm⟩
  have hdrop := weight_drop_le rest n
  rw [hlst, weight_cons] at hgroup
  rw [hn, List.drop_succ_cons]
  omega

/-- With turns for all characters the loop ends, and it reads behind the end just where the criteria overrun. -/
theorem searchLoop_ends (fuel n : ℕ) (tree : Tree) (lst : List Str) (hfuel : weight lst ≤ fuel) :
    (∃ result, searchLoop calls lstFolderMailEIDs fuel tree lst = some result) ∧
      (searchLoop calls lstFolderMailEIDs fuel tree lst = some (.error .outOfRange) ↔
        Overruns lstFolderMailEIDs n lst) := by
  -- the fuel is for the weight of what is left: a key takes at least its own token away, and an opening parenthesis
  -- its character
  induction fuel generalizing n tree lst with
  | zero =>
    match lst with
    | [] =>
      rw [searchLoop]
      exact ⟨⟨_, rfl⟩, iff_of_false (by simp) not_overruns_nil⟩
    | token :: rest =>
      rw [weight_cons] at hfuel
      omega
  | succ fuel ih =>
    match lst with
    | [] =>
      rw [searchLoop]
      exact ⟨⟨_, rfl⟩, iff_of_false (by simp) not_overruns_nil⟩
    | first :: more =>
      match hlst : expandGroup (first :: more) with
      | [] =>
        rw [searchLoop_error (searchStep_end hlst)]
        exact ⟨⟨_, rfl⟩, iff_of_true rfl (overruns_of_expandGroup (List.cons_ne_nil first more) hlst)⟩
      | token :: rest =>
        match hkey : searchKey (ToUpper token) with
        | none =>
          rw [searchLoop_error (searchStep_none hlst hkey)]
          exact ⟨⟨_, rfl⟩, iff_of_false (by simp) (not_overruns_of_none hlst hkey)⟩
        | some key =>
          have hstep : searchStep calls lstFolderMailEIDs tree (first :: more) =
              (readKey calls lstFolderMailEIDs (token :: rest) (ToUpper token) key).map _ := searchStep_key hlst hkey
          rw [overruns_iff hlst hkey]
          -- the key reads as many criteria as it needs, whether they are there or not
          by_cases hreads : key.reads ≤ rest.length + 1
          · have hlast : ¬ (key = .UID ∧ rest = []) := by
              rintro ⟨rfl, rfl⟩
              exact absurd hreads (by decide)
            rw [or_iff_right hlast, and_iff_right hreads]
            -- a sequence set that cannot be parsed ends the loop before it reads on
            by_cases hset : key = .sequenceSet → (HrParseSeqSet lstFolderMailEIDs (ToUpper token)).isOk
            · have hread : ∃ action, readKey calls lstFolderMailEIDs (token :: rest) (ToUpper token) key =
                .ok (action, key.takes) ∧ _ := readKey_complete key hreads hset
              obtain ⟨action, hread, -⟩ := hread
              rw [hread] at hstep
              rw [searchLoop_ok hstep, and_iff_right hset]
              have hbehind := weight_behind_key hlst key
              exact ih _ _ _ (by omega)
            · rw [iff_false_right fun h => hset h.1]
              obtain ⟨rfl, hwrong⟩ := Classical.not_imp.mp hset
              match hparsed : HrParseSeqSet lstFolderMailEIDs (ToUpper token) with
              | .ok lstMails =>
                rw [hparsed] at hwrong
                exact absurd rfl hwrong
              | .error hr =>
                rw [readKey_wrongSet hparsed] at hstep
                rw [searchLoop_error hstep]
                exact ⟨⟨_, rfl⟩, by simp⟩
          · have hread : readKey calls lstFolderMailEIDs (token :: rest) (ToUpper token) key = _ :=
              readKey_truncated (Nat.lt_of_not_le hreads) (List.cons_ne_nil token rest)
            rw [hread] at hstep
            rw [searchLoop_error hstep, or_iff_left fun h => hreads h.1]
            refine ⟨⟨_, rfl⟩, ?_⟩
            -- `UID` looks at the criterion behind its set, and finds the end of the list
            by_cases huid : key = .UID
            · have hrest : rest = [] := by
                have htwo : SearchKey.UID.reads = 2 := rfl
                rw [huid, htwo] at hreads
                exact List.length_eq_zero_iff.mp (by omega)
              rw [if_pos huid]
              exact iff_of_true rfl ⟨huid, hrest⟩
            · rw [if_neg huid]
              exact iff_of_false (by simp) fun h => huid h.1

theorem buildRestriction_outOfRange_iff (lst : List Str) :
    buildRestriction calls lstFolderMailEIDs lst = some (.error .outOfRange) ↔ Overruns lstFolderMailEIDs 0 lst := by
  rw [← (searchLoop_ends (weight lst) 0 .root lst le_rfl).2, buildRestriction]
  split
  · next hloop => rw [hloop]; simp
  · next fault hloop => rw [hloop]; simp
  · next tree behind hloop =>
    rw [hloop]
    split <;> simp

theorem generalSearch_outOfRange_iff (folder : SelectedFolder) (lst : List Str) :
    generalSearch calls folder lst = some (.error .outOfRange) ↔
      folder.contentsTable.isOk ∧ Overruns folder.lstFolderMailEIDs 0 lst := by
  have hbuild : buildRestriction calls folder.lstFolderMailEIDs lst = some (.error .outOfRange) ↔ _ :=
    buildRestriction_outOfRange_iff lst
  rw [generalSearch, ← hbuild]
  split
  · next hr htable =>
    rw [htable]
    exact iff_of_false (by simp) fun h => by cases h.1
  · next queryAllRows htable =>
    have hopen : (Except.ok queryAllRows : Except HRESULT _).isOk = true := rfl
    rw [htable, and_iff_right hopen]
    split
    · next hrestriction => rw [hrestriction]; simp
    · next fault hrestriction => rw [hrestriction]; simp
    · next sAndRestriction hrestriction =>
      rw [hrestriction]
      split <;> simp

/-- What is answered from the list of messages is no read behind the end. -/
theorem shortcut_ne_outOfRange (lst : List Str) : shortcut lstFolderMailEIDs lst ≠ some (.error .outOfRange) := by
  unfold shortcut
  split
  · split_ifs <;> simp
  · split <;> try simp
    split <;> simp
  · simp

/-- Where a search that has criteria and messages goes when it is no shortcut. -/
theorem HrSearch_general {folder : SelectedFolder} (hfolder : folder.lstFolderMailEIDs ≠ [])
    {lstSearchCriteria : List Str} {ulStartCriteria : ℕ} (hstart : ulStartCriteria < lstSearchCriteria.length) :
    HrSearch calls folder lstSearchCriteria ulStartCriteria =
      (shortcut folder.lstFolderMailEIDs (lstSearchCriteria.drop ulStartCriteria)).or
        (generalSearch calls folder (lstSearchCriteria.drop ulStartCriteria)) := by
  have hfirst : criterion (lstSearchCriteria.drop ulStartCriteria) 0 = .ok lstSearchCriteria[ulStartCriteria] := by
    rw [criterion, List.getElem?_drop, Nat.add_zero, List.getElem?_eq_getElem hstart]
  rw [HrSearch, if_neg hfolder]
  simp only [hfirst]
  cases shortcut folder.lstFolderMailEIDs (lstSearchCriteria.drop ulStartCriteria) <;> rfl

/-- `HrSearch` reads behind the end of its criteria if and only if it comes to the general search of a folder and the
criteria overrun. -/
theorem outOfRange_iff {folder : SelectedFolder} (hfolder : folder.lstFolderMailEIDs ≠ [])
    {lstSearchCriteria : List Str} {ulStartCriteria : ℕ} (hstart : ulStartCriteria < lstSearchCriteria.length) :
    HrSearch calls folder lstSearchCriteria ulStartCriteria = some (.error .outOfRange) ↔ folder.contentsTable.isOk ∧
        shortcut folder.lstFolderMailEIDs (lstSearchCriteria.drop ulStartCriteria) = none ∧
        Overruns folder.lstFolderMailEIDs 0 (lstSearchCriteria.drop ulStartCriteria) := by
  have hshortcut : shortcut folder.lstFolderMailEIDs (lstSearchCriteria.drop ulStartCriteria) ≠
    some (.error .outOfRange) := shortcut_ne_outOfRange _
  rw [HrSearch_general hfolder hstart]
  match hresult : shortcut folder.lstFolderMailEIDs (lstSearchCriteria.drop ulStartCriteria) with
  | none =>
    rw [and_iff_right rfl]
    exact generalSearch_outOfRange_iff folder _
  | some result =>
    rw [hresult] at hshortcut
    exact iff_of_false hshortcut fun h => by cases h.2.1

/-! ## Truncated criteria -/

/-- Reading comes to criteria that end within one. -/
def Truncated (lstFolderMailEIDs : List SMail) (lst : List Str) : Prop := Comes lstFolderMailEIDs CutShort 0 lst

/-- Reading comes to criteria that end within one that does not look. -/
def Swallowed (lstFolderMailEIDs : List SMail) (lst : List Str) : Prop := Comes lstFolderMailEIDs Unnoticed 0 lst

theorem Tree.length_pending_next (tree : Tree) : tree.next.2.pending.length = tree.pending.length - 1 := by
  obtain ⟨heap, chainEnd, pending⟩ := tree
  cases pending <;> rfl

theorem Tree.length_pending_apply (tree : Tree) (lpRestriction : ℕ) (action : KeyAction) :
    (tree.apply lpRestriction action).pending.length = tree.pending.length + action.operands := by
  cases action <;> rfl

/-- The loop follows the reading of complete criteria. The open nodes are the operands that are still to come. -/
theorem searchLoop_comes {lst : List Str} (h : Comes lstFolderMailEIDs P n lst)
    (hn : tree.pending.length = n) (hfuel : weight lst ≤ fuel) :
    ∃ fuel' tree' lst', searchLoop calls lstFolderMailEIDs fuel tree lst =
      searchLoop calls lstFolderMailEIDs fuel' tree' lst' ∧ weight lst' ≤ fuel' ∧ P tree'.pending.length lst' := by
  induction h generalizing fuel tree with
  | here hP => exact ⟨fuel, tree, _, rfl, hfuel, hn ▸ hP⟩
  | next lst token rest hlst key hkey htakes hset hrest ih =>
    match lst with
    | [] => cases hlst
    | first :: more =>
      obtain ⟨fuel, rfl⟩ : ∃ k, fuel = k + 1 := by
        rw [weight_cons] at hfuel
        exact ⟨fuel - 1, by omega⟩
      have hread : ∃ action, readKey calls lstFolderMailEIDs (token :: rest) (ToUpper token) key =
          .ok (action, key.takes) ∧ action.operands = key.operands :=
        readKey_complete key (key.reads_le_takes.trans htakes) hset
      obtain ⟨action, hread, hoperands⟩ := hread
      have hstep : searchStep calls lstFolderMailEIDs tree (first :: more) = _ := searchStep_key hlst hkey
      rw [hread] at hstep
      have hbehind := weight_behind_key hlst key
      rw [searchLoop_ok hstep]
      refine ih ?_ (by omega)
      rw [Tree.length_pending_apply, Tree.length_pending_next, hn, hoperands]

/-- A criterion that ends unnoticed lets the loop come to its end. -/
theorem searchLoop_unnoticed {lst : List Str} (h : Unnoticed tree.pending.length lst)
    (hfuel : weight lst ≤ fuel) : ∃ tree', searchLoop calls lstFolderMailEIDs fuel tree lst = some (.ok (tree', [])) := by
  rcases h with ⟨token, key, hlst, hkey, hkeyword⟩ | ⟨rfl, -⟩
  · match lst with
    | [] => cases hlst
    | first :: more =>
      obtain ⟨fuel, rfl⟩ : ∃ k, fuel = k + 1 := by
        rw [weight_cons] at hfuel
        exact ⟨fuel - 1, by omega⟩
      have hstep : searchStep calls lstFolderMailEIDs tree (first :: more) = _ := searchStep_key hlst hkey
      obtain rfl | rfl := hkeyword
      all_goals
        rw [searchLoop_ok hstep]
        unfold searchLoop
        exact ⟨_, rfl⟩
  · unfold searchLoop
    exact ⟨tree, rfl⟩

/-- A criterion that ends noticed is an error. -/
theorem searchLoop_noticed {lst : List Str} (h : Noticed n lst) (hfuel : weight lst ≤ fuel) :
    searchLoop calls lstFolderMailEIDs fuel tree lst = some (.error (.hr .MAPI_E_CALL_FAILED)) := by
  obtain ⟨token, rest, key, hlst, hkey, hreads, huid⟩ := h
  match lst with
  | [] => cases hlst
  | first :: more =>
    obtain ⟨fuel, rfl⟩ : ∃ k, fuel = k + 1 := by
      rw [weight_cons] at hfuel
      exact ⟨fuel - 1, by omega⟩
    have hstep : searchStep calls lstFolderMailEIDs tree (first :: more) = _ := searchStep_key hlst hkey
    have hread : readKey calls lstFolderMailEIDs (token :: rest) (ToUpper token) key = _ :=
      readKey_truncated hreads (List.cons_ne_nil token rest)
    rw [hread, if_neg huid] at hstep
    exact searchLoop_error hstep

theorem unnoticed_cutShort {lst : List Str} (h : Unnoticed n lst) : CutShort n lst := by
  rcases h with ⟨token, key, hlst, hkey, hkeyword⟩ | hend
  · refine .inl ⟨token, [], key, hlst, hkey, ?_⟩
    obtain rfl | rfl := hkeyword <;> decide
  · exact .inr hend

/-- Where criteria end within one, this is read behind the end, it is not noticed, or it is. -/
theorem CutShort.cases {lst : List Str} (h : CutShort n lst) : ReadsBehind n lst ∨ Unnoticed n lst ∨ Noticed n lst := by
  rcases h with ⟨token, rest, key, hlst, hkey, htakes⟩ | hend
  · by_cases hreads : rest.length + 1 < key.reads
    · by_cases huid : key = .UID
      · obtain rfl := huid
        have hrest : rest = [] := List.length_eq_zero_iff.mp (Nat.lt_one_iff.mp (Nat.lt_of_succ_lt_succ htakes))
        exact .inl ((readsBehind_iff hlst).mpr ⟨hrest, hkey⟩)
      · exact .inr (.inr ⟨token, rest, key, hlst, hkey, hreads, huid⟩)
    · have hkeyword : key.reads < key.takes := Nat.lt_of_le_of_lt (Nat.le_of_not_lt hreads) htakes
      have htwo : key.takes = 2 ∧ (key = .KEYWORD ∨ key = .UNKEYWORD) := by
        cases key <;> first | exact absurd hkeyword (by decide) | exact ⟨rfl, .inl rfl⟩ | exact ⟨rfl, .inr rfl⟩
      have hrest : rest = [] := by
        rw [htwo.1] at htakes
        exact List.length_eq_zero_iff.mp (by omega)
      subst hrest
      exact .inr (.inl (.inl ⟨token, key, hlst, hkey, htwo.2⟩))
  · exact .inr (.inl (.inr hend))

/-- Of the places that reading may come to, it comes to one of the three. -/
theorem comes_cutShort {lst : List Str} (h : Comes lstFolderMailEIDs CutShort n lst) :
    Overruns lstFolderMailEIDs n lst ∨ Comes lstFolderMailEIDs Unnoticed n lst ∨
      Comes lstFolderMailEIDs Noticed n lst := by
  induction h with
  | here hcut =>
    rcases hcut.cases with h | h | h
    · exact .inl (.here h)
    · exact .inr (.inl (.here h))
    · exact .inr (.inr (.here h))
  | next lst token rest hlst key hkey htakes hset hrest ih =>
    rcases ih with h | h | h
    · exact .inl (.next lst token rest hlst key hkey htakes hset h)
    · exact .inr (.inl (.next lst token rest hlst key hkey htakes hset h))
    · exact .inr (.inr (.next lst token rest hlst key hkey htakes hset h))

/-- A criterion that is a key is no group. -/
theorem not_isGroup_of_searchKey (hkey : searchKey (ToUpper token) = some key) : ¬ IsGroup token := by
  intro hgroup
  match token with
  | [] => cases hgroup
  | x :: rest =>
    obtain rfl : x = 40 := Option.some.inj hgroup
    have hnames : ∀ p ∈ namedKeys, p.1.head? ≠ some 40 := by decide
    have hnone : namedKeys.lookup (ToUpper (40 :: rest)) = none := by
      refine List.lookup_eq_none_iff.mpr fun p hp => ?_
      rw [bne_iff_ne]
      rintro heq
      exact hnames p hp (by rw [← heq]; rfl)
    have hsequence : ¬ ((ToUpper (40 :: rest)).head?.any fun c => (ascii "123456789*").contains c) := by
      show ¬ (ascii "123456789*").contains 40 = true
      decide
    rw [searchKey, if_neg hsequence, hnone] at hkey
    cases hkey

/-- Criteria that are one key with all that it takes, and no operator, are not truncated. -/
theorem not_truncated_single (hkey : searchKey (ToUpper token) = some key) (htakes : key.takes = rest.length + 1)
    (hoperands : key.operands = 0) : ¬ Truncated lstFolderMailEIDs (token :: rest) := by
  have hlst : expandGroup (token :: rest) = token :: rest := if_neg (not_isGroup_of_searchKey hkey)
  have hdrop : (token :: rest).drop key.takes = [] := List.drop_of_length_le (htakes ▸ le_rfl)
  rw [Truncated, comes_iff hlst hkey, hdrop, comes_nil_iff, hoperands]
  rintro ((⟨token', rest', key', hlst', hkey', hcut⟩ | ⟨-, hlt⟩) | ⟨-, -, ⟨token', rest', key', hlst', -⟩ | ⟨-, hlt⟩⟩)
  · obtain ⟨rfl, rfl⟩ := List.cons.inj (hlst.symm.trans hlst')
    obtain rfl := Option.some.inj (hkey.symm.trans hkey')
    omega
  · exact absurd hlt (lt_irrefl 0)
  · cases hlst'
  · exact absurd hlt (lt_irrefl 0)

theorem searchKey_uid (h : ToUpper token = ascii "UID") : searchKey (ToUpper token) = some .UID := by
  rw [h]
  rfl

/-- What is answered from the list of messages is complete. -/
theorem not_truncated_of_shortcut {lst : List Str} (h : shortcut lstFolderMailEIDs lst ≠ none) :
    ¬ Truncated lstFolderMailEIDs lst := by
  unfold shortcut at h
  split at h
  · next token strSeqSet =>
    split_ifs at h with huid
    · exact not_truncated_single (searchKey_uid huid) rfl rfl
    · exact absurd rfl h
  · next token =>
    split at h
    all_goals first | exact not_truncated_single ‹_› rfl rfl | exact absurd rfl h
  · exact absurd rfl h

/-- No access of a search in these messages is behind the end of its criteria, and truncated criteria are answered with
an error, whatever the contents table answers. -/
structure SearchesRight (calls : SearchCalls) (lstFolderMailEIDs : List SMail) (lstSearchCriteria : List Str)
    (ulStartCriteria : ℕ) : Prop where
  inside : ∀ contentsTable,
    HrSearch calls ⟨lstFolderMailEIDs, contentsTable⟩ lstSearchCriteria ulStartCriteria ≠ some (.error .outOfRange)
  truncated : Truncated lstFolderMailEIDs (lstSearchCriteria.drop ulStartCriteria) → ∀ contentsTable, ∃ hr,
    HrSearch calls ⟨lstFolderMailEIDs, contentsTable⟩ lstSearchCriteria ulStartCriteria = some (.error (.hr hr))

/-- A contents table without rows. -/
def noRows : Except HRESULT (SRestriction → Except HRESULT (List ULONG)) := .ok fun _ => .ok []

/-- Criteria that end unnoticed are answered by what the contents table answers. -/
theorem generalSearch_swallowed {lst : List Str} (h : Swallowed lstFolderMailEIDs lst) (fault : Fault) :
    generalSearch calls ⟨lstFolderMailEIDs, noRows⟩ lst ≠ some (.error fault) := by
  have hloop : ∃ fuel' tree' lst', searchLoop calls lstFolderMailEIDs (weight lst) .root lst =
      searchLoop calls lstFolderMailEIDs fuel' tree' lst' ∧ weight lst' ≤ fuel' ∧ Unnoticed tree'.pending.length lst' :=
    searchLoop_comes h rfl le_rfl
  obtain ⟨fuel, tree, lst', hloop, hfuel, hunnoticed⟩ := hloop
  have hend : ∃ tree', searchLoop calls lstFolderMailEIDs fuel tree lst' = some (.ok (tree', [])) :=
    searchLoop_unnoticed hunnoticed hfuel
  obtain ⟨tree', hend⟩ := hend
  simp only [generalSearch, noRows, buildRestriction, hloop, hend]
  split
  · simp
  · next fault' hbuild =>
    split at hbuild <;> simp at hbuild
  · simp

/-- Criteria that end noticed are an error. -/
theorem generalSearch_noticed {lst : List Str} (h : Comes lstFolderMailEIDs Noticed 0 lst)
    (contentsTable : Except HRESULT (SRestriction → Except HRESULT (List ULONG))) :
    ∃ hr, generalSearch calls ⟨lstFolderMailEIDs, contentsTable⟩ lst = some (.error (.hr hr)) := by
  have hloop : ∃ fuel' tree' lst', searchLoop calls lstFolderMailEIDs (weight lst) .root lst =
      searchLoop calls lstFolderMailEIDs fuel' tree' lst' ∧ weight lst' ≤ fuel' ∧ Noticed tree'.pending.length lst' :=
    searchLoop_comes h rfl le_rfl
  obtain ⟨fuel, tree, lst', hloop, hfuel, hnoticed⟩ := hloop
  rw [searchLoop_noticed hnoticed hfuel] at hloop
  match contentsTable with
  | .error hr => exact ⟨hr, rfl⟩
  | .ok queryAllRows =>
    refine ⟨.MAPI_E_CALL_FAILED, ?_⟩
    simp only [generalSearch, buildRestriction, hloop]

/-- **A search is right** if and only if it is answered from the list of messages, or its criteria neither are read
behind their end nor end within one that does not look. -/
theorem searchesRight_iff (hmails : lstFolderMailEIDs ≠ []) {lstSearchCriteria : List Str} {ulStartCriteria : ℕ}
    (hstart : ulStartCriteria < lstSearchCriteria.length) :
    SearchesRight calls lstFolderMailEIDs lstSearchCriteria ulStartCriteria ↔
      shortcut lstFolderMailEIDs (lstSearchCriteria.drop ulStartCriteria) ≠ none ∨
        ¬ Overruns lstFolderMailEIDs 0 (lstSearchCriteria.drop ulStartCriteria) ∧
          ¬ Swallowed lstFolderMailEIDs (lstSearchCriteria.drop ulStartCriteria) := by
  have hsearch (contentsTable) : HrSearch calls ⟨lstFolderMailEIDs, contentsTable⟩ lstSearchCriteria ulStartCriteria = _ :=
    HrSearch_general hmails hstart
  constructor
  · rintro ⟨hinside, htruncated⟩
    refine or_iff_not_imp_left.mpr fun hnone => ⟨fun hover => ?_, fun hswallowed => ?_⟩
    · exact hinside noRows ((outOfRange_iff hmails hstart).mpr ⟨rfl, not_not.mp hnone, hover⟩)
    · obtain ⟨hr, herror⟩ := htruncated (hswallowed.imp fun _ _ h => .here (unnoticed_cutShort h)) noRows
      rw [hsearch, not_not.mp hnone, Option.none_or] at herror
      exact generalSearch_swallowed hswallowed _ herror
  · intro h
    refine ⟨fun contentsTable hover => ?_, fun htruncated contentsTable => ?_⟩
    · obtain ⟨-, hnone, hover⟩ := (outOfRange_iff hmails hstart).mp hover
      exact h.elim (fun hsome => hsome hnone) fun hnot => hnot.1 hover
    · have hnone : shortcut lstFolderMailEIDs (lstSearchCriteria.drop ulStartCriteria) = none := by
        by_contra hsome
        exact not_truncated_of_shortcut hsome htruncated
      obtain ⟨hnotOver, hnotSwallowed⟩ := h.resolve_left (not_not.mpr hnone)
      rw [hsearch, hnone, Option.none_or]
      rcases comes_cutShort htruncated with hover | hswallowed | hnoticed
      · exact absurd hover hnotOver
      · exact absurd hswallowed hnotSwallowed
      · exact generalSearch_noticed hnoticed contentsTable

end Search

/-! ## A truncated search -/

/-- Dates that are never asked for, and no conversion. -/
def plainCalls : SearchCalls where
  StringToFileTime _ := ⟨0, 0⟩
  AddDay ft := ft
  strtoul s := (atoui s).toBitVec
  convert := none

/-- A folder whose contents table shows the messages of the list, whatever it is asked. -/
def threeMailsFolder : SelectedFolder := ⟨threeMails, .ok fun _ => .ok (threeMails.map SMail.ulUid)⟩

/-- `SEEN BEFORE` is answered with an error, `SEEN UID` reads behind the end, and `OR SEEN` and `KEYWORD` are answered
as if they were complete. -/
theorem searchesRight_truncated : SearchesRight plainCalls threeMails [ascii "SEEN", ascii "BEFORE"] 0 ∧
      ¬ SearchesRight plainCalls threeMails [ascii "SEEN", ascii "UID"] 0 ∧
      ¬ SearchesRight plainCalls threeMails [ascii "OR", ascii "SEEN"] 0 ∧
      ¬ SearchesRight plainCalls threeMails [ascii "KEYWORD"] 0 := by
  have hseen : searchKey (ToUpper (ascii "SEEN")) = some .SEEN := rfl
  have hbefore : searchKey (ToUpper (ascii "BEFORE")) = some .BEFORE := rfl
  refine ⟨(searchesRight_iff (by decide) (by decide)).mpr (.inr ?_), fun h => ?_, fun h => ?_, fun h => ?_⟩
  · have hfirst : expandGroup [ascii "SEEN", ascii "BEFORE"] = [ascii "SEEN", ascii "BEFORE"] := rfl
    have hlast : expandGroup [ascii "BEFORE"] = [ascii "BEFORE"] := rfl
    rw [List.drop_zero, overruns_iff hfirst hseen, Swallowed, comes_iff hfirst hseen]
    constructor
    · rintro (⟨huid, -⟩ | ⟨-, -, hrest⟩)
      · cases huid
      · rcases (overruns_iff hlast hbefore).mp hrest with ⟨huid, -⟩ | ⟨hreads, -⟩
        · cases huid
        · exact absurd hreads (by decide)
    · rintro ((⟨_, _, hlst, -⟩ | ⟨hnil, -⟩) | ⟨-, -, hrest⟩)
      · cases (List.cons.inj (hfirst.symm.trans hlst)).2
      · cases hnil
      · rcases (comes_iff hlast hbefore).mp hrest with (⟨token, key, hlst, hkey, hkeyword⟩ | ⟨hnil, -⟩) | ⟨htakes, -⟩
        · obtain ⟨rfl, -⟩ := List.cons.inj (hlast.symm.trans hlst)
          obtain rfl := Option.some.inj (hbefore.symm.trans hkey)
          rcases hkeyword with hkeyword | hkeyword <;> cases hkeyword
        · cases hnil
        · exact absurd htakes (by decide)
  · rcases (searchesRight_iff (by decide) (by decide)).mp h with hshortcut | ⟨hover, -⟩
    · exact hshortcut rfl
    · exact hover (.next _ (ascii "SEEN") [ascii "UID"] rfl .SEEN hseen (by decide) nofun
        (.here (.inr ⟨ascii "UID", rfl, rfl⟩)))
  · rcases (searchesRight_iff (by decide) (by decide)).mp h with hshortcut | ⟨-, hswallowed⟩
    · exact hshortcut rfl
    · exact hswallowed (.next _ (ascii "OR") [ascii "SEEN"] rfl .OR rfl (by decide) nofun
        (.next _ (ascii "SEEN") [] rfl .SEEN hseen (by decide) nofun (.here (.inr ⟨rfl, by decide⟩))))
  · rcases (searchesRight_iff (by decide) (by decide)).mp h with hshortcut | ⟨-, hswallowed⟩
    · exact hshortcut rfl
    · exact hswallowed (.here (.inl ⟨ascii "KEYWORD", .KEYWORD, rfl, rfl, .inl rfl⟩))

/-- A client that searches for `UID` alone makes `HrSearch` read behind the end of the criteria. -/
theorem not_searchesRight_uid : ¬ SearchesRight plainCalls threeMails [ascii "UID"] 0 := by
  intro h
  have hover : HrSearch plainCalls threeMailsFolder [ascii "UID"] 0 = some (.error .outOfRange) := rfl
  exact h.inside threeMailsFolder.contentsTable hover

end Zcp.Gateway
