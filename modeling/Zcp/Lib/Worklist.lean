import Mathlib.Algebra.GroupWithZero.Nat
import Mathlib.Data.Finset.Card
import Mathlib.Data.List.DropRight
import Mathlib.Logic.Relation

/-!
# Worklists

A list is read from its front and grows at its end. What is read is marked, and those of its successors that
are not marked are appended; an entry that is appended twice before it is read stays on the list twice.
`run_firsts` gives the order in which entries are first read, `run_count` how often each of them is on the
list, and `run_nodup_iff` puts the two together.
-/

namespace Zcp.Lib.Worklist

variable {α : Type*} [DecidableEq α]

/-! ## First occurrences -/

theorem removeAll_congr {as bs : List α} (h : ∀ x, x ∈ as ↔ x ∈ bs) (l : List α) :
    l.removeAll as = l.removeAll bs := by
  unfold List.removeAll
  refine List.filter_congr fun x _ => ?_
  simp only [List.elem_eq_mem, h]

theorem eraseDups_append_congr {as bs : List α} (h : as.eraseDups = bs.eraseDups) (l : List α) :
    (as ++ l).eraseDups = (bs ++ l).eraseDups := by
  have hmem : ∀ x, x ∈ as ↔ x ∈ bs := fun x => by rw [← List.mem_eraseDups, h, List.mem_eraseDups]
  rw [List.eraseDups_append, List.eraseDups_append, h, removeAll_congr hmem]

/-- Entries that are there already may be left out behind. -/
theorem eraseDups_append_filter {as bs : List α} (h : bs ⊆ as) (l : List α) :
    (as ++ l.filter (· ∉ bs)).eraseDups = (as ++ l).eraseDups := by
  have hsame : (l.filter (· ∉ bs)).removeAll as = l.removeAll as := by
    unfold List.removeAll
    rw [List.filter_filter]
    refine List.filter_congr fun x _ => ?_
    by_cases hx : x ∈ as
    · simp [hx]
    · have hb : x ∉ bs := fun hb => hx (h hb)
      simp [hx, hb]
  rw [List.eraseDups_append, List.eraseDups_append, hsame]

theorem eraseDups_append_of_subset {as l : List α} (h : l ⊆ as) : (as ++ l).eraseDups = as.eraseDups := by
  have hnil : l.removeAll as = [] := by
    unfold List.removeAll
    rw [List.filter_eq_nil_iff]
    intro x hx
    simp [h hx]
  rw [List.eraseDups_append, hnil, List.eraseDups_nil, List.append_nil]

/-- What has an entry's successors already gets nothing from the entry. -/
theorem eraseDups_flatMap_filter (next : α → List α) {b : α} {as : List α} (h : next b ⊆ as)
    (l : List α) : (as ++ (l.filter fun x => !x == b).flatMap next).eraseDups = (as ++ l.flatMap next).eraseDups := by
  induction l generalizing as with
  | nil => rfl
  | cons x l ih =>
    by_cases hx : x = b
    · subst hx
      have hmore := eraseDups_append_congr (eraseDups_append_of_subset h) (l.flatMap next)
      rw [List.filter_cons_of_neg (by simp), ih h, List.flatMap_cons, ← List.append_assoc, hmore]
    · rw [List.filter_cons_of_pos (by simpa using hx), List.flatMap_cons, List.flatMap_cons,
        ← List.append_assoc, ← List.append_assoc]
      exact ih fun y hy => List.mem_append_left _ (h hy)

/-- Successors of repeated entries add nothing. -/
theorem eraseDups_flatMap (next : α → List α) (as l : List α) :
    (as ++ l.eraseDups.flatMap next).eraseDups = (as ++ l.flatMap next).eraseDups := by
  -- on the length: the rest of `eraseDups` is about a shorter list, not about the tail
  induction hn : l.length using Nat.strong_induction_on generalizing as l with
  | _ n ih =>
    cases l with
    | nil => rfl
    | cons b l =>
      have hlen : (l.filter fun x => !x == b).length < n := by
        rw [← hn, List.length_cons]
        exact Nat.lt_succ_of_le (List.length_filter_le _ l)
      rw [List.eraseDups_cons, List.flatMap_cons, List.flatMap_cons, ← List.append_assoc,
        ← List.append_assoc, ih _ hlen _ _ rfl]
      exact eraseDups_flatMap_filter next (List.subset_append_right _ _) l

theorem eraseDups_append_prefix (as bs : List α) : as.eraseDups <+: (as ++ bs).eraseDups := by
  rw [List.eraseDups_append]
  exact List.prefix_append _ _

/-- `x` is in the list ahead of `g`. -/
def Ahead (l : List α) (x g : α) : Prop := x ∈ l.takeWhile (· ≠ g)

theorem ahead_cons {l : List α} {a x g : α} : Ahead (a :: l) x g ↔ a ≠ g ∧ (x = a ∨ Ahead l x g) := by
  unfold Ahead
  by_cases h : a = g
  · simp [h]
  · rw [List.takeWhile_cons_of_pos (by simpa using h), List.mem_cons]
    exact ⟨fun hx => ⟨h, hx⟩, fun hx => hx.2⟩

/-- Taking out the values equal to `b` takes `b` out of what is ahead of another value, and nothing else. -/
theorem ahead_filter {l : List α} {b x g : α} (hg : b ≠ g) :
    Ahead (l.filter fun y => !y == b) x g ↔ x ≠ b ∧ Ahead l x g := by
  induction l with
  | nil => simp [Ahead]
  | cons y l ih =>
    by_cases hy : y = b
    · rw [List.filter_cons_of_neg (by simpa using hy), ih, ahead_cons]
      constructor
      · rintro ⟨hne, h⟩
        exact ⟨hne, hy ▸ hg, .inr h⟩
      · rintro ⟨hne, -, rfl | h⟩
        · exact absurd hy hne
        · exact ⟨hne, h⟩
    · rw [List.filter_cons_of_pos (by simpa using hy), ahead_cons, ahead_cons, ih]
      constructor
      · rintro ⟨hyg, rfl | ⟨hne, h⟩⟩
        · exact ⟨hy, hyg, .inl rfl⟩
        · exact ⟨hne, hyg, .inr h⟩
      · rintro ⟨hne, hyg, rfl | h⟩
        · exact ⟨hyg, .inl rfl⟩
        · exact ⟨hyg, .inr ⟨hne, h⟩⟩

/-- The order of the first occurrences is all that counts. -/
theorem ahead_eraseDups {l : List α} {x g : α} : Ahead l.eraseDups x g ↔ Ahead l x g := by
  induction hn : l.length using Nat.strong_induction_on generalizing l with
  | _ n ih =>
    cases l with
    | nil => rfl
    | cons a l =>
      have hlen : (l.filter fun y => !y == a).length < n := by
        rw [← hn, List.length_cons]
        exact Nat.lt_succ_of_le (List.length_filter_le _ l)
      rw [List.eraseDups_cons, ahead_cons, ahead_cons, ih _ hlen rfl]
      refine and_congr_right fun hag => ?_
      rw [ahead_filter hag]
      constructor
      · rintro (rfl | ⟨-, h⟩)
        · exact .inl rfl
        · exact .inr h
      · rintro (rfl | h)
        · exact .inl rfl
        · by_cases hxa : x = a
          · exact .inl hxa
          · exact .inr ⟨hxa, h⟩

theorem Ahead.mem {l : List α} {x g : α} (h : Ahead l x g) : x ∈ l :=
  (List.takeWhile_prefix _).subset h

/-- What is ahead of a value of a list stays so when the list goes on. -/
theorem ahead_of_prefix {l l' : List α} (h : l <+: l') {x g : α} (hg : g ∈ l) : Ahead l' x g ↔ Ahead l x g := by
  obtain ⟨r, rfl⟩ := h
  unfold Ahead
  rw [List.takeWhile_append, if_neg]
  intro hlen
  have hall : l.takeWhile (· ≠ g) = l :=
    (List.takeWhile_prefix _).eq_of_length hlen
  rw [← hall] at hg
  simpa using List.mem_takeWhile_imp hg

/-! ## Runs -/

variable (next : α → List α)

/-- Reads a worklist to its end; `done` has been read. -/
def run : (fuel : ℕ) → (done todo : List α) → Option (List α)
  | _, done, [] => some done
  | 0, _, _ :: _ => none
  | fuel + 1, done, x :: todo =>
    run fuel (done ++ [x]) (todo ++ (next x).filter (· ∉ done ++ [x]))

/-- An entry of the start, or reached from one. -/
def Reached (start : List α) (g : α) : Prop :=
  ∃ s ∈ start, Relation.ReflTransGen (fun x y => y ∈ next x) s g

/-- The ends of the walks with up to `n` steps, shorter walks first, and those of one length in the order of
the lists. -/
def walks (start : List α) : ℕ → List α
  | 0 => start
  | n + 1 => start ++ (walks start n).flatMap next

variable {next} {start done todo r : List α} {fuel : ℕ}

/-- Every run ends when there are only finitely many entries. An entry that is read for the first time is one
less to come; any other takes one read entry off the list and appends none. -/
theorem run_ends (all : Finset α) (hnext : ∀ x ∈ all, next x ⊆ all.toList) (done todo : List α)
    (htodo : todo ⊆ all.toList) : ∃ fuel r, run next fuel done todo = some r := by
  induction hN : (all \ done.toFinset).card using Nat.strong_induction_on generalizing done todo with
  | _ N ihN =>
    induction hc : todo.countP (· ∈ done) using Nat.strong_induction_on generalizing done todo with
    | _ c ihc =>
      cases todo with
      | nil => exact ⟨0, done, rfl⟩
      | cons x todo =>
        have hx : x ∈ all := Finset.mem_toList.mp (htodo List.mem_cons_self)
        have hall : todo ++ (next x).filter (· ∉ done ++ [x]) ⊆ all.toList := by
          intro y hy
          rcases List.mem_append.mp hy with hy | hy
          · exact htodo (List.mem_cons_of_mem x hy)
          · exact hnext x hx (List.mem_filter.mp hy).1
        suffices h : ∃ fuel r, run next fuel (done ++ [x])
            (todo ++ (next x).filter (· ∉ done ++ [x])) = some r by
          obtain ⟨fuel, r, h⟩ := h
          exact ⟨fuel + 1, r, h⟩
        by_cases hdone : x ∈ done
        · have hsame : ∀ y, y ∈ done ++ [x] ↔ y ∈ done := by
            intro y
            rw [List.mem_append, List.mem_singleton]
            exact ⟨fun h => h.elim id fun e => e ▸ hdone, .inl⟩
          have hset : (done ++ [x]).toFinset = done.toFinset := by
            ext y
            rw [List.mem_toFinset, List.mem_toFinset, hsame]
          have hnew : ((next x).filter (· ∉ done ++ [x])).countP (· ∈ done ++ [x]) = 0 := by
            rw [List.countP_eq_zero]
            intro y hy
            simpa using (List.mem_filter.mp hy).2
          refine ihc _ ?_ _ _ hall (by rw [hset, hN]) rfl
          rw [List.countP_append, hnew, Nat.add_zero, ← hc, List.countP_cons_of_pos (by simpa using hdone)]
          refine Nat.lt_succ_of_le (le_of_eq (List.countP_congr fun y _ => ?_))
          simp only [decide_eq_true_eq, hsame]
        · refine ihN _ ?_ _ _ hall rfl
          rw [← hN]
          refine Finset.card_lt_card (Finset.ssubset_iff_of_subset ?_ |>.mpr ⟨x, ?_, ?_⟩)
          · intro y hy
            simp only [Finset.mem_sdiff, List.mem_toFinset, List.mem_append] at hy ⊢
            exact ⟨hy.1, fun h => hy.2 (.inl h)⟩
          · simp [hx, hdone]
          · simp

/-! ## What is read -/

/-- The loop puts nothing into its result but what is reached from where it started. -/
theorem run_reached (h : run next fuel done todo = some r)
    (hall : ∀ x ∈ done ++ todo, Reached next start x) : ∀ x ∈ r, Reached next start x := by
  induction fuel generalizing done todo with
  | zero =>
    cases todo with
    | nil =>
      cases h
      simpa using hall
    | cons x todo => cases h
  | succ fuel ih =>
    cases todo with
    | nil =>
      cases h
      simpa using hall
    | cons x todo =>
      refine ih h fun y hy => ?_
      have hsub : y ∈ done ++ x :: todo ∨ y ∈ next x := by
        simp only [List.mem_append, List.mem_cons, List.mem_filter, List.not_mem_nil] at hy ⊢
        tauto
      rcases hsub with hy | hy
      · exact hall y hy
      · obtain ⟨s, hs, hsx⟩ := hall x (by simp)
        exact ⟨s, hs, hsx.tail hy⟩

/-- The list is, up to repetitions, the start with the successors of its own entries. What the loop keeps is
the same for the entries read so far. -/
theorem run_firsts_from (h : run next fuel done todo = some r)
    (hinv : (done ++ todo).eraseDups = (start ++ done.flatMap next).eraseDups) :
    r.eraseDups = (start ++ r.flatMap next).eraseDups := by
  induction fuel generalizing done todo with
  | zero =>
    cases todo with
    | nil =>
      cases h
      simpa using hinv
    | cons x todo => cases h
  | succ fuel ih =>
    cases todo with
    | nil =>
      cases h
      simpa using hinv
    | cons x todo =>
      refine ih h ?_
      have hsub : done ++ [x] ⊆ done ++ x :: todo := by
        intro y hy
        simp only [List.mem_append, List.mem_cons, List.not_mem_nil, or_false] at hy ⊢
        tauto
      calc (done ++ [x] ++ (todo ++ (next x).filter (· ∉ done ++ [x]))).eraseDups
          = ((done ++ x :: todo) ++ (next x).filter (· ∉ done ++ [x])).eraseDups := by simp
        _ = ((done ++ x :: todo) ++ next x).eraseDups := eraseDups_append_filter hsub _
        _ = ((start ++ done.flatMap next) ++ next x).eraseDups := eraseDups_append_congr hinv _
        _ = (start ++ (done ++ [x]).flatMap next).eraseDups := by simp

theorem run_firsts (h : run next fuel [] start = some r) : r.eraseDups = (start ++ r.flatMap next).eraseDups :=
  run_firsts_from h (by simp)

/-- The result has exactly the values that are reached from the start. -/
theorem mem_run_iff (h : run next fuel [] start = some r) {g : α} : g ∈ r ↔ Reached next start g := by
  refine ⟨run_reached h (fun x hx => ⟨x, by simpa using hx, .refl⟩) g, ?_⟩
  have hmem : ∀ y, y ∈ r ↔ y ∈ start ++ r.flatMap next := fun y => by
    rw [← List.mem_eraseDups, run_firsts h, List.mem_eraseDups]
  rintro ⟨s, hs, hsg⟩
  induction hsg with
  | refl => exact (hmem s).mpr (List.mem_append_left _ hs)
  | tail _ hstep ih =>
    exact (hmem _).mpr (List.mem_append_right _ (List.mem_flatMap.mpr ⟨_, ih, hstep⟩))

/-! ## In which order -/

/-- The values that are reached in `n` steps come, in the order of the steps, at the beginning of the result. -/
theorem walks_firsts (h : run next fuel [] start = some r) (n : ℕ) :
    (walks next start n).eraseDups <+: r.eraseDups := by
  induction n with
  | zero =>
    rw [run_firsts h]
    exact eraseDups_append_prefix _ _
  | succ n ih =>
    obtain ⟨rest, hrest⟩ := ih
    rw [walks, ← eraseDups_flatMap, run_firsts h, ← eraseDups_flatMap next start r, ← hrest,
      List.flatMap_append, ← List.append_assoc]
    exact eraseDups_append_prefix _ _

omit [DecidableEq α] in
theorem mem_walks_of_reached {g : α} (h : Reached next start g) : ∃ n, g ∈ walks next start n := by
  obtain ⟨s, hs, hsg⟩ := h
  induction hsg with
  | refl => exact ⟨0, hs⟩
  | tail _ hstep ih =>
    obtain ⟨n, hn⟩ := ih
    exact ⟨n + 1, List.mem_append_right _ (List.mem_flatMap.mpr ⟨_, hn, hstep⟩)⟩

omit [DecidableEq α] in
/-- What the walks of some length meet is reached. -/
theorem reached_of_mem_walks {n : ℕ} {g : α} (h : g ∈ walks next start n) : Reached next start g := by
  induction n generalizing g with
  | zero => exact ⟨g, h, .refl⟩
  | succ n ih =>
    rcases List.mem_append.mp h with h | h
    · exact ⟨g, h, .refl⟩
    · obtain ⟨x, hx, hg⟩ := List.mem_flatMap.mp h
      obtain ⟨s, hs, hsx⟩ := ih hx
      exact ⟨s, hs, hsx.tail hg⟩

/-- `x` comes ahead of `g` when the walks are gone through, shorter ones first. -/
def ComesAhead (next : α → List α) (start : List α) (x g : α) : Prop :=
  ∃ n, g ∈ walks next start n ∧ Ahead (walks next start n) x g

/-- For a value of the result, being ahead in the order of the walks is being ahead in the result. -/
theorem comesAhead_iff (h : run next fuel [] start = some r) {x g : α} (hg : g ∈ r) :
    ComesAhead next start x g ↔ Ahead r x g := by
  have hsame : ∀ n, g ∈ walks next start n → (Ahead r x g ↔ Ahead (walks next start n) x g) := by
    intro n hn
    rw [← ahead_eraseDups, ahead_of_prefix (walks_firsts h n) (List.mem_eraseDups.mpr hn), ahead_eraseDups]
  constructor
  · rintro ⟨n, hn, hx⟩
    exact (hsame n hn).mpr hx
  · intro hx
    obtain ⟨n, hn⟩ := mem_walks_of_reached ((mem_run_iff h).mp hg)
    exact ⟨n, hn, (hsame n hn).mp hx⟩

/-! ## How often -/

/-- `g` is on the list as often as the start and the entries read ahead of it have it. -/
theorem run_count_from (g : α) (h : run next fuel done todo = some r) (hinv : (done ++ todo).count g =
      start.count g + ((done.takeWhile (· ≠ g)).map fun x => (next x).count g).sum) :
    r.count g = start.count g + ((r.takeWhile (· ≠ g)).map fun x => (next x).count g).sum := by
  induction fuel generalizing done todo with
  | zero =>
    cases todo with
    | nil =>
      cases h
      simpa using hinv
    | cons x todo => cases h
  | succ fuel ih =>
    cases todo with
    | nil =>
      cases h
      simpa using hinv
    | cons x todo =>
      refine ih h ?_
      -- the work on `x` adds the elements that are not marked yet
      have hsplit : (done ++ [x] ++ (todo ++ (next x).filter (· ∉ done ++ [x]))).count g =
          (done ++ x :: todo).count g + ((next x).filter (· ∉ done ++ [x])).count g := by
        simp only [List.count_append, List.count_cons, List.count_nil]
        omega
      rw [hsplit, hinv]
      by_cases hg : g ∈ done ++ [x]
      · -- marked: neither appended nor ahead of itself
        have hzero : ((next x).filter (· ∉ done ++ [x])).count g = 0 := by
          rw [List.count_eq_zero]
          intro hmem
          simpa [hg] using (List.mem_filter.mp hmem).2
        have hsame : (done ++ [x]).takeWhile (· ≠ g) = done.takeWhile (· ≠ g) := by
          rcases List.mem_append.mp hg with hd | hx
          · rw [List.takeWhile_append, if_neg]
            intro hlen
            rw [← (List.takeWhile_prefix _).eq_of_length hlen] at hd
            simpa using List.mem_takeWhile_imp hd
          · rw [List.mem_singleton] at hx
            rw [List.takeWhile_append]
            split_ifs with hlen
            · rw [(List.takeWhile_prefix _).eq_of_length hlen]
              simp [hx]
            · rfl
        rw [hzero, hsame, Nat.add_zero]
      · -- not marked: everything marked stands ahead of it
        have hne : ∀ y ∈ done ++ [x], y ≠ g := fun y hy e => hg (e ▸ hy)
        have hall : (done ++ [x]).takeWhile (· ≠ g) = done ++ [x] := by
          rw [List.takeWhile_eq_self_iff]
          simpa using hne
        have hall' : done.takeWhile (· ≠ g) = done := by
          rw [List.takeWhile_eq_self_iff]
          intro y hy
          simpa using hne y (List.mem_append_left _ hy)
        have hcount : ((next x).filter (· ∉ done ++ [x])).count g = (next x).count g :=
          List.count_filter (by simpa using hg)
        rw [hall, hall', hcount, List.map_append, List.sum_append, List.map_singleton,
          List.sum_singleton, Nat.add_assoc]

theorem run_count (g : α) (h : run next fuel [] start = some r) :
    r.count g = start.count g + ((r.takeWhile (· ≠ g)).map fun x => (next x).count g).sum :=
  run_count_from g h (by simp)

/-! ## Without repetitions -/

/-- The successors of an entry; without one, the start. -/
def successors (next : α → List α) (start : List α) : Option α → List α
  | none => start
  | some x => next x

/-- The start comes ahead of every entry. -/
def SourceAhead (next : α → List α) (start : List α) (s : Option α) (g : α) : Prop :=
  ∀ x ∈ s, ComesAhead next start x g

/-- Among the start and the entries ahead of it, every entry is a successor of only one. -/
def MetOnce (next : α → List α) (start : List α) : Prop :=
  ∀ g s s', SourceAhead next start s g → SourceAhead next start s' g →
    g ∈ successors next start s → g ∈ successors next start s' → s = s'

omit [DecidableEq α] in
/-- In a list without repetitions at most one value has a property exactly if any two values with it are equal. -/
theorem countP_le_one_iff {p : α → Bool} {l : List α} (hl : l.Nodup) :
    l.countP p ≤ 1 ↔ ∀ a ∈ l, ∀ b ∈ l, p a → p b → a = b := by
  classical
  rw [List.countP_eq_length_filter, ← List.toFinset_card_of_nodup (hl.filter p), Finset.card_le_one]
  simp only [List.mem_toFinset, List.mem_filter, and_imp]
  constructor
  · intro h a ha b hb hpa hpb
    exact h a ha hpa b hb hpb
  · intro h a ha hpa b hb hpb
    exact h a ha b hb hpa hpb

/-- The sources ahead of an entry, as they come in a list that has been read. -/
def sourcesAhead (r : List α) (g : α) : List (Option α) := none :: (r.takeWhile (· ≠ g)).map some

theorem mem_sourcesAhead {g : α} {s : Option α} : s ∈ sourcesAhead r g ↔ ∀ x ∈ s, Ahead r x g := by
  cases s with
  | none => simp [sourcesAhead]
  | some x => simp [sourcesAhead, Ahead]

/-- Without repetitions in the start and among successors, a value is in the result once for each source ahead of it
that has it. -/
theorem count_eq_countP_sources (hstart : start.Nodup) (hnext : ∀ x, (next x).Nodup)
    (h : run next fuel [] start = some r) (g : α) :
    r.count g = (sourcesAhead r g).countP fun s => g ∈ successors next start s := by
  have hcount : ∀ l : List α, l.Nodup → l.count g = if g ∈ l then 1 else 0 := fun l hl => hl.count
  have hsum : ∀ l : List α, (l.map fun x => (next x).count g).sum =
      l.countP fun x => g ∈ next x := by
    intro l
    induction l with
    | nil => rfl
    | cons x l ih =>
      rw [List.map_cons, List.sum_cons, ih, hcount _ (hnext x), List.countP_cons, Nat.add_comm]
      simp only [decide_eq_true_eq]
  have hsome : (fun s => decide (g ∈ successors next start s)) ∘ some = fun x => decide (g ∈ next x) := rfl
  have hnone : (if decide (g ∈ successors next start none) then 1 else 0) = if g ∈ start then 1 else 0 := by
    by_cases hg : g ∈ start <;> simp [successors, hg]
  rw [run_count g h, hsum, hcount _ hstart, sourcesAhead, List.countP_cons, List.countP_map, hsome, hnone,
    Nat.add_comm]

/-- The whole list is free of repetitions if and only if no entry is met twice before it is read. -/
theorem run_nodup_iff (hstart : start.Nodup) (hnext : ∀ x, (next x).Nodup)
    (h : run next fuel [] start = some r) : r.Nodup ↔ MetOnce next start := by
  have hsources : ∀ g, (r.takeWhile (· ≠ g)).Nodup → (sourcesAhead r g).Nodup := by
    intro g hp
    rw [sourcesAhead, List.nodup_cons]
    exact ⟨by simp, hp.map (Option.some_injective α)⟩
  -- an entry on the list, and what of it the condition is about
  have hmet : ∀ g, (r.takeWhile (· ≠ g)).Nodup → g ∈ r → (r.count g ≤ 1 ↔
      ∀ s s', SourceAhead next start s g → SourceAhead next start s' g →
        g ∈ successors next start s → g ∈ successors next start s' → s = s') := by
    intro g hp hg
    have hahead : ∀ s, s ∈ sourcesAhead r g ↔ SourceAhead next start s g := by
      intro s
      rw [mem_sourcesAhead]
      exact forall₂_congr fun x _ => (comesAhead_iff h hg).symm
    rw [count_eq_countP_sources hstart hnext h, countP_le_one_iff (hsources g hp)]
    simp only [hahead, decide_eq_true_eq]
    exact ⟨fun H s s' hs hs' => H s hs s' hs', fun H s hs s' hs' => H s s' hs hs'⟩
  constructor
  · intro hr g s s' hs hs' hgs hgs'
    have hg : g ∈ r := by
      rw [mem_run_iff h]
      cases s with
      | none => exact ⟨g, hgs, .refl⟩
      | some x =>
        obtain ⟨n, -, hx⟩ := hs x rfl
        obtain ⟨t, ht, htx⟩ := reached_of_mem_walks hx.mem
        exact ⟨t, ht, htx.tail hgs⟩
    exact (hmet g (hr.sublist (List.takeWhile_prefix _).sublist) hg).mp
      (List.nodup_iff_count_le_one.mp hr g) s s' hs hs' hgs hgs'
  · intro honce
    -- the first entry that is a repetition has two sources ahead of it
    have hprefix : ∀ p, p <+: r → p.Nodup := by
      intro p
      induction p using List.reverseRecOn with
      | nil => exact fun _ => List.nodup_nil
      | append_singleton p g ih =>
        intro hpr
        have hp := ih ((List.prefix_append p [g]).trans hpr)
        have hg : g ∈ r := hpr.subset (by simp)
        rw [List.nodup_append]
        refine ⟨hp, List.nodup_singleton g, ?_⟩
        rintro x hx y hy rfl
        rw [List.mem_singleton] at hy
        subst hy
        have hpre : r.takeWhile (· ≠ x) = p.takeWhile (· ≠ x) := by
          obtain ⟨rest, rfl⟩ := (List.prefix_append p [x]).trans hpr
          rw [List.takeWhile_append, if_neg]
          intro hlen
          rw [← (List.takeWhile_prefix _).eq_of_length hlen] at hx
          simpa using List.mem_takeWhile_imp hx
        have hle : r.count x ≤ 1 := by
          refine (hmet x ?_ hg).mpr (honce x)
          rw [hpre]
          exact hp.sublist (List.takeWhile_prefix _).sublist
        have htwo : 2 ≤ (p ++ [x]).count x := by
          rw [List.count_append, List.count_singleton_self]
          have := List.count_pos_iff.mpr hx
          omega
        have := hpr.sublist.count_le x
        omega
    exact hprefix r (List.prefix_refl r)

end Zcp.Lib.Worklist
