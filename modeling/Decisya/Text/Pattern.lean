import Mathlib

/-!
# Sequences of classes

A pattern is a sequence of items, each one element of a class or a greedy run of a class.
`matchAt` matches at the start of a text and gives back as many elements of a run as the rest
of the pattern asks for. Where no run can be continued by what follows it, nothing is ever
given back and the match is `greedy`. The result of a match is a label for each element.
-/

namespace Text.Pattern

set_option autoImplicit false

variable {α L : Type}

inductive Item (α L : Type) where
  | one (test : α → Bool) (label : L)
  | many (test : α → Bool) (least : ℕ) (label : L)

def Item.test : Item α L → α → Bool
  | .one test _ => test
  | .many test _ _ => test

def Item.label : Item α L → L
  | .one _ label => label
  | .many _ _ label => label

/-- How often an item has to match. -/
def Item.least : Item α L → ℕ
  | .one _ _ => 1
  | .many _ least _ => least

def run (test : α → Bool) (s : List α) : ℕ := (s.takeWhile test).length

/-- The labels of the elements matched at the start of `s`. -/
def matchAt : List (Item α L) → List α → Option (List L)
  | [], _ => some []
  | .one _ _ :: _, [] => none
  | .one test label :: items, c :: s =>
    if test c then (matchAt items s).map fun labels => label :: labels else none
  | .many test least label :: items, s =>
    (List.range (run test s + 1 - least)).findSome? fun back =>
      (matchAt items (s.drop (run test s - back))).map fun labels =>
        List.replicate (run test s - back) label ++ labels

/-- The match that gives nothing back. -/
def greedy : List (Item α L) → List α → Option (List L)
  | [], _ => some []
  | .one _ _ :: _, [] => none
  | .one test label :: items, c :: s =>
    if test c then (greedy items s).map fun labels => label :: labels else none
  | .many test least label :: items, s =>
    if least ≤ run test s then
      (greedy items (s.drop (run test s))).map fun labels =>
        List.replicate (run test s) label ++ labels
    else none

/-- What follows a run either cannot start with an element of the run, or never fails. -/
def Determinate : List (Item α L) → Prop
  | [] => True
  | .one _ _ :: items => Determinate items
  | .many test _ _ :: items =>
    ((∀ c s, test c = true → matchAt items (c :: s) = none) ∨ ∀ s, matchAt items s ≠ none) ∧
      Determinate items

/-! ## Runs -/

section Run
variable {test : α → Bool} {x z : List α}

theorem run_le (test : α → Bool) (s : List α) : run test s ≤ s.length :=
  List.Sublist.length_le (List.takeWhile_sublist test)

theorem run_cons_pos {c : α} (hc : test c = true) (s : List α) :
    run test (c :: s) = run test s + 1 := by
  simp [run, hc]

theorem run_cons_neg {c : α} (hc : test c = false) (s : List α) : run test (c :: s) = 0 := by
  simp [run, hc]

theorem run_append_of_lt (h : run test x < x.length) (z : List α) :
    run test (x ++ z) = run test x := by
  induction x with
  | nil => exact absurd h (Nat.not_lt_zero _)
  | cons c x ih =>
    rw [List.cons_append]
    cases hc : test c with
    | false => rw [run_cons_neg hc, run_cons_neg hc]
    | true =>
      rw [run_cons_pos hc, List.length_cons] at h
      rw [run_cons_pos hc, run_cons_pos hc, ih (by omega)]

theorem run_append_of_eq (h : run test x = x.length) (z : List α) :
    run test (x ++ z) = x.length + run test z := by
  induction x with
  | nil => simp
  | cons c x ih =>
    rw [List.cons_append]
    cases hc : test c with
    | false =>
      rw [run_cons_neg hc, List.length_cons] at h
      omega
    | true =>
      rw [run_cons_pos hc, List.length_cons] at h
      rw [run_cons_pos hc, ih (by omega), List.length_cons]
      omega

theorem run_of_append (test : α → Bool) (x z : List α) (h : run test (x ++ z) ≤ x.length) : run test x = run test (x ++ z) := by
  rcases (run_le test x).lt_or_eq with hlt | heq
  · exact (run_append_of_lt hlt z).symm
  · have hsum := run_append_of_eq heq z
    omega

theorem run_stop {c : α} (hc : test c = false) : run test (x ++ c :: z) = run test x := by
  rcases (run_le test x).lt_or_eq with hlt | heq
  · exact run_append_of_lt hlt _
  · rw [run_append_of_eq heq, run_cons_neg hc]
    omega

theorem drop_run_append (z : List α) :
    (x ++ z).drop (run test x) = x.drop (run test x) ++ z :=
  List.drop_append_of_le_length (run_le test x)

theorem test_of_lt_run (test : α → Bool) {s : List α} {i : ℕ} {c : α} (hi : i < run test s) (hc : s[i]? = some c) :
    test c = true := by
  induction s generalizing i with
  | nil => cases hc
  | cons d s ih =>
    cases hd : test d with
    | false =>
      rw [run_cons_neg hd] at hi
      exact absurd hi (Nat.not_lt_zero i)
    | true =>
      rw [run_cons_pos hd] at hi
      cases i with
      | zero =>
        cases hc
        exact hd
      | succ i => exact ih (by omega) hc

end Run

/-! ## Nothing is given back -/

theorem matchAt_eq_greedy {items : List (Item α L)} (h : Determinate items) (s : List α) :
    matchAt items s = greedy items s := by
  induction items generalizing s with
  | nil => rfl
  | cons item items ih =>
    cases item with
    | one test label =>
      cases s with
      | nil => rfl
      | cons c s => rw [matchAt, greedy, ih h]
    | many test least label =>
      obtain ⟨hnext, hitems⟩ := h
      rw [matchAt, greedy, ← ih hitems]
      split
      · rename_i hle
        obtain ⟨tries, htries⟩ : ∃ tries, run test s + 1 - least = tries + 1 :=
          ⟨run test s - least, by omega⟩
        rw [htries, List.range_succ_eq_map, List.findSome?_cons, Nat.sub_zero]
        cases hfull : matchAt items (s.drop (run test s)) with
        | some labels => rfl
        | none =>
          -- every shorter run is followed by an element of the class
          apply List.findSome?_eq_none_iff.mpr
          intro back hback
          obtain ⟨less, hless, rfl⟩ := List.mem_map.mp hback
          have hlt : less < tries := List.mem_range.mp hless
          have hnone := hnext.resolve_right fun hall => hall _ hfull
          have hpos : run test s - (less + 1) < s.length := by
            have hle := run_le test s
            omega
          obtain ⟨c, hc⟩ : ∃ c, s[run test s - (less + 1)]? = some c :=
            ⟨_, List.getElem?_eq_getElem hpos⟩
          have htest := test_of_lt_run test (by omega) hc
          rw [Nat.succ_eq_add_one, List.drop_eq_getElem?_toList_append, hc]
          rw [Option.toList_some, List.singleton_append, hnone c _ htest]
          rfl
      · rename_i hlt
        have hzero : run test s + 1 - least = 0 := by omega
        rw [hzero]
        rfl

/-! ## What a greedy match reads -/

section Greedy
variable {items : List (Item α L)} {s x z : List α} {labels : List L}

/-- A pattern that matches nothing at all at the end asks for nothing. -/
theorem greedy_ne_none_of_nil (h : greedy items ([] : List α) ≠ none) (s : List α) :
    greedy items s ≠ none := by
  induction items generalizing s with
  | nil => exact Option.some_ne_none []
  | cons item items ih =>
    cases item with
    | one test label => exact absurd rfl h
    | many test least label =>
      rw [greedy] at h ⊢
      have hrun : run test ([] : List α) = 0 := rfl
      rw [hrun] at h
      split at h
      · rename_i hle
        rw [if_pos (by omega), ne_eq, Option.map_eq_none_iff]
        apply ih
        intro hnone
        rw [List.drop_nil, hnone] at h
        exact h rfl
      · exact absurd rfl h

theorem length_le_of_greedy (h : greedy items s = some labels) : labels.length ≤ s.length := by
  induction items generalizing s labels with
  | nil =>
    cases h
    exact Nat.zero_le _
  | cons item items ih =>
    cases item with
    | one test label =>
      cases s with
      | nil => cases h
      | cons c s =>
        rw [greedy] at h
        split at h
        · obtain ⟨rest, hrest, rfl⟩ := Option.map_eq_some_iff.mp h
          have hle := ih hrest
          simp only [List.length_cons]
          omega
        · cases h
    | many test least label =>
      rw [greedy] at h
      split at h
      · obtain ⟨rest, hrest, rfl⟩ := Option.map_eq_some_iff.mp h
        have hle := ih hrest
        have hrun := run_le test s
        rw [List.length_drop] at hle
        rw [List.length_append, List.length_replicate]
        omega
      · cases h

/-- Every item gets what it asks for. -/
theorem least_le_of_greedy (h : greedy items s = some labels) :
    (items.map Item.least).sum ≤ labels.length := by
  induction items generalizing s labels with
  | nil => exact Nat.zero_le _
  | cons item items ih =>
    rw [List.map_cons, List.sum_cons]
    cases item with
    | one test label =>
      cases s with
      | nil => cases h
      | cons c s =>
        rw [greedy] at h
        split at h
        · obtain ⟨rest, hrest, rfl⟩ := Option.map_eq_some_iff.mp h
          have hle := ih hrest
          rw [List.length_cons, Item.least]
          omega
        · cases h
    | many test least label =>
      rw [greedy] at h
      split at h
      · rename_i hrun
        obtain ⟨rest, hrest, rfl⟩ := Option.map_eq_some_iff.mp h
        have hle := ih hrest
        rw [List.length_append, List.length_replicate, Item.least]
        omega
      · cases h

/-- More text after a match can only make it longer, and only where it ran to the end. -/
theorem greedy_append (h : greedy items x = some labels) (z : List α) :
    ∃ longer, greedy items (x ++ z) = some longer ∧ longer.take x.length = labels := by
  induction items generalizing x labels with
  | nil =>
    cases h
    exact ⟨[], rfl, List.take_nil⟩
  | cons item items ih =>
    cases item with
    | one test label =>
      cases x with
      | nil => cases h
      | cons c x =>
        rw [greedy] at h
        split at h
        · rename_i hc
          obtain ⟨rest, hrest, rfl⟩ := Option.map_eq_some_iff.mp h
          obtain ⟨longer, hlonger, htake⟩ := ih hrest
          refine ⟨label :: longer, ?_, ?_⟩
          · rw [List.cons_append, greedy, if_pos hc, hlonger]
            rfl
          · rw [List.length_cons, List.take_succ_cons, htake]
        · cases h
    | many test least label =>
      rw [greedy] at h
      split at h
      · rename_i hle
        obtain ⟨rest, hrest, rfl⟩ := Option.map_eq_some_iff.mp h
        rcases (run_le test x).lt_or_eq with hlt | heq
        · obtain ⟨longer, hlonger, htake⟩ := ih hrest
          refine ⟨List.replicate (run test x) label ++ longer, ?_, ?_⟩
          · rw [greedy, run_append_of_lt hlt, if_pos hle, drop_run_append, hlonger]
            rfl
          · rw [List.length_drop] at htake
            rw [List.take_append, List.length_replicate, htake, List.take_of_length_le]
            rw [List.length_replicate]
            exact hlt.le
        · -- the run took all of `x`, so the rest of the pattern asks for nothing
          have hnil : x.drop (run test x) = [] := List.drop_eq_nil_of_le heq.ge
          rw [hnil] at hrest
          have hempty : rest = [] := List.eq_nil_of_length_eq_zero
            (Nat.le_zero.mp (length_le_of_greedy hrest))
          have hsome := greedy_ne_none_of_nil (by rw [hrest]; exact Option.some_ne_none rest)
            ((x ++ z).drop (run test (x ++ z)))
          obtain ⟨more, hmore⟩ := Option.ne_none_iff_exists'.mp hsome
          have hrun := run_append_of_eq heq z
          refine ⟨List.replicate (run test (x ++ z)) label ++ more, ?_, ?_⟩
          · rw [greedy, if_pos (by omega), hmore]
            rfl
          · rw [List.take_append_of_le_length (by rw [List.length_replicate]; omega),
              List.take_replicate, hempty, List.append_nil, heq]
            congr 1
            omega
      · cases h

/-- A match that stays within `x` does not need what follows. -/
theorem greedy_of_append (h : greedy items (x ++ z) = some labels)
    (hlen : labels.length ≤ x.length) : greedy items x = some labels := by
  induction items generalizing x labels with
  | nil => exact h
  | cons item items ih =>
    cases item with
    | one test label =>
      cases x with
      | nil =>
        have hnil := List.eq_nil_of_length_eq_zero (Nat.le_zero.mp hlen)
        cases z with
        | nil => exact h
        | cons c z =>
          rw [List.nil_append, greedy] at h
          split at h
          · obtain ⟨rest, hrest, rfl⟩ := Option.map_eq_some_iff.mp h
            cases hnil
          · cases h
      | cons c x =>
        rw [List.cons_append, greedy] at h
        rw [greedy]
        split at h
        · rename_i hc
          obtain ⟨rest, hrest, rfl⟩ := Option.map_eq_some_iff.mp h
          rw [if_pos hc, ih hrest (Nat.le_of_succ_le_succ hlen)]
          rfl
        · cases h
    | many test least label =>
      rw [greedy] at h
      split at h
      · rename_i hle
        obtain ⟨rest, hrest, rfl⟩ := Option.map_eq_some_iff.mp h
        rw [List.length_append, List.length_replicate] at hlen
        have hrun := run_of_append test x z (by omega)
        rw [← hrun] at hrest hle hlen
        rw [drop_run_append] at hrest
        have hsub := ih hrest (by rw [List.length_drop]; omega)
        rw [greedy, if_pos hle, hsub, hrun]
        rfl
      · cases h

/-- An element of no class ends a match like the end of the text. -/
theorem greedy_stop {c : α} (hc : ∀ item ∈ items, item.test c = false) (x z : List α) :
    greedy items (x ++ c :: z) = greedy items x := by
  induction items generalizing x with
  | nil => rfl
  | cons item items ih =>
    have hrest := ih fun item hitem => hc item (List.mem_cons_of_mem _ hitem)
    cases item with
    | one test label =>
      have hfirst : test c = false := hc _ List.mem_cons_self
      cases x with
      | nil =>
        change (if test c then _ else none) = none
        exact if_neg (Bool.eq_false_iff.mp hfirst)
      | cons d x => rw [List.cons_append, greedy, greedy, hrest]
    | many test least label =>
      have hfirst : test c = false := hc _ List.mem_cons_self
      rw [greedy, greedy, run_stop hfirst, drop_run_append, hrest]

/-- The items one after another. -/
theorem greedy_items_append (a b : List (Item α L)) (s : List α) :
    greedy (a ++ b) s = (greedy a s).bind fun first =>
      (greedy b (s.drop first.length)).map fun second => first ++ second := by
  induction a generalizing s with
  | nil => simp [greedy]
  | cons item a ih =>
    cases item with
    | one test label =>
      cases s with
      | nil => rfl
      | cons c s =>
        rw [List.cons_append, greedy, greedy]
        split
        · rw [ih, Option.map_bind, Option.bind_map]
          congr 1
          funext first
          simp [Function.comp_def]
        · rfl
    | many test least label =>
      rw [List.cons_append, greedy, greedy]
      split
      · rw [ih, Option.map_bind, Option.bind_map]
        congr 1
        funext first
        simp [Function.comp_def, List.drop_drop]
      · rfl

/-- Each label is the label of an item whose class has the element. -/
theorem forall₂_of_greedy (h : greedy items s = some labels) :
    List.Forall₂ (fun l c => ∃ item ∈ items, item.label = l ∧ item.test c = true) labels
      (s.take labels.length) := by
  induction items generalizing s labels with
  | nil =>
    cases h
    exact List.Forall₂.nil
  | cons item items ih =>
    have hweaken : ∀ {ls : List L} {cs : List α},
        List.Forall₂ (fun l c => ∃ item ∈ items, item.label = l ∧ item.test c = true) ls cs →
        List.Forall₂ (fun l c => ∃ i ∈ item :: items, i.label = l ∧ i.test c = true) ls cs := by
      intro ls cs hforall
      refine hforall.imp ?_
      rintro l c ⟨i, hi, hl, hc⟩
      exact ⟨i, List.mem_cons_of_mem item hi, hl, hc⟩
    cases item with
    | one test label =>
      cases s with
      | nil => cases h
      | cons c s =>
        rw [greedy] at h
        split at h
        · rename_i hc
          obtain ⟨rest, hrest, rfl⟩ := Option.map_eq_some_iff.mp h
          exact List.Forall₂.cons ⟨_, List.mem_cons_self, rfl, hc⟩ (hweaken (ih hrest))
        · cases h
    | many test least label =>
      rw [greedy] at h
      split at h
      · obtain ⟨rest, hrest, rfl⟩ := Option.map_eq_some_iff.mp h
        have htail := hweaken (ih hrest)
        have hsplit : s.take (List.replicate (run test s) label ++ rest).length
            = s.takeWhile test ++ (s.drop (run test s)).take rest.length := by
          rw [List.length_append, List.length_replicate, List.take_add]
          congr 1
          exact List.prefix_iff_eq_take.mp (List.takeWhile_prefix test) |>.symm
        rw [hsplit]
        refine List.rel_append (R := _) ?_ htail
        have hrun : ∀ cs : List α, (∀ c ∈ cs, test c = true) →
            List.Forall₂ (fun l c => ∃ i ∈ Item.many test least label :: items,
              i.label = l ∧ i.test c = true) (List.replicate cs.length label) cs := by
          intro cs hcs
          induction cs with
          | nil => exact List.Forall₂.nil
          | cons c cs ihcs =>
            rw [List.length_cons, List.replicate_succ]
            exact List.Forall₂.cons ⟨_, List.mem_cons_self, rfl, hcs c List.mem_cons_self⟩
              (ihcs fun d hd => hcs d (List.mem_cons_of_mem c hd))
        exact hrun _ fun c hc => List.mem_takeWhile_imp hc
      · cases h

theorem item_of_greedy (h : greedy items s = some labels) {i : ℕ} {l : L}
    (hl : labels[i]? = some l) :
    ∃ c, s[i]? = some c ∧ ∃ item ∈ items, item.label = l ∧ item.test c = true := by
  have hforall := forall₂_of_greedy h
  rw [List.forall₂_iff_get] at hforall
  obtain ⟨hlen, hitems⟩ := hforall
  obtain ⟨hi, hget⟩ := List.getElem?_eq_some_iff.mp hl
  have hitem := hitems i hi (by omega)
  rw [List.length_take] at hlen
  refine ⟨s.get ⟨i, by omega⟩, List.getElem?_eq_getElem _, ?_⟩
  simp only [List.get_eq_getElem, List.getElem_take, hget] at hitem ⊢
  exact hitem

theorem exists_test_of_greedy (h : greedy items s = some labels) {c : α}
    (hc : c ∈ s.take labels.length) : ∃ item ∈ items, item.test c = true := by
  obtain ⟨i, hi⟩ := List.mem_iff_getElem?.mp hc
  have hlt : i < labels.length := by
    obtain ⟨hbound, -⟩ := List.getElem?_eq_some_iff.mp hi
    rw [List.length_take] at hbound
    omega
  obtain ⟨d, hd, item, hitem, -, htest⟩ := item_of_greedy h (List.getElem?_eq_getElem hlt)
  rw [List.getElem?_take_of_lt hlt, hd] at hi
  cases hi
  exact ⟨item, hitem, htest⟩

/-- A text too short for a match of a longer text ends before the first thing of the last
item that is asked for. -/
theorem greedy_stuck {a rest : List (Item α L)} {item : Item α L} (hleast : item.least ≤ 1)
    (hrest : ∀ s, greedy rest s ≠ none) (hx : greedy (a ++ item :: rest) x = none)
    (hxz : greedy (a ++ item :: rest) (x ++ z) = some labels) :
    ∃ first second, greedy a (x ++ z) = some first ∧ labels = first ++ second ∧
      x.length ≤ first.length := by
  rw [greedy_items_append] at hxz hx
  obtain ⟨first, hfirst, hmap⟩ := Option.bind_eq_some_iff.mp hxz
  obtain ⟨second, hsecond, rfl⟩ := Option.map_eq_some_iff.mp hmap
  refine ⟨first, second, hfirst, rfl, ?_⟩
  by_contra hlt
  have hshort := greedy_of_append hfirst (by omega)
  rw [hshort, Option.bind_some, Option.map_eq_none_iff] at hx
  have hdrop : (x ++ z).drop first.length = x.drop first.length ++ z :=
    List.drop_append_of_le_length (by omega)
  rw [hdrop] at hsecond
  -- what is left of `x` starts with an element the item takes
  cases hleft : x.drop first.length with
  | nil =>
    have hle := List.drop_eq_nil_iff.mp hleft
    omega
  | cons c left =>
    rw [hleft] at hx hsecond
    cases item with
    | one test label =>
      rw [List.cons_append, greedy] at hsecond
      split at hsecond
      · rename_i hc
        rw [greedy, if_pos hc, Option.map_eq_none_iff] at hx
        exact hrest _ hx
      · cases hsecond
    | many test least label =>
      rw [List.cons_append, greedy] at hsecond
      split at hsecond
      · rename_i hle
        rw [greedy] at hx
        split at hx
        · rw [Option.map_eq_none_iff] at hx
          exact hrest _ hx
        · rename_i hnle
          change least ≤ 1 at hleast
          cases hc : test c with
          | true =>
            rw [run_cons_pos hc] at hnle
            omega
          | false =>
            rw [run_cons_neg hc] at hnle hle
            exact hnle hle
      · cases hsecond

/-- A label that no run has is there once for each item that has it. -/
theorem count_of_greedy [DecidableEq L] {l : L}
    (hmany : ∀ test least, Item.many test least l ∉ items) (h : greedy items s = some labels) :
    labels.count l = (items.map Item.label).count l := by
  induction items generalizing s labels with
  | nil =>
    cases h
    rfl
  | cons item items ih =>
    have htail := fun test least hmem => hmany test least (List.mem_cons_of_mem item hmem)
    cases item with
    | one test label =>
      cases s with
      | nil => cases h
      | cons c s =>
        rw [greedy] at h
        split at h
        · obtain ⟨rest, hrest, rfl⟩ := Option.map_eq_some_iff.mp h
          rw [List.map_cons, List.count_cons, List.count_cons, ih htail hrest]
          rfl
        · cases h
    | many test least label =>
      have hne : (Item.many test least label).label ≠ l := by
        intro heq
        change label = l at heq
        rw [heq] at hmany
        exact hmany test least List.mem_cons_self
      rw [greedy] at h
      split at h
      · obtain ⟨rest, hrest, rfl⟩ := Option.map_eq_some_iff.mp h
        have hrun : (List.replicate (run test s) label).count l = 0 := by
          rw [List.count_replicate, if_neg]
          exact fun heq => hne (beq_iff_eq.mp heq)
        rw [List.count_append, hrun, ih htail hrest, List.map_cons, List.count_cons_of_ne hne]
        omega
      · cases h

end Greedy

end Text.Pattern
