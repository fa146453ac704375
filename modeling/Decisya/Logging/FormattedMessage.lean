import Decisya.Logging.RenderingBounds
import Decisya.Logging.TokenSecrecy

/-!
# When the formatted message is printed

Where nothing of a record was masked, both sinks print the message that was formatted from
all its values. The loop passes over some of the pairs, and says nothing of their values.
-/

namespace Decisya.Logging.Rendering

open Text

set_option autoImplicit false

theorem maskString_unmasked {value output : Utf16} {limit : Int32}
    (h : maskString value limit = some (output, false)) : output = value := by
  obtain ⟨kept, _, hout, hchanged⟩ := maskOver_eq_some h
  have hflags := hchanged.symm
  rw [Bool.or_eq_false_iff, Bool.or_eq_false_iff, Bool.or_eq_false_iff] at hflags
  obtain ⟨⟨⟨hwindow, hcut⟩, hjwt⟩, hbearer⟩ := hflags
  rw [decide_eq_false_iff_not] at hwindow hcut
  have hsame := (maskShapes_shorter (value.take (kept + 4096))).2 (by rw [hjwt, hbearer]; rfl)
  rw [if_neg hcut, hsame, List.take_of_length_le (by omega)] at hout
  exact hout

variable {Name Obj : Type}

section Unmasked
variable {types : Reflection Name} {objects : Objects Name Obj}

theorem processScalarElements_unmasked {o : Obj} {steps : ℕ → MoveNext Obj}
    {result : MaskResult Obj} (h : processScalarElements objects o steps = some result)
    (hmasked : result.masked = false) : result = unchanged (.object o) := by
  obtain ⟨r, _, rfl⟩ := Option.map_eq_some_iff.mp h
  split at hmasked
  · cases hmasked
  · rename_i hflag
    rw [if_neg hflag]

variable [DecidableEq Name]

theorem processAny_text (fuel depth : ℕ) (s : Utf16) (run : Run) :
    processAny types objects (fuel + 1) depth (.text s) run =
      some ((maskString s maxStringLength).map fun r => ⟨.value (.text r.1), r.2⟩, run) := rfl

/-- Whether an object is masked does not depend on the budget. -/
theorem processObject_unmasked {fuel depth : ℕ}
    {next : Boxed Obj → Run → Option (Outcome (MaskResult Obj))} {o : Obj} {run run' : Run}
    {result : MaskResult Obj}
    (h : processObject types objects fuel next depth o run = some (some result, run'))
    (hmasked : result.masked = false) (other : Run) :
    processObject types objects fuel next depth o other =
      some (some (unchanged (.object o)), other) := by
  unfold processObject at h ⊢
  dsimp only at h ⊢
  split at h
  · cases h
    cases hmasked
  · rename_i hsensitive
    rw [if_neg hsensitive]
    split at h
    · cases h
      cases hmasked
    · split at h
      · rename_i hscalar
        rw [if_pos hscalar]
      · rename_i hscalar
        rw [if_neg hscalar]
        split at h
        · rename_i henumerable
          rw [if_pos henumerable]
          split at h
          · cases h
            cases hmasked
          · rename_i helements
            rw [if_neg helements]
            split at h
            · rename_i steps _ _
              cases hresult : processScalarElements objects o steps with
              | none =>
                rw [hresult] at h
                cases h
              | some r =>
                rw [hresult] at h
                cases h
                rw [processScalarElements_unmasked hresult hmasked]
            · rfl
        · rename_i henumerable
          rw [if_neg henumerable]
          obtain ⟨needed, hneeded, hrest⟩ := Option.bind_eq_some_iff.mp h
          rw [hneeded]
          change (if needed = false then _ else _) = _
          split at hrest
          · rename_i hno
            rw [if_pos hno]
          · split at hrest
            · cases hrest
              cases hmasked
            · split at hrest
              · cases hrest
                cases hmasked
              · obtain ⟨first, _, hlast⟩ := andThen_eq_some hrest
                rcases hlast with ⟨_, hthrown⟩ | ⟨text, _, hout⟩
                · cases hthrown
                · cases hout
                  cases hmasked

theorem processKeyed_unmasked {fuel : ℕ} {key : Utf16} {value : Boxed Obj} {run run' : Run}
    {result : MaskResult Obj}
    (h : processKeyed types objects fuel key value run = some (some result, run'))
    (hmasked : result.masked = false) (other : Run) :
    processKeyed types objects fuel key value other = some (some (unchanged value), other) := by
  unfold processKeyed at h ⊢
  split at h
  · rename_i hallowed
    rw [if_pos hallowed]
    cases fuel with
    | zero => cases h
    | succ fuel =>
      cases value with
      | null => rfl
      | text s =>
        rw [processAny_text] at h ⊢
        cases hstring : maskString s maxStringLength with
        | none =>
          rw [hstring] at h
          cases h
        | some r =>
          obtain ⟨output, changed⟩ := r
          rw [hstring] at h
          cases h
          change changed = false at hmasked
          subst hmasked
          rw [maskString_unmasked hstring]
          rfl
      | object o => exact processObject_unmasked h hmasked other
  · rename_i hdenied
    rw [if_neg hdenied]
    split at h
    · rfl
    · rfl
    · cases h
      cases hmasked

end Unmasked

/-! ## The pairs of a record -/

def keyOf (pair : Pair (Boxed Obj)) : Utf16 := pair.1.getD []

/-- The pairs whose values are looked at. -/
def handled : List Utf16 → List (Pair (Boxed Obj)) → List (Pair (Boxed Obj))
  | _, [] => []
  | seen, pair :: pairs =>
    if keyOf pair = originalFormatKey ∨ seen.contains (keyOf pair) = true then handled seen pairs
    else pair :: handled (keyOf pair :: seen) pairs

/-- The other ones: the template, and every pair whose key an earlier one has. -/
def passedOver : List Utf16 → List (Pair (Boxed Obj)) → List (Pair (Boxed Obj))
  | _, [] => []
  | seen, pair :: pairs =>
    if keyOf pair = originalFormatKey ∨ seen.contains (keyOf pair) = true then
      pair :: passedOver seen pairs
    else passedOver (keyOf pair :: seen) pairs

theorem handled_cons (seen : List Utf16) (pair : Pair (Boxed Obj))
    (pairs : List (Pair (Boxed Obj))) :
    handled seen (pair :: pairs) =
      if keyOf pair = originalFormatKey ∨ seen.contains (keyOf pair) = true then handled seen pairs
      else pair :: handled (keyOf pair :: seen) pairs := rfl

theorem mem_iff_handled_or {pair : Pair (Boxed Obj)} {seen : List Utf16}
    {pairs : List (Pair (Boxed Obj))} :
    pair ∈ pairs ↔ pair ∈ handled seen pairs ∨ pair ∈ passedOver seen pairs := by
  induction pairs generalizing seen with
  | nil => simp [handled, passedOver]
  | cons first pairs ih =>
    unfold handled passedOver
    split
    · rw [List.mem_cons, List.mem_cons, ih]
      exact or_left_comm
    · rw [List.mem_cons, List.mem_cons, ih]
      exact or_assoc.symm

def HasTemplate (pairs : List (Pair (Boxed Obj))) : Prop :=
  ∃ pair ∈ pairs, keyOf pair = originalFormatKey ∧ ∃ s, pair.2 = .text s

section Record
variable [DecidableEq Name] (types : Reflection Name) (objects : Objects Name Obj)

/-- `ProcessKeyed` leaves the value as it is. -/
def LeftAlone (key : Utf16) (value : Boxed Obj) : Prop :=
  ∀ fuel, enoughFuel ≤ fuel → ∀ run,
    processKeyed types objects fuel key value run = some (some (unchanged value), run)

/-- The message is printed only if no value of the record calls for masking. -/
def MessageIsClean (pairs : List (Pair (Boxed Obj))) : Prop :=
  ∀ fuel record masked, enoughFuel ≤ fuel →
    process types objects fuel (.pairs (pairs.map some)) = some record →
    record.masked = some masked → masked.anyMasked = false →
    ∀ pair ∈ pairs, LeftAlone types objects (keyOf pair) pair.2

variable {types objects}

theorem not_masked_iff {fuel : ℕ} (hfuel : enoughFuel ≤ fuel) (key : Utf16) (value : Boxed Obj)
    (budget : ℕ) :
    ((((valueMasking types objects fuel).processKeyed key value budget).1).getD
      (.text mask, true)).2 = false ↔ LeftAlone types objects key value := by
  obtain ⟨⟨result, run⟩, hrun⟩ := exists_processKeyed types objects key value ⟨budget, []⟩
  rw [valueMasking_processKeyed (hrun fuel hfuel)]
  constructor
  · intro hflag
    cases result with
    | none => cases hflag
    | some result =>
      intro fuel' hfuel' other
      exact processKeyed_unmasked (hrun fuel' hfuel') hflag other
  · intro halone
    have hresult := (hrun fuel hfuel).symm.trans (halone fuel hfuel ⟨budget, []⟩)
    cases hresult
    rfl

theorem exists_processItems (masking : ValueMasking (Boxed Obj)) (pairs : List (Pair (Boxed Obj)))
    (p : Progress) : ∃ q, masking.processItems (pairs.map some) p = some q := by
  induction pairs generalizing p with
  | nil => exact ⟨p, rfl⟩
  | cons pair pairs ih => exact ih (masking.processPair p pair)

theorem anyMasked_processItems {fuel : ℕ} (hfuel : enoughFuel ≤ fuel)
    {pairs : List (Pair (Boxed Obj))} {p q : Progress}
    (h : (valueMasking types objects fuel).processItems (pairs.map some) p = some q) :
    q.anyMasked = false ↔ p.anyMasked = false ∧
      ∀ pair ∈ handled p.seen pairs, LeftAlone types objects (keyOf pair) pair.2 := by
  induction pairs generalizing p with
  | nil =>
    cases h
    exact (and_iff_left fun _ hpair => absurd hpair List.not_mem_nil).symm
  | cons pair pairs ih =>
    have hstep := ih h
    rw [hstep, handled_cons]
    by_cases hformat : keyOf pair = originalFormatKey
    · have hpair : (valueMasking types objects fuel).processPair p pair =
          { p with template := p.template.or pair.2.asString } := if_pos hformat
      rw [if_pos (Or.inl hformat), hpair]
    · by_cases hseen : keyOf pair ∈ p.seen
      · have hpair : (valueMasking types objects fuel).processPair p pair = p :=
          (if_neg hformat).trans (if_pos hseen)
        rw [if_pos (Or.inr (List.contains_iff_mem.mpr hseen)), hpair]
      · have hcontains : ¬ p.seen.contains (keyOf pair) = true := fun h =>
          hseen (List.contains_iff_mem.mp h)
        rw [if_neg (not_or.mpr ⟨hformat, hcontains⟩)]
        have hflag : ((valueMasking types objects fuel).processPair p pair).anyMasked =
            (p.anyMasked || ((((valueMasking types objects fuel).processKeyed (keyOf pair) pair.2
              p.budget).1).getD (.text mask, true)).2) :=
          congrArg Progress.anyMasked ((if_neg hformat).trans (if_neg hseen))
        have hkeys : ((valueMasking types objects fuel).processPair p pair).seen =
            keyOf pair :: p.seen :=
          congrArg Progress.seen ((if_neg hformat).trans (if_neg hseen))
        rw [hflag, hkeys, Bool.or_eq_false_iff, not_masked_iff hfuel, List.forall_mem_cons]
        exact and_assoc

theorem template_processPair (masking : ValueMasking (Boxed Obj)) (p : Progress)
    (pair : Pair (Boxed Obj)) :
    (masking.processPair p pair).template =
      if keyOf pair = originalFormatKey then p.template.or (masking.asString pair.2)
      else p.template := by
  unfold ValueMasking.processPair keyOf
  dsimp only
  split
  · rfl
  · split
    · rfl
    · rfl

theorem hasTemplate_cons (pair : Pair (Boxed Obj)) (pairs : List (Pair (Boxed Obj))) :
    HasTemplate (pair :: pairs) ↔
      (keyOf pair = originalFormatKey ∧ ∃ s, pair.2 = .text s) ∨ HasTemplate pairs := by
  unfold HasTemplate
  exact List.exists_mem_cons_iff _ _ _

theorem asString_isSome (value : Boxed Obj) : value.asString.isSome = true ↔ ∃ s, value = .text s := by
  cases value with
  | null => exact iff_of_false Bool.false_ne_true fun ⟨s, hs⟩ => nomatch hs
  | text s => exact iff_of_true rfl ⟨s, rfl⟩
  | object o => exact iff_of_false Bool.false_ne_true fun ⟨s, hs⟩ => nomatch hs

theorem template_processItems {fuel : ℕ} {pairs : List (Pair (Boxed Obj))} {p q : Progress}
    (h : (valueMasking types objects fuel).processItems (pairs.map some) p = some q) :
    q.template.isSome = true ↔ p.template.isSome = true ∨ HasTemplate pairs := by
  induction pairs generalizing p with
  | nil =>
    cases h
    exact (or_iff_left fun ⟨_, hpair, _⟩ => absurd hpair List.not_mem_nil).symm
  | cons pair pairs ih =>
    rw [ih h, template_processPair, hasTemplate_cons, ← or_assoc]
    apply or_congr_left
    split
    · rename_i hformat
      rw [Option.isSome_or, Bool.or_eq_true, and_iff_right hformat]
      exact or_congr_right (asString_isSome pair.2)
    · rename_i hformat
      exact (or_iff_left fun h => hformat h.1).symm

/-- Nothing of a record is masked where a template is found and no value that is looked at
calls for masking. -/
theorem not_anyMasked_iff {fuel : ℕ} (hfuel : enoughFuel ≤ fuel) {pairs : List (Pair (Boxed Obj))}
    {masked : MaskedState}
    (h : (valueMasking types objects fuel).process (.pairs (pairs.map some)) = some masked) :
    masked.anyMasked = false ↔
      HasTemplate pairs ∧
        ∀ pair ∈ handled [] pairs, LeftAlone types objects (keyOf pair) pair.2 := by
  obtain ⟨q, hq, rfl⟩ := Option.map_eq_some_iff.mp h
  have hflag := anyMasked_processItems hfuel hq
  have htemplate := template_processItems hq
  change (q.anyMasked || q.template.isNone) = false ↔ _
  rw [Bool.or_eq_false_iff, hflag, ← Option.not_isSome, Bool.not_eq_false', htemplate]
  constructor
  · rintro ⟨⟨_, halone⟩, hsome⟩
    exact ⟨hsome.resolve_left Bool.false_ne_true, halone⟩
  · rintro ⟨hsome, halone⟩
    exact ⟨⟨rfl, halone⟩, Or.inr hsome⟩

/-- The message is clean exactly where no template is found, a value that is looked at calls
for masking, or no value that is passed over does. -/
theorem messageIsClean_iff (types : Reflection Name) (objects : Objects Name Obj)
    (pairs : List (Pair (Boxed Obj))) :
    MessageIsClean types objects pairs ↔
      ¬ HasTemplate pairs ∨
        (∃ pair ∈ handled [] pairs, ¬ LeftAlone types objects (keyOf pair) pair.2) ∨
        ∀ pair ∈ passedOver [] pairs, LeftAlone types objects (keyOf pair) pair.2 := by
  constructor
  · intro hclean
    by_cases htemplate : HasTemplate pairs
    · by_cases halone : ∀ pair ∈ handled [] pairs, LeftAlone types objects (keyOf pair) pair.2
      · obtain ⟨record, hrecord⟩ : Fuel.Settles enoughFuel fun fuel =>
          process types objects fuel (.pairs (pairs.map some)) := settles_process _
        have hrun := hrecord enoughFuel (Nat.le_refl _)
        obtain ⟨q, hq⟩ := exists_processItems (valueMasking types objects enoughFuel) pairs
          ⟨[], [], none, false, false, maxRenderedNodesPerRecord⟩
        have hprocess : (valueMasking types objects enoughFuel).process (.pairs (pairs.map some)) =
            some (ValueMasking.maskedState q) := congrArg _ hq
        have hmasked := (masked_process hrun).trans hprocess
        have hflag := (not_anyMasked_iff (Nat.le_refl _) hprocess).mpr ⟨htemplate, halone⟩
        right
        right
        intro pair hpair
        exact hclean enoughFuel record _ (Nat.le_refl _) hrun hmasked hflag pair
          (mem_iff_handled_or.mpr (Or.inr hpair))
      · rw [not_forall] at halone
        obtain ⟨pair, hpair⟩ := halone
        rw [Classical.not_imp] at hpair
        exact Or.inr (Or.inl ⟨pair, hpair⟩)
    · exact Or.inl htemplate
  · intro hcondition fuel record masked hfuel hrun hmasked hflag pair hpair
    have hprocess := (masked_process hrun).symm.trans hmasked
    obtain ⟨htemplate, halone⟩ := (not_anyMasked_iff hfuel hprocess).mp hflag
    rcases mem_iff_handled_or.mp hpair with hhandled | hpassed
    · exact halone pair hhandled
    · rcases hcondition with hnone | ⟨other, hother, hcalls⟩ | hrest
      · exact absurd htemplate hnone
      · exact absurd (halone other hother) hcalls
      · exact hrest pair hpassed

end Record

/-! ## A template with one name twice -/

def plainTypes : Reflection Empty where
  lowerTable c := c
  info _ := ⟨[], none, none, none, false, false, false, false, false, false, false, some false,
    some [], some [], some []⟩

def noObjects : Objects Empty Empty where
  typeOf := nofun
  uri := nofun
  getValue := nofun
  enumerate := nofun
  toText := nofun
  json := nofun

def repeatedHole : List (Pair (Boxed Empty)) :=
  [(some (ascii "Id"), .text (ascii "7")), (some (ascii "Id"), .text (ascii "bearer abc.d")),
    (some originalFormatKey, .text (ascii "\x7bId\x7d \x7bId\x7d"))]

/-- The second value is a token, and is printed. -/
theorem repeatedHole_not_clean : ¬ MessageIsClean plainTypes noObjects repeatedHole := by
  intro hclean
  have halone := hclean enoughFuel _ _ (Nat.le_refl _) rfl rfl rfl
    (some (ascii "Id"), .text (ascii "bearer abc.d")) (List.mem_cons_of_mem _ List.mem_cons_self)
    enoughFuel (Nat.le_refl _) ⟨0, []⟩
  have hflag := congrArg (fun outcome => outcome.bind fun o => o.1.map MaskResult.masked) halone
  cases hflag

end Decisya.Logging.Rendering
