import Decisya.Logging.MaskString
import Decisya.Text.JsonText

/-!
# Masking one record

`Process` of the masking core runs over the pairs of a record's state. What it does with one
value under its key is a parameter, as is the value's type. An access of the state that throws
is `none`, and so is the result then.
-/

namespace Decisya.Logging

open Text

set_option autoImplicit false

/-- A value as the sinks see it. -/
inductive LogValue where
  | null
  | text (s : Utf16)
  | bool (b : Bool)
  | number (n : JsonText.Number)
  /-- A number without a JSON form, with its text. -/
  | nonFinite (s : Utf16)
  /-- Any other object, with its `ToString`, which may throw or return null. -/
  | other (toText : Option (Option Utf16))

abbrev Attribute := Utf16 × LogValue

abbrev Pair (Obj : Type) := Option Utf16 × Obj

/-- The state of a log entry: no list of pairs, a list that cannot be counted, or its items. -/
inductive LogState (Obj : Type) where
  | unstructured
  | uncountable
  | pairs (items : List (Option (Pair Obj)))

def maskingErrorKey : Utf16 := ascii "decisya.masking_error"

def originalFormatKey : Utf16 := ascii "\x7bOriginalFormat\x7d"

def unstructuredStateError : Utf16 := ascii "unstructured_state"

def maxRenderedNodesPerRecord : ℕ := 256

structure MaskedState where
  attributes : List Attribute
  anyMasked : Bool
  template : Option Utf16

/-- The values of one kind, with `ProcessKeyed`: the masked value and whether it was masked,
unless an exception is thrown, and what is left of the budget. -/
structure ValueMasking (Obj : Type) where
  asString : Obj → Option Utf16
  processKeyed : Utf16 → Obj → ℕ → Option (LogValue × Bool) × ℕ

/-- The variables of the loop. -/
structure Progress where
  attributes : List Attribute
  seen : List Utf16
  template : Option Utf16
  anyMasked : Bool
  valueError : Bool
  budget : ℕ

namespace ValueMasking

variable {Obj : Type} (masking : ValueMasking Obj)

def processPair (p : Progress) (pair : Pair Obj) : Progress :=
  let key := pair.1.getD []
  if key = originalFormatKey then
    { p with template := p.template.or (masking.asString pair.2) }
  else if key ∈ p.seen then p
  else
    let result := masking.processKeyed key pair.2 p.budget
    let masked := result.1.getD (.text mask, true)
    { p with
      attributes := p.attributes ++ [(key, masked.1)]
      seen := key :: p.seen
      anyMasked := p.anyMasked || masked.2
      valueError := p.valueError || result.1.isNone
      budget := result.2 }

def processItems : List (Option (Pair Obj)) → Progress → Option Progress
  | [], p => some p
  | none :: _, _ => none
  | some pair :: items, p => processItems items (masking.processPair p pair)

def progress : LogState Obj → Option Progress
  | .unstructured => some ⟨[], [], none, false, false, maxRenderedNodesPerRecord⟩
  | .uncountable => none
  | .pairs items =>
    masking.processItems items ⟨[], [], none, false, false, maxRenderedNodesPerRecord⟩

def maskedState (p : Progress) : MaskedState :=
  let unstructured := p.template.isNone
  { attributes := p.attributes ++
      if (unstructured || p.valueError) && decide (maskingErrorKey ∉ p.seen) then
        [(maskingErrorKey, if unstructured then .text unstructuredStateError else .bool true)]
      else []
    anyMasked := p.anyMasked || unstructured
    template := p.template }

def process (state : LogState Obj) : Option MaskedState := (masking.progress state).map maskedState

/-- A value that is not part of a record's state. -/
def processValue (key : Utf16) (value : Obj) : LogValue :=
  ((masking.processKeyed key value maxRenderedNodesPerRecord).1.map Prod.fst).getD (.text mask)

/-! ## The keys of the attributes -/

variable {masking}

theorem nodup_concat {attributes : List Attribute} (h : (attributes.map Prod.fst).Nodup)
    {key : Utf16} (hnew : key ∉ attributes.map Prod.fst) (value : LogValue) :
    ((attributes ++ [(key, value)]).map Prod.fst).Nodup := by
  have hconcat := List.Nodup.concat hnew h
  rw [List.concat_eq_append] at hconcat
  rw [List.map_append]
  exact hconcat

/-- The keys seen are those of the attributes, each once. -/
structure Keyed (p : Progress) : Prop where
  nodup : (p.attributes.map Prod.fst).Nodup
  seen : ∀ key, key ∈ p.seen ↔ key ∈ p.attributes.map Prod.fst

theorem keyed_processPair {p : Progress} (h : Keyed p) (pair : Pair Obj) :
    Keyed (masking.processPair p pair) := by
  unfold processPair
  dsimp only
  split
  · exact ⟨h.nodup, h.seen⟩
  · split
    · exact h
    · rename_i hnew
      constructor
      · have hnot : pair.1.getD [] ∉ p.attributes.map Prod.fst := fun hin =>
          hnew ((h.seen _).mpr hin)
        exact nodup_concat h.nodup hnot _
      · intro key
        rw [List.mem_cons, List.map_append, List.mem_append, h.seen, List.map_cons, List.map_nil,
          List.mem_singleton]
        exact or_comm

theorem keyed_processItems {items : List (Option (Pair Obj))} {p q : Progress} (h : Keyed p)
    (hq : masking.processItems items p = some q) : Keyed q := by
  induction items generalizing p with
  | nil =>
    cases hq
    exact h
  | cons item items ih =>
    cases item with
    | none => cases hq
    | some pair => exact ih (keyed_processPair h pair) hq

theorem keyed_progress {state : LogState Obj} {p : Progress} (h : masking.progress state = some p) :
    Keyed p := by
  have hempty : Keyed ⟨[], [], none, false, false, maxRenderedNodesPerRecord⟩ :=
    ⟨List.nodup_nil, fun _ => Iff.rfl⟩
  cases state with
  | unstructured =>
    cases h
    exact hempty
  | uncountable => cases h
  | pairs items => exact keyed_processItems hempty h

/-- No key of the attributes occurs twice. -/
theorem nodup_process {state : LogState Obj} {masked : MaskedState}
    (h : masking.process state = some masked) : (masked.attributes.map Prod.fst).Nodup := by
  obtain ⟨p, hp, rfl⟩ := Option.map_eq_some_iff.mp h
  have hkeyed := keyed_progress hp
  unfold maskedState
  dsimp only
  split
  · rename_i hflag
    rw [Bool.and_eq_true, decide_eq_true_eq] at hflag
    have hnot : maskingErrorKey ∉ p.attributes.map Prod.fst := fun hin =>
      hflag.2 ((hkeyed.seen _).mpr hin)
    exact nodup_concat hkeyed.nodup hnot _
  · rw [List.append_nil]
    exact hkeyed.nodup

end ValueMasking

end Decisya.Logging
