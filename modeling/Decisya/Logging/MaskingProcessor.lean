import Decisya.Logging.MaskedState
import Decisya.Logging.TypeAnalyzer

/-!
# The masking processor

`ProcessAny` and the rendering of objects call each other over a graph of values that may have
cycles, with one budget for a record. Every way of calling into the graph is a function of the
object, and `none` where it throws. What the processor does is logged in a trace, which nothing
reads back. A `ToString` is the object's own code.
-/

namespace Decisya.Logging.Rendering

open Text

set_option autoImplicit false

def maxMembersPerObject : ℕ := 32

def maxRenderDepth : ℕ := 3

/-- `Array.MaxLength`: no list holds more. -/
def maxListLength : ℕ := 0x7FFFFFC7

/-! ## Values -/

/-- A value of type `object?`; a string is no object of its own. -/
inductive Boxed (Obj : Type) where
  | null
  | text (s : Utf16)
  | object (o : Obj)

inductive Uri where
  | relative (original : Utf16)
  /-- The port is there if it is not the default one. -/
  | absolute (scheme host : Utf16) (port : Option Int32) (path query : Utf16)

/-- A step of an enumeration, which need not ever end. -/
inductive MoveNext (Obj : Type) where
  | element (value : Boxed Obj)
  | done
  | throws

structure Objects (Name Obj : Type) where
  typeOf : Obj → Ty Name
  uri : Obj → Option Uri
  getValue : Obj → Property Name → Option (Boxed Obj)
  /-- The steps of an enumeration, if the object can be enumerated. -/
  enumerate : Obj → Option (ℕ → MoveNext Obj)
  /-- `ToString`, of the invariant culture where there is a choice, which may return null. -/
  toText : Obj → Option (Option Utf16)
  /-- A truth value or a number, which has a form of its own in the log. -/
  json : Obj → Option LogValue

/-- What is put in the place of a value: a value, or a new list. -/
inductive Shown (Obj : Type) where
  | value (v : Boxed Obj)
  | list (items : List (Boxed Obj))

structure MaskResult (Obj : Type) where
  value : Shown Obj
  masked : Bool

def listTypeName : Utf16 := ascii "System.Collections.Generic.List`1[System.Object]"

def renderUri : Uri → Utf16
  | .relative original =>
    let kept := original.takeWhile fun c => c != 0x23
    if kept.contains 0x3F then (kept.takeWhile fun c => c != 0x3F) ++ ascii "?" ++ mask else kept
  | .absolute scheme host port path query =>
    scheme ++ ascii "://" ++ host ++
      port.elim [] (fun n => ascii ":" ++ (JsonText.Number.ofInt n.toInt).text) ++ path ++
        if query.isEmpty then [] else ascii "?" ++ mask

/-! ## A run -/

/-- An object's rendering begins and ends, a member of it is rendered, a getter is called; or
an exception is caught, which leaves every rendering that had begun. -/
inductive Event where
  | opened
  | member
  | getter
  | closed
  | caught
  deriving DecidableEq

/-- The budget, and the events, the last one first. -/
structure Run where
  budget : ℕ
  trace : List Event

namespace Run

def log (run : Run) (event : Event) : Run := { run with trace := event :: run.trace }

/-- The counter goes on below zero, but a list has too few items to bring it around. -/
def tryConsume (run : Run) : Bool × Run :=
  match run.budget with
  | 0 => (false, run)
  | n + 1 => (true, { run with budget := n })

end Run

/-- An exception is `none`. -/
abbrev Outcome (α : Type) := Option α × Run

/-- What follows is not reached from an exception. -/
def andThen {α β : Type} (step : Option (Outcome α)) (next : α → Run → Option (Outcome β)) :
    Option (Outcome β) :=
  step.bind fun outcome =>
    match outcome.1 with
    | none => some (none, outcome.2)
    | some a => next a outcome.2

/-! ## The processor -/

section Code
variable {Name Obj : Type} (types : Reflection Name) (objects : Objects Name Obj)

def maskWhole : MaskResult Obj := ⟨.value (.text mask), true⟩

def unchanged (value : Boxed Obj) : MaskResult Obj := ⟨.value value, false⟩

def format : Shown Obj → Utf16
  | .value .null => ascii "null"
  | .value (.text s) => s
  | .value (.object o) => (objects.toText o).join.getD mask
  | .list _ => listTypeName

def processScalarElement (element : Boxed Obj) : Option (Boxed Obj × Bool) :=
  match element with
  | .null => some (.null, false)
  | .text s => (maskString s maxStringLength).map fun r => (.text r.1, r.2)
  | .object o =>
    match objects.uri o with
    | some uri => some (.text (renderUri uri), true)
    | none => some (.object o, false)

/-- The elements from the `i`-th on. A list without room for another throws. -/
def collect (steps : ℕ → MoveNext Obj) : ℕ → ℕ → List (Boxed Obj) → Bool →
    Option (List (Boxed Obj) × Bool)
  | 0, i, processed, anyChanged =>
    match steps i with
    | .done => some (processed, anyChanged)
    | _ => none
  | room + 1, i, processed, anyChanged =>
    match steps i with
    | .done => some (processed, anyChanged)
    | .throws => none
    | .element e =>
      (processScalarElement objects e).bind fun r =>
        collect steps room (i + 1) (processed ++ [r.1]) (anyChanged || r.2)

def processScalarElements (o : Obj) (steps : ℕ → MoveNext Obj) : Option (MaskResult Obj) :=
  (collect objects steps maxListLength 0 [] false).map fun r =>
    if r.2 then ⟨.list r.1, true⟩ else unchanged (.object o)

/-- `next` is `ProcessAny`, one level deeper. -/
def renderMember (next : Boxed Obj → Run → Option (Outcome (MaskResult Obj))) (o : Obj)
    (property : Property Name) (run : Run) : Option (Outcome Utf16) :=
  if types.isDenied property.name || types.isSensitiveMember property then some (some mask, run)
  else
    match objects.getValue o property with
    | none => some (some mask, run.log .getter)
    | some raw =>
      andThen (next raw (run.log .getter)) fun result run => some (some (format objects result.value), run)

/-- The rest of the loop: the text, the members written and whether it was left early. -/
def renderProperties (next : Boxed Obj → Run → Option (Outcome (MaskResult Obj))) (o : Obj) :
    List (Property Name) → ℕ → Utf16 → Run → Option (Outcome (Utf16 × ℕ × Bool))
  | [], written, builder, run => some (some (builder, written, false), run)
  | property :: properties, written, builder, run =>
    if maxMembersPerObject ≤ written then some (some (builder, written, true), run)
    else
      match run.tryConsume with
      | (false, run) => some (some (builder, written, true), run)
      | (true, run) =>
        andThen (renderMember types objects next o property (run.log .member)) fun text run =>
          renderProperties next o properties (written + 1)
            (builder ++ (if 0 < written then ascii ", " else []) ++ property.name ++ ascii " = " ++
              text) run

def renderObject (next : Boxed Obj → Run → Option (Outcome (MaskResult Obj))) (o : Obj)
    (type : Ty Name) (run : Run) : Option (Outcome Utf16) :=
  andThen (renderProperties types objects next o (types.renderableProperties type) 0
      (ascii "\x7b ") (run.log .opened)) fun loop run =>
    let truncated := if loop.2.2 then (if 0 < loop.2.1 then ascii ", " else []) ++ mask else []
    some (some (loop.1 ++ truncated ++ ascii " \x7d"), run.log .closed)

variable [DecidableEq Name]

def processObject (fuel : ℕ) (next : Boxed Obj → Run → Option (Outcome (MaskResult Obj)))
    (depth : ℕ) (o : Obj) (run : Run) : Option (Outcome (MaskResult Obj)) :=
  let type := objects.typeOf o
  if types.isSensitiveType type = true then some (some maskWhole, run)
  else
    match objects.uri o with
    | some uri => some (some ⟨.value (.text (renderUri uri)), true⟩, run)
    | none =>
      if types.isScalar type = true then some (some (unchanged (.object o)), run)
      else if types.isEnumerable type = true then
        if types.hasScalarElements type = false then some (some maskWhole, run)
        else
          match types.elementsNeedShapeMasking type, objects.enumerate o with
          | true, some steps => some (processScalarElements objects o steps, run)
          | _, _ => some (some (unchanged (.object o)), run)
      else
        (types.needsProcessorRendering fuel type).bind fun needed =>
          if needed = false then some (some (unchanged (.object o)), run)
          else if types.isProcessorRenderable type = false ∨ maxRenderDepth < depth then
            some (some maskWhole, run)
          else
            match run.tryConsume with
            | (false, run) => some (some maskWhole, run)
            | (true, run) =>
              andThen (renderObject types objects next o type run) fun text run =>
                some (some ⟨.value (.text text), true⟩, run)

/-- `none` when the fuel runs out. -/
def processAny : ℕ → ℕ → Boxed Obj → Run → Option (Outcome (MaskResult Obj))
  | 0, _, _, _ => none
  | fuel + 1, depth, value, run =>
    match value with
    | .null => some (some (unchanged .null), run)
    | .text s =>
      some ((maskString s maxStringLength).map fun r => ⟨.value (.text r.1), r.2⟩, run)
    | .object o => processObject types objects (fuel + 1) (processAny fuel (depth + 1)) depth o run

def processKeyed (fuel : ℕ) (key : Utf16) (value : Boxed Obj) (run : Run) :
    Option (Outcome (MaskResult Obj)) :=
  if types.isDenied key = false then processAny types objects fuel 0 value run
  else
    match value with
    | .null => some (some (unchanged .null), run)
    | .text [] => some (some (unchanged (.text [])), run)
    | _ => some (some maskWhole, run)

/-! ## A record -/

def asLogValue : Shown Obj → LogValue
  | .value .null => .null
  | .value (.text s) => .text s
  | .value (.object o) => (objects.json o).getD (.other (objects.toText o))
  | .list _ => .other (some (some listTypeName))

def Boxed.asString : Boxed Obj → Option Utf16
  | .text s => some s
  | _ => none

/-- The values of this kind. Where the fuel runs out, nothing is said. -/
def valueMasking (fuel : ℕ) : ValueMasking (Boxed Obj) where
  asString := Boxed.asString
  processKeyed key value budget :=
    match processKeyed types objects fuel key value ⟨budget, []⟩ with
    | none => (none, budget)
    | some outcome =>
      (outcome.1.map fun result => (asLogValue objects result.value, result.masked),
        outcome.2.budget)

/-- What the masking of a record comes to, and what was done on the way. -/
structure Record where
  masked : Option MaskedState
  trace : List Event

/-- The events of one pair. An exception is caught. -/
def processPair (fuel : ℕ) (p : Progress) (pair : Pair (Boxed Obj)) (trace : List Event) :
    Option (Progress × List Event) :=
  let key := pair.1.getD []
  if key = originalFormatKey ∨ p.seen.contains key = true then
    some ((valueMasking types objects fuel).processPair p pair, trace)
  else
    (processKeyed types objects fuel key pair.2 ⟨p.budget, trace⟩).map fun outcome =>
      ((valueMasking types objects fuel).processPair p pair,
        if outcome.1.isNone then .caught :: outcome.2.trace else outcome.2.trace)

def processItems (fuel : ℕ) : List (Option (Pair (Boxed Obj))) → Progress → List Event →
    Option (Option Progress × List Event)
  | [], p, trace => some (some p, trace)
  | none :: _, _, trace => some (none, trace)
  | some pair :: items, p, trace =>
    (processPair types objects fuel p pair trace).bind fun r => processItems fuel items r.1 r.2

/-- `none` when the fuel runs out. -/
def process (fuel : ℕ) (state : LogState (Boxed Obj)) : Option Record :=
  let start : Progress := ⟨[], [], none, false, false, maxRenderedNodesPerRecord⟩
  match state with
  | .unstructured => some ⟨some (ValueMasking.maskedState start), []⟩
  | .uncountable => some ⟨none, []⟩
  | .pairs items =>
    (processItems types objects fuel items start []).map fun r =>
      ⟨r.1.map ValueMasking.maskedState, r.2⟩

end Code

end Decisya.Logging.Rendering
