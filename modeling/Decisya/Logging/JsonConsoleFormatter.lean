import Decisya.Logging.MaskedState

/-!
# The JSON console formatter

`Write` formats a record into a buffer of its own, and where that throws it formats a fallback
that holds nothing of the record but its header. `none` is an exception. The counter of masking
errors is left out.
-/

namespace Decisya.Logging

open Text Text.JsonText

set_option autoImplicit false

/-! ## What is written with -/

/-- `Utf8JsonWriter` as far as the code does not say what it writes: the body of a string. -/
structure Utf8JsonWriter where
  escape : Utf16 → Option Utf16

def WellFormed (s : Utf16) : Prop := (codePoints s).isSome = true

instance (s : Utf16) : Decidable (WellFormed s) := inferInstanceAs (Decidable (_ = _))

/-- A string with a lone surrogate throws; any other is escaped to printable ASCII. -/
structure Utf8JsonWriter.Documented (json : Utf8JsonWriter) : Prop where
  escapes : ∀ s, WellFormed s →
    ∃ body, json.escape s = some body ∧ StringBody body s ∧ ∀ u ∈ body, IsPlain u
  throws : ∀ s, ¬ WellFormed s → json.escape s = none

/-- The text so far, and whether the object that is open has no member yet. -/
structure Output where
  buffer : Utf16
  isFirst : Bool

namespace Output

def startObject (w : Output) : Output := ⟨w.buffer ++ [0x7B], true⟩

def endObject (w : Output) : Output := ⟨w.buffer ++ [0x7D], false⟩

def rawValue (w : Output) (value : Utf16) : Output := ⟨w.buffer ++ value, false⟩

section Json
variable (json : Utf8JsonWriter)

def propertyName (w : Output) (name : Utf16) : Option Output :=
  (json.escape name).map fun body =>
    ⟨w.buffer ++ (if w.isFirst then [] else [comma]) ++ quoted body ++ [colon], false⟩

def stringValue (w : Output) (s : Utf16) : Option Output :=
  (json.escape s).map fun body => w.rawValue (quoted body)

def writeNull (w : Output) (name : Utf16) : Option Output := do
  let w ← w.propertyName json name
  some (w.rawValue (ascii "null"))

def writeString (w : Output) (name s : Utf16) : Option Output := do
  let w ← w.propertyName json name
  w.stringValue json s

def writeNumber (w : Output) (name : Utf16) (n : Int32) : Option Output := do
  let w ← w.propertyName json name
  some (w.rawValue (Number.ofInt n.toInt).text)

end Json

end Output

/-! ## What is written -/

inductive LogLevel where
  | trace
  | debug
  | information
  | warning
  | error
  | critical
  | none
  | undefined (n : Int32)

/-- An exception, whose `Message` and `ToString` may throw or return null. -/
structure Thrown where
  message : Option (Option Utf16)
  text : Option (Option Utf16)

/-- `LogEntry`. The formatter may be missing, throw or return null. -/
structure LogEntry (Obj : Type) where
  level : LogLevel
  category : Option Utf16
  eventId : Int32
  eventName : Option Utf16
  state : LogState Obj
  formatter : Option (Option (Option Utf16))
  exception : Option Thrown

/-- Pairs, of which an access may throw, or any other object. -/
inductive Scope (Obj : Type) where
  | pairs (items : List (Option (Pair Obj)))
  | single (value : Obj)

/-- What the clock, the current activity and the enrichment give at one time. -/
structure Ambient where
  timestamp : Utf16
  trace : Option (Utf16 × Utf16)
  tenantId : Option Utf16
  userIdHash : Option Utf16
  timestamp_ascii : ∀ u ∈ timestamp, u < 0x80
  trace_ascii : ∀ ids ∈ trace, (∀ u ∈ ids.1, u < 0x80) ∧ ∀ u ∈ ids.2, u < 0x80

def scopeAttributeKey : Utf16 := ascii "scope"

def formatterErrorValue : Utf16 := ascii "formatter"

def newline : UInt16 := 0x0A

def levelName : LogLevel → Utf16
  | .trace => ascii "Trace"
  | .debug => ascii "Debug"
  | .information => ascii "Information"
  | .warning => ascii "Warning"
  | .error => ascii "Error"
  | .critical => ascii "Critical"
  | .none => ascii "None"
  | .undefined n => (Number.ofInt n.toInt).text

def isSurrogate (c : UInt16) : Bool := 0xD800 ≤ c && c ≤ 0xDFFF

def repaired (c : UInt16) : UInt16 := if isSurrogate c then 0xFFFD else c

/-- A pair of surrogates is passed over; any other surrogate is replaced. -/
def sanitize : Utf16 → Utf16
  | [] => []
  | [c] => [repaired c]
  | c :: d :: rest =>
    if isHighSurrogate c && isLowSurrogate d then c :: d :: sanitize rest
    else repaired c :: sanitize (d :: rest)

/-- The stack trace of `ProcessException`, in which any exception gives the mask. -/
def stackTraceOf (e : Thrown) : Utf16 :=
  (do
    let _ ← maskString ((← e.message).getD []) maxStringLength
    let masked ← maskString (← (← e.text)) maxExceptionTextLength
    some masked.1 : Option Utf16).getD mask

def safeToString (toText : Option (Option Utf16)) : Utf16 := toText.join.getD mask

/-! ## The formatter -/

section Formatter

variable {Obj : Type} (json : Utf8JsonWriter) (masking : ValueMasking Obj)

def writeNullableString (w : Output) (name : Utf16) : Option Utf16 → Option Output
  | none => w.writeNull json name
  | some value => w.writeString json name value

def writeHeader (w : Output) (ambient : Ambient) (level : LogLevel) (category : Option Utf16)
    (eventId : Int32) (eventName : Option Utf16) : Option Output := do
  let w ← w.writeString json (ascii "timestamp") ambient.timestamp
  let w ← w.writeString json (ascii "level") (levelName level)
  let w ← writeNullableString json w (ascii "category") category
  let w ← w.writeNumber json (ascii "event_id") eventId
  writeNullableString json w (ascii "event_name") eventName

def writeTraceContext (w : Output) (ambient : Ambient) : Option Output := do
  let w ← writeNullableString json w (ascii "trace_id") (ambient.trace.map Prod.fst)
  writeNullableString json w (ascii "span_id") (ambient.trace.map Prod.snd)

def writeValue (w : Output) : LogValue → Option Output
  | .null => some (w.rawValue (ascii "null"))
  | .text s => w.stringValue json s
  | .bool b => some (w.rawValue (ascii (if b then "true" else "false")))
  | .number n => some (w.rawValue n.text)
  | .nonFinite s => w.stringValue json s
  | .other toText => w.stringValue json (safeToString toText)

/-- The writer with the keys written. -/
abbrev Carrier := Output × List Utf16

def writeAttribute (c : Carrier) (key : Utf16) (value : LogValue) : Option Carrier :=
  if c.2.contains key then some c
  else do
    let w ← c.1.propertyName json key
    let w ← writeValue json w value
    some (w, key :: c.2)

def writeAttributeList : List Attribute → Carrier → Option Carrier
  | [], c => some c
  | (key, value) :: rest, c => do
    let c ← writeAttribute json c key value
    writeAttributeList rest c

def writePairs : List (Option (Pair Obj)) → Carrier → Option Carrier
  | [], c => some c
  | none :: _, _ => none
  | some (key, value) :: rest, c =>
    if key = some originalFormatKey then writePairs rest c
    else do
      let c ← writeAttribute json c (key.getD []) (masking.processValue (key.getD []) value)
      writePairs rest c

def writeScope (c : Carrier) : Scope Obj → Option Carrier
  | .pairs items => writePairs json masking items c
  | .single value =>
    writeAttribute json c scopeAttributeKey (masking.processValue scopeAttributeKey value)

def writeScopes : List (Scope Obj) → Carrier → Option Carrier
  | [], c => some c
  | scope :: rest, c => do
    let c ← writeScope json masking c scope
    writeScopes rest c

/-- The scopes from the outermost on. -/
def writeAttributes (w : Output) (masked : MaskedState) (scopes : List (Scope Obj)) :
    Option Output := do
  let w ← w.propertyName json (ascii "attributes")
  let c ← writeAttributeList json masked.attributes (w.startObject, [])
  let c ← writeScopes json masking scopes c
  some c.1.endObject

def messageOf (entry : LogEntry Obj) (masked : MaskedState) : Option (Option Utf16) :=
  if masked.anyMasked then some (some (masked.template.getD mask))
  else entry.formatter.getD (some none)

def formatRecord (ambient : Ambient) (entry : LogEntry Obj) (scopes : List (Scope Obj)) :
    Option Utf16 := do
  let masked ← masking.process entry.state
  let message ← messageOf entry masked
  let w := (Output.mk [] true).startObject
  let w ← writeHeader json w ambient entry.level entry.category entry.eventId entry.eventName
  let w ← writeNullableString json w (ascii "message") message
  let w ← writeNullableString json w (ascii "message_template") masked.template
  let w ← writeTraceContext json w ambient
  let w ← writeNullableString json w (ascii "tenant_id") ambient.tenantId
  let w ← writeNullableString json w (ascii "user_id") ambient.userIdHash
  let w ← writeAttributes json masking w masked scopes
  let w ← writeNullableString json w (ascii "exception") (entry.exception.map stackTraceOf)
  some (w.endObject.buffer ++ [newline])

def formatFallback (ambient : Ambient) (entry : LogEntry Obj) : Option Utf16 := do
  let w := (Output.mk [] true).startObject
  let w ← writeHeader json w ambient entry.level (entry.category.map sanitize) entry.eventId
    (entry.eventName.map sanitize)
  let w ← w.writeNull json (ascii "message")
  let w ← w.writeNull json (ascii "message_template")
  let w ← writeTraceContext json w ambient
  let w ← writeNullableString json w (ascii "tenant_id") (ambient.tenantId.map sanitize)
  let w ← writeNullableString json w (ascii "user_id") (ambient.userIdHash.map sanitize)
  let w ← w.propertyName json (ascii "attributes")
  let w ← w.startObject.writeString json maskingErrorKey formatterErrorValue
  let w ← w.endObject.writeNull json (ascii "exception")
  some (w.endObject.buffer ++ [newline])

/-- What is written to the text writer. The fallback looks at the clock once more. -/
def write (ambient later : Ambient) (entry : LogEntry Obj) (scopes : List (Scope Obj)) :
    List Utf16 :=
  match formatRecord json masking ambient entry scopes with
  | some line => [line]
  | none => (formatFallback json later entry).toList

end Formatter

end Decisya.Logging
