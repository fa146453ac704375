import Decisya.Logging.JsonConsoleFormatter

/-!
# One line for each record

The writer keeps a grammar: what follows the brace of the open object is the text of its
members. A record is such an object and a newline, and so is the fallback, which has nothing to
write that the writer refuses.
-/

namespace Decisya.Logging

open Text Text.JsonText

set_option autoImplicit false

/-! ## Surrogates -/

theorem wellFormed_of_lt {s : Utf16} (h : ∀ u ∈ s, u < 0xD800) : WellFormed s := by
  unfold WellFormed
  rw [codePoints_eq h]
  rfl

theorem wellFormed_of_ascii {s : Utf16} (h : ∀ u ∈ s, u < 0x80) : WellFormed s := by
  apply wellFormed_of_lt
  intro u hu
  have hlt : u.toNat < 0x80 := h u hu
  change u.toNat < 0xD800
  omega

theorem isSurrogate_eq (c : UInt16) : isSurrogate c = (isHighSurrogate c || isLowSurrogate c) := by
  rw [Bool.eq_iff_iff]
  unfold isSurrogate isHighSurrogate isLowSurrogate
  simp only [Bool.and_eq_true, Bool.or_eq_true, decide_eq_true_eq, UInt16.le_iff_toNat_le]
  have h1 : (0xD800 : UInt16).toNat = 0xD800 := rfl
  have h2 : (0xDBFF : UInt16).toNat = 0xDBFF := rfl
  have h3 : (0xDC00 : UInt16).toNat = 0xDC00 := rfl
  have h4 : (0xDFFF : UInt16).toNat = 0xDFFF := rfl
  omega

theorem repaired_plain (c : UInt16) :
    isHighSurrogate (repaired c) = false ∧ isLowSurrogate (repaired c) = false := by
  unfold repaired
  split
  · decide
  · rename_i hnot
    rw [isSurrogate_eq, Bool.or_eq_true, not_or] at hnot
    exact ⟨Bool.eq_false_iff.mpr hnot.1, Bool.eq_false_iff.mpr hnot.2⟩

theorem repaired_eq_self {c : UInt16} (hhigh : isHighSurrogate c = false)
    (hlow : isLowSurrogate c = false) : repaired c = c := by
  unfold repaired
  rw [isSurrogate_eq, hhigh, hlow]
  rfl

theorem length_sanitize (s : Utf16) : (sanitize s).length = s.length := by
  induction s using sanitize.induct with
  | case1 => rfl
  | case2 c => rfl
  | case3 c d rest hpair ih =>
    rw [sanitize, if_pos hpair, List.length_cons, List.length_cons, ih]
    rfl
  | case4 c d rest hpair ih =>
    rw [sanitize, if_neg hpair, List.length_cons, ih]
    rfl

/-- A unit that is no surrogate may stand before a well-formed text. -/
theorem wellFormed_cons {c : UInt16} (hhigh : isHighSurrogate c = false)
    (hlow : isLowSurrogate c = false) {s : Utf16} : WellFormed (c :: s) ↔ WellFormed s := by
  unfold WellFormed
  cases s with
  | nil =>
    have hone : codePoints [c] = some [c.toNat] := by
      rw [codePoints, hhigh, hlow]
      rfl
    rw [hone]
    exact Iff.rfl
  | cons d rest =>
    rw [codePoints, hhigh, hlow, if_neg Bool.false_ne_true, if_neg Bool.false_ne_true,
      Option.isSome_map]

theorem wellFormed_pair {c d : UInt16} (hhigh : isHighSurrogate c = true)
    (hlow : isLowSurrogate d = true) {rest : Utf16} :
    WellFormed (c :: d :: rest) ↔ WellFormed rest := by
  unfold WellFormed
  rw [codePoints, hhigh, hlow, if_pos rfl, if_pos rfl, Option.isSome_map]

theorem wellFormed_sanitize (s : Utf16) : WellFormed (sanitize s) := by
  induction s using sanitize.induct with
  | case1 => rfl
  | case2 c =>
    rw [sanitize, wellFormed_cons (repaired_plain c).1 (repaired_plain c).2]
    rfl
  | case3 c d rest hpair ih =>
    rw [Bool.and_eq_true] at hpair
    rw [sanitize, if_pos (by rw [hpair.1, hpair.2]; rfl), wellFormed_pair hpair.1 hpair.2]
    exact ih
  | case4 c d rest hpair ih =>
    rw [sanitize, if_neg hpair, wellFormed_cons (repaired_plain c).1 (repaired_plain c).2]
    exact ih

theorem sanitize_eq_self {s : Utf16} (h : WellFormed s) : sanitize s = s := by
  induction s using sanitize.induct with
  | case1 => rfl
  | case2 c =>
    unfold WellFormed at h
    rw [codePoints] at h
    split at h
    · cases h
    · rename_i hnot
      rw [Bool.or_eq_true, not_or] at hnot
      rw [sanitize, repaired_eq_self (Bool.eq_false_iff.mpr hnot.1) (Bool.eq_false_iff.mpr hnot.2)]
  | case3 c d rest hpair ih =>
    have hboth := hpair
    rw [Bool.and_eq_true] at hboth
    rw [sanitize, if_pos hpair, ih ((wellFormed_pair hboth.1 hboth.2).mp h)]
  | case4 c d rest hpair ih =>
    have hplain : isHighSurrogate c = false ∧ isLowSurrogate c = false := by
      unfold WellFormed at h
      rw [codePoints] at h
      cases hhigh : isHighSurrogate c with
      | true =>
        rw [hhigh, if_pos rfl] at h
        cases hlow : isLowSurrogate d with
        | true =>
          rw [hhigh, hlow] at hpair
          exact absurd rfl hpair
        | false =>
          rw [hlow, if_neg Bool.false_ne_true] at h
          cases h
      | false =>
        cases hlow : isLowSurrogate c with
        | true =>
          rw [hhigh, hlow, if_neg Bool.false_ne_true, if_pos rfl] at h
          cases h
        | false => exact ⟨rfl, rfl⟩
    rw [sanitize, if_neg hpair, repaired_eq_self hplain.1 hplain.2,
      ih ((wellFormed_cons hplain.1 hplain.2).mp h)]

/-! ## Members -/

/-- The value of the tree that a log value becomes. -/
def valueOf : LogValue → Value
  | .null => .null
  | .text s => .string s
  | .bool b => .bool b
  | .number n => .number n
  | .nonFinite s => .string s
  | .other toText => .string (safeToString toText)

def nullable (s : Option Utf16) : Value := (s.map Value.string).getD .null

/-- The open object began where `before` ends, and its members are those of `fields`. -/
structure Inside (before : Utf16) (w : Output) (fields : List (Utf16 × Value)) : Prop where
  text : ∃ text, w.buffer = before ++ text ∧ Members text fields ∧ ∀ u ∈ text, IsPlain u
  isFirst : w.isFirst = fields.isEmpty

/-- After the name of one more member. -/
structure Named (before : Utf16) (w : Output) (fields : List (Utf16 × Value)) (name : Utf16) :
    Prop where
  text : ∃ text body, w.buffer = before ++ (text ++ (if fields.isEmpty then [] else [comma]) ++
      quoted body ++ [colon]) ∧ Members text fields ∧ (∀ u ∈ text, IsPlain u) ∧
    StringBody body name ∧ ∀ u ∈ body, IsPlain u

section Members

variable {json : Utf8JsonWriter} {before : Utf16} {w w' : Output}
  {fields : List (Utf16 × Value)} {name value s : Utf16} {v : Value}

theorem Utf8JsonWriter.Documented.of_escape (hj : json.Documented) {body : Utf16}
    (h : json.escape s = some body) : StringBody body s ∧ ∀ u ∈ body, IsPlain u := by
  by_cases hs : WellFormed s
  · obtain ⟨body', hbody', hspec⟩ := hj.escapes s hs
    rw [h] at hbody'
    rw [Option.some.inj hbody']
    exact hspec
  · rw [hj.throws s hs] at h
    cases h

theorem inside_startObject : Inside (w.buffer ++ [0x7B]) w.startObject [] :=
  ⟨⟨[], (List.append_nil _).symm, Members.nil, fun _ h => nomatch h⟩, rfl⟩

theorem named_propertyName (hj : json.Documented) (h : Inside before w fields)
    (hw : w.propertyName json name = some w') : Named before w' fields name := by
  obtain ⟨text, hbuffer, hmembers, hplain⟩ := h.text
  obtain ⟨body, hbody, rfl⟩ := Option.map_eq_some_iff.mp hw
  obtain ⟨hstring, hbodyPlain⟩ := hj.of_escape hbody
  refine ⟨text, body, ?_, hmembers, hplain, hstring, hbodyPlain⟩
  rw [h.isFirst, hbuffer]
  simp only [List.append_assoc]

theorem inside_rawValue (h : Named before w fields name) (hv : Denotes value v)
    (hvalue : ∀ u ∈ value, IsPlain u) :
    Inside before (w.rawValue value) (fields ++ [(name, v)]) := by
  obtain ⟨text, body, hbuffer, hmembers, hplain, hstring, hbodyPlain⟩ := h.text
  refine ⟨⟨addMember text fields.isEmpty body value, ?_, Members.snoc hmembers hstring hv, ?_⟩, ?_⟩
  · unfold Output.rawValue addMember
    rw [hbuffer]
    simp only [List.append_assoc, List.cons_append, List.nil_append]
  · intro u hu
    exact isPlain_addMember hplain hbodyPlain hvalue hu
  · unfold Output.rawValue
    cases fields <;> rfl

theorem inside_stringValue (hj : json.Documented) (h : Named before w fields name)
    (hw : w.stringValue json s = some w') : Inside before w' (fields ++ [(name, .string s)]) := by
  obtain ⟨body, hbody, rfl⟩ := Option.map_eq_some_iff.mp hw
  obtain ⟨hstring, hplain⟩ := hj.of_escape hbody
  exact inside_rawValue h (Denotes.string hstring) fun u hu => isPlain_quoted hplain hu

theorem isPlain_of_all (h : s.all (fun u => decide (IsPlain u)) = true) : ∀ u ∈ s, IsPlain u :=
  fun u hu => of_decide_eq_true (List.all_eq_true.mp h u hu)

theorem isPlain_null : ∀ u ∈ ascii "null", IsPlain u := isPlain_of_all (by decide)

theorem inside_writeNull (hj : json.Documented) (h : Inside before w fields)
    (hw : w.writeNull json name = some w') : Inside before w' (fields ++ [(name, .null)]) := by
  obtain ⟨w₁, hw₁, hw⟩ := Option.bind_eq_some_iff.mp hw
  rw [← Option.some.inj hw]
  exact inside_rawValue (named_propertyName hj h hw₁) Denotes.null isPlain_null

theorem inside_writeString (hj : json.Documented) (h : Inside before w fields)
    (hw : w.writeString json name s = some w') :
    Inside before w' (fields ++ [(name, .string s)]) := by
  obtain ⟨w₁, hw₁, hw⟩ := Option.bind_eq_some_iff.mp hw
  exact inside_stringValue hj (named_propertyName hj h hw₁) hw

theorem inside_writeNumber (hj : json.Documented) (h : Inside before w fields) {n : Int32}
    (hw : w.writeNumber json name n = some w') :
    Inside before w' (fields ++ [(name, .number (Number.ofInt n.toInt))]) := by
  obtain ⟨w₁, hw₁, hw⟩ := Option.bind_eq_some_iff.mp hw
  rw [← Option.some.inj hw]
  exact inside_rawValue (named_propertyName hj h hw₁) (Denotes.number _) fun _ hu =>
    isPlain_number hu

theorem inside_writeNullableString (hj : json.Documented) (h : Inside before w fields)
    {value : Option Utf16} (hw : writeNullableString json w name value = some w') :
    Inside before w' (fields ++ [(name, nullable value)]) := by
  cases value with
  | none => exact inside_writeNull hj h hw
  | some value => exact inside_writeString hj h hw

theorem inside_writeValue (hj : json.Documented) (h : Named before w fields name)
    {value : LogValue} (hw : writeValue json w value = some w') :
    Inside before w' (fields ++ [(name, valueOf value)]) := by
  cases value with
  | null =>
    rw [← Option.some.inj hw]
    exact inside_rawValue h Denotes.null isPlain_null
  | text s => exact inside_stringValue hj h hw
  | bool b =>
    rw [← Option.some.inj hw]
    exact inside_rawValue h (Denotes.bool b) (isPlain_of_all (by cases b <;> decide))
  | number n =>
    rw [← Option.some.inj hw]
    exact inside_rawValue h (Denotes.number n) fun _ hu => isPlain_number hu
  | nonFinite s => exact inside_stringValue hj h hw
  | other toText => exact inside_stringValue hj h hw

/-- The object that is open closes as the value of the member it was opened for. -/
theorem inside_endObject {inner : List (Utf16 × Value)} (h : Named before w fields name)
    (hinner : Inside (w.buffer ++ [0x7B]) w' inner) :
    Inside before w'.endObject (fields ++ [(name, .object inner)]) := by
  obtain ⟨text, hbuffer, hmembers, hplain⟩ := hinner.text
  have hraw : w'.endObject = w.rawValue (0x7B :: (text ++ [0x7D])) := by
    unfold Output.endObject Output.rawValue
    rw [hbuffer]
    simp only [List.append_assoc, List.cons_append, List.nil_append]
  rw [hraw]
  apply inside_rawValue h (Denotes.object hmembers)
  intro u hu
  rcases List.mem_cons.mp hu with rfl | hu
  · decide
  · rcases List.mem_append.mp hu with hu | hu
    · exact hplain u hu
    · rw [List.mem_singleton.mp hu]
      decide

end Members

/-! ## Attributes -/

/-- The members are the pairs done so far, of each key the first. -/
structure FirstOfEach (done : List Attribute) (fields : List (Utf16 × Value)) : Prop where
  nodup : (fields.map Prod.fst).Nodup
  values : ∀ key, fields.lookup key = (done.lookup key).map valueOf

structure Written (before : Utf16) (c : Carrier) (done : List Attribute)
    (fields : List (Utf16 × Value)) : Prop where
  inside : Inside before c.1 fields
  keys : ∀ key, key ∈ c.2 ↔ key ∈ fields.map Prod.fst
  first : FirstOfEach done fields

section Attributes

variable {Obj : Type} {json : Utf8JsonWriter} {masking : ValueMasking Obj} {before : Utf16}
  {c c' : Carrier} {done : List Attribute} {fields : List (Utf16 × Value)}

theorem lookup_eq_none_iff_keys {β : Type} {l : List (Utf16 × β)} {key : Utf16} :
    l.lookup key = none ↔ key ∉ l.map Prod.fst := by
  rw [List.lookup_eq_none_iff, List.mem_map]
  constructor
  · rintro h ⟨p, hp, rfl⟩
    have hne := h p hp
    simp at hne
  · intro h p hp
    exact bne_iff_ne.mpr fun heq => h ⟨p, hp, heq.symm⟩

theorem written_writeAttribute (hj : json.Documented) (h : Written before c done fields)
    {key : Utf16} {value : LogValue} (hc : writeAttribute json c key value = some c') :
    ∃ fields', Written before c' (done ++ [(key, value)]) fields' := by
  unfold writeAttribute at hc
  split at hc
  · rename_i hold
    cases hc
    refine ⟨fields, h.inside, h.keys, h.first.nodup, fun other => ?_⟩
    rw [List.lookup_append, h.first.values]
    cases hother : done.lookup other with
    | some v => rfl
    | none =>
      have hne : other ≠ key := by
        rintro rfl
        have hin := (h.keys other).mp (List.contains_iff_mem.mp hold)
        have hnone : fields.lookup other = none := by
          rw [h.first.values, hother]
          rfl
        exact lookup_eq_none_iff_keys.mp hnone hin
      rw [List.lookup_cons, beq_eq_false_iff_ne.mpr hne]
      rfl
  · rename_i hnew
    obtain ⟨w, hw, hc⟩ := Option.bind_eq_some_iff.mp hc
    obtain ⟨w', hw', hc⟩ := Option.bind_eq_some_iff.mp hc
    rw [← Option.some.inj hc]
    have hinside := inside_writeValue hj (named_propertyName hj h.inside hw) hw'
    have hnot : key ∉ fields.map Prod.fst := fun hin =>
      hnew (List.contains_iff_mem.mpr ((h.keys key).mpr hin))
    refine ⟨_, hinside, fun other => ?_, ?_, fun other => ?_⟩
    · rw [List.mem_cons, List.map_append, List.mem_append, h.keys, List.map_cons, List.map_nil,
        List.mem_singleton]
      exact or_comm
    · have hconcat := List.Nodup.concat hnot h.first.nodup
      rw [List.concat_eq_append] at hconcat
      rw [List.map_append]
      exact hconcat
    · rw [List.lookup_append, List.lookup_append, h.first.values]
      cases done.lookup other with
      | some v => rfl
      | none =>
        rw [List.lookup_cons, List.lookup_cons]
        cases other == key with
        | true => rfl
        | false => rfl

theorem written_writeAttributeList (hj : json.Documented) {pairs : List Attribute}
    (h : Written before c done fields) (hc : writeAttributeList json pairs c = some c') :
    ∃ fields', Written before c' (done ++ pairs) fields' := by
  induction pairs generalizing c done fields with
  | nil =>
    cases hc
    rw [List.append_nil]
    exact ⟨fields, h⟩
  | cons pair pairs ih =>
    obtain ⟨c₁, hc₁, hc⟩ := Option.bind_eq_some_iff.mp hc
    obtain ⟨fields₁, h₁⟩ := written_writeAttribute hj h hc₁
    rw [List.append_cons]
    exact ih h₁ hc

/-- The attributes of a scope, where no access throws. -/
def pairAttributes (masking : ValueMasking Obj) :
    List (Option (Pair Obj)) → Option (List Attribute)
  | [] => some []
  | none :: _ => none
  | some (key, value) :: rest => do
    let others ← pairAttributes masking rest
    some (if key = some originalFormatKey then others
      else (key.getD [], masking.processValue (key.getD []) value) :: others)

def scopeAttributes (masking : ValueMasking Obj) : Scope Obj → Option (List Attribute)
  | .pairs items => pairAttributes masking items
  | .single value => some [(scopeAttributeKey, masking.processValue scopeAttributeKey value)]

def scopesAttributes (masking : ValueMasking Obj) : List (Scope Obj) → Option (List Attribute)
  | [] => some []
  | scope :: rest => do
    let first ← scopeAttributes masking scope
    let others ← scopesAttributes masking rest
    some (first ++ others)

theorem written_writePairs (hj : json.Documented) {items : List (Option (Pair Obj))}
    (h : Written before c done fields) (hc : writePairs json masking items c = some c') :
    ∃ pairs fields', pairAttributes masking items = some pairs ∧
      Written before c' (done ++ pairs) fields' := by
  induction items generalizing c done fields with
  | nil =>
    cases hc
    refine ⟨[], fields, rfl, ?_⟩
    rw [List.append_nil]
    exact h
  | cons item items ih =>
    cases item with
    | none => cases hc
    | some pair =>
      obtain ⟨key, value⟩ := pair
      rw [writePairs] at hc
      split at hc
      · rename_i hskip
        obtain ⟨pairs, fields', hpairs, h'⟩ := ih h hc
        refine ⟨pairs, fields', ?_, h'⟩
        rw [pairAttributes, hpairs]
        simp only [Option.bind_eq_bind, Option.bind_some, if_pos hskip]
      · rename_i hkeep
        obtain ⟨c₁, hc₁, hc⟩ := Option.bind_eq_some_iff.mp hc
        obtain ⟨fields₁, h₁⟩ := written_writeAttribute hj h hc₁
        obtain ⟨pairs, fields', hpairs, h'⟩ := ih h₁ hc
        refine ⟨(key.getD [], masking.processValue (key.getD []) value) :: pairs, fields', ?_, ?_⟩
        · rw [pairAttributes, hpairs]
          simp only [Option.bind_eq_bind, Option.bind_some, if_neg hkeep]
        · rw [List.append_cons]
          exact h'

theorem written_writeScopes (hj : json.Documented) {scopes : List (Scope Obj)}
    (h : Written before c done fields) (hc : writeScopes json masking scopes c = some c') :
    ∃ pairs fields', scopesAttributes masking scopes = some pairs ∧
      Written before c' (done ++ pairs) fields' := by
  induction scopes generalizing c done fields with
  | nil =>
    cases hc
    refine ⟨[], fields, rfl, ?_⟩
    rw [List.append_nil]
    exact h
  | cons scope scopes ih =>
    obtain ⟨c₁, hc₁, hc⟩ := Option.bind_eq_some_iff.mp hc
    have hscope : ∃ pairs fields₁, scopeAttributes masking scope = some pairs ∧
        Written before c₁ (done ++ pairs) fields₁ := by
      cases scope with
      | pairs items => exact written_writePairs hj h hc₁
      | single value =>
        obtain ⟨fields₁, h₁⟩ := written_writeAttribute hj h hc₁
        exact ⟨_, fields₁, rfl, h₁⟩
    obtain ⟨first, fields₁, hfirst, h₁⟩ := hscope
    obtain ⟨others, fields', hothers, h'⟩ := ih h₁ hc
    refine ⟨first ++ others, fields', ?_, ?_⟩
    · rw [scopesAttributes, hfirst, hothers]
      rfl
    · rw [← List.append_assoc]
      exact h'

theorem inside_writeAttributes (hj : json.Documented) {w w' : Output}
    (h : Inside before w fields) {masked : MaskedState} {scopes : List (Scope Obj)}
    (hw : writeAttributes json masking w masked scopes = some w') :
    ∃ pairs attributes, scopesAttributes masking scopes = some pairs ∧
      FirstOfEach (masked.attributes ++ pairs) attributes ∧
      Inside before w' (fields ++ [(ascii "attributes", .object attributes)]) := by
  obtain ⟨w₁, hw₁, hw⟩ := Option.bind_eq_some_iff.mp hw
  obtain ⟨c₁, hc₁, hw⟩ := Option.bind_eq_some_iff.mp hw
  obtain ⟨c₂, hc₂, hw⟩ := Option.bind_eq_some_iff.mp hw
  rw [← Option.some.inj hw]
  have hstart : Written (w₁.buffer ++ [0x7B]) (w₁.startObject, []) [] [] :=
    ⟨inside_startObject, fun _ => Iff.rfl, List.nodup_nil, fun _ => rfl⟩
  obtain ⟨fields₁, h₁⟩ := written_writeAttributeList hj hstart hc₁
  obtain ⟨pairs, attributes, hpairs, h₂⟩ := written_writeScopes hj h₁ hc₂
  rw [List.nil_append] at h₂
  exact ⟨pairs, attributes, hpairs, h₂.first,
    inside_endObject (named_propertyName hj h hw₁) h₂.inside⟩

end Attributes

/-! ## Records -/

def topLevelKeys : List Utf16 :=
  [ascii "timestamp", ascii "level", ascii "category", ascii "event_id", ascii "event_name",
    ascii "message", ascii "message_template", ascii "trace_id", ascii "span_id",
    ascii "tenant_id", ascii "user_id", ascii "attributes", ascii "exception"]

def headerFields (ambient : Ambient) (level : LogLevel) (category : Option Utf16)
    (eventId : Int32) (eventName : Option Utf16) : List (Utf16 × Value) :=
  [(ascii "timestamp", .string ambient.timestamp), (ascii "level", .string (levelName level)),
    (ascii "category", nullable category),
    (ascii "event_id", .number (Number.ofInt eventId.toInt)),
    (ascii "event_name", nullable eventName)]

def contextFields (ambient : Ambient) (message template tenantId userIdHash : Option Utf16) :
    List (Utf16 × Value) :=
  [(ascii "message", nullable message), (ascii "message_template", nullable template),
    (ascii "trace_id", nullable (ambient.trace.map Prod.fst)),
    (ascii "span_id", nullable (ambient.trace.map Prod.snd)),
    (ascii "tenant_id", nullable tenantId), (ascii "user_id", nullable userIdHash)]

def recordFields {Obj : Type} (ambient : Ambient) (entry : LogEntry Obj)
    (message template : Option Utf16) (attributes : List (Utf16 × Value)) :
    List (Utf16 × Value) :=
  headerFields ambient entry.level entry.category entry.eventId entry.eventName ++
    contextFields ambient message template ambient.tenantId ambient.userIdHash ++
    [(ascii "attributes", .object attributes),
      (ascii "exception", nullable (entry.exception.map stackTraceOf))]

def fallbackFields {Obj : Type} (ambient : Ambient) (entry : LogEntry Obj) :
    List (Utf16 × Value) :=
  headerFields ambient entry.level (entry.category.map sanitize) entry.eventId
      (entry.eventName.map sanitize) ++
    contextFields ambient none none (ambient.tenantId.map sanitize)
      (ambient.userIdHash.map sanitize) ++
    [(ascii "attributes", .object [(maskingErrorKey, .string formatterErrorValue)]),
      (ascii "exception", .null)]

/-- One object and then a newline, which occurs nowhere else. -/
structure IsLine (line : Utf16) (fields : List (Utf16 × Value)) : Prop where
  text : ∃ text, line = text ++ [newline] ∧ Denotes text (.object fields) ∧ newline ∉ text ∧
    ∀ u ∈ text, IsPlain u

section Records

variable {Obj : Type} {json : Utf8JsonWriter} {masking : ValueMasking Obj} {before : Utf16}
  {w w' : Output} {fields : List (Utf16 × Value)} {ambient later : Ambient}
  {entry : LogEntry Obj} {scopes : List (Scope Obj)} {line : Utf16}

theorem inside_writeHeader (hj : json.Documented) (h : Inside before w fields)
    {level : LogLevel} {category eventName : Option Utf16} {eventId : Int32}
    (hw : writeHeader json w ambient level category eventId eventName = some w') :
    Inside before w' (fields ++ headerFields ambient level category eventId eventName) := by
  obtain ⟨w₁, hw₁, hw⟩ := Option.bind_eq_some_iff.mp hw
  obtain ⟨w₂, hw₂, hw⟩ := Option.bind_eq_some_iff.mp hw
  obtain ⟨w₃, hw₃, hw⟩ := Option.bind_eq_some_iff.mp hw
  obtain ⟨w₄, hw₄, hw⟩ := Option.bind_eq_some_iff.mp hw
  have h₁ := inside_writeString hj h hw₁
  have h₂ := inside_writeString hj h₁ hw₂
  have h₃ := inside_writeNullableString hj h₂ hw₃
  have h₄ := inside_writeNumber hj h₃ hw₄
  have h₅ := inside_writeNullableString hj h₄ hw
  simp only [List.append_assoc, List.cons_append, List.nil_append] at h₅
  exact h₅

theorem inside_writeTraceContext (hj : json.Documented) (h : Inside before w fields)
    (hw : writeTraceContext json w ambient = some w') :
    Inside before w' (fields ++ [(ascii "trace_id", nullable (ambient.trace.map Prod.fst)),
      (ascii "span_id", nullable (ambient.trace.map Prod.snd))]) := by
  obtain ⟨w₁, hw₁, hw⟩ := Option.bind_eq_some_iff.mp hw
  have h₂ := inside_writeNullableString hj (inside_writeNullableString hj h hw₁) hw
  simp only [List.append_assoc, List.cons_append, List.nil_append] at h₂
  exact h₂

theorem isLine_endObject (h : Inside [0x7B] w fields) :
    IsLine (w.endObject.buffer ++ [newline]) fields := by
  obtain ⟨text, hbuffer, hmembers, hplain⟩ := h.text
  have hobject : w.endObject.buffer = 0x7B :: (text ++ [0x7D]) := by
    unfold Output.endObject
    rw [hbuffer]
    rfl
  have hall : ∀ u ∈ (0x7B :: (text ++ [0x7D]) : Utf16), IsPlain u := by
    intro u hu
    rcases List.mem_cons.mp hu with rfl | hu
    · decide
    · rcases List.mem_append.mp hu with hu | hu
      · exact hplain u hu
      · rw [List.mem_singleton.mp hu]
        decide
  rw [hobject]
  exact ⟨_, rfl, Denotes.object hmembers, fun hin => absurd (hall newline hin) (by decide), hall⟩

theorem isLine_formatRecord (hj : json.Documented)
    (h : formatRecord json masking ambient entry scopes = some line) :
    ∃ masked message pairs attributes, masking.process entry.state = some masked ∧
      messageOf entry masked = some message ∧ scopesAttributes masking scopes = some pairs ∧
      FirstOfEach (masked.attributes ++ pairs) attributes ∧
      IsLine line (recordFields ambient entry message masked.template attributes) := by
  obtain ⟨masked, hmasked, h⟩ := Option.bind_eq_some_iff.mp h
  obtain ⟨message, hmessage, h⟩ := Option.bind_eq_some_iff.mp h
  obtain ⟨w₁, hw₁, h⟩ := Option.bind_eq_some_iff.mp h
  obtain ⟨w₂, hw₂, h⟩ := Option.bind_eq_some_iff.mp h
  obtain ⟨w₃, hw₃, h⟩ := Option.bind_eq_some_iff.mp h
  obtain ⟨w₄, hw₄, h⟩ := Option.bind_eq_some_iff.mp h
  obtain ⟨w₅, hw₅, h⟩ := Option.bind_eq_some_iff.mp h
  obtain ⟨w₆, hw₆, h⟩ := Option.bind_eq_some_iff.mp h
  obtain ⟨w₇, hw₇, h⟩ := Option.bind_eq_some_iff.mp h
  obtain ⟨w₈, hw₈, h⟩ := Option.bind_eq_some_iff.mp h
  have h₀ : Inside [0x7B] (Output.mk [] true).startObject [] :=
    inside_startObject (w := Output.mk [] true)
  have h₁ := inside_writeHeader hj h₀ hw₁
  have h₂ := inside_writeNullableString hj h₁ hw₂
  have h₃ := inside_writeNullableString hj h₂ hw₃
  have h₄ := inside_writeTraceContext hj h₃ hw₄
  have h₅ := inside_writeNullableString hj h₄ hw₅
  have h₆ := inside_writeNullableString hj h₅ hw₆
  obtain ⟨pairs, attributes, hpairs, hfirst, h₇⟩ := inside_writeAttributes hj h₆ hw₇
  have h₈ := inside_writeNullableString hj h₇ hw₈
  refine ⟨masked, message, pairs, attributes, hmasked, hmessage, hpairs, hfirst, ?_⟩
  rw [← Option.some.inj h]
  simp only [List.append_assoc, List.cons_append, List.nil_append] at h₈
  have hline := isLine_endObject h₈
  simp only [recordFields, contextFields, List.append_assoc, List.cons_append, List.nil_append]
  exact hline

theorem isLine_formatFallback (hj : json.Documented)
    (h : formatFallback json ambient entry = some line) :
    IsLine line (fallbackFields ambient entry) := by
  obtain ⟨w₁, hw₁, h⟩ := Option.bind_eq_some_iff.mp h
  obtain ⟨w₂, hw₂, h⟩ := Option.bind_eq_some_iff.mp h
  obtain ⟨w₃, hw₃, h⟩ := Option.bind_eq_some_iff.mp h
  obtain ⟨w₄, hw₄, h⟩ := Option.bind_eq_some_iff.mp h
  obtain ⟨w₅, hw₅, h⟩ := Option.bind_eq_some_iff.mp h
  obtain ⟨w₆, hw₆, h⟩ := Option.bind_eq_some_iff.mp h
  obtain ⟨w₇, hw₇, h⟩ := Option.bind_eq_some_iff.mp h
  obtain ⟨w₈, hw₈, h⟩ := Option.bind_eq_some_iff.mp h
  obtain ⟨w₉, hw₉, h⟩ := Option.bind_eq_some_iff.mp h
  have h₀ : Inside [0x7B] (Output.mk [] true).startObject [] :=
    inside_startObject (w := Output.mk [] true)
  have h₁ := inside_writeHeader hj h₀ hw₁
  have h₂ := inside_writeNull hj h₁ hw₂
  have h₃ := inside_writeNull hj h₂ hw₃
  have h₄ := inside_writeTraceContext hj h₃ hw₄
  have h₅ := inside_writeNullableString hj h₄ hw₅
  have h₆ := inside_writeNullableString hj h₅ hw₆
  have h₇ := inside_writeString hj inside_startObject hw₈
  have h₈ := inside_endObject (named_propertyName hj h₆ hw₇) h₇
  have h₉ := inside_writeNull hj h₈ hw₉
  rw [← Option.some.inj h]
  simp only [List.append_assoc, List.cons_append, List.nil_append] at h₉
  have hline := isLine_endObject h₉
  simp only [fallbackFields, contextFields, List.append_assoc, List.cons_append, List.nil_append]
  exact hline

/-! ## The fallback writes -/

theorem exists_propertyName (hj : json.Documented) {name : Utf16} (hname : WellFormed name)
    (w : Output) : ∃ w', w.propertyName json name = some w' := by
  obtain ⟨body, hbody, -⟩ := hj.escapes name hname
  unfold Output.propertyName
  rw [hbody]
  exact ⟨_, rfl⟩

theorem exists_writeString (hj : json.Documented) {name s : Utf16} (hname : WellFormed name)
    (hs : WellFormed s) (w : Output) : ∃ w', w.writeString json name s = some w' := by
  obtain ⟨w₁, hw₁⟩ := exists_propertyName hj hname w
  obtain ⟨body, hbody, -⟩ := hj.escapes s hs
  unfold Output.writeString Output.stringValue
  rw [hw₁, hbody]
  exact ⟨_, rfl⟩

theorem exists_writeNull (hj : json.Documented) {name : Utf16} (hname : WellFormed name)
    (w : Output) : ∃ w', w.writeNull json name = some w' := by
  obtain ⟨w₁, hw₁⟩ := exists_propertyName hj hname w
  unfold Output.writeNull
  rw [hw₁]
  exact ⟨_, rfl⟩

theorem exists_writeNumber (hj : json.Documented) {name : Utf16} (hname : WellFormed name)
    (n : Int32) (w : Output) : ∃ w', w.writeNumber json name n = some w' := by
  obtain ⟨w₁, hw₁⟩ := exists_propertyName hj hname w
  unfold Output.writeNumber
  rw [hw₁]
  exact ⟨_, rfl⟩

theorem exists_writeNullableString (hj : json.Documented) {name : Utf16}
    (hname : WellFormed name) {value : Option Utf16} (hvalue : ∀ s ∈ value, WellFormed s)
    (w : Output) : ∃ w', writeNullableString json w name value = some w' := by
  cases value with
  | none => exact exists_writeNull hj hname w
  | some s => exact exists_writeString hj hname (hvalue s rfl) w

theorem wellFormed_levelName (level : LogLevel) : WellFormed (levelName level) := by
  cases level with
  | undefined n =>
    exact wellFormed_of_ascii fun u hu => (isPlain_number hu).2
  | _ => decide

theorem wellFormed_topLevelKeys : ∀ name ∈ topLevelKeys, WellFormed name := by decide

theorem wellFormed_map_sanitize (value : Option Utf16) :
    ∀ s ∈ value.map sanitize, WellFormed s := by
  intro s hs
  obtain ⟨t, -, rfl⟩ := Option.map_eq_some_iff.mp hs
  exact wellFormed_sanitize t

theorem wellFormed_trace (ambient : Ambient) :
    (∀ s ∈ ambient.trace.map Prod.fst, WellFormed s) ∧
      ∀ s ∈ ambient.trace.map Prod.snd, WellFormed s := by
  constructor
  · intro s hs
    obtain ⟨ids, hids, rfl⟩ := Option.map_eq_some_iff.mp hs
    exact wellFormed_of_ascii (ambient.trace_ascii ids hids).1
  · intro s hs
    obtain ⟨ids, hids, rfl⟩ := Option.map_eq_some_iff.mp hs
    exact wellFormed_of_ascii (ambient.trace_ascii ids hids).2

theorem exists_writeHeader (hj : json.Documented) (ambient : Ambient) (level : LogLevel)
    {category eventName : Option Utf16} (eventId : Int32)
    (hcategory : ∀ s ∈ category, WellFormed s) (hname : ∀ s ∈ eventName, WellFormed s)
    (w : Output) : ∃ w', writeHeader json w ambient level category eventId eventName = some w' := by
  have hkey := wellFormed_topLevelKeys
  obtain ⟨w₁, h₁⟩ := exists_writeString hj (hkey (ascii "timestamp") (by decide))
    (wellFormed_of_ascii ambient.timestamp_ascii) w
  obtain ⟨w₂, h₂⟩ := exists_writeString hj (hkey (ascii "level") (by decide))
    (wellFormed_levelName level) w₁
  obtain ⟨w₃, h₃⟩ := exists_writeNullableString hj (hkey (ascii "category") (by decide))
    hcategory w₂
  obtain ⟨w₄, h₄⟩ := exists_writeNumber hj (hkey (ascii "event_id") (by decide)) eventId w₃
  obtain ⟨w₅, h₅⟩ := exists_writeNullableString hj (hkey (ascii "event_name") (by decide))
    hname w₄
  refine ⟨w₅, ?_⟩
  unfold writeHeader
  simp only [Option.bind_eq_bind, h₁, h₂, h₃, h₄, h₅, Option.bind_some]

theorem exists_writeTraceContext (hj : json.Documented) (ambient : Ambient) (w : Output) :
    ∃ w', writeTraceContext json w ambient = some w' := by
  have hkey := wellFormed_topLevelKeys
  obtain ⟨htrace, hspan⟩ := wellFormed_trace ambient
  obtain ⟨w₁, h₁⟩ := exists_writeNullableString hj (hkey (ascii "trace_id") (by decide)) htrace w
  obtain ⟨w₂, h₂⟩ := exists_writeNullableString hj (hkey (ascii "span_id") (by decide)) hspan w₁
  refine ⟨w₂, ?_⟩
  unfold writeTraceContext
  simp only [Option.bind_eq_bind, h₁, h₂, Option.bind_some]

/-- Nothing that the fallback writes is refused. -/
theorem exists_formatFallback (hj : json.Documented) (ambient : Ambient) (entry : LogEntry Obj) :
    ∃ line, formatFallback json ambient entry = some line := by
  have hkey := wellFormed_topLevelKeys
  obtain ⟨w₁, h₁⟩ := exists_writeHeader hj ambient entry.level entry.eventId
    (wellFormed_map_sanitize entry.category) (wellFormed_map_sanitize entry.eventName)
    (Output.mk [] true).startObject
  obtain ⟨w₂, h₂⟩ := exists_writeNull hj (hkey (ascii "message") (by decide)) w₁
  obtain ⟨w₃, h₃⟩ := exists_writeNull hj (hkey (ascii "message_template") (by decide)) w₂
  obtain ⟨w₄, h₄⟩ := exists_writeTraceContext hj ambient w₃
  obtain ⟨w₅, h₅⟩ := exists_writeNullableString hj (hkey (ascii "tenant_id") (by decide))
    (wellFormed_map_sanitize ambient.tenantId) w₄
  obtain ⟨w₆, h₆⟩ := exists_writeNullableString hj (hkey (ascii "user_id") (by decide))
    (wellFormed_map_sanitize ambient.userIdHash) w₅
  obtain ⟨w₇, h₇⟩ := exists_propertyName hj (hkey (ascii "attributes") (by decide)) w₆
  obtain ⟨w₈, h₈⟩ := exists_writeString hj (show WellFormed maskingErrorKey by decide)
    (show WellFormed formatterErrorValue by decide) w₇.startObject
  obtain ⟨w₉, h₉⟩ := exists_writeNull hj (hkey (ascii "exception") (by decide)) w₈.endObject
  refine ⟨w₉.endObject.buffer ++ [newline], ?_⟩
  unfold formatFallback
  simp only [Option.bind_eq_bind, h₁, h₂, h₃, h₄, h₅, h₆, h₇, h₈, h₉, Option.bind_some]

end Records

/-! ## A writer, and a record whose state and scope share a key -/

/-- Some of the characters that stay as they are. -/
def isBasic (u : UInt16) : Bool :=
  (0x30 ≤ u && u ≤ 0x3A) || (0x41 ≤ u && u ≤ 0x5A) || (0x61 ≤ u && u ≤ 0x7A) ||
    [0x20, 0x2D, 0x2E, 0x5F].contains u

def hexDigit (u : UInt16) (place : ℕ) : Fin 16 :=
  ⟨u.toNat / place % 16, Nat.mod_lt _ (Nat.succ_pos 15)⟩

def escapeUnit (u : UInt16) : Utf16 :=
  if isBasic u then [u]
  else [backslash, 0x75, hexUnit (hexDigit u 0x1000), hexUnit (hexDigit u 0x100),
    hexUnit (hexDigit u 0x10), hexUnit (hexDigit u 1)]

def basicWriter : Utf8JsonWriter :=
  ⟨fun s => if WellFormed s then some (s.flatMap escapeUnit) else none⟩

theorem hexUnitValue_hexDigit (u : UInt16) : hexUnitValue (hexDigit u 0x1000) (hexDigit u 0x100)
    (hexDigit u 0x10) (hexDigit u 1) = u := by
  have hlt : u.toNat < 0x10000 := u.toNat_lt
  unfold hexUnitValue hexDigit
  dsimp only
  apply UInt16.toNat_inj.mp
  have hsum : u.toNat / 0x1000 % 16 * 0x1000 + u.toNat / 0x100 % 16 * 0x100 +
      u.toNat / 0x10 % 16 * 0x10 + u.toNat / 1 % 16 = u.toNat := by omega
  rw [hsum]
  exact Nat.mod_eq_of_lt hlt

theorem isBasic_bounds {u : UInt16} (h : isBasic u = true) :
    IsPlain u ∧ u ≠ quote ∧ u ≠ backslash := by
  unfold isBasic at h
  simp only [Bool.or_eq_true, Bool.and_eq_true, decide_eq_true_eq, List.contains_iff_mem,
    List.mem_cons, List.not_mem_nil, or_false, UInt16.le_iff_toNat_le, ← UInt16.toNat_inj] at h
  unfold IsPlain quote backslash
  simp only [ne_eq, UInt16.le_iff_toNat_le, UInt16.lt_iff_toNat_lt, ← UInt16.toNat_inj]
  simp only [UInt16.reduceToNat] at h ⊢
  omega

theorem isPlain_hexUnit (d : Fin 16) : IsPlain (hexUnit d) := by
  revert d
  decide

theorem isPlain_escapeUnit {u v : UInt16} (h : v ∈ escapeUnit u) : IsPlain v := by
  unfold escapeUnit at h
  split at h
  · rename_i hbasic
    rw [List.mem_singleton.mp h]
    exact (isBasic_bounds hbasic).1
  · simp only [List.mem_cons, List.not_mem_nil, or_false] at h
    rcases h with rfl | rfl | rfl | rfl | rfl | rfl
    · decide
    · decide
    · exact isPlain_hexUnit _
    · exact isPlain_hexUnit _
    · exact isPlain_hexUnit _
    · exact isPlain_hexUnit _

theorem stringBody_flatMap (s : Utf16) : StringBody (s.flatMap escapeUnit) s := by
  induction s with
  | nil => exact StringBody.nil
  | cons u s ih =>
    rw [List.flatMap_cons, escapeUnit]
    split
    · rename_i hbasic
      obtain ⟨hplain, hquote, hbackslash⟩ := isBasic_bounds hbasic
      exact StringBody.unit hplain.1 hquote hbackslash ih
    · have hhex := StringBody.hex (hexValue_hexUnit (hexDigit u 0x1000))
        (hexValue_hexUnit (hexDigit u 0x100)) (hexValue_hexUnit (hexDigit u 0x10))
        (hexValue_hexUnit (hexDigit u 1)) ih
      rw [hexUnitValue_hexDigit] at hhex
      exact hhex

theorem documented_basicWriter : basicWriter.Documented := by
  constructor
  · intro s hs
    refine ⟨s.flatMap escapeUnit, if_pos hs, stringBody_flatMap s, fun u hu => ?_⟩
    obtain ⟨v, -, hv⟩ := List.mem_flatMap.mp hu
    exact isPlain_escapeUnit hv
  · intro s hs
    exact if_neg hs

/-- Values that are texts and stay as they are. -/
def textMasking : ValueMasking Utf16 :=
  ⟨some, fun _ value budget => (some (.text value, false), budget)⟩

def requestEntry : LogEntry Utf16 :=
  { level := .information
    category := some (ascii "Decisya.Api")
    eventId := 7
    eventName := none
    state := .pairs [some (some (ascii "id"), ascii "7"),
      some (some originalFormatKey, ascii "request 7")]
    formatter := some (some (some (ascii "request 7")))
    exception := none }

def requestScope : Scope Utf16 :=
  .pairs [some (some (ascii "id"), ascii "8"), some (none, ascii "no key")]

theorem noon_ascii : ∀ u ∈ ascii "2026-01-01T12:00:00Z", u < 0x80 := fun _ hu =>
  (isPlain_of_all (by decide) _ hu).2

def requestTime : Ambient :=
  ⟨ascii "2026-01-01T12:00:00Z", none, none, none, noon_ascii, fun _ h => nomatch h⟩

end Decisya.Logging
