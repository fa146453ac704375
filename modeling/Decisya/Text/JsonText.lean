import Decisya.Text.Utf16
import Mathlib.Data.Nat.Digits.Defs
import Mathlib.Data.Nat.Notation
import Mathlib.Tactic.IntervalCases

/-!
# JSON texts without white space

`Denotes text value` is the grammar of JSON as far as a writer that does not indent uses it: a
text over UTF-16 code units and the value it stands for. The members of an object keep their
order.
-/

namespace Text.JsonText

set_option autoImplicit false

def quote : UInt16 := 0x22

def backslash : UInt16 := 0x5C

def comma : UInt16 := 0x2C

def colon : UInt16 := 0x3A

/-- Printable ASCII. -/
def IsPlain (u : UInt16) : Prop := 0x20 ≤ u ∧ u < 0x80

instance (u : UInt16) : Decidable (IsPlain u) := inferInstanceAs (Decidable (_ ∧ _))

/-! ## Strings -/

/-- What may follow a backslash, and what it stands for. -/
def shortEscapes : List (UInt16 × UInt16) :=
  [(0x22, 0x22), (0x5C, 0x5C), (0x2F, 0x2F), (0x62, 0x08), (0x66, 0x0C), (0x6E, 0x0A), (0x72, 0x0D),
    (0x74, 0x09)]

def hexUnitValue (a b c d : Fin 16) : UInt16 :=
  (a.val * 0x1000 + b.val * 0x100 + c.val * 0x10 + d.val).toUInt16

/-- What stands between the quotes, and the string it stands for. -/
inductive StringBody : Utf16 → Utf16 → Prop
  | nil : StringBody [] []
  | unit {u : UInt16} {body s : Utf16} : 0x20 ≤ u → u ≠ quote → u ≠ backslash →
      StringBody body s → StringBody (u :: body) (u :: s)
  | short {u v : UInt16} {body s : Utf16} : (u, v) ∈ shortEscapes → StringBody body s →
      StringBody (backslash :: u :: body) (v :: s)
  | hex {a b c d : UInt16} {a' b' c' d' : Fin 16} {body s : Utf16} : hexValue a = some a' →
      hexValue b = some b' → hexValue c = some c' → hexValue d = some d' → StringBody body s →
      StringBody (backslash :: 0x75 :: a :: b :: c :: d :: body) (hexUnitValue a' b' c' d' :: s)

/-! ## Numbers -/

def digitUnit (d : ℕ) : UInt16 := (0x30 + d % 10).toUInt16

/-- The decimal digits of a number, without leading zeros. -/
def decimalDigits (n : ℕ) : Utf16 :=
  if n = 0 then [digitUnit 0] else (Nat.digits 10 n).reverse.map digitUnit

/-- The parts of a number; a fraction without digits is left out. -/
structure Number where
  negative : Bool
  int : ℕ
  fraction : List (Fin 10)
  exponent : Option (Bool × Fin 10 × List (Fin 10))

namespace Number

def ofInt (n : ℤ) : Number := ⟨decide (n < 0), n.natAbs, [], none⟩

def fractionText (n : Number) : Utf16 :=
  if n.fraction = [] then [] else 0x2E :: n.fraction.map fun d => digitUnit d.val

def exponentText (n : Number) : Utf16 :=
  match n.exponent with
  | none => []
  | some (minus, d, ds) =>
    0x45 :: (if minus then 0x2D else 0x2B) :: (d :: ds).map fun d => digitUnit d.val

def text (n : Number) : Utf16 :=
  (if n.negative then [0x2D] else []) ++ decimalDigits n.int ++ n.fractionText ++ n.exponentText

end Number

/-! ## Values -/

inductive Value where
  | null
  | bool (b : Bool)
  | number (n : Number)
  | string (s : Utf16)
  | object (fields : List (Utf16 × Value))

def quoted (body : Utf16) : Utf16 := quote :: (body ++ [quote])

/-- One more member after those of a text. -/
def addMember (text : Utf16) (isFirst : Bool) (body value : Utf16) : Utf16 :=
  text ++ (if isFirst then [] else [comma]) ++ quoted body ++ colon :: value

mutual

inductive Denotes : Utf16 → Value → Prop
  | null : Denotes (ascii "null") .null
  | bool (b : Bool) : Denotes (ascii (if b then "true" else "false")) (.bool b)
  | number (n : Number) : Denotes n.text (.number n)
  | string {body s : Utf16} : StringBody body s → Denotes (quoted body) (.string s)
  | object {text : Utf16} {fields : List (Utf16 × Value)} : Members text fields →
      Denotes (0x7B :: (text ++ [0x7D])) (.object fields)

inductive Members : Utf16 → List (Utf16 × Value) → Prop
  | nil : Members [] []
  | snoc {text body key value : Utf16} {fields : List (Utf16 × Value)} {v : Value} :
      Members text fields → StringBody body key → Denotes value v →
      Members (addMember text fields.isEmpty body value) (fields ++ [(key, v)])

end

/-! ## Plain texts -/

theorem isPlain_digitUnit (d : ℕ) : IsPlain (digitUnit d) := by
  have hlt : d % 10 < 10 := Nat.mod_lt d (by omega)
  unfold digitUnit
  generalize d % 10 = r at hlt
  interval_cases r <;> decide

theorem isPlain_decimalDigits {n : ℕ} {u : UInt16} (h : u ∈ decimalDigits n) : IsPlain u := by
  unfold decimalDigits at h
  split at h
  · rw [List.mem_singleton.mp h]
    exact isPlain_digitUnit 0
  · obtain ⟨d, -, rfl⟩ := List.mem_map.mp h
    exact isPlain_digitUnit d

theorem isPlain_number {n : Number} {u : UInt16} (h : u ∈ n.text) : IsPlain u := by
  unfold Number.text at h
  rw [List.mem_append, List.mem_append, List.mem_append] at h
  rcases h with ((h | h) | h) | h
  · split at h
    · rw [List.mem_singleton.mp h]
      decide
    · cases h
  · exact isPlain_decimalDigits h
  · unfold Number.fractionText at h
    split at h
    · cases h
    · rcases List.mem_cons.mp h with rfl | h
      · decide
      · obtain ⟨d, -, rfl⟩ := List.mem_map.mp h
        exact isPlain_digitUnit d.val
  · unfold Number.exponentText at h
    split at h
    · cases h
    · rename_i minus d ds _
      rcases List.mem_cons.mp h with rfl | h
      · decide
      · rcases List.mem_cons.mp h with rfl | h
        · cases minus <;> decide
        · obtain ⟨d, -, rfl⟩ := List.mem_map.mp h
          exact isPlain_digitUnit d.val

theorem isPlain_quoted {body : Utf16} (hbody : ∀ u ∈ body, IsPlain u) {u : UInt16}
    (h : u ∈ quoted body) : IsPlain u := by
  rcases List.mem_cons.mp h with rfl | h
  · decide
  · rcases List.mem_append.mp h with h | h
    · exact hbody u h
    · rw [List.mem_singleton.mp h]
      decide

theorem isPlain_addMember {text body value : Utf16} {isFirst : Bool}
    (htext : ∀ u ∈ text, IsPlain u) (hbody : ∀ u ∈ body, IsPlain u)
    (hvalue : ∀ u ∈ value, IsPlain u) {u : UInt16} (h : u ∈ addMember text isFirst body value) :
    IsPlain u := by
  unfold addMember at h
  rw [List.mem_append, List.mem_append, List.mem_append, List.mem_cons] at h
  rcases h with ((h | h) | h) | rfl | h
  · exact htext u h
  · split at h
    · cases h
    · rw [List.mem_singleton.mp h]
      decide
  · exact isPlain_quoted hbody h
  · decide
  · exact hvalue u h

end Text.JsonText
