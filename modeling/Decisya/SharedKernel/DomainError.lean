import Decisya.Text.Utf16
import Mathlib.Computability.RegularExpressions
import Mathlib.Data.Nat.Notation

/-!
# Domain errors and their codes

`New` checks the code with a loop over its characters that remembers whether a segment has just
begun. What the loop accepts is the language of the documented expression, up to the length.
-/

namespace Decisya.SharedKernel

open Text

set_option autoImplicit false

/-! ## The constructor -/

structure DomainError where
  code : Utf16
  message : Utf16
  category : Int32

/-- What `New` throws, with the parameter it names. -/
inductive ArgumentError where
  | null (paramName : String)
  | outOfRange (paramName : String) (actual : Int32) (message : String)
  | invalid (message : String) (paramName : String)

namespace DomainError

def maxCodeLength : ℕ := 100

/-- `Failure`, `Validation`, `NotFound`, `Conflict` and `Forbidden`. -/
def isDefined (category : Int32) : Bool := [0, 1, 2, 3, 4].contains category

def dot : UInt16 := 0x2E

def isLower (c : UInt16) : Bool := 0x61 ≤ c && c ≤ 0x7A

def isWord (c : UInt16) : Bool := isLower c || (0x30 ≤ c && c ≤ 0x39) || c == 0x5F

/-- The loop, with its flag. -/
def scanCode (atSegmentStart : Bool) : Utf16 → Bool
  | [] => !atSegmentStart
  | c :: rest =>
    if c = dot then
      if atSegmentStart then false else scanCode true rest
    else if atSegmentStart then
      if isLower c then scanCode false rest else false
    else if isWord c then scanCode false rest
    else false

def isValidCode (code : Utf16) : Bool :=
  if code.length = 0 ∨ maxCodeLength < code.length then false else scanCode true code

def categoryMessage : String := "The error category is not a recognised ErrorCategory value."

def codeMessage : String :=
  "The error code must be a non-empty, lower-case, dot-separated identifier matching " ++
    "^[a-z][a-z0-9_]*(\\.[a-z][a-z0-9_]*)*$."

/-- `New`; null is `none`. -/
def new (code message : Option Utf16) (category : Int32) : Except ArgumentError DomainError :=
  match code, message with
  | none, _ => .error (.null "code")
  | some _, none => .error (.null "message")
  | some code, some message =>
    if !isDefined category then .error (.outOfRange "category" category categoryMessage)
    else if !isValidCode code then .error (.invalid codeMessage "code")
    else .ok ⟨code, message, category⟩

/-! ## The documented expression -/

/-- A class of characters. -/
def anyOf (cs : List UInt16) : RegularExpression UInt16 :=
  (cs.map RegularExpression.char).foldr (· + ·) 0

/-- The characters from one to another. -/
def range (first last : ℕ) : List UInt16 :=
  (List.range' first (last + 1 - first)).map Nat.toUInt16

/-- `[a-z]` -/
def letters : List UInt16 := range 0x61 0x7A

/-- `[a-z0-9_]` -/
def wordCharacters : List UInt16 := range 0x61 0x7A ++ range 0x30 0x39 ++ [0x5F]

/-- `[a-z][a-z0-9_]*` -/
def segment : RegularExpression UInt16 := anyOf letters * (anyOf wordCharacters).star

/-- `[a-z][a-z0-9_]*(\.[a-z][a-z0-9_]*)*` -/
def documented : RegularExpression UInt16 :=
  segment * (RegularExpression.char dot * segment).star

/-! ## Classes -/

theorem mem_range {first last : ℕ} (hlast : last < 0x10000) {c : UInt16} :
    c ∈ range first last ↔ first ≤ c.toNat ∧ c.toNat ≤ last := by
  unfold range
  rw [List.mem_map]
  constructor
  · rintro ⟨n, hn, rfl⟩
    rw [List.mem_range'_1] at hn
    have hmod : n.toUInt16.toNat = n := Nat.mod_eq_of_lt (by omega)
    omega
  · rintro ⟨hle, hge⟩
    refine ⟨c.toNat, List.mem_range'_1.mpr (by omega), ?_⟩
    apply UInt16.toNat_inj.mp
    exact Nat.mod_eq_of_lt c.toNat_lt

theorem mem_letters {c : UInt16} : c ∈ letters ↔ isLower c = true := by
  unfold letters isLower
  rw [mem_range (by omega), Bool.and_eq_true, decide_eq_true_eq, decide_eq_true_eq,
    UInt16.le_iff_toNat_le, UInt16.le_iff_toNat_le]
  exact Iff.rfl

theorem mem_wordCharacters {c : UInt16} : c ∈ wordCharacters ↔ isWord c = true := by
  have hdigit : c ∈ range 0x30 0x39 ↔ (0x30 ≤ c && c ≤ 0x39) = true := by
    rw [mem_range (by omega), Bool.and_eq_true, decide_eq_true_eq, decide_eq_true_eq,
      UInt16.le_iff_toNat_le, UInt16.le_iff_toNat_le]
    exact Iff.rfl
  have hletter : c ∈ range 0x61 0x7A ↔ isLower c = true := mem_letters
  unfold wordCharacters isWord
  rw [List.mem_append, List.mem_append, List.mem_singleton, hletter, hdigit, Bool.or_eq_true,
    Bool.or_eq_true, beq_iff_eq]

theorem dot_not_word : isWord dot = false := by decide

theorem dot_not_lower : isLower dot = false := by decide

/-! ## Languages -/

theorem mem_matches_anyOf {cs : List UInt16} {s : Utf16} :
    s ∈ (anyOf cs).matches' ↔ ∃ c ∈ cs, s = [c] := by
  induction cs with
  | nil =>
    simp only [anyOf, List.map_nil, List.foldr_nil, RegularExpression.matches'_zero,
      Language.notMem_zero, List.not_mem_nil, false_and, exists_false]
  | cons c cs ih =>
    have hstep : (anyOf (c :: cs)).matches' = {[c]} + (anyOf cs).matches' := by
      unfold anyOf
      rw [List.map_cons, List.foldr_cons, RegularExpression.matches'_add,
        RegularExpression.matches'_char]
    rw [hstep, Language.mem_add, ih, List.exists_mem_cons_iff]
    exact Iff.rfl

/-- A character of the class, then the rest. -/
theorem cons_mem_class_mul {cs : List UInt16} {l : Language UInt16} {c : UInt16} {s : Utf16} :
    c :: s ∈ (anyOf cs).matches' * l ↔ c ∈ cs ∧ s ∈ l := by
  rw [Language.mem_mul]
  constructor
  · rintro ⟨a, ha, b, hb, heq⟩
    obtain ⟨d, hd, rfl⟩ := mem_matches_anyOf.mp ha
    rw [List.singleton_append, List.cons.injEq] at heq
    rw [← heq.1, ← heq.2]
    exact ⟨hd, hb⟩
  · rintro ⟨hc, hs⟩
    exact ⟨[c], mem_matches_anyOf.mpr ⟨c, hc, rfl⟩, s, hs, rfl⟩

theorem nil_not_mem_class_mul {cs : List UInt16} {l : Language UInt16} :
    [] ∉ (anyOf cs).matches' * l := by
  rw [Language.mem_mul]
  rintro ⟨a, ha, b, -, heq⟩
  obtain ⟨d, -, rfl⟩ := mem_matches_anyOf.mp ha
  cases heq

theorem matches_char_eq_anyOf (c : UInt16) :
    (RegularExpression.char c).matches' = (anyOf [c]).matches' := by
  apply Language.ext
  intro s
  rw [mem_matches_anyOf, RegularExpression.matches'_char]
  constructor
  · intro h
    exact ⟨c, List.mem_singleton.mpr rfl, h⟩
  · rintro ⟨d, hd, rfl⟩
    rw [List.mem_singleton.mp hd]
    exact rfl

/-- What may follow a segment. -/
def moreSegments : Language UInt16 := (RegularExpression.char dot * segment).star.matches'

/-- What may follow the first letter of a segment. -/
def restOfSegment : Language UInt16 := (anyOf wordCharacters).star.matches' * moreSegments

theorem matches_documented :
    documented.matches' = (anyOf letters).matches' * restOfSegment := by
  unfold documented restOfSegment moreSegments segment
  simp only [RegularExpression.matches'_mul, RegularExpression.matches'_star, mul_assoc]

theorem moreSegments_eq :
    moreSegments = 1 + (anyOf [dot]).matches' * documented.matches' := by
  unfold moreSegments documented
  rw [RegularExpression.matches'_star, ← Language.one_add_self_mul_kstar_eq_kstar,
    RegularExpression.matches'_mul, RegularExpression.matches'_mul, matches_char_eq_anyOf,
    mul_assoc, RegularExpression.matches'_star, RegularExpression.matches'_mul,
    matches_char_eq_anyOf]

theorem restOfSegment_eq :
    restOfSegment = moreSegments + (anyOf wordCharacters).matches' * restOfSegment := by
  unfold restOfSegment
  rw [RegularExpression.matches'_star, ← mul_assoc, ← one_add_mul,
    Language.one_add_self_mul_kstar_eq_kstar]

theorem nil_mem_restOfSegment : [] ∈ restOfSegment := by
  rw [restOfSegment_eq, moreSegments_eq, Language.mem_add, Language.mem_add]
  exact Or.inl (Or.inl Language.nil_mem_one)

theorem cons_mem_restOfSegment {c : UInt16} {s : Utf16} : c :: s ∈ restOfSegment ↔
    c = dot ∧ s ∈ documented.matches' ∨ isWord c = true ∧ s ∈ restOfSegment := by
  rw [restOfSegment_eq, moreSegments_eq, Language.mem_add, Language.mem_add, cons_mem_class_mul,
    cons_mem_class_mul, List.mem_singleton, mem_wordCharacters, ← moreSegments_eq,
    ← restOfSegment_eq]
  have hone : c :: s ∉ (1 : Language UInt16) := by
    rw [Language.mem_one]
    exact List.cons_ne_nil c s
  simp only [hone, false_or]

theorem cons_mem_documented {c : UInt16} {s : Utf16} :
    c :: s ∈ documented.matches' ↔ isLower c = true ∧ s ∈ restOfSegment := by
  rw [matches_documented, cons_mem_class_mul, mem_letters]

/-! ## The loop -/

/-- At the start of a segment the loop accepts the expression, and behind it what may follow. -/
theorem scanCode_iff (s : Utf16) : (scanCode true s = true ↔ s ∈ documented.matches') ∧
    (scanCode false s = true ↔ s ∈ restOfSegment) := by
  induction s with
  | nil =>
    constructor
    · rw [matches_documented]
      exact iff_of_false (by decide) nil_not_mem_class_mul
    · exact iff_of_true rfl nil_mem_restOfSegment
  | cons c s ih =>
    rw [cons_mem_documented, cons_mem_restOfSegment]
    unfold scanCode
    by_cases hdot : c = dot
    · rw [if_pos hdot, if_pos hdot, if_pos rfl, if_neg Bool.false_ne_true, hdot, dot_not_word,
        dot_not_lower, ih.1]
      simp only [Bool.false_eq_true, false_and, or_false, true_and, iff_self, and_self]
    · rw [if_neg hdot, if_neg hdot, if_pos rfl, if_neg Bool.false_ne_true]
      constructor
      · cases hlower : isLower c with
        | true => simp only [if_true, ih.2, true_and]
        | false => simp only [Bool.false_eq_true, if_false, false_and]
      · cases hword : isWord c with
        | true => simp only [if_true, ih.2, true_and, hdot, false_and, false_or]
        | false => simp only [Bool.false_eq_true, if_false, false_and, hdot, or_self]

theorem isValidCode_iff (code : Utf16) : isValidCode code = true ↔
    (1 ≤ code.length ∧ code.length ≤ maxCodeLength) ∧ code ∈ documented.matches' := by
  unfold isValidCode
  split
  · rename_i hlength
    constructor
    · intro h
      cases h
    · rintro ⟨⟨hpos, hmax⟩, -⟩
      omega
  · rename_i hlength
    rw [(scanCode_iff code).1]
    constructor
    · intro h
      exact ⟨by omega, h⟩
    · rintro ⟨-, h⟩
      exact h

theorem new_eq_ok_iff {code message : Option Utf16} {category : Int32} {e : DomainError} :
    new code message category = .ok e ↔
      code = some e.code ∧ message = some e.message ∧ category = e.category ∧
        isDefined e.category = true ∧ isValidCode e.code = true := by
  unfold new
  split
  · simp
  · simp
  · rename_i code message
    cases hdefined : isDefined category with
    | false =>
      simp only [Bool.not_false, if_true]
      constructor
      · intro h
        cases h
      · rintro ⟨-, -, rfl, hd, -⟩
        rw [hdefined] at hd
        cases hd
    | true =>
      cases hvalid : isValidCode code with
      | false =>
        simp only [Bool.not_true, Bool.false_eq_true, if_false, Bool.not_false, if_true]
        constructor
        · intro h
          cases h
        · rintro ⟨hcode, -, -, -, hv⟩
          rw [← Option.some.inj hcode, hvalid] at hv
          cases hv
      | true =>
        simp only [Bool.not_true, Bool.false_eq_true, if_false]
        constructor
        · intro h
          cases h
          exact ⟨rfl, rfl, rfl, hdefined, hvalid⟩
        · rintro ⟨hcode, hmessage, hcategory, -, -⟩
          rw [Option.some.inj hcode, Option.some.inj hmessage, hcategory]

/-- The checker accepts the codes of the documented expression that are not too long, and `New`
throws for every other code and for no such one. -/
theorem isValidCode_documented :
    (∀ code, isValidCode code = true ↔
      (1 ≤ code.length ∧ code.length ≤ maxCodeLength) ∧ code ∈ documented.matches') ∧
    ∀ code message category, (∃ e, new code message category = .ok e) ↔
      (∃ c, code = some c ∧ (1 ≤ c.length ∧ c.length ≤ maxCodeLength) ∧
        c ∈ documented.matches') ∧ (∃ m, message = some m) ∧ isDefined category = true := by
  refine ⟨isValidCode_iff, fun code message category => ?_⟩
  constructor
  · rintro ⟨e, he⟩
    obtain ⟨hcode, hmessage, hcategory, hdefined, hvalid⟩ := new_eq_ok_iff.mp he
    rw [hcategory]
    exact ⟨⟨e.code, hcode, (isValidCode_iff e.code).mp hvalid⟩, ⟨e.message, hmessage⟩, hdefined⟩
  · rintro ⟨⟨c, hcode, hc⟩, ⟨m, hm⟩, hdefined⟩
    exact ⟨⟨c, m, category⟩,
      new_eq_ok_iff.mpr ⟨hcode, hm, rfl, hdefined, (isValidCode_iff c).mpr hc⟩⟩

end DomainError

end Decisya.SharedKernel
