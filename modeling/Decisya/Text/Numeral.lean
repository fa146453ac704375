import Mathlib.Algebra.Ring.Nat
import Mathlib.Data.List.Basic
import Mathlib.Data.List.Induction
import Mathlib.Data.Nat.Notation

/-!
# Decimal numerals

A numeral is canonical where no shorter one has its value. The canonical numerals are what
`Nat.toDigits` writes.
-/

namespace Numeral

set_option autoImplicit false

def isDigit (c : Char) : Bool := decide (48 ≤ c.toNat) && decide (c.toNat ≤ 57)

/-- Digits, the first of which is a zero only if it is the one. -/
def isCanonical (s : List Char) : Bool :=
  !s.isEmpty && s.all isDigit && (s.head? != some '0' || s == ['0'])

def value (s : List Char) : ℕ := Nat.ofDigitChars 10 s 0

theorem isDigit_iff {c : Char} : isDigit c = true ↔ 48 ≤ c.toNat ∧ c.toNat ≤ 57 := by
  unfold isDigit
  rw [Bool.and_eq_true, decide_eq_true_iff, decide_eq_true_iff]

theorem digitChar_of_isDigit {c : Char} (h : isDigit c = true) : Nat.digitChar (c.toNat - 48) = c := by
  have hc := isDigit_iff.mp h
  have hcases : ∀ n, n ≤ 9 → Nat.digitChar n = Char.ofNat (n + 48) := by
    decide
  rw [hcases _ (by omega), Nat.sub_add_cancel hc.1, Char.ofNat_toNat]

theorem value_concat (s : List Char) (c : Char) : value (s ++ [c]) = 10 * value s + (c.toNat - 48) := by
  unfold value
  rw [Nat.ofDigitChars_append, Nat.ofDigitChars_cons, Nat.ofDigitChars_nil]
  rfl

theorem isDigit_toDigits {n : ℕ} {c : Char} (h : c ∈ Nat.toDigits 10 n) : isDigit c = true := by
  have hc := Nat.isDigit_of_mem_toDigits (by decide) (by decide) h
  rw [Char.isDigit, Bool.and_eq_true, decide_eq_true_iff, decide_eq_true_iff] at hc
  rw [isDigit_iff]
  exact ⟨hc.1, hc.2⟩

theorem value_pos {c : Char} {s : List Char} (hdigits : ∀ d ∈ c :: s, isDigit d = true) (hc : c ≠ '0') :
    0 < value (c :: s) := by
  induction s using List.reverseRecOn with
  | nil =>
    have hdigit := isDigit_iff.mp (hdigits c List.mem_cons_self)
    have hne : c.toNat ≠ 48 := by
      intro h
      apply hc
      rw [← Char.ofNat_toNat c, h]
    change 0 < 10 * 0 + (c.toNat - 48)
    omega
  | append_singleton s d ih =>
    have hrest := ih fun e he => hdigits e (by rw [← List.cons_append]; exact List.mem_append_left _ he)
    rw [← List.cons_append, value_concat]
    omega

theorem value_lt {s : List Char} (hdigits : ∀ c ∈ s, isDigit c = true) : value s < 10 ^ s.length := by
  induction s using List.reverseRecOn with
  | nil => exact Nat.one_pos
  | append_singleton s c ih =>
    have hc := isDigit_iff.mp (hdigits c (by simp))
    have hinit := ih fun d hd => hdigits d (List.mem_append_left _ hd)
    rw [value_concat, List.length_append, List.length_singleton, Nat.pow_succ]
    omega

/-- Digits that do not start with a zero are what their value is written as. -/
theorem toDigits_value_cons {c : Char} {s : List Char} (hdigits : ∀ d ∈ c :: s, isDigit d = true)
    (hc : c ≠ '0') : Nat.toDigits 10 (value (c :: s)) = c :: s := by
  induction s using List.reverseRecOn with
  | nil =>
    have hdigit := isDigit_iff.mp (hdigits c List.mem_cons_self)
    have hvalue : value [c] = c.toNat - 48 := by
      change 10 * 0 + (c.toNat - 48) = c.toNat - 48
      omega
    rw [hvalue, Nat.toDigits_of_lt_base (by omega), digitChar_of_isDigit (hdigits c List.mem_cons_self)]
  | append_singleton s d ih =>
    have hinit : ∀ e ∈ c :: s, isDigit e = true := by
      intro e he
      apply hdigits
      rw [← List.cons_append]
      exact List.mem_append_left _ he
    have hd : isDigit d = true := hdigits d (by simp)
    have hlt := isDigit_iff.mp hd
    have hpos := value_pos hinit hc
    have hdiv : (10 * value (c :: s) + (d.toNat - 48)) / 10 = value (c :: s) := by omega
    have hmod : (10 * value (c :: s) + (d.toNat - 48)) % 10 = d.toNat - 48 := by omega
    rw [← List.cons_append, value_concat, Nat.toDigits_of_base_le (by decide) (by omega), hdiv, hmod,
      ih hinit, digitChar_of_isDigit hd]

theorem isCanonical_iff (s : List Char) :
    isCanonical s = true ↔ Nat.toDigits 10 (value s) = s := by
  unfold isCanonical
  constructor
  · intro h
    simp only [Bool.and_eq_true, Bool.or_eq_true, List.all_eq_true, Bool.not_eq_true', bne_iff_ne,
      beq_iff_eq] at h
    obtain ⟨⟨hne, hdigits⟩, hzero⟩ := h
    cases s with
    | nil => cases hne
    | cons c s =>
      by_cases hc : c = '0'
      · have hone : c :: s = ['0'] := hzero.resolve_left (by simp [hc])
        rw [hone]
        rfl
      · exact toDigits_value_cons hdigits hc
  · intro h
    have hdigits : ∀ c ∈ s, isDigit c = true := by
      intro c hc
      rw [← h] at hc
      exact isDigit_toDigits hc
    cases s with
    | nil => exact absurd h Nat.toDigits_ne_nil
    | cons c s =>
      have hall : (c :: s).all isDigit = true := List.all_eq_true.mpr hdigits
      rw [hall]
      by_cases hc : c = '0'
      · cases s with
        | nil => simp [hc]
        | cons d s =>
          -- A leading zero makes the numeral longer than its value is written.
          exfalso
          have hvalue : value (c :: d :: s) = value (d :: s) := by
            subst hc
            unfold value
            rw [Nat.ofDigitChars_cons]
            rfl
          have hlong : (Nat.toDigits 10 (value (d :: s))).length ≤ (d :: s).length := by
            rw [Nat.length_toDigits_le_iff (by decide) (by simp)]
            exact value_lt fun e he => hdigits e (List.mem_cons_of_mem c he)
          rw [← hvalue, h] at hlong
          simp only [List.length_cons] at hlong
          omega
      · simp [hc]

end Numeral
