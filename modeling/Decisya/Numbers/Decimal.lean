import Mathlib.Algebra.Order.Field.Rat
import Mathlib.Data.Rat.Cast.Defs
import Mathlib.Tactic.FieldSimp
import Mathlib.Tactic.Linarith
import Mathlib.Tactic.NormNum
import Mathlib.Tactic.Positivity
import Mathlib.Tactic.Ring

/-!
# Decimal numbers of 96 bits

The `decimal` of .NET: a mantissa below 2^96 and a scale of at most 28. A result that does not
fit loses decimals, rounded half to even, until it does; without decimals left it overflows.
-/

namespace Decimal

set_option autoImplicit false

def maxMantissa : ℕ := 2 ^ 96

def maxScale : ℕ := 28

/-! ## Rounding -/

/-- `n / d` to the nearest integer, half way to the even one. -/
def roundNat (n d : ℕ) : ℕ :=
  n / d + if d < 2 * (n % d) ∨ 2 * (n % d) = d ∧ n / d % 2 = 1 then 1 else 0

def roundInt (n : ℤ) (d : ℕ) : ℤ := n.sign * roundNat n.natAbs d

theorem roundNat_mul (m : ℕ) {d : ℕ} (hd : 0 < d) : roundNat (m * d) d = m := by
  unfold roundNat
  rw [Nat.mul_mod_left, Nat.mul_div_cancel m hd, if_neg]
  · rfl
  · omega

theorem roundInt_mul (m : ℤ) {d : ℕ} (hd : 0 < d) : roundInt (m * d) d = m := by
  have hsign : (m * (d : ℤ)).sign = m.sign := by
    rw [Int.sign_mul, Int.sign_natCast_of_ne_zero (by omega), Int.mul_one]
  unfold roundInt
  rw [hsign, Int.natAbs_mul, Int.natAbs_natCast, roundNat_mul _ hd, Int.sign_mul_natAbs]

theorem natAbs_roundInt (n : ℤ) (d : ℕ) : (roundInt n d).natAbs = roundNat n.natAbs d := by
  unfold roundInt
  rcases lt_trichotomy n 0 with h | h | h
  · simp [Int.sign_eq_neg_one_of_neg h]
  · subst h
    simp [roundNat]
  · simp [Int.sign_eq_one_of_pos h]

theorem roundInt_neg (n : ℤ) (d : ℕ) : roundInt (-n) d = -roundInt n d := by
  unfold roundInt
  rw [Int.sign_neg, Int.natAbs_neg, Int.neg_mul]

/-- From half below a power of two on, an odd quotient is rounded up to it. -/
theorem le_roundNat {n d b : ℕ} (hd : 0 < d) (hb : 0 < b) (h : (4 * b - 1) * d ≤ 2 * n) :
    2 * b ≤ roundNat n d := by
  have hn := Nat.div_add_mod n d
  have hr := Nat.mod_lt n hd
  set q := n / d
  set r := n % d
  unfold roundNat
  rcases Nat.lt_trichotomy q (2 * b - 1) with hq | hq | hq
  · have hle : d * q ≤ d * (2 * b - 2) := Nat.mul_le_mul_left d (by omega)
    have hmul : (4 * b - 1) * d = 2 * (d * (2 * b - 2)) + 3 * d := by
      have hb' : 4 * b - 1 = 2 * (2 * b - 2) + 3 := by omega
      rw [hb']
      ring
    omega
  · have hmul : (4 * b - 1) * d = 2 * (d * q) + d := by
      have hb' : 4 * b - 1 = 2 * q + 1 := by omega
      rw [hb']
      ring
    have hup : d < 2 * r ∨ 2 * r = d ∧ q % 2 = 1 := by omega
    rw [if_pos hup]
    omega
  · omega

theorem roundNat_lt {n d b : ℕ} (hd : 0 < d) (hb : 0 < b) (h : 2 * n < (4 * b - 1) * d) :
    roundNat n d < 2 * b := by
  have hn := Nat.div_add_mod n d
  set q := n / d
  set r := n % d
  unfold roundNat
  rcases Nat.lt_trichotomy q (2 * b - 1) with hq | hq | hq
  · split <;> omega
  · have hmul : (4 * b - 1) * d = 2 * (d * q) + d := by
      have hb' : 4 * b - 1 = 2 * q + 1 := by omega
      rw [hb']
      ring
    have hno : ¬ (d < 2 * r ∨ 2 * r = d ∧ q % 2 = 1) := by omega
    rw [if_neg hno]
    omega
  · have hle : d * (2 * b) ≤ d * q := Nat.mul_le_mul_left d (by omega)
    have hmul : (4 * b - 1) * d + d = 2 * (d * (2 * b)) := by
      have hb' : 2 * (d * (2 * b)) = (4 * b - 1 + 1) * d := by
        rw [Nat.sub_add_cancel (by omega)]
        ring
      rw [hb']
      ring
    omega

end Decimal

/-! ## Numbers -/

structure Decimal where
  mantissa : ℤ
  scale : ℕ
  mantissa_lt : mantissa.natAbs < Decimal.maxMantissa
  scale_le : scale ≤ Decimal.maxScale
  deriving DecidableEq

namespace Decimal

def value (d : Decimal) : ℚ := d.mantissa / 10 ^ d.scale

instance : Zero Decimal := ⟨⟨0, 0, by decide, by decide⟩⟩

@[simp] theorem mantissa_zero : (0 : Decimal).mantissa = 0 := rfl

@[simp] theorem value_zero : (0 : Decimal).value = 0 := by simp [value]

def neg (d : Decimal) : Decimal := ⟨-d.mantissa, d.scale, by simpa using d.mantissa_lt, d.scale_le⟩

@[simp] theorem value_neg (d : Decimal) : d.neg.value = -d.value := by
  simp [value, neg, neg_div]

@[simp] theorem neg_neg (d : Decimal) : d.neg.neg = d := by
  simp [neg]

/-- Equality of decimals is by value. -/
def equals (d e : Decimal) : Bool :=
  d.mantissa * 10 ^ e.scale == e.mantissa * 10 ^ d.scale

theorem equals_iff {d e : Decimal} : d.equals e = true ↔ d.value = e.value := by
  unfold equals value
  rw [beq_iff_eq, div_eq_div_iff (by positivity) (by positivity)]
  constructor
  · intro h
    exact_mod_cast h
  · intro h
    exact_mod_cast h

def isNegative (d : Decimal) : Bool := d.mantissa < 0

/-- `n` at the scale, with so many of its digits dropped as have to be. -/
def fit (n : ℤ) (dropped : ℕ) : (scale : ℕ) → scale ≤ maxScale → Option Decimal
  | 0, hs =>
    if h : (roundInt n (10 ^ dropped)).natAbs < maxMantissa then
      some ⟨roundInt n (10 ^ dropped), 0, h, hs⟩
    else none
  | s + 1, hs =>
    if h : (roundInt n (10 ^ dropped)).natAbs < maxMantissa then
      some ⟨roundInt n (10 ^ dropped), s + 1, h, hs⟩
    else fit n (dropped + 1) s (Nat.le_of_succ_le hs)

def add (d e : Decimal) : Option Decimal :=
  let s := max d.scale e.scale
  fit (d.mantissa * 10 ^ (s - d.scale) + e.mantissa * 10 ^ (s - e.scale)) 0 s
    (max_le d.scale_le e.scale_le)

def sub (d e : Decimal) : Option Decimal := d.add e.neg

def mul (d e : Decimal) : Option Decimal :=
  let s := d.scale + e.scale
  fit (d.mantissa * e.mantissa) (s - maxScale) (min s maxScale) (min_le_right s maxScale)

/-- `decimal.Round(d, digits, MidpointRounding.ToEven)` -/
def round (d : Decimal) (digits : ℕ) : Decimal :=
  if h : d.scale ≤ digits then d
  else
    ⟨roundInt d.mantissa (10 ^ (d.scale - digits)), digits, by
      have hlt := d.mantissa_lt
      have hbig : 10 ≤ 10 ^ (d.scale - digits) :=
        Nat.le_self_pow (by omega) 10
      rw [natAbs_roundInt]
      have hbound : roundNat d.mantissa.natAbs (10 ^ (d.scale - digits)) < 2 * 2 ^ 95 := by
        apply roundNat_lt (by omega) (by norm_num)
        have hmul : (4 * 2 ^ 95 - 1) * 10 ≤ (4 * 2 ^ 95 - 1) * 10 ^ (d.scale - digits) :=
          Nat.mul_le_mul_left _ hbig
        unfold maxMantissa at hlt
        omega
      unfold maxMantissa
      omega, by
      have hs := d.scale_le
      omega⟩

def int64Bound : ℕ := 0x8000000000000000

/-- `decimal.ToInt64`: the fraction is dropped; none outside the range of `long`. -/
def toInt64 (d : Decimal) : Option ℤ :=
  let n := d.mantissa.tdiv (10 ^ d.scale)
  if -(int64Bound : ℤ) ≤ n ∧ n < int64Bound then some n else none

/-- Decimals at the end that are zero are dropped. -/
def strip (m : ℤ) (hm : m.natAbs < maxMantissa) : (scale : ℕ) → scale ≤ maxScale → Decimal
  | 0, hs => ⟨m, 0, hm, hs⟩
  | s + 1, hs =>
    if m % 10 = 0 then
      strip (m / 10) (by omega) s (Nat.le_of_succ_le hs)
    else ⟨m, s + 1, hm, hs⟩

/-- The quotient of an integer by a power of ten. -/
def divPow10 (n : ℤ) (digits : ℕ) : Option Decimal :=
  if h : n.natAbs < maxMantissa ∧ digits ≤ maxScale then some (strip n h.1 digits h.2) else none

/-! ## When a result is exact -/

/-- The digits dropped are the fewest after which the rest fits. -/
theorem fit_spec {n : ℤ} {dropped s : ℕ} {hs : s ≤ maxScale} {d : Decimal}
    (h : fit n dropped s hs = some d) :
    d.scale ≤ s ∧ d.mantissa = roundInt n (10 ^ (dropped + (s - d.scale))) ∧
      ∀ k < s - d.scale, maxMantissa ≤ (roundInt n (10 ^ (dropped + k))).natAbs := by
  induction s generalizing dropped with
  | zero =>
    unfold fit at h
    split at h
    · cases h
      exact ⟨le_refl 0, rfl, fun k hk => absurd hk (Nat.not_lt_zero k)⟩
    · cases h
  | succ s ih =>
    unfold fit at h
    split at h
    · cases h
      refine ⟨le_refl (s + 1), ?_, ?_⟩
      · dsimp only
        rw [Nat.sub_self, Nat.add_zero]
      · intro k hk
        dsimp only at hk
        omega
    · rename_i hbig
      obtain ⟨hle, hm, hmin⟩ := ih h
      refine ⟨Nat.le_succ_of_le hle, ?_, ?_⟩
      · have hexp : dropped + 1 + (s - d.scale) = dropped + (s + 1 - d.scale) := by omega
        rw [hm, hexp]
      · intro k hk
        cases k with
        | zero =>
          rw [Nat.add_zero]
          omega
        | succ k =>
          have hstep := hmin k (by omega)
          rwa [Nat.add_assoc, Nat.add_comm 1 k] at hstep

theorem fit_eq_none {n : ℤ} {dropped s : ℕ} {hs : s ≤ maxScale} :
    fit n dropped s hs = none ↔
      ∀ k ≤ s, maxMantissa ≤ (roundInt n (10 ^ (dropped + k))).natAbs := by
  induction s generalizing dropped with
  | zero =>
    unfold fit
    split
    · rename_i hlt
      refine iff_of_false (by simp) ?_
      intro hall
      have hge := hall 0 (le_refl 0)
      rw [Nat.add_zero] at hge
      omega
    · rename_i hge
      refine iff_of_true rfl ?_
      intro k hk
      rw [Nat.le_zero.mp hk, Nat.add_zero]
      omega
  | succ s ih =>
    unfold fit
    split
    · rename_i hlt
      refine iff_of_false (by simp) ?_
      intro hall
      have hge := hall 0 (Nat.zero_le _)
      rw [Nat.add_zero] at hge
      omega
    · rename_i hge
      rw [ih]
      constructor
      · intro hall k hk
        cases k with
        | zero =>
          rw [Nat.add_zero]
          omega
        | succ k =>
          have hstep := hall k (by omega)
          rwa [Nat.add_assoc, Nat.add_comm 1 k] at hstep
      · intro hall k hk
        have hstep := hall (k + 1) (by omega)
        rwa [Nat.add_comm k 1, ← Nat.add_assoc] at hstep

/-- The value of `n` at a scale. -/
def scaled (n : ℤ) (s : ℕ) : ℚ := n / 10 ^ s

theorem value_eq_scaled_iff {d : Decimal} {n : ℤ} {s : ℕ} :
    d.value = scaled n s ↔ d.mantissa * 10 ^ s = n * 10 ^ d.scale := by
  unfold value scaled
  rw [div_eq_div_iff (by positivity) (by positivity)]
  constructor
  · intro h
    exact_mod_cast h
  · intro h
    exact_mod_cast h

theorem roundInt_of_dvd {m : ℤ} (k : ℕ) : roundInt (10 ^ k * m) (10 ^ k) = m := by
  have hmul := roundInt_mul m (d := 10 ^ k) (by positivity)
  push_cast at hmul
  rw [Int.mul_comm]
  exact hmul

/-- Digits that are dropped and were zero change nothing. -/
theorem value_of_dvd {n : ℤ} {s : ℕ} {d : Decimal} (hle : d.scale ≤ s)
    (hm : d.mantissa = roundInt n (10 ^ (s - d.scale))) (hdvd : (10 : ℤ) ^ (s - d.scale) ∣ n) :
    d.value = scaled n s := by
  obtain ⟨m, rfl⟩ := hdvd
  rw [value_eq_scaled_iff, hm, roundInt_of_dvd]
  have hpow : (10 : ℤ) ^ s = 10 ^ (s - d.scale) * 10 ^ d.scale := by
    rw [← pow_add, Nat.sub_add_cancel hle]
  rw [hpow]
  ring

/-- A decimal of the value is a way to drop digits that are zero and fit in what is left. -/
theorem exists_dropped {n : ℤ} {s : ℕ} {e : Decimal} (he : e.value = scaled n s) :
    ∃ k ≤ s, (10 : ℤ) ^ k ∣ n ∧ (roundInt n (10 ^ k)).natAbs < maxMantissa := by
  rw [value_eq_scaled_iff] at he
  rcases Nat.le_total e.scale s with hle | hle
  · have hpow : (10 : ℤ) ^ s = 10 ^ (s - e.scale) * 10 ^ e.scale := by
      rw [← pow_add, Nat.sub_add_cancel hle]
    have hn : n = 10 ^ (s - e.scale) * e.mantissa := by
      rw [hpow, ← Int.mul_assoc] at he
      rw [← Int.eq_of_mul_eq_mul_right (by positivity) he, Int.mul_comm]
    refine ⟨s - e.scale, Nat.sub_le _ _, ⟨e.mantissa, hn⟩, ?_⟩
    rw [hn, roundInt_of_dvd]
    exact e.mantissa_lt
  · have hpow : (10 : ℤ) ^ e.scale = 10 ^ (e.scale - s) * 10 ^ s := by
      rw [← pow_add, Nat.sub_add_cancel hle]
    have hm : e.mantissa = n * 10 ^ (e.scale - s) := by
      rw [hpow, ← Int.mul_assoc] at he
      exact Int.eq_of_mul_eq_mul_right (by positivity) he
    refine ⟨0, Nat.zero_le s, by simp, ?_⟩
    have hround := roundInt_of_dvd (m := n) 0
    rw [pow_zero, Int.one_mul] at hround
    rw [hround]
    have hlt := e.mantissa_lt
    rw [hm, Int.natAbs_mul, Int.natAbs_pow] at hlt
    have hone : 1 ≤ Int.natAbs 10 ^ (e.scale - s) := Nat.one_le_pow _ _ (by decide)
    have hmul : n.natAbs * 1 ≤ n.natAbs * Int.natAbs 10 ^ (e.scale - s) :=
      Nat.mul_le_mul_left _ hone
    omega

/-- What has a decimal of its value is fitted without loss. -/
theorem fit_exact {n : ℤ} {s : ℕ} {hs : s ≤ maxScale} {e : Decimal} (he : e.value = scaled n s) :
    ∃ d, fit n 0 s hs = some d ∧ d.value = scaled n s := by
  obtain ⟨k, hk, hdvd, hfits⟩ := exists_dropped he
  cases hfit : fit n 0 s hs with
  | none =>
    have hbig := fit_eq_none.mp hfit k hk
    rw [Nat.zero_add] at hbig
    omega
  | some d =>
    obtain ⟨hle, hm, hmin⟩ := fit_spec hfit
    rw [Nat.zero_add] at hm
    refine ⟨d, rfl, value_of_dvd hle hm ?_⟩
    have hfew : s - d.scale ≤ k := by
      by_contra hmore
      have hbig := hmin k (by omega)
      rw [Nat.zero_add] at hbig
      omega
    exact (pow_dvd_pow 10 hfew).trans hdvd

/-- At most half below 2^96 something fits; from there on nothing does. -/
theorem fit_eq_none_iff {n : ℤ} {s : ℕ} {hs : s ≤ maxScale} :
    fit n 0 s hs = none ↔ (2 * maxMantissa - 1) * 10 ^ s ≤ 2 * n.natAbs := by
  have htwo : 2 * maxMantissa - 1 = 4 * 2 ^ 95 - 1 := by decide
  have hmax : maxMantissa = 2 * 2 ^ 95 := by decide
  rw [fit_eq_none, htwo]
  constructor
  · intro hall
    by_contra hlt
    have hbig := hall s (le_refl s)
    have hsmall := roundNat_lt (n := n.natAbs) (d := 10 ^ s) (b := 2 ^ 95) (by positivity)
      (by positivity) (Nat.lt_of_not_le hlt)
    rw [Nat.zero_add, natAbs_roundInt] at hbig
    omega
  · intro hge k hk
    rw [Nat.zero_add, natAbs_roundInt, hmax]
    apply le_roundNat (by positivity) (by positivity)
    have hpow : 10 ^ k ≤ 10 ^ s := Nat.pow_le_pow_right (by decide) hk
    exact (Nat.mul_le_mul_left _ hpow).trans hge

/-! ## Sums and products -/

/-- Where no rounding can save the result from overflow. -/
def Overflows (x : ℚ) : Prop := (maxMantissa : ℚ) - 1 / 2 ≤ |x|

theorem overflows_scaled_iff {n : ℤ} {s : ℕ} :
    Overflows (scaled n s) ↔ (2 * maxMantissa - 1) * 10 ^ s ≤ 2 * n.natAbs := by
  have hpow : (0 : ℚ) < 10 ^ s := by positivity
  have habs : |scaled n s| = (n.natAbs : ℚ) / 10 ^ s := by
    unfold scaled
    rw [abs_div, abs_of_pos hpow, Nat.cast_natAbs, Int.cast_abs]
  have hone : 1 ≤ 2 * maxMantissa := by decide
  unfold Overflows
  rw [habs, le_div_iff₀ hpow]
  constructor
  · intro h
    have hcast : (((2 * maxMantissa - 1) * 10 ^ s : ℕ) : ℚ) ≤ ((2 * n.natAbs : ℕ) : ℚ) := by
      push_cast [Nat.cast_sub hone]
      linarith
    exact_mod_cast hcast
  · intro h
    have hcast : (((2 * maxMantissa - 1) * 10 ^ s : ℕ) : ℚ) ≤ ((2 * n.natAbs : ℕ) : ℚ) :=
      Nat.cast_le.mpr h
    push_cast [Nat.cast_sub hone] at hcast
    linarith

theorem fit_eq_none_iff_overflows {n : ℤ} {s : ℕ} {hs : s ≤ maxScale} :
    fit n 0 s hs = none ↔ Overflows (scaled n s) :=
  fit_eq_none_iff.trans overflows_scaled_iff.symm

theorem value_add_value (d e : Decimal) :
    d.value + e.value = scaled (d.mantissa * 10 ^ (max d.scale e.scale - d.scale) +
      e.mantissa * 10 ^ (max d.scale e.scale - e.scale)) (max d.scale e.scale) := by
  have hd : (10 : ℚ) ^ max d.scale e.scale = 10 ^ (max d.scale e.scale - d.scale) * 10 ^ d.scale := by
    rw [← pow_add, Nat.sub_add_cancel (le_max_left _ _)]
  have he : (10 : ℚ) ^ max d.scale e.scale = 10 ^ (max d.scale e.scale - e.scale) * 10 ^ e.scale := by
    rw [← pow_add, Nat.sub_add_cancel (le_max_right _ _)]
  unfold scaled value
  push_cast
  rw [add_div]
  congr 1
  · rw [hd]
    field_simp
  · rw [he]
    field_simp

theorem add_eq_none_iff {d e : Decimal} : d.add e = none ↔ Overflows (d.value + e.value) := by
  rw [value_add_value]
  exact fit_eq_none_iff_overflows

/-- A sum that is a decimal is the sum computed. -/
theorem add_exact {d e x : Decimal} (h : x.value = d.value + e.value) :
    ∃ sum, d.add e = some sum ∧ sum.value = d.value + e.value := by
  rw [value_add_value] at h ⊢
  exact fit_exact h

theorem value_mul_value (d e : Decimal) :
    d.value * e.value = scaled (d.mantissa * e.mantissa) (d.scale + e.scale) := by
  unfold scaled value
  push_cast
  rw [pow_add, div_mul_div_comm]

section Mul
variable {d e : Decimal} (h : d.scale + e.scale ≤ maxScale)
include h

theorem mul_eq_fit : d.mul e = fit (d.mantissa * e.mantissa) 0 (d.scale + e.scale) h := by
  unfold mul
  dsimp only
  have hzero : d.scale + e.scale - maxScale = 0 := by omega
  have hmin : min (d.scale + e.scale) maxScale = d.scale + e.scale := by omega
  simp only [hzero, hmin]

theorem mul_eq_none_iff : d.mul e = none ↔ Overflows (d.value * e.value) := by
  rw [mul_eq_fit h, value_mul_value]
  exact fit_eq_none_iff_overflows

theorem mul_exact {x : Decimal} (hx : x.value = d.value * e.value) :
    ∃ product, d.mul e = some product ∧ product.value = d.value * e.value := by
  rw [mul_eq_fit h]
  rw [value_mul_value] at hx ⊢
  exact fit_exact hx

end Mul

/-! ## Integers -/

theorem value_eq_intCast_iff {d : Decimal} {n : ℤ} :
    d.value = n ↔ d.mantissa = n * 10 ^ d.scale := by
  unfold value
  rw [div_eq_iff (by positivity)]
  constructor
  · intro h
    exact_mod_cast h
  · intro h
    exact_mod_cast h

theorem toInt64_of_value {d : Decimal} {n : ℤ} (h : d.value = n) :
    d.toInt64 = if -(int64Bound : ℤ) ≤ n ∧ n < int64Bound then some n else none := by
  have hdiv : d.mantissa.tdiv (10 ^ d.scale) = n := by
    rw [value_eq_intCast_iff.mp h]
    exact Int.mul_tdiv_cancel n (by positivity)
  unfold toInt64
  rw [hdiv]

theorem overflows_intCast_iff {n : ℤ} : Overflows (n : ℚ) ↔ maxMantissa ≤ n.natAbs := by
  have h := overflows_scaled_iff (n := n) (s := 0)
  unfold scaled at h
  rw [pow_zero, div_one, pow_zero, Nat.mul_one] at h
  rw [h]
  unfold maxMantissa
  omega

theorem exists_value_intCast {n : ℤ} (h : n.natAbs < maxMantissa) : ∃ d : Decimal, d.value = n :=
  ⟨⟨n, 0, h, Nat.zero_le _⟩, by simp [value]⟩

theorem value_strip {m : ℤ} (hm : m.natAbs < maxMantissa) {s : ℕ} (hs : s ≤ maxScale) :
    (strip m hm s hs).value = scaled m s := by
  induction s generalizing m with
  | zero => rfl
  | succ s ih =>
    unfold strip
    split
    · rename_i hzero
      rw [ih]
      have hten : m = 10 * (m / 10) := (Int.mul_ediv_cancel' (Int.dvd_of_emod_eq_zero hzero)).symm
      unfold scaled
      have hcast : (m : ℚ) = 10 * ((m / 10 : ℤ) : ℚ) := by exact_mod_cast hten
      rw [hcast, pow_succ]
      field_simp
    · rfl

theorem strip_neg {m : ℤ} (hm : m.natAbs < maxMantissa) (hm' : (-m).natAbs < maxMantissa) {s : ℕ}
    (hs : s ≤ maxScale) : strip (-m) hm' s hs = (strip m hm s hs).neg := by
  induction s generalizing m with
  | zero => rfl
  | succ s ih =>
    unfold strip
    by_cases hzero : m % 10 = 0
    · have hdiv : -m / 10 = -(m / 10) := Int.neg_ediv_of_dvd (Int.dvd_of_emod_eq_zero hzero)
      rw [if_pos hzero, if_pos (by omega)]
      simp only [hdiv]
      exact ih _ _ _
    · rw [if_neg hzero, if_neg (by omega)]
      rfl

/-! ## Digits after the point -/

/-- At most so many digits after the point. -/
def HasDigits (x : ℚ) (digits : ℕ) : Prop := ∃ n : ℤ, x * 10 ^ digits = n

theorem HasDigits.add {x y : ℚ} {digits : ℕ} (hx : HasDigits x digits) (hy : HasDigits y digits) :
    HasDigits (x + y) digits := by
  obtain ⟨n, hn⟩ := hx
  obtain ⟨m, hm⟩ := hy
  exact ⟨n + m, by push_cast; rw [add_mul, hn, hm]⟩

theorem HasDigits.neg {x : ℚ} {digits : ℕ} (hx : HasDigits x digits) : HasDigits (-x) digits := by
  obtain ⟨n, hn⟩ := hx
  exact ⟨-n, by push_cast; rw [neg_mul, hn]⟩

theorem hasDigits_of_scale_le {d : Decimal} {digits : ℕ} (h : d.scale ≤ digits) :
    HasDigits d.value digits := by
  refine ⟨d.mantissa * 10 ^ (digits - d.scale), ?_⟩
  have hpow : (10 : ℚ) ^ digits = 10 ^ (digits - d.scale) * 10 ^ d.scale := by
    rw [← pow_add, Nat.sub_add_cancel h]
  unfold value
  rw [hpow]
  push_cast
  field_simp

/-- More digits at the scale than there are after the point: the last of them are zero. -/
theorem hasDigits_scaled_iff {n : ℤ} {s digits : ℕ} (h : digits ≤ s) :
    HasDigits (scaled n s) digits ↔ (10 : ℤ) ^ (s - digits) ∣ n := by
  have hpow : (10 : ℚ) ^ s = 10 ^ (s - digits) * 10 ^ digits := by
    rw [← pow_add, Nat.sub_add_cancel h]
  have hvalue : scaled n s * 10 ^ digits = n / 10 ^ (s - digits) := by
    unfold scaled
    rw [hpow]
    field_simp
  constructor
  · rintro ⟨m, hm⟩
    refine ⟨m, ?_⟩
    rw [hvalue, div_eq_iff (by positivity)] at hm
    have hcast : (n : ℚ) = ((10 ^ (s - digits) * m : ℤ) : ℚ) := by
      push_cast
      rw [hm]
      ring
    exact_mod_cast hcast
  · rintro ⟨m, rfl⟩
    refine ⟨m, ?_⟩
    rw [hvalue]
    push_cast
    field_simp

/-- A fitted result has no more digits after the point than the exact one. -/
theorem hasDigits_of_fit {n : ℤ} {s digits : ℕ} {hs : s ≤ maxScale} {d : Decimal}
    (h : fit n 0 s hs = some d) (hn : HasDigits (scaled n s) digits) : HasDigits d.value digits := by
  rcases Nat.le_total d.scale digits with hle | hle
  · exact hasDigits_of_scale_le hle
  · obtain ⟨hscale, hm, -⟩ := fit_spec h
    rw [Nat.zero_add] at hm
    have hdvd := (hasDigits_scaled_iff (hle.trans hscale)).mp hn
    have hexact := value_of_dvd hscale hm ((pow_dvd_pow 10 (by omega)).trans hdvd)
    rwa [hexact]

theorem round_equals_iff {d : Decimal} {digits : ℕ} :
    (d.round digits).equals d = true ↔ HasDigits d.value digits := by
  unfold round
  split
  · rename_i hle
    exact iff_of_true (equals_iff.mpr rfl) (hasDigits_of_scale_le hle)
  · rename_i hlt
    have hle : digits ≤ d.scale := by omega
    rw [equals_iff]
    change _ ↔ HasDigits (scaled d.mantissa d.scale) digits
    rw [hasDigits_scaled_iff hle]
    constructor
    · intro h
      have hint := value_eq_scaled_iff.mp h
      dsimp only at hint
      have hpow : (10 : ℤ) ^ d.scale = 10 ^ (d.scale - digits) * 10 ^ digits := by
        rw [← pow_add, Nat.sub_add_cancel hle]
      rw [hpow, ← Int.mul_assoc] at hint
      have hcancel := Int.eq_of_mul_eq_mul_right (by positivity) hint
      exact ⟨_, by rw [← hcancel, Int.mul_comm]⟩
    · intro hdvd
      exact value_of_dvd hle rfl hdvd

end Decimal
