import Mathlib
import Decisya.Numbers.Decimal

/-!
# Money

An amount with its currency. The constructor lets no amount through that has more digits after
the point than the currency; the operators go through the constructor.
-/

namespace Decisya.SharedKernel

set_option autoImplicit false

/-! ## Currencies -/

namespace IsoCurrencies

def zeroDecimalCodes : List String :=
  ["BIF", "CLP", "DJF", "GNF", "ISK", "JPY", "KMF", "KRW", "PYG", "RWF", "UGX", "UYI", "VND",
    "VUV", "XAF", "XOF", "XPF"]

def twoDecimalCodes : List String :=
  ["AED", "AFN", "ALL", "AMD", "ANG", "AOA", "ARS", "AUD", "AWG", "AZN", "BAM", "BBD", "BDT",
    "BGN", "BMD", "BND", "BOB", "BOV", "BRL", "BSD", "BTN", "BWP", "BYN", "BZD", "CAD", "CDF",
    "CHE", "CHF", "CHW", "CNY", "COP", "COU", "CRC", "CUP", "CVE", "CZK", "DKK", "DOP", "DZD",
    "EGP", "ERN", "ETB", "EUR", "FJD", "FKP", "GBP", "GEL", "GHS", "GIP", "GMD", "GTQ", "GYD",
    "HKD", "HNL", "HTG", "HUF", "IDR", "ILS", "INR", "IRR", "JMD", "KES", "KGS", "KHR", "KPW",
    "KYD", "KZT", "LAK", "LBP", "LKR", "LRD", "LSL", "MAD", "MDL", "MGA", "MKD", "MMK", "MNT",
    "MOP", "MRU", "MUR", "MVR", "MWK", "MXN", "MXV", "MYR", "MZN", "NAD", "NGN", "NIO", "NOK",
    "NPR", "NZD", "PAB", "PEN", "PGK", "PHP", "PKR", "PLN", "QAR", "RON", "RSD", "RUB", "SAR",
    "SBD", "SCR", "SDG", "SEK", "SGD", "SHP", "SLE", "SOS", "SRD", "SSP", "STN", "SVC", "SYP",
    "SZL", "THB", "TJS", "TMT", "TOP", "TRY", "TTD", "TWD", "TZS", "UAH", "USD", "USN", "UYU",
    "UZS", "VES", "WST", "XCD", "YER", "ZAR", "ZMW", "ZWG"]

def threeDecimalCodes : List String :=
  ["BHD", "IQD", "JOD", "KWD", "LYD", "OMR", "TND"]

def fourDecimalCodes : List String :=
  ["CLF", "UYW"]

def table : List (String × ℕ) :=
  zeroDecimalCodes.map (·, 0) ++ twoDecimalCodes.map (·, 2) ++ threeDecimalCodes.map (·, 3) ++
    fourDecimalCodes.map (·, 4)

def tryGetExponent (code : String) : Option ℕ := table.lookup code

/-- No listed currency has another number of digits, one in particular. -/
theorem exponent_cases {code : String} {exponent : ℕ} (h : tryGetExponent code = some exponent) :
    exponent = 0 ∨ exponent = 2 ∨ exponent = 3 ∨ exponent = 4 := by
  obtain ⟨before, after, htable, -⟩ := List.lookup_eq_some_iff.mp h
  have hmem : (code, exponent) ∈ table := by
    rw [htable]
    exact List.mem_append_right before List.mem_cons_self
  unfold table at hmem
  simp only [List.mem_append, List.mem_map, Prod.mk.injEq] at hmem
  rcases hmem with ((⟨c, -, -, rfl⟩ | ⟨c, -, -, rfl⟩) | ⟨c, -, -, rfl⟩) | ⟨c, -, -, rfl⟩
  · exact Or.inl rfl
  · exact Or.inr (Or.inl rfl)
  · exact Or.inr (Or.inr (Or.inl rfl))
  · exact Or.inr (Or.inr (Or.inr rfl))

end IsoCurrencies

structure IsoCurrency where
  code : String
  exponent : ℕ
  listed : IsoCurrencies.tryGetExponent code = some exponent
  deriving DecidableEq

/-- `none` is `default(Currency)`, which no factory gives. -/
abbrev Currency := Option IsoCurrency

namespace Currency

def isInitialized (c : Currency) : Bool := c.isSome

def minorUnitExponent (c : Currency) : ℕ := (c.map IsoCurrency.exponent).getD 0

/-- `Equals` compares the codes. -/
def equals (c d : Currency) : Bool := c.map IsoCurrency.code == d.map IsoCurrency.code

theorem equals_iff {c d : Currency} : c.equals d = true ↔ c = d := by
  unfold equals
  rw [beq_iff_eq]
  constructor
  · intro h
    cases c with
    | none =>
      cases d with
      | none => rfl
      | some d => cases h
    | some c =>
      cases d with
      | none => cases h
      | some d =>
        obtain ⟨code, exponent, listed⟩ := c
        obtain ⟨code', exponent', listed'⟩ := d
        have hcode : code = code' := Option.some.inj h
        subst hcode
        have hexponent : exponent = exponent' := Option.some.inj (listed.symm.trans listed')
        subst hexponent
        rfl
  · rintro rfl
    rfl

theorem minorUnitExponent_cases (c : Currency) : c.minorUnitExponent = 0 ∨
    c.minorUnitExponent = 2 ∨ c.minorUnitExponent = 3 ∨ c.minorUnitExponent = 4 := by
  cases c with
  | none => exact Or.inl rfl
  | some c => exact IsoCurrencies.exponent_cases c.listed

end Currency

/-! ## Amounts -/

/-- What a call can throw. `wrapped` is no exception of C#: it stands for an operation on
`Int128` or `long` whose exact result has no value of that type, and no call meets it. -/
inductive Fault where
  | argument (message paramName : String)
  | currencyMismatch (left right : Currency)
  | moneyPrecision (amount : Decimal) (currency : Currency)
  | invalidAllocation (message : String) (paramName : Option String)
  | overflow
  | argumentOutOfRange (paramName : String)
  | indexOutOfRange
  | divideByZero
  | wrapped

/-- A value of the struct: one the constructor let through, or the default. -/
structure Money where
  amount : Decimal
  currency : Currency
  precise : (amount.round currency.minorUnitExponent).equals amount = true
  zero_of_default : currency = none → amount = 0

namespace Money

def default : Money := ⟨0, none, by decide, fun _ => rfl⟩

/-- The constructor. -/
def new (amount : Decimal) (currency : Currency) : Except Fault Money :=
  if hinit : currency.isInitialized = true then
    if hprecise : (amount.round currency.minorUnitExponent).equals amount = true then
      .ok
        { amount := amount
          currency := currency
          precise := hprecise
          zero_of_default := fun hnone => by
            rw [hnone] at hinit
            cases hinit }
    else .error (.moneyPrecision amount currency)
  else
    .error (.argument
      "Currency must be created via Currency.FromCode; default(Currency) is not a valid currency."
      "currency")

def value (m : Money) : ℚ := m.amount.value

def requireSameCurrency (left right : Money) : Except Fault Unit :=
  if left.currency.equals right.currency then .ok ()
  else .error (.currencyMismatch left.currency right.currency)

/-- The constructor of a result of `decimal` arithmetic; `none` is its `OverflowException`. -/
def ofResult (d : Option Decimal) (currency : Currency) : Except Fault Money :=
  match d with
  | some d => new d currency
  | none => .error .overflow

def add (left right : Money) : Except Fault Money := do
  requireSameCurrency left right
  ofResult (left.amount.add right.amount) left.currency

def sub (left right : Money) : Except Fault Money := do
  requireSameCurrency left right
  ofResult (left.amount.sub right.amount) left.currency

def neg (m : Money) : Except Fault Money := new m.amount.neg m.currency

/-- `Equals`: currencies by code, amounts by value. -/
def equals (m n : Money) : Bool := m.currency.equals n.currency && m.amount.equals n.amount

theorem hasDigits (m : Money) : Decimal.HasDigits m.value m.currency.minorUnitExponent :=
  Decimal.round_equals_iff.mp m.precise

/-- The constructor keeps what it is given, or throws. -/
theorem new_eq_ok {amount : Decimal} {currency : Currency} {m : Money}
    (h : new amount currency = .ok m) : m.amount = amount ∧ m.currency = currency := by
  unfold new at h
  split at h
  · split at h
    · cases h
      exact ⟨rfl, rfl⟩
    · cases h
  · cases h

theorem new_of_hasDigits {amount : Decimal} {currency : Currency}
    (hinit : currency.isInitialized = true)
    (h : Decimal.HasDigits amount.value currency.minorUnitExponent) :
    ∃ m, new amount currency = .ok m ∧ m.amount = amount ∧ m.currency = currency := by
  have hprecise := Decimal.round_equals_iff.mpr h
  refine ⟨⟨amount, currency, hprecise, ?_⟩, ?_, rfl, rfl⟩
  · intro hnone
    rw [hnone] at hinit
    cases hinit
  · unfold new
    rw [dif_pos hinit, dif_pos hprecise]

/-! ## Sums -/

/-- The operator throws, or returns the exact result. -/
def Exact (result : Except Fault Money) (x : ℚ) : Prop :=
  ∀ m, result = .ok m → m.value = x

def IsDecimal (x : ℚ) : Prop := ∃ d : Decimal, d.value = x

/-- What the decimal sum is, the constructor lets through. -/
theorem exact_iff {d e : Decimal} {currency : Currency}
    (hd : Decimal.HasDigits d.value currency.minorUnitExponent)
    (he : Decimal.HasDigits e.value currency.minorUnitExponent)
    (hzero : currency = none → d.value + e.value = 0) :
    Exact (ofResult (d.add e) currency) (d.value + e.value) ↔
      IsDecimal (d.value + e.value) ∨ Decimal.Overflows (d.value + e.value) := by
  have hsum := hd.add he
  constructor
  · intro hexact
    cases hadd : d.add e with
    | none => exact Or.inr (Decimal.add_eq_none_iff.mp hadd)
    | some sum =>
      left
      cases hcurrency : currency with
      | none =>
        rw [hzero hcurrency]
        exact ⟨0, Decimal.value_zero⟩
      | some c =>
        have hdigits : Decimal.HasDigits sum.value currency.minorUnitExponent := by
          rw [Decimal.value_add_value] at hsum
          exact Decimal.hasDigits_of_fit hadd hsum
        obtain ⟨m, hm, hamount, -⟩ := new_of_hasDigits (by rw [hcurrency]; rfl) hdigits
        refine ⟨sum, ?_⟩
        rw [← hamount]
        apply hexact m
        rw [hadd]
        exact hm
  · rintro (⟨x, hx⟩ | hover) m hm
    · obtain ⟨sum, hadd, hvalue⟩ := Decimal.add_exact hx
      rw [hadd] at hm
      have hamount := (new_eq_ok hm).1
      rw [value, hamount, hvalue]
    · rw [Decimal.add_eq_none_iff.mpr hover] at hm
      cases hm

/-- Sums and differences are exact, or throw, exactly where the exact result is a decimal or out
of range; elsewhere they are rounded. -/
theorem add_sub_exact_iff (a b : Money) (h : a.currency.equals b.currency = true) :
    (Exact (a.add b) (a.value + b.value) ↔
      IsDecimal (a.value + b.value) ∨ Decimal.Overflows (a.value + b.value)) ∧
    (Exact (a.sub b) (a.value - b.value) ↔
      IsDecimal (a.value - b.value) ∨ Decimal.Overflows (a.value - b.value)) := by
  have hcurrency : a.currency = b.currency := Currency.equals_iff.mp h
  have ha := a.hasDigits
  have hb := b.hasDigits
  rw [← hcurrency] at hb
  have hzero : a.currency = none → a.amount.value = 0 ∧ b.amount.value = 0 := by
    intro hnone
    rw [a.zero_of_default hnone, b.zero_of_default (hcurrency ▸ hnone)]
    exact ⟨Decimal.value_zero, Decimal.value_zero⟩
  have hsame : requireSameCurrency a b = .ok () := if_pos h
  constructor
  · have hadd : a.add b = ofResult (a.amount.add b.amount) a.currency := by
      rw [add, hsame]
      rfl
    rw [hadd]
    apply exact_iff ha hb
    intro hnone
    rw [(hzero hnone).1, (hzero hnone).2, add_zero]
  · have hsub : a.sub b = ofResult (a.amount.add b.amount.neg) a.currency := by
      rw [sub, hsame]
      rfl
    have hvalue : a.value - b.value = a.amount.value + b.amount.neg.value := by
      rw [Decimal.value_neg, ← sub_eq_add_neg]
      rfl
    rw [hsub, hvalue]
    apply exact_iff ha
    · rw [Decimal.value_neg]
      exact hb.neg
    · intro hnone
      rw [Decimal.value_neg, (hzero hnone).1, (hzero hnone).2, neg_zero, add_zero]

/-! ## The edge of 96 bits -/

def dollar : Currency := some ⟨"USD", 2, by decide⟩

/-- The largest decimal, as dollars. -/
def largestSample : Money :=
  ⟨⟨2 ^ 96 - 1, 0, by decide, Nat.zero_le _⟩, dollar, by decide, fun h => by cases h⟩

/-- Forty cents. -/
def centsSample : Money := ⟨⟨4, 1, by decide, by decide⟩, dollar, by decide, fun h => by cases h⟩

theorem add_sub_exact_iff_sample :
    (Exact (centsSample.add centsSample) (centsSample.value + centsSample.value) ↔
      IsDecimal (centsSample.value + centsSample.value) ∨
        Decimal.Overflows (centsSample.value + centsSample.value)) ∧
    (Exact (centsSample.sub centsSample) (centsSample.value - centsSample.value) ↔
      IsDecimal (centsSample.value - centsSample.value) ∨
        Decimal.Overflows (centsSample.value - centsSample.value)) :=
  add_sub_exact_iff centsSample centsSample (by decide)

/-- The sum of the two drops the cents and passes the constructor. -/
theorem sum_not_exact : ¬ ∀ a b : Money, a.currency.equals b.currency = true →
    Exact (a.add b) (a.value + b.value) ∧ Exact (a.sub b) (a.value - b.value) := by
  intro hall
  have hexact := (hall largestSample centsSample (by decide)).1
  have hsum : largestSample.add centsSample = .ok largestSample := rfl
  have hvalue := hexact largestSample hsum
  have hcents : centsSample.value = 0 := by linarith
  have hne : centsSample.value = 4 / 10 := by
    norm_num [value, Decimal.value, centsSample]
  rw [hne] at hcents
  norm_num at hcents

end Money
end Decisya.SharedKernel
