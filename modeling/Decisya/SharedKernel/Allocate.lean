import Decisya.Numbers.LargestRemainder
import Decisya.SharedKernel.Money
import Mathlib.Data.List.Sort

/-!
# Allocation

`Money.Allocate` in minor units: quotas rounded down, and the units left over to the largest
remainders, an exact half to the share that becomes even, then in the order of the ratios.
-/

namespace Decisya.SharedKernel

set_option autoImplicit false

namespace Money

def maxAllocationParts : ℕ := 10000

/-! ## Machine integers -/

def int128Bound : ℕ := 0x80000000000000000000000000000000

def int128 (n : ℤ) : Except Fault ℤ :=
  if -(int128Bound : ℤ) ≤ n ∧ n < int128Bound then .ok n else .error .wrapped

def int64 (n : ℤ) : Except Fault ℤ :=
  if -(Decimal.int64Bound : ℤ) ≤ n ∧ n < Decimal.int64Bound then .ok n else .error .wrapped

def floorDiv (dividend divisor : ℤ) : Except Fault ℤ :=
  if divisor = 0 then .error .divideByZero
  else
    let quotient := dividend.tdiv divisor
    let remainder := dividend.tmod divisor
    .ok (if remainder ≠ 0 ∧ remainder < 0 then quotient - 1 else quotient)

def isExactMidpoint (remainder totalWeight : ℤ) : Except Fault Bool := do
  if totalWeight.tmod 2 = 0 then
    let doubled ← int128 (remainder * 2)
    .ok (doubled == totalWeight)
  else .ok false

/-! ## Minor units -/

def decimalPow10 : ℕ → Except Fault Decimal
  | 0 => .ok ⟨1, 0, by decide, Nat.zero_le _⟩
  | 2 => .ok ⟨100, 0, by decide, Nat.zero_le _⟩
  | 3 => .ok ⟨1000, 0, by decide, Nat.zero_le _⟩
  | 4 => .ok ⟨10000, 0, by decide, Nat.zero_le _⟩
  | _ => .error (.argumentOutOfRange "exponent")

def tooLarge : Fault :=
  .invalidAllocation
    ("Amount is too large to allocate: its minor-unit representation does not fit " ++
      "a 64-bit integer. See Money.Allocate's XML docs for the exact range.") none

/-- The exceptions of the product and of the conversion are both `OverflowException`. -/
def toMinorUnits (amount : Decimal) (exponent : ℕ) : Except Fault ℤ := do
  let factor ← decimalPow10 exponent
  match (amount.mul factor).bind Decimal.toInt64 with
  | some n => .ok n
  | none => .error tooLarge

def fromMinorUnits (minorUnits : ℤ) (exponent : ℕ) : Except Fault Decimal := do
  let _ ← decimalPow10 exponent
  match Decimal.divPow10 minorUnits exponent with
  | some d => .ok d
  | none => .error .overflow

/-! ## The loops -/

def sumWeights (weights : List ℤ) : Except Fault ℤ :=
  weights.foldlM (fun sum weight => int128 (sum + weight)) 0

/-- Floors, remainders and the sum of the floors, from a sum so far. -/
def divideAll (total totalWeight floorSum : ℤ) :
    List ℤ → Except Fault (List ℤ × List ℤ × ℤ)
  | [] => .ok ([], [], floorSum)
  | weight :: rest => do
    let numerator ← int128 (total * weight)
    let floor ← floorDiv numerator totalWeight
    let product ← int128 (floor * totalWeight)
    let remainder ← int128 (numerator - product)
    let sum ← int128 (floorSum + floor)
    let (floors, remainders, floorSum) ← divideAll total totalWeight sum rest
    .ok (floor :: floors, remainder :: remainders, floorSum)

/-- The second key: an exact half whose share becomes even. -/
def becomesEven (totalWeight : ℤ) (remainder floor : ℤ) : Except Fault Bool := do
  let midpoint ← isExactMidpoint remainder totalWeight
  .ok (midpoint && floor.tmod 2 != 0)

/-- `OrderByDescending`, `ThenByDescending` and `ThenBy` on the keys of two indices. -/
def comesBefore (remainders : List ℤ) (evens : List Bool) (i j : ℕ) : Prop :=
  remainders.getD j 0 < remainders.getD i 0 ∨ remainders.getD j 0 = remainders.getD i 0 ∧
    (evens.getD i false = true ∧ evens.getD j false = false ∨
      evens.getD i false = evens.getD j false ∧ i ≤ j)

instance (remainders : List ℤ) (evens : List Bool) : DecidableRel (comesBefore remainders evens) :=
  fun i j => by
    unfold comesBefore
    infer_instance

def orderOf (remainders : List ℤ) (evens : List Bool) : List ℕ :=
  (List.range remainders.length).insertionSort (comesBefore remainders evens)

def raise (order : List ℕ) (floors : List ℤ) (i : ℕ) : Except Fault (List ℤ) :=
  match order[i]? with
  | none => .error .indexOutOfRange
  | some j =>
    match floors[j]? with
    | none => .error .indexOutOfRange
    | some floor => do
      let floor ← int128 (floor + 1)
      .ok (floors.set j floor)

def raiseAll (order : List ℕ) (leftover : ℤ) (floors : List ℤ) : Except Fault (List ℤ) :=
  (List.range leftover.toNat).foldlM (raise order) floors

def shareOf (isNegative : Bool) (currency : Currency) (floor : ℤ) : Except Fault Money := do
  let minorUnits ← int64 floor
  let minorUnits ← (if isNegative then int64 (-minorUnits) else .ok minorUnits)
  let amount ← fromMinorUnits minorUnits currency.minorUnitExponent
  new amount currency

/-- The shares in minor units, of a total that is not negative. -/
def allocateUnits (total : ℤ) (weights : List ℤ) : Except Fault (List ℤ) := do
  let totalWeight ← sumWeights weights
  let (floors, remainders, floorSum) ← divideAll total totalWeight 0 weights
  let leftover ← int128 (total - floorSum)
  let evens ← (remainders.zip floors).mapM fun r => becomesEven totalWeight r.1 r.2
  raiseAll (orderOf remainders evens) leftover floors

/-! ## Allocate -/

def notPositive : Fault :=
  .invalidAllocation "Allocation ratios must be a non-empty list of positive integers."
    (some "ratios")

/-- `Allocate(IReadOnlyList<int>)` -/
def allocate (m : Money) (ratios : List Int32) : Except Fault (List Money) :=
  if ratios.length = 0 then .error notPositive
  else if maxAllocationParts < ratios.length then
    .error (.invalidAllocation "Allocation ratio count must not exceed 10000." (some "ratios"))
  else if ratios.any (fun r => r ≤ 0) = true then .error notPositive
  else do
    let isNegative := m.amount.isNegative
    let total ← toMinorUnits (if isNegative then m.amount.neg else m.amount)
      m.currency.minorUnitExponent
    let shares ← allocateUnits total (ratios.map Int32.toInt)
    shares.mapM (shareOf isNegative m.currency)

/-- `Allocate(int)` -/
def allocateParts (m : Money) (parts : Int32) : Except Fault (List Money) :=
  if parts ≤ 0 then
    .error (.invalidAllocation "Allocation part count must be a positive integer." (some "parts"))
  else if (maxAllocationParts : ℤ) < parts.toInt then
    .error (.invalidAllocation "Allocation part count must not exceed 10000." (some "parts"))
  else m.allocate (List.replicate parts.toInt.toNat 1)

end Money
end Decisya.SharedKernel
