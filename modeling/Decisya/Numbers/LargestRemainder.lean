import Mathlib.Algebra.BigOperators.Fin
import Mathlib.Algebra.Order.BigOperators.Group.Finset
import Mathlib.Data.Fintype.Card
import Mathlib.Tactic.Linarith

/-!
# Shares by largest remainder

A total is shared by weights: everyone gets the quota rounded down, and what is left over goes,
a unit each, to a set of the largest remainders. Which of equal remainders are in the set is
left open here.
-/

namespace LargestRemainder

open Finset

set_option autoImplicit false

variable {ι : Type} [Fintype ι] (total : ℕ) (weight : ι → ℕ)

def weightSum : ℕ := ∑ i, weight i

def floor (i : ι) : ℕ := total * weight i / weightSum weight

def remainder (i : ι) : ℕ := total * weight i % weightSum weight

def leftover : ℕ := total - ∑ i, floor total weight i

def share [DecidableEq ι] (raised : Finset ι) (i : ι) : ℕ := floor total weight i + if i ∈ raised then 1 else 0

/-- As many as are left over, and nobody outside has a larger remainder. -/
structure Raises (raised : Finset ι) : Prop where
  card_eq : raised.card = leftover total weight
  remainder_le : ∀ i ∈ raised, ∀ j ∉ raised, remainder total weight j ≤ remainder total weight i

/-! ## What is left over -/

theorem floor_mul_add_remainder (i : ι) :
    weightSum weight * floor total weight i + remainder total weight i = total * weight i :=
  Nat.div_add_mod _ _

theorem sum_floor_mul_add_sum_remainder :
    weightSum weight * (∑ i, floor total weight i) + ∑ i, remainder total weight i
      = total * weightSum weight := by
  have hquota : ∑ i, (weightSum weight * floor total weight i + remainder total weight i)
      = ∑ i, total * weight i :=
    Finset.sum_congr rfl fun i _ => floor_mul_add_remainder total weight i
  rw [Finset.sum_add_distrib, ← Finset.mul_sum, ← Finset.mul_sum] at hquota
  exact hquota

theorem floor_mono {i j : ι} (hij : weight i ≤ weight j) :
    floor total weight i ≤ floor total weight j :=
  Nat.div_le_div_right (Nat.mul_le_mul_left total hij)

variable (hpos : 0 < weightSum weight)
include hpos

theorem remainder_lt (i : ι) : remainder total weight i < weightSum weight := Nat.mod_lt _ hpos

theorem sum_floor_le : ∑ i, floor total weight i ≤ total := by
  have hsum := sum_floor_mul_add_sum_remainder total weight
  have hle : weightSum weight * (∑ i, floor total weight i) ≤ weightSum weight * total := by
    rw [Nat.mul_comm (weightSum weight) total]
    omega
  exact Nat.le_of_mul_le_mul_left hle hpos

/-- The remainders sum up to what is left over. -/
theorem weightSum_mul_leftover :
    weightSum weight * leftover total weight = ∑ i, remainder total weight i := by
  have hsum := sum_floor_mul_add_sum_remainder total weight
  have hle := sum_floor_le total weight hpos
  unfold leftover
  rw [Nat.mul_sub, Nat.mul_comm (weightSum weight) total]
  omega

theorem leftover_lt_card [Nonempty ι] : leftover total weight < Fintype.card ι := by
  have hsum := weightSum_mul_leftover total weight hpos
  have hlt : ∑ i, remainder total weight i < ∑ _i : ι, weightSum weight :=
    Finset.sum_lt_sum_of_nonempty Finset.univ_nonempty fun i _ => remainder_lt total weight hpos i
  rw [Finset.sum_const, Finset.card_univ, smul_eq_mul] at hlt
  rw [← hsum, Nat.mul_comm] at hlt
  exact Nat.lt_of_mul_lt_mul_right hlt

omit hpos in
theorem floor_of_equal [Nonempty ι] (hequal : ∀ i, weight i = 1) (i : ι) :
    floor total weight i = total / Fintype.card ι := by
  have hsum : weightSum weight = Fintype.card ι := by
    unfold weightSum
    rw [Finset.sum_congr rfl fun j _ => hequal j, Finset.sum_const, Finset.card_univ, smul_eq_mul,
      Nat.mul_one]
  unfold floor
  rw [hsum, hequal, Nat.mul_one]

omit hpos in
theorem leftover_of_equal [Nonempty ι] (hequal : ∀ i, weight i = 1) :
    leftover total weight = total % Fintype.card ι := by
  have hdiv := Nat.div_add_mod total (Fintype.card ι)
  unfold leftover
  rw [Finset.sum_congr rfl fun j _ => floor_of_equal total weight hequal j, Finset.sum_const,
    Finset.card_univ, smul_eq_mul]
  omega

variable {total weight} [DecidableEq ι] {raised : Finset ι} (h : Raises total weight raised)
include h

/-! ## Nothing is lost -/

theorem sum_share : ∑ i, share total weight raised i = total := by
  have hle := sum_floor_le total weight hpos
  have hraised : ∑ i, (if i ∈ raised then 1 else 0) = raised.card := by
    rw [Finset.sum_ite_mem, Finset.univ_inter, Finset.card_eq_sum_ones]
  unfold share
  rw [Finset.sum_add_distrib, hraised, h.card_eq]
  unfold leftover
  omega

omit [DecidableEq ι] in
/-- A remainder of nothing is never rounded up. -/
theorem remainder_pos {i : ι} (hi : i ∈ raised) : 0 < remainder total weight i := by
  by_contra hzero
  have hi0 : remainder total weight i = 0 := by omega
  have hsum := weightSum_mul_leftover total weight hpos
  have hout : ∀ j, j ∉ raised → remainder total weight j = 0 := by
    intro j hj
    have hle := h.remainder_le i hi j hj
    omega
  have hin : ∑ j, remainder total weight j = ∑ j ∈ raised, remainder total weight j := by
    symm
    apply Finset.sum_subset (Finset.subset_univ raised)
    intro j _ hj
    exact hout j hj
  have hlt : ∑ j ∈ raised, remainder total weight j < ∑ _j ∈ raised, weightSum weight :=
    Finset.sum_lt_sum_of_nonempty ⟨i, hi⟩ fun j _ => remainder_lt total weight hpos j
  rw [Finset.sum_const, smul_eq_mul, h.card_eq, ← hin, ← hsum, Nat.mul_comm] at hlt
  omega

/-- A share is less than one unit away from the quota. -/
theorem share_near (i : ι) :
    weightSum weight * share total weight raised i < total * weight i + weightSum weight ∧
      total * weight i < weightSum weight * share total weight raised i + weightSum weight := by
  have hquota := floor_mul_add_remainder total weight i
  have hlt := remainder_lt total weight hpos i
  unfold share
  split
  · rename_i hi
    have hrem := remainder_pos hpos h hi
    rw [Nat.mul_add, Nat.mul_one]
    omega
  · rw [Nat.add_zero]
    omega

theorem share_le_total (i : ι) : share total weight raised i ≤ total := by
  have hsum := sum_share hpos h
  have hle := Finset.single_le_sum (f := share total weight raised) (fun j _ => Nat.zero_le _)
    (Finset.mem_univ i)
  omega

/-! ## Fairness -/

/-- A larger weight never gets a smaller share. -/
theorem share_mono {i j : ι} (hij : weight i < weight j) :
    share total weight raised i ≤ share total weight raised j := by
  have hfloor := floor_mono total weight hij.le
  rcases Nat.lt_or_ge (floor total weight i) (floor total weight j) with hlt | hge
  · unfold share
    split <;> split <;> omega
  · have heq : floor total weight i = floor total weight j := Nat.le_antisymm hfloor hge
    have hi := floor_mul_add_remainder total weight i
    have hj := floor_mul_add_remainder total weight j
    rw [heq] at hi
    unfold share
    by_cases hraised : i ∈ raised
    · have hjraised : j ∈ raised := by
        by_contra hnot
        have hle := h.remainder_le i hraised j hnot
        have hposi := remainder_pos hpos h hraised
        have hquota : total * weight j ≤ total * weight i := by omega
        have htotal : 0 < total := by
          apply Nat.pos_of_ne_zero
          intro hzero
          have hnone : total * weight i = 0 := by rw [hzero, Nat.zero_mul]
          omega
        have hweight := Nat.le_of_mul_le_mul_left hquota htotal
        omega
      rw [if_pos hraised, if_pos hjraised]
      omega
    · rw [if_neg hraised]
      omega

end LargestRemainder
