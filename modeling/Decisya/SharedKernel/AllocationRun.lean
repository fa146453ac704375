import Decisya.SharedKernel.Allocate

/-!
# What an allocation computes

No operation of an allocation leaves the range of its type, and the shares are those of the
largest remainders, raised in the order of the sort.
-/

namespace Decisya.SharedKernel.Money

open LargestRemainder

set_option autoImplicit false

/-! ## In range -/

theorem ok_bind {α β : Type} (a : α) (f : α → Except Fault β) : (.ok a >>= f) = f a := rfl

theorem int128_natCast {n : ℕ} (h : n < int128Bound) : int128 n = .ok (n : ℤ) := by
  apply if_pos
  omega

theorem int64_ok {n : ℤ} (h : n.natAbs < Decimal.int64Bound) : int64 n = .ok n := by
  apply if_pos
  omega

def int32Bound : ℕ := 0x80000000

/-- Below this are the products of a `long` and an `int`. -/
def productBound : ℕ := Decimal.int64Bound * int32Bound

theorem room : maxAllocationParts * productBound < int128Bound := by decide

theorem floorDiv_ok {a b : ℕ} (hb : 0 < b) : floorDiv a b = .ok ((a / b : ℕ) : ℤ) := by
  have hrem : ¬ ((a : ℤ).tmod b ≠ 0 ∧ (a : ℤ).tmod b < 0) := by
    have hnonneg := Int.tmod_nonneg (b : ℤ) (Int.natCast_nonneg a)
    omega
  unfold floorDiv
  rw [if_neg (by omega)]
  dsimp only
  rw [if_neg hrem, Int.tdiv_eq_ediv_of_nonneg (Int.natCast_nonneg a)]
  rfl

section Weights
variable {total : ℕ} {weights : List ℕ}

theorem sumWeights_ok (h : weights.sum < int128Bound) :
    sumWeights (weights.map Int.ofNat) = .ok (weights.sum : ℤ) := by
  have hfold : ∀ start : ℕ, start + weights.sum < int128Bound →
      (weights.map Int.ofNat).foldlM (fun sum weight => int128 (sum + weight)) (start : ℤ)
        = .ok ((start + weights.sum : ℕ) : ℤ) := by
    clear h
    induction weights with
    | nil => exact fun start _ => rfl
    | cons w rest ih =>
      intro start hlt
      rw [List.sum_cons] at hlt
      have hstep : int128 ((start : ℤ) + Int.ofNat w) = .ok ((start + w : ℕ) : ℤ) := by
        have hcast : (start : ℤ) + Int.ofNat w = ((start + w : ℕ) : ℤ) := by simp
        rw [hcast]
        exact int128_natCast (by omega)
      rw [List.map_cons, List.foldlM_cons, hstep, List.sum_cons, ← Nat.add_assoc]
      exact ih (start + w) (by omega)
  have hzero := hfold 0 (by omega)
  rw [Nat.zero_add] at hzero
  exact hzero

theorem product_lt {w : ℕ} (htotal : total < Decimal.int64Bound) (hw : w < int32Bound) :
    total * w < productBound :=
  Nat.mul_lt_mul'' htotal hw

/-- What is divided, and what comes back of it, is a product of a `long` and an `int`. -/
theorem divideAll_cons {totalWeight w start : ℕ} {rest : List ℕ} (hpos : 0 < totalWeight)
    (hproduct : total * w < productBound) (hroom : start + productBound < int128Bound) :
    divideAll total totalWeight start ((w :: rest).map Int.ofNat) =
      (do
        let (floors, remainders, floorSum) ← divideAll total totalWeight
          ((start + total * w / totalWeight : ℕ) : ℤ) (rest.map Int.ofNat)
        .ok (((total * w / totalWeight : ℕ) : ℤ) :: floors,
          ((total * w % totalWeight : ℕ) : ℤ) :: remainders, floorSum)) := by
  have hdiv := Nat.div_add_mod (total * w) totalWeight
  have hfloor : total * w / totalWeight ≤ total * w := Nat.div_le_self _ _
  have hquotient : floorDiv ((total * w : ℕ) : ℤ) totalWeight
      = .ok ((total * w / totalWeight : ℕ) : ℤ) := floorDiv_ok hpos
  have hnumerator : (total : ℤ) * Int.ofNat w = ((total * w : ℕ) : ℤ) := by simp
  generalize total * w = product at *
  generalize product / totalWeight = floor at *
  generalize product % totalWeight = remainder at *
  have hback : (floor : ℤ) * totalWeight = ((totalWeight * floor : ℕ) : ℤ) := by
    push_cast
    ring
  have hremainder : (product : ℤ) - ((totalWeight * floor : ℕ) : ℤ) = (remainder : ℤ) := by omega
  have hsum : (start : ℤ) + floor = ((start + floor : ℕ) : ℤ) := by simp
  rw [List.map_cons, divideAll, hnumerator, int128_natCast (by omega), ok_bind, hquotient, ok_bind,
    hback, int128_natCast (by omega), ok_bind, hremainder, int128_natCast (by omega), ok_bind, hsum,
    int128_natCast (by omega), ok_bind]

/-- There is room for every product and for the running sum of the floors. -/
theorem divideAll_ok {totalWeight : ℕ} (hpos : 0 < totalWeight) (htotal : total < Decimal.int64Bound)
    {weights : List ℕ} {start : ℕ} (hweights : ∀ w ∈ weights, w < int32Bound)
    (hroom : start + weights.length * productBound < int128Bound) :
    divideAll total totalWeight start (weights.map Int.ofNat) =
      .ok (weights.map fun w => ((total * w / totalWeight : ℕ) : ℤ),
        weights.map fun w => ((total * w % totalWeight : ℕ) : ℤ),
        ((start + (weights.map fun w => total * w / totalWeight).sum : ℕ) : ℤ)) := by
  induction weights generalizing start with
  | nil => rfl
  | cons w rest ih =>
    have hproduct := product_lt htotal (hweights w List.mem_cons_self)
    have hfloor : total * w / totalWeight ≤ total * w := Nat.div_le_self _ _
    rw [List.length_cons, Nat.add_mul, Nat.one_mul] at hroom
    have hrest := @ih (start + total * w / totalWeight)
      (fun v hv => hweights v (List.mem_cons_of_mem w hv)) (by omega)
    rw [divideAll_cons hpos hproduct (by omega), hrest]
    simp only [bind, Except.bind, List.map_cons, List.sum_cons, Nat.add_assoc]

/-- A share with this remainder and floor is exactly half way and becomes even by rounding up. -/
def EvensUp (totalWeight remainder floor : ℕ) : Prop := 2 * remainder = totalWeight ∧ floor % 2 = 1

instance (totalWeight remainder floor : ℕ) : Decidable (EvensUp totalWeight remainder floor) := by
  unfold EvensUp
  infer_instance

theorem becomesEven_ok {totalWeight remainder floor : ℕ} (h : remainder * 2 < int128Bound) :
    becomesEven totalWeight remainder floor = .ok (decide (EvensUp totalWeight remainder floor)) := by
  have hodd : ((floor : ℤ).tmod 2 != 0) = decide (floor % 2 = 1) := by
    rw [Int.tmod_eq_emod_of_nonneg (Int.natCast_nonneg floor), Bool.eq_iff_iff, bne_iff_ne,
      decide_eq_true_iff]
    omega
  have hmidpoint : isExactMidpoint remainder totalWeight
      = .ok (decide (2 * remainder = totalWeight)) := by
    have hdouble : (remainder : ℤ) * 2 = ((remainder * 2 : ℕ) : ℤ) := by simp
    unfold isExactMidpoint
    rw [Int.tmod_eq_emod_of_nonneg (Int.natCast_nonneg totalWeight)]
    split
    · rw [hdouble, int128_natCast h, ok_bind]
      congr 1
      rw [Bool.eq_iff_iff, beq_iff_eq, decide_eq_true_iff]
      omega
    · congr 1
      symm
      rw [decide_eq_false_iff_not]
      omega
  unfold becomesEven
  rw [hmidpoint, ok_bind, hodd, ← Bool.decide_and]
  rfl

theorem mapM_ok {α β : Type} {f : α → Except Fault β} {g : α → β} {xs : List α}
    (h : ∀ x ∈ xs, f x = .ok (g x)) : xs.mapM f = .ok (xs.map g) := by
  induction xs with
  | nil => rfl
  | cons x xs ih =>
    have hx := h x List.mem_cons_self
    have hxs := ih fun y hy => h y (List.mem_cons_of_mem x hy)
    rw [List.mapM_cons, hx, ok_bind, hxs, ok_bind]
    rfl

/-! ## The order -/

section Order
variable (remainders : List ℤ) (evens : List Bool)

theorem comesBefore_total (i j : ℕ) :
    comesBefore remainders evens i j ∨ comesBefore remainders evens j i := by
  unfold comesBefore
  cases evens.getD i false <;> cases evens.getD j false <;> simp <;> omega

theorem comesBefore_trans {i j k : ℕ} (hij : comesBefore remainders evens i j)
    (hjk : comesBefore remainders evens j k) : comesBefore remainders evens i k := by
  unfold comesBefore at *
  revert hij hjk
  cases evens.getD i false <;> cases evens.getD j false <;> cases evens.getD k false <;> simp <;>
    omega

theorem comesBefore_antisymm {i j : ℕ} (hij : comesBefore remainders evens i j)
    (hji : comesBefore remainders evens j i) : i = j := by
  unfold comesBefore at *
  revert hij hji
  cases evens.getD i false <;> cases evens.getD j false <;> simp <;> omega

instance : Std.Total (comesBefore remainders evens) := ⟨comesBefore_total remainders evens⟩

instance : IsTrans ℕ (comesBefore remainders evens) :=
  ⟨fun _ _ _ => comesBefore_trans remainders evens⟩

theorem orderOf_perm : (orderOf remainders evens).Perm (List.range remainders.length) :=
  List.perm_insertionSort _ _

theorem orderOf_nodup : (orderOf remainders evens).Nodup :=
  (orderOf_perm remainders evens).nodup_iff.mpr List.nodup_range

theorem length_orderOf : (orderOf remainders evens).length = remainders.length := by
  rw [(orderOf_perm remainders evens).length_eq, List.length_range]

theorem mem_orderOf {i : ℕ} : i ∈ orderOf remainders evens ↔ i < remainders.length := by
  rw [(orderOf_perm remainders evens).mem_iff, List.mem_range]

/-- Whoever comes before one of the first is one of the first. -/
theorem mem_take_of_comesBefore {k i j : ℕ} (hi : i ∈ (orderOf remainders evens).take k)
    (hj : j < remainders.length) (h : comesBefore remainders evens j i) :
    j ∈ (orderOf remainders evens).take k := by
  by_contra hnot
  have hmem : j ∈ orderOf remainders evens := (mem_orderOf remainders evens).mpr hj
  rw [← List.take_append_drop k (orderOf remainders evens), List.mem_append] at hmem
  have hdrop := hmem.resolve_left hnot
  have hsorted : (orderOf remainders evens).Pairwise (comesBefore remainders evens) :=
    List.pairwise_insertionSort _ _
  rw [← List.take_append_drop k (orderOf remainders evens), List.pairwise_append] at hsorted
  have hbefore := hsorted.2.2 i hi j hdrop
  rw [comesBefore_antisymm remainders evens h hbefore] at hnot
  exact hnot hi

end Order

/-! ## Raising -/

/-- The floors with one unit more at the indices taken. -/
def raisedAt (taken : List ℕ) (floors : List ℕ) : List ℕ :=
  floors.mapIdx fun i floor => floor + if i ∈ taken then 1 else 0

theorem raisedAt_getElem {taken floors : List ℕ} {i : ℕ} (hi : i < (raisedAt taken floors).length) :
    (raisedAt taken floors)[i] = floors.get ⟨i, by simpa [raisedAt] using hi⟩ +
      if i ∈ taken then 1 else 0 := by
  simp [raisedAt]

theorem raise_ok {order : List ℕ} {floors : List ℕ} {k : ℕ} (hk : k < order.length)
    (hnodup : order.Nodup) (hvalid : ∀ j ∈ order, j < floors.length)
    (hroom : ∀ floor ∈ floors, floor + 1 < int128Bound) :
    raise order ((raisedAt (order.take k) floors).map Int.ofNat) k =
      .ok ((raisedAt (order.take (k + 1)) floors).map Int.ofNat) := by
  have hj : order[k] < floors.length := hvalid _ (List.getElem_mem hk)
  have hnot : order[k] ∉ order.take k := by
    intro hmem
    obtain ⟨i, hi, heq⟩ := List.mem_iff_getElem.mp hmem
    rw [List.getElem_take] at heq
    rw [List.length_take] at hi
    have hik := (List.Nodup.getElem_inj_iff hnodup).mp heq
    omega
  have hget : ((raisedAt (order.take k) floors).map Int.ofNat)[order[k]]?
      = some ((floors[order[k]] : ℕ) : ℤ) := by
    simp [raisedAt, hj, hnot]
  have hone : ((floors[order[k]] : ℕ) : ℤ) + 1 = ((floors[order[k]] + 1 : ℕ) : ℤ) := by simp
  unfold raise
  rw [List.getElem?_eq_getElem hk]
  dsimp only
  rw [hget]
  dsimp only
  rw [hone, int128_natCast (hroom _ (List.getElem_mem hj)), ok_bind]
  congr 1
  apply List.ext_getElem
  · simp [raisedAt]
  · intro i hi hi'
    have hifloors : i < floors.length := by simpa [raisedAt] using hi'
    rw [List.getElem_set]
    have htake : i ∈ order.take (k + 1) ↔ i ∈ order.take k ∨ i = order[k] := by
      rw [List.take_succ_eq_append_getElem hk, List.mem_append, List.mem_singleton]
    split
    · rename_i heq
      subst heq
      have hin := htake.mpr (Or.inr rfl)
      simp [raisedAt, hin]
    · rename_i hne
      have hsame : i ∈ order.take (k + 1) ↔ i ∈ order.take k :=
        htake.trans (or_iff_left fun h => hne h.symm)
      simp [raisedAt, hsame]

theorem raiseAll_ok {order : List ℕ} {floors : List ℕ} {leftover : ℕ}
    (hle : leftover ≤ order.length) (hnodup : order.Nodup)
    (hvalid : ∀ j ∈ order, j < floors.length)
    (hroom : ∀ floor ∈ floors, floor + 1 < int128Bound) :
    raiseAll order leftover (floors.map Int.ofNat) =
      .ok ((raisedAt (order.take leftover) floors).map Int.ofNat) := by
  unfold raiseAll
  rw [Int.toNat_natCast]
  induction leftover with
  | zero =>
    have hnone : raisedAt (order.take 0) floors = floors := by
      apply List.ext_getElem
      · simp [raisedAt]
      · intro i hi hi'
        simp [raisedAt]
    rw [hnone]
    rfl
  | succ k ih =>
    rw [List.range_succ, List.foldlM_append, ih (by omega), ok_bind, List.foldlM_cons,
      raise_ok (by omega) hnodup hvalid hroom, ok_bind]
    rfl

/-! ## The shares -/

def weightOf (weights : List ℕ) (i : Fin weights.length) : ℕ := weights[i]

theorem weightSum_weightOf (weights : List ℕ) : weightSum (weightOf weights) = weights.sum := by
  unfold weightSum weightOf
  exact Fin.sum_univ_getElem weights

variable (total : ℕ) (weights : List ℕ)

def floorList : List ℕ := weights.map fun w => total * w / weights.sum

def remainderList : List ℤ := weights.map fun w => ((total * w % weights.sum : ℕ) : ℤ)

def evensList : List Bool := weights.map fun w =>
  decide (EvensUp weights.sum (total * w % weights.sum) (total * w / weights.sum))

/-- The indices that get one of the units left over. -/
def taken : List ℕ :=
  (orderOf (remainderList total weights) (evensList total weights)).take
    (leftover total (weightOf weights))

def raisedSet : Finset (Fin weights.length) := Finset.univ.filter fun i => i.val ∈ taken total weights

def unitShare (i : Fin weights.length) : ℕ :=
  share total (weightOf weights) (raisedSet total weights) i

/-- The keys of the sort, on indices. -/
def Precedes (i j : Fin weights.length) : Prop :=
  let W := weights.sum
  let evens := fun k => EvensUp W (remainder total (weightOf weights) k)
    (floor total (weightOf weights) k)
  remainder total (weightOf weights) j < remainder total (weightOf weights) i ∨
    remainder total (weightOf weights) j = remainder total (weightOf weights) i ∧
      (evens i ∧ ¬ evens j ∨ (evens i ↔ evens j) ∧ i ≤ j)

variable {total weights}

theorem floorList_getElem {i : ℕ} (hi : i < (floorList total weights).length)
    (hlt : i < weights.length) :
    (floorList total weights)[i] = floor total (weightOf weights) ⟨i, hlt⟩ := by
  simp [floorList, floor, weightSum_weightOf, weightOf]

theorem sum_floorList : (floorList total weights).sum = ∑ i, floor total (weightOf weights) i := by
  have hofFn : floorList total weights = List.ofFn (floor total (weightOf weights)) := by
    apply List.ext_getElem
    · simp [floorList]
    · intro i hi hi'
      have hlt : i < weights.length := by simpa [floorList] using hi
      rw [List.getElem_ofFn]
      exact floorList_getElem hi hlt
  rw [hofFn, List.sum_ofFn]

theorem remainderList_getD (i : Fin weights.length) :
    (remainderList total weights).getD i 0 = (remainder total (weightOf weights) i : ℤ) := by
  simp [remainderList, remainder, weightSum_weightOf, weightOf]

theorem evensList_getD (i : Fin weights.length) :
    (evensList total weights).getD i false = decide (EvensUp weights.sum
      (remainder total (weightOf weights) i) (floor total (weightOf weights) i)) := by
  simp [evensList, remainder, floor, weightSum_weightOf, weightOf]

theorem comesBefore_iff {i j : Fin weights.length} :
    comesBefore (remainderList total weights) (evensList total weights) i j ↔
      Precedes total weights i j := by
  unfold comesBefore Precedes
  rw [remainderList_getD, remainderList_getD, evensList_getD, evensList_getD]
  simp only [Nat.cast_lt, Nat.cast_inj, decide_eq_true_eq, decide_eq_false_iff_not,
    decide_eq_decide, Fin.val_fin_le]

theorem length_remainderList : (remainderList total weights).length = weights.length := by
  simp [remainderList]

theorem mem_raisedSet_of_precedes {i j : Fin weights.length} (hi : i ∈ raisedSet total weights)
    (h : Precedes total weights j i) : j ∈ raisedSet total weights := by
  unfold raisedSet at hi ⊢
  rw [Finset.mem_filter] at hi ⊢
  refine ⟨Finset.mem_univ j, ?_⟩
  apply mem_take_of_comesBefore _ _ hi.2
  · rw [length_remainderList]
    exact j.isLt
  · exact comesBefore_iff.mpr h

theorem card_raisedSet (hle : leftover total (weightOf weights) ≤ weights.length) :
    (raisedSet total weights).card = leftover total (weightOf weights) := by
  have hnodup : (taken total weights).Nodup :=
    (List.take_sublist _ _).nodup (orderOf_nodup _ _)
  have hlength : (taken total weights).length = leftover total (weightOf weights) := by
    unfold taken
    rw [List.length_take, length_orderOf, length_remainderList]
    omega
  have himage : (raisedSet total weights).map Fin.valEmbedding = (taken total weights).toFinset := by
    ext i
    rw [Finset.mem_map, List.mem_toFinset]
    constructor
    · rintro ⟨k, hk, rfl⟩
      exact (Finset.mem_filter.mp hk).2
    · intro hi
      have hmem := List.mem_of_mem_take hi
      rw [mem_orderOf, length_remainderList] at hmem
      exact ⟨⟨i, hmem⟩, Finset.mem_filter.mpr ⟨Finset.mem_univ _, hi⟩, rfl⟩
  rw [← Finset.card_map Fin.valEmbedding, himage, List.toFinset_card_of_nodup hnodup, hlength]

/-- The ratios of a call that is let through, and a total of 64 bits. -/
structure Accepted (total : ℕ) (weights : List ℕ) : Prop where
  total_lt : total < Decimal.int64Bound
  ne_nil : weights ≠ []
  length_le : weights.length ≤ maxAllocationParts
  weight_pos : ∀ w ∈ weights, 0 < w
  weight_lt : ∀ w ∈ weights, w < int32Bound

namespace Accepted
variable (h : Accepted total weights)
include h

theorem sum_pos : 0 < weights.sum := by
  obtain ⟨w, rest, rfl⟩ := List.exists_cons_of_ne_nil h.ne_nil
  have hw := h.weight_pos w List.mem_cons_self
  rw [List.sum_cons]
  omega

theorem weightSum_pos : 0 < weightSum (weightOf weights) := by
  rw [weightSum_weightOf]
  exact h.sum_pos

theorem nonempty : Nonempty (Fin weights.length) :=
  ⟨⟨0, List.length_pos_iff.mpr h.ne_nil⟩⟩

theorem leftover_lt : leftover total (weightOf weights) < weights.length := by
  have hne := h.nonempty
  have hlt := leftover_lt_card total (weightOf weights) h.weightSum_pos
  rwa [Fintype.card_fin] at hlt

theorem raises : Raises total (weightOf weights) (raisedSet total weights) := by
  refine ⟨card_raisedSet h.leftover_lt.le, ?_⟩
  intro i hi j hj
  by_contra hlt
  exact hj (mem_raisedSet_of_precedes hi (Or.inl (Nat.lt_of_not_le hlt)))

theorem sum_le : weights.sum ≤ maxAllocationParts * int32Bound := by
  have hsum := List.sum_le_card_nsmul weights int32Bound fun w hw => (h.weight_lt w hw).le
  rw [smul_eq_mul] at hsum
  exact hsum.trans (Nat.mul_le_mul_right int32Bound h.length_le)

theorem leftover_eq : (total : ℤ) - ((floorList total weights).sum : ℕ)
    = (leftover total (weightOf weights) : ℕ) := by
  have hle := sum_floor_le total (weightOf weights) h.weightSum_pos
  rw [sum_floorList]
  unfold leftover
  omega

theorem floor_lt {floor : ℕ} (hmem : floor ∈ floorList total weights) :
    floor + 1 < int128Bound := by
  obtain ⟨w, hw, rfl⟩ := List.mem_map.mp hmem
  have hproduct := product_lt h.total_lt (h.weight_lt w hw)
  have hdiv : total * w / weights.sum ≤ total * w := Nat.div_le_self _ _
  have hbound : productBound + 1 < int128Bound := by decide
  omega

theorem divide_ok : divideAll total weights.sum 0 (weights.map Int.ofNat) =
    .ok ((floorList total weights).map Int.ofNat, remainderList total weights,
      ((floorList total weights).sum : ℕ)) := by
  have hroom : 0 + weights.length * productBound < int128Bound := by
    have hmul := Nat.mul_le_mul_right productBound h.length_le
    have hbound := room
    omega
  have hdivide := divideAll_ok h.sum_pos h.total_lt h.weight_lt hroom
  rw [Nat.zero_add] at hdivide
  rw [Int.ofNat_zero] at hdivide
  rw [hdivide]
  unfold floorList remainderList
  rw [List.map_map]
  rfl

theorem evens_ok :
    ((remainderList total weights).zip ((floorList total weights).map Int.ofNat)).mapM
      (fun r => becomesEven weights.sum r.1 r.2) = .ok (evensList total weights) := by
  have hzip : (remainderList total weights).zip ((floorList total weights).map Int.ofNat)
      = weights.map fun w => (((total * w % weights.sum : ℕ) : ℤ),
        ((total * w / weights.sum : ℕ) : ℤ)) := by
    unfold remainderList floorList
    rw [List.map_map, List.zip_map']
    rfl
  rw [hzip, List.mapM_map]
  apply mapM_ok
  intro w _
  apply becomesEven_ok
  have hlt : total * w % weights.sum < weights.sum := Nat.mod_lt _ h.sum_pos
  have hsum := h.sum_le
  have hbound : maxAllocationParts * int32Bound * 2 < int128Bound := by decide
  omega

/-- The loops end without a fault and give everyone the share. -/
theorem allocateUnits_ok : allocateUnits total (weights.map Int.ofNat) =
    .ok (List.ofFn fun i => ((unitShare total weights i : ℕ) : ℤ)) := by
  have hsum : weights.sum < int128Bound := by
    have hle := h.sum_le
    have hbound : maxAllocationParts * int32Bound < int128Bound := by decide
    omega
  have hleftover : int128 ((leftover total (weightOf weights) : ℕ) : ℤ)
      = .ok ((leftover total (weightOf weights) : ℕ) : ℤ) := by
    apply int128_natCast
    have hlt := h.leftover_lt
    have hle := h.length_le
    have hbound : maxAllocationParts < int128Bound := by decide
    omega
  have hraise : raiseAll (orderOf (remainderList total weights) (evensList total weights))
      (leftover total (weightOf weights)) ((floorList total weights).map Int.ofNat)
        = .ok ((raisedAt (taken total weights) (floorList total weights)).map Int.ofNat) := by
    apply raiseAll_ok
    · rw [length_orderOf, length_remainderList]
      exact h.leftover_lt.le
    · exact orderOf_nodup _ _
    · intro j hj
      rw [mem_orderOf, length_remainderList] at hj
      simpa [floorList] using hj
    · exact fun floor hfloor => h.floor_lt hfloor
  unfold allocateUnits
  rw [sumWeights_ok hsum, ok_bind, h.divide_ok, ok_bind]
  dsimp only
  rw [h.leftover_eq, hleftover, ok_bind, h.evens_ok, ok_bind, hraise]
  apply congrArg Except.ok
  apply List.ext_getElem
  · simp [raisedAt, floorList]
  · intro i hi hi'
    have hlt : i < weights.length := by simpa using hi'
    have hfloor := @floorList_getElem total weights i (by simpa [floorList] using hlt) hlt
    have hin : (⟨i, hlt⟩ : Fin weights.length) ∈ raisedSet total weights ↔
        i ∈ taken total weights := by
      simp [raisedSet]
    rw [List.getElem_ofFn, List.getElem_map, raisedAt_getElem, List.get_eq_getElem, hfloor]
    unfold unitShare share
    simp only [hin]
    rfl

end Accepted

end Weights
end Decisya.SharedKernel.Money
