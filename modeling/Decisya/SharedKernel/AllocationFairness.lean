import Decisya.SharedKernel.AllocationDomain

/-!
# Allocations lose nothing and are fair

The laws of the shares as amounts of money: they sum up to the amount, are a unit away from the
quota at most, mirror for a refund, and follow the ratios and the order of the ratios.
-/

namespace Decisya.SharedKernel.Money

open LargestRemainder

set_option autoImplicit false

/-! ## Signs -/

theorem signed_add (isNegative : Bool) (a b : ℕ) :
    signed isNegative (a + b) = signed isNegative a + signed isNegative b := by
  cases isNegative
  · simp [signed]
  · change -((a + b : ℕ) : ℤ) = -(a : ℤ) + -(b : ℤ)
    omega

theorem sum_signed (isNegative : Bool) (xs : List ℕ) :
    (xs.map (signed isNegative)).sum = signed isNegative xs.sum := by
  induction xs with
  | nil => cases isNegative <;> rfl
  | cons x xs ih => rw [List.map_cons, List.sum_cons, ih, List.sum_cons, signed_add]

theorem signed_natAbs (n : ℤ) : signed (decide (n < 0)) n.natAbs = n := by
  unfold signed
  by_cases h : n < 0
  · rw [if_pos (decide_eq_true h)]
    omega
  · rw [if_neg (by simpa using h)]
    omega

section Laws
variable {m : Money} {n : ℤ} {ratios : List Int32} {shares : List Money}

theorem sum_signedShares (h : Accepted n.natAbs (weightsOf ratios)) :
    (signedShares n ratios).sum = n := by
  have hmap : signedShares n ratios = (List.ofFn (unitShare n.natAbs (weightsOf ratios))).map
      (signed (decide (n < 0))) := by
    unfold signedShares
    rw [List.map_ofFn]
    rfl
  rw [hmap, sum_signed, List.sum_ofFn]
  have hsum : ∑ i, unitShare n.natAbs (weightsOf ratios) i = n.natAbs :=
    sum_share h.weightSum_pos h.raises
  rw [hsum, signed_natAbs]

theorem sum_value {c : Currency} {zs : List ℤ}
    (h : List.Forall₂ (fun z s => OfUnits c z s) zs shares) :
    (shares.map value).sum = (zs.sum : ℤ) / 10 ^ c.minorUnitExponent := by
  induction h with
  | nil => simp
  | cons hz _ ih =>
    rw [List.map_cons, List.sum_cons, ih, hz.value_eq, List.sum_cons]
    push_cast
    rw [add_div]

/-- The share at an index, in minor units. -/
theorem getElem_ofUnits {zs : List ℤ} {c : Currency} {i : ℕ}
    (h : List.Forall₂ (fun z s => OfUnits c z s) zs shares) (hi : i < shares.length)
    (hz : i < zs.length) : OfUnits c zs[i] shares[i] :=
  List.Forall₂.get h hz hi

theorem getElem_signedShares {i : ℕ} (hi : i < (signedShares n ratios).length)
    (hr : i < (weightsOf ratios).length) : (signedShares n ratios)[i] =
      signed (decide (n < 0)) (unitShare n.natAbs (weightsOf ratios) ⟨i, hr⟩) := by
  simp [signedShares]

/-- What a call that returned gives at each index. -/
structure Shared (m : Money) (ratios : List Int32) (shares : List Money) (n : ℤ) : Prop where
  valid : RatiosValid ratios
  units : OfUnits m.currency n m
  small : n.natAbs < Decimal.int64Bound
  accepted : Accepted n.natAbs (weightsOf ratios)
  length_eq : shares.length = ratios.length
  share : ∀ i (hi : i < shares.length) (hr : i < (weightsOf ratios).length),
    OfUnits m.currency (signed (decide (n < 0)) (unitShare n.natAbs (weightsOf ratios) ⟨i, hr⟩))
      shares[i]

theorem exists_shared (h : m.allocate ratios = .ok shares) : ∃ n, Shared m ratios shares n := by
  have hv := (allocate_returned h).1
  obtain ⟨n, hm, hlt, hacc, hall⟩ := share_ofUnits h
  have hlength : shares.length = ratios.length := by
    rw [← hall.length_eq, length_signedShares]
  refine ⟨n, hv, hm, hlt, hacc, hlength, ?_⟩
  intro i hi hr
  have hz : i < (signedShares n ratios).length := by rw [hall.length_eq]; exact hi
  have hunits := getElem_ofUnits hall hi hz
  rwa [getElem_signedShares hz hr] at hunits

/-! ## Quotas -/

def ratioSum (ratios : List Int32) : ℤ := (ratios.map Int32.toInt).sum

theorem ratioSum_eq (hv : RatiosValid ratios) : ratioSum ratios = ((weightsOf ratios).sum : ℕ) := by
  unfold ratioSum
  rw [map_toInt_eq hv]
  induction weightsOf ratios with
  | nil => rfl
  | cons w ws ih => simp [ih]

theorem weightOf_eq (hv : RatiosValid ratios) {i : ℕ} (hi : i < ratios.length)
    (hr : i < (weightsOf ratios).length) :
    ((weightOf (weightsOf ratios) ⟨i, hr⟩ : ℕ) : ℤ) = ratios[i].toInt := by
  have hpos := hv.pos _ (List.getElem_mem hi)
  unfold weightOf weightsOf
  simp only [Fin.getElem_fin, List.getElem_map]
  omega

/-- Whatever the sign, the distance to the quota is that of the absolute amount. -/
theorem signed_near {n : ℤ} {u w W : ℕ} (hhigh : W * u < n.natAbs * w + W)
    (hlow : n.natAbs * w < W * u + W) : |signed (decide (n < 0)) u * (W : ℤ) - n * w| < W := by
  have hdistance : |((W * u : ℕ) : ℤ) - ((n.natAbs * w : ℕ) : ℤ)| < W := by
    rw [abs_lt]
    omega
  by_cases hneg : n < 0
  · have hn : n = -(n.natAbs : ℤ) := by omega
    have hfactor : signed (decide (n < 0)) u * (W : ℤ) - n * w =
        -(((W * u : ℕ) : ℤ) - ((n.natAbs * w : ℕ) : ℤ)) := by
      rw [signed, if_pos (decide_eq_true hneg)]
      nth_rewrite 1 [hn]
      push_cast
      ring
    rw [hfactor, abs_neg]
    exact hdistance
  · have hn : n = (n.natAbs : ℤ) := by omega
    have hfactor : signed (decide (n < 0)) u * (W : ℤ) - n * w =
        ((W * u : ℕ) : ℤ) - ((n.natAbs * w : ℕ) : ℤ) := by
      rw [signed, if_neg (by simpa using hneg)]
      nth_rewrite 1 [hn]
      push_cast
      ring
    rw [hfactor]
    exact hdistance

theorem quota_near {u n w W : ℤ} {p : ℕ} (hW : 0 < W) (h : |u * W - n * w| < W) :
    |(u : ℚ) / 10 ^ p - n / 10 ^ p * w / W| < 1 / 10 ^ p := by
  have hpos : (0 : ℚ) < W := by exact_mod_cast hW
  have hpow : (0 : ℚ) < 10 ^ p := by positivity
  have hcast : |(u : ℚ) * W - n * w| < W := by exact_mod_cast h
  have hdiff : (u : ℚ) / 10 ^ p - n / 10 ^ p * w / W = (u * W - n * w) / (W * 10 ^ p) := by
    field_simp
  rw [hdiff, abs_div, abs_of_pos (mul_pos hpos hpow), div_lt_div_iff₀ (mul_pos hpos hpow) hpow,
    one_mul]
  exact mul_lt_mul_of_pos_right hcast hpow

theorem Shared.near (h : Shared m ratios shares n) {i : ℕ} (hi : i < shares.length)
    (hr : i < ratios.length) :
    |shares[i].value - m.value * ratios[i].toInt / ratioSum ratios|
      < 1 / 10 ^ m.currency.minorUnitExponent := by
  have hw : i < (weightsOf ratios).length := by rwa [length_weightsOf]
  obtain ⟨hhigh, hlow⟩ := share_near h.accepted.weightSum_pos h.accepted.raises ⟨i, hw⟩
  rw [weightSum_weightOf] at hhigh hlow
  have hnear := signed_near hhigh hlow
  have hpos : (0 : ℤ) < ((weightsOf ratios).sum : ℕ) := Int.natCast_pos.mpr h.accepted.sum_pos
  rw [(h.share i hi hw).value_eq, h.units.value_eq, ratioSum_eq h.valid,
    ← weightOf_eq h.valid hr hw]
  exact quota_near hpos hnear

/-! ## Refunds -/

theorem Shared.same_sign (h : Shared m ratios shares n) {s : Money} (hs : s ∈ shares) :
    0 ≤ s.value * m.value := by
  obtain ⟨i, hi, rfl⟩ := List.mem_iff_getElem.mp hs
  have hw : i < (weightsOf ratios).length := by
    rw [length_weightsOf, ← h.length_eq]
    exact hi
  rw [(h.share i hi hw).value_eq, h.units.value_eq]
  have hproduct : 0 ≤ signed (decide (n < 0)) (unitShare n.natAbs (weightsOf ratios) ⟨i, hw⟩) * n := by
    unfold signed
    by_cases hneg : n < 0
    · rw [if_pos (decide_eq_true hneg), Int.neg_mul_comm]
      exact Int.mul_nonneg (Int.natCast_nonneg _) (by omega)
    · rw [if_neg (by simpa using hneg)]
      exact Int.mul_nonneg (Int.natCast_nonneg _) (by omega)
  have hcast : (0 : ℚ) ≤ signed (decide (n < 0)) (unitShare n.natAbs (weightsOf ratios) ⟨i, hw⟩) * n := by
    exact_mod_cast hproduct
  rw [div_mul_div_comm]
  positivity

theorem signedShares_neg (h : Accepted n.natAbs (weightsOf ratios)) :
    signedShares (-n) ratios = (signedShares n ratios).map fun z => -z := by
  unfold signedShares
  rw [List.map_ofFn, Int.natAbs_neg]
  congr 1
  funext i
  have hle : unitShare n.natAbs (weightsOf ratios) i ≤ n.natAbs :=
    share_le_total h.weightSum_pos h.raises i
  simp only [Function.comp_apply, signed, decide_eq_true_eq]
  split <;> split <;> omega

/-- The refund of each share is the share of the refund. -/
theorem mirror (h : m.allocate ratios = .ok shares) : ∃ refund negated,
    m.neg = .ok refund ∧ shares.mapM neg = .ok negated ∧
      refund.allocate ratios = .ok negated := by
  obtain ⟨hv, hinit, n, hm, hlt, hall⟩ := allocate_returned h
  have hacc := hv.accepted hlt
  have hdigits : Decimal.HasDigits m.amount.neg.value m.currency.minorUnitExponent := by
    rw [Decimal.value_neg]
    exact m.hasDigits.neg
  obtain ⟨refund, hrefund, hamount, hcurrency⟩ := new_of_hasDigits hinit hdigits
  have hunits : OfUnits refund.currency (-n) refund := by
    refine ⟨rfl, ?_⟩
    rw [hcurrency, value, hamount, Decimal.value_neg, neg_mul]
    push_cast
    rw [← hm.2]
    rfl
  have hltneg : (-n).natAbs < Decimal.int64Bound := by rwa [Int.natAbs_neg]
  have hinit' : refund.currency.isInitialized = true := by rw [hcurrency]; exact hinit
  obtain ⟨negated, hnegated⟩ := allocate_ok hv hunits hinit' hltneg
  refine ⟨refund, negated, hrefund, ?_, hnegated⟩
  rw [← hnegated, allocate_eq hv hunits hltneg, signedShares_neg hacc, hcurrency]
  have hsmall := fun z (hz : z ∈ signedShares n ratios) => natAbs_signedShares_lt hacc hz
  clear hnegated h
  generalize signedShares n ratios = zs at hall hsmall ⊢
  induction hall with
  | nil => rfl
  | cons hz _ ih =>
    rw [List.mapM_cons, List.map_cons, List.mapM_cons,
      unitMoney_neg (hsmall _ List.mem_cons_self) hz,
      ih fun y hy => hsmall y (List.mem_cons_of_mem _ hy)]

theorem allocateParts_eq_ok_iff (m : Money) (parts : Int32) (shares : List Money) :
    m.allocateParts parts = .ok shares ↔
      m.allocate (List.replicate parts.toInt.toNat 1) = .ok shares := by
  unfold allocateParts
  split
  · rename_i hle
    have hzero : parts.toInt.toNat = 0 := by
      have hint := Int32.le_iff_toInt_le.mp hle
      have hnone : (0 : Int32).toInt = 0 := rfl
      omega
    rw [hzero]
    refine iff_of_false (by simp) ?_
    intro h
    exact (allocate_returned h).1.ne_nil rfl
  · split
    · rename_i hlong
      refine iff_of_false (by simp) ?_
      intro h
      have hle := (allocate_returned h).1.length_le
      rw [List.length_replicate] at hle
      omega
    · exact Iff.rfl

/-- Nothing is lost, and a refund is split the way the charge was. -/
theorem allocate_loses_nothing (m : Money) :
    (∀ ratios shares, m.allocate ratios = .ok shares →
      shares.length = ratios.length ∧ (∀ s ∈ shares, s.currency = m.currency) ∧
      (shares.map value).sum = m.value ∧
      (∀ i (hi : i < shares.length) (hr : i < ratios.length),
        |shares[i].value - m.value * ratios[i].toInt / ratioSum ratios|
          < 1 / 10 ^ m.currency.minorUnitExponent) ∧
      (∀ s ∈ shares, 0 ≤ s.value * m.value) ∧
      ∃ refund negated, m.neg = .ok refund ∧ shares.mapM neg = .ok negated ∧
        refund.allocate ratios = .ok negated) ∧
    ∀ parts shares, m.allocateParts parts = .ok shares ↔
      m.allocate (List.replicate parts.toInt.toNat 1) = .ok shares := by
  refine ⟨?_, fun parts shares => allocateParts_eq_ok_iff m parts shares⟩
  intro ratios shares h
  obtain ⟨n, hshared⟩ := exists_shared h
  refine ⟨hshared.length_eq, ?_, ?_, fun i hi hr => hshared.near hi hr,
    fun s hs => hshared.same_sign hs, mirror h⟩
  · intro s hs
    obtain ⟨i, hi, rfl⟩ := List.mem_iff_getElem.mp hs
    have hw : i < (weightsOf ratios).length := by
      rw [length_weightsOf, ← hshared.length_eq]
      exact hi
    exact (hshared.share i hi hw).1
  · obtain ⟨k, hk, -, hacc, hall⟩ := share_ofUnits h
    rw [sum_value hall, sum_signedShares hacc, hk.value_eq]

end Laws

def tenSample : Money :=
  ⟨⟨10, 0, by decide, Nat.zero_le _⟩, dollar, by decide, fun h => by cases h⟩

def thirdsSample : List Money :=
  [⟨⟨334, 2, by decide, two_le_maxScale⟩, dollar, by decide, fun h => by cases h⟩,
    ⟨⟨333, 2, by decide, two_le_maxScale⟩, dollar, by decide, fun h => by cases h⟩,
    ⟨⟨333, 2, by decide, two_le_maxScale⟩, dollar, by decide, fun h => by cases h⟩]

theorem allocate_loses_nothing_sample :
    (thirdsSample.map value).sum = tenSample.value ∧
      (tenSample.allocateParts 3 = .ok thirdsSample ↔
        tenSample.allocate (List.replicate (3 : Int32).toInt.toNat 1) = .ok thirdsSample) := by
  have hall := allocate_loses_nothing tenSample
  exact ⟨(hall.1 [1, 1, 1] thirdsSample rfl).2.2.1, hall.2 3 thirdsSample⟩

/-! ## Fairness -/

section Fair
variable (total : ℕ) (weights : List ℕ)

def quotaFloor (i : Fin weights.length) : ℕ := total * weightOf weights i / weights.sum

/-- The fractional part of the quota, times the sum of the weights. -/
def fraction (i : Fin weights.length) : ℕ := total * weightOf weights i % weights.sum

def isHalf (i : Fin weights.length) : Prop := 2 * fraction total weights i = weights.sum

def RoundedUp (units : Fin weights.length → ℕ) (i : Fin weights.length) : Prop :=
  units i = quotaFloor total weights i + 1

/-- The laws of shares in minor units, of a total that is not negative. -/
structure Fair (units : Fin weights.length → ℕ) : Prop where
  rounded : ∀ i, units i = quotaFloor total weights i ∨ RoundedUp total weights units i
  larger_weight : ∀ i j : Fin weights.length, weightOf weights i < weightOf weights j → units i ≤ units j
  equal_weight : ∀ i j : Fin weights.length, i < j → weightOf weights i = weightOf weights j →
    units j ≤ units i ∧ units i ≤ units j + 1
  larger_fraction : ∀ i j, fraction total weights j < fraction total weights i →
    RoundedUp total weights units j → RoundedUp total weights units i
  half_to_even : ∀ i j, isHalf total weights i → isHalf total weights j →
    quotaFloor total weights i % 2 = 1 → quotaFloor total weights j % 2 = 0 →
      RoundedUp total weights units j → RoundedUp total weights units i
  half_in_order : ∀ i j, i < j → isHalf total weights i → isHalf total weights j →
    quotaFloor total weights i % 2 = quotaFloor total weights j % 2 →
      RoundedUp total weights units j → RoundedUp total weights units i

variable {total weights}

theorem floor_eq_quotaFloor (i : Fin weights.length) :
    floor total (weightOf weights) i = quotaFloor total weights i := by
  unfold floor quotaFloor
  rw [weightSum_weightOf]

theorem remainder_eq_fraction (i : Fin weights.length) :
    remainder total (weightOf weights) i = fraction total weights i := by
  unfold remainder fraction
  rw [weightSum_weightOf]

theorem unitShare_eq (i : Fin weights.length) : unitShare total weights i =
    quotaFloor total weights i + if i ∈ raisedSet total weights then 1 else 0 := by
  unfold unitShare share
  rw [floor_eq_quotaFloor]

theorem roundedUp_iff (i : Fin weights.length) :
    RoundedUp total weights (unitShare total weights) i ↔ i ∈ raisedSet total weights := by
  unfold RoundedUp
  rw [unitShare_eq]
  split
  · rename_i h
    exact iff_of_true rfl h
  · rename_i h
    exact iff_of_false (by omega) h

theorem precedes_iff {i j : Fin weights.length} : Precedes total weights i j ↔
    fraction total weights j < fraction total weights i ∨
      fraction total weights j = fraction total weights i ∧
        (EvensUp weights.sum (fraction total weights i) (quotaFloor total weights i) ∧
          ¬ EvensUp weights.sum (fraction total weights j) (quotaFloor total weights j) ∨
        (EvensUp weights.sum (fraction total weights i) (quotaFloor total weights i) ↔
          EvensUp weights.sum (fraction total weights j) (quotaFloor total weights j)) ∧ i ≤ j) := by
  unfold Precedes
  simp only [remainder_eq_fraction, floor_eq_quotaFloor]

theorem fair_unitShare (h : Accepted total weights) :
    Fair total weights (unitShare total weights) := by
  have hup : ∀ {i j}, Precedes total weights i j →
      RoundedUp total weights (unitShare total weights) j →
        RoundedUp total weights (unitShare total weights) i := by
    intro i j hbefore hj
    rw [roundedUp_iff] at hj ⊢
    exact mem_raisedSet_of_precedes hj hbefore
  refine ⟨?_, ?_, ?_, ?_, ?_, ?_⟩
  · intro i
    unfold RoundedUp
    rw [unitShare_eq]
    split
    · exact Or.inr rfl
    · exact Or.inl rfl
  · intro i j hij
    exact share_mono h.weightSum_pos h.raises hij
  · intro i j hij heq
    have hfloor : quotaFloor total weights i = quotaFloor total weights j := by
      unfold quotaFloor
      rw [heq]
    have hfraction : fraction total weights i = fraction total weights j := by
      unfold fraction
      rw [heq]
    have hbefore : Precedes total weights i j := by
      rw [precedes_iff, hfloor, hfraction]
      exact Or.inr ⟨rfl, Or.inr ⟨Iff.rfl, hij.le⟩⟩
    have hraised : j ∈ raisedSet total weights → i ∈ raisedSet total weights := fun hj =>
      mem_raisedSet_of_precedes hj hbefore
    rw [unitShare_eq, unitShare_eq, hfloor]
    by_cases hj : j ∈ raisedSet total weights
    · rw [if_pos hj, if_pos (hraised hj)]
      omega
    · rw [if_neg hj]
      split <;> omega
  · intro i j hlt
    exact hup (precedes_iff.mpr (Or.inl hlt))
  · intro i j hi hj hodd heven
    apply hup
    rw [precedes_iff]
    refine Or.inr ⟨?_, Or.inl ⟨⟨hi, hodd⟩, fun hno => ?_⟩⟩
    · unfold isHalf at hi hj
      omega
    · have hno2 := hno.2
      omega
  · intro i j hij hi hj hparity
    apply hup
    rw [precedes_iff]
    refine Or.inr ⟨?_, Or.inr ⟨?_, hij.le⟩⟩
    · unfold isHalf at hi hj
      omega
    · unfold EvensUp
      unfold isHalf at hi hj
      rw [hi, hj, hparity]

/-! ## Equal parts -/

/-- A set that holds every index before one of its own is an initial segment. -/
theorem mem_iff_lt_card {k : ℕ} {s : Finset (Fin k)} (h : ∀ i ∈ s, ∀ j ≤ i, j ∈ s) (i : Fin k) :
    i ∈ s ↔ i.val < s.card := by
  constructor
  · intro hi
    have hsub : Finset.Iic i ⊆ s := fun j hj => h i hi j (Finset.mem_Iic.mp hj)
    have hcard := Finset.card_le_card hsub
    rw [Fin.card_Iic] at hcard
    omega
  · intro hlt
    by_contra hi
    have hsub : s ⊆ Finset.Iio i := by
      intro j hj
      rw [Finset.mem_Iio]
      by_contra hge
      exact hi (h j hj i (not_lt.mp hge))
    have hcard := Finset.card_le_card hsub
    rw [Fin.card_Iio] at hcard
    omega

theorem unitShare_of_equal {k : ℕ} (h : Accepted total weights) (hequal : ∀ w ∈ weights, w = 1)
    (hlength : weights.length = k) (i : Fin weights.length) :
    unitShare total weights i = total / k + if i.val < total % k then 1 else 0 := by
  have hne := h.nonempty
  have hone : ∀ j, weightOf weights j = 1 := fun j => hequal _ (List.getElem_mem j.isLt)
  have hfloor := floor_of_equal total _ hone
  have hleft := leftover_of_equal total _ hone
  simp only [Fintype.card_fin, hlength] at hfloor hleft
  have hsegment : ∀ a ∈ raisedSet total weights, ∀ b ≤ a, b ∈ raisedSet total weights := by
    intro a ha b hle
    apply mem_raisedSet_of_precedes ha
    have hremainder : remainder total (weightOf weights) a = remainder total (weightOf weights) b := by
      unfold remainder
      rw [hone, hone]
    refine Or.inr ⟨hremainder, Or.inr ⟨?_, hle⟩⟩
    dsimp only
    rw [hremainder, hfloor, hfloor]
  have hmem := mem_iff_lt_card hsegment i
  rw [h.raises.card_eq, hleft] at hmem
  unfold unitShare share
  rw [hfloor]
  simp only [hmem]

end Fair

/-- The absolute amount in minor units. -/
def absUnits (m : Money) : ℚ := |m.value| * 10 ^ m.currency.minorUnitExponent

theorem OfUnits.absUnits_eq {c : Currency} {n : ℤ} {m : Money} (h : OfUnits c n m) :
    m.absUnits = n.natAbs := by
  have hpow : (0 : ℚ) < 10 ^ c.minorUnitExponent := by positivity
  unfold absUnits
  rw [h.value_eq, h.1, abs_div, abs_of_pos hpow, div_mul_cancel₀ _ hpow.ne', ← Int.cast_abs,
    Int.abs_eq_natAbs]
  rfl

theorem Shared.absUnits_eq {m : Money} {ratios : List Int32} {shares : List Money} {n : ℤ}
    (h : Shared m ratios shares n) {i : ℕ} (hi : i < shares.length)
    (hr : i < (weightsOf ratios).length) :
    shares[i].absUnits = unitShare n.natAbs (weightsOf ratios) ⟨i, hr⟩ := by
  rw [(h.share i hi hr).absUnits_eq, natAbs_signed]

/-- Shares follow the ratios, and what is left over goes by remainder, then to the shares that
become even at half way, then in order. -/
theorem allocate_fair (m : Money) :
    (∀ ratios shares, m.allocate ratios = .ok shares →
      (∀ r ∈ ratios, 0 < r.toInt) ∧ shares.length = ratios.length ∧
      ∃ total units, m.absUnits = (total : ℕ) ∧ Fair total (weightsOf ratios) units ∧
        ∀ i (hi : i < shares.length) (hr : i < (weightsOf ratios).length),
          shares[i].absUnits = units ⟨i, hr⟩) ∧
    ∀ parts shares, m.allocateParts parts = .ok shares →
      0 < parts.toInt ∧ shares.length = parts.toInt.toNat ∧
      ∃ total : ℕ, m.absUnits = total ∧ ∀ i (hi : i < shares.length), shares[i].absUnits =
        (total / shares.length + if i < total % shares.length then 1 else 0 : ℕ) := by
  constructor
  · intro ratios shares h
    obtain ⟨n, hshared⟩ := exists_shared h
    exact ⟨hshared.valid.pos, hshared.length_eq, n.natAbs, _, hshared.units.absUnits_eq,
      fair_unitShare hshared.accepted, fun i hi hr => hshared.absUnits_eq hi hr⟩
  · intro parts shares h
    rw [allocateParts_eq_ok_iff] at h
    obtain ⟨n, hshared⟩ := exists_shared h
    have hlength := hshared.length_eq
    rw [List.length_replicate] at hlength
    have hpos : 0 < parts.toInt := by
      by_contra hle
      have hnone : parts.toInt.toNat = 0 := by omega
      have hne := hshared.valid.ne_nil
      rw [hnone] at hne
      exact hne rfl
    refine ⟨hpos, hlength, n.natAbs, hshared.units.absUnits_eq, ?_⟩
    intro i hi
    have hweights : (weightsOf (List.replicate parts.toInt.toNat 1)).length = shares.length := by
      rw [length_weightsOf, List.length_replicate, hlength]
    have hequal : ∀ w ∈ weightsOf (List.replicate parts.toInt.toNat 1), w = 1 := by
      intro w hw
      obtain ⟨r, hr, rfl⟩ := List.mem_map.mp hw
      rw [List.eq_of_mem_replicate hr]
      rfl
    have hr : i < (weightsOf (List.replicate parts.toInt.toNat 1)).length := by
      rw [hweights]
      exact hi
    rw [hshared.absUnits_eq hi hr, unitShare_of_equal hshared.accepted hequal hweights]

theorem allocate_fair_sample : ∃ total : ℕ, tenSample.absUnits = total ∧
    ∀ i (hi : i < thirdsSample.length), thirdsSample[i].absUnits = (total / thirdsSample.length +
      if i < total % thirdsSample.length then 1 else 0 : ℕ) :=
  ((allocate_fair tenSample).2 3 thirdsSample rfl).2.2

end Decisya.SharedKernel.Money
