import Decisya.SharedKernel.AllocationRun

/-!
# The domain of an allocation

When a call returns, and that what it returns are the shares of the largest remainders, in the
sign of the amount.
-/

namespace Decisya.SharedKernel.Money

open LargestRemainder

set_option autoImplicit false

/-! ## Minor units -/

theorem decimalPow10_ok (c : Currency) : ∃ factor, decimalPow10 c.minorUnitExponent = .ok factor ∧
    factor.scale = 0 ∧ factor.value = 10 ^ c.minorUnitExponent := by
  rcases c.minorUnitExponent_cases with h | h | h | h <;> rw [h] <;>
    refine ⟨_, rfl, rfl, ?_⟩ <;> norm_num [Decimal.value]

/-- An amount in minor units, or the exception for one too large. -/
theorem toMinorUnits_eq {amount : Decimal} {c : Currency} {n : ℤ}
    (h : amount.value * 10 ^ c.minorUnitExponent = n) :
    toMinorUnits amount c.minorUnitExponent =
      if -(Decimal.int64Bound : ℤ) ≤ n ∧ n < Decimal.int64Bound then .ok n else .error tooLarge := by
  obtain ⟨factor, hfactor, hscale, hvalue⟩ := decimalPow10_ok c
  have hproduct : amount.value * factor.value = n := by rw [hvalue, h]
  have hscales : amount.scale + factor.scale ≤ Decimal.maxScale := by
    rw [hscale]
    exact amount.scale_le
  have hbounds : Decimal.int64Bound < Decimal.maxMantissa := by decide
  unfold toMinorUnits
  rw [hfactor, ok_bind]
  cases hmul : amount.mul factor with
  | none =>
    have hover := (Decimal.mul_eq_none_iff hscales).mp hmul
    rw [hproduct, Decimal.overflows_intCast_iff] at hover
    rw [if_neg (by omega)]
    rfl
  | some d =>
    have hfits : n.natAbs < Decimal.maxMantissa := by
      by_contra hlarge
      have hnone := (Decimal.mul_eq_none_iff hscales).mpr
        (by rw [hproduct]; exact Decimal.overflows_intCast_iff.mpr (Nat.le_of_not_lt hlarge))
      rw [hmul] at hnone
      cases hnone
    obtain ⟨x, hx⟩ := Decimal.exists_value_intCast hfits
    obtain ⟨product, hsome, hexact⟩ := Decimal.mul_exact hscales (hx.trans hproduct.symm)
    rw [hmul] at hsome
    cases hsome
    dsimp only [Option.bind]
    rw [Decimal.toInt64_of_value (hexact.trans hproduct)]
    by_cases hin : -(Decimal.int64Bound : ℤ) ≤ n ∧ n < Decimal.int64Bound
    · rw [if_pos hin, if_pos hin]
    · rw [if_neg hin, if_neg hin]

theorem fromMinorUnits_eq (c : Currency) {n : ℤ} (h : n.natAbs < Decimal.int64Bound) :
    fromMinorUnits n c.minorUnitExponent = .ok (Decimal.strip n
      (h.trans_le (by decide)) c.minorUnitExponent (by
        rcases c.minorUnitExponent_cases with hc | hc | hc | hc <;> rw [hc] <;> decide)) := by
  obtain ⟨factor, hfactor, -, -⟩ := decimalPow10_ok c
  have hscale : c.minorUnitExponent ≤ Decimal.maxScale := by
    rcases c.minorUnitExponent_cases with hc | hc | hc | hc <;> rw [hc] <;> decide
  unfold fromMinorUnits
  rw [hfactor, ok_bind, Decimal.divPow10, dif_pos ⟨h.trans_le (by decide), hscale⟩]

/-- So many minor units, as money. -/
def OfUnits (c : Currency) (n : ℤ) (m : Money) : Prop :=
  m.currency = c ∧ m.value * 10 ^ c.minorUnitExponent = n

theorem OfUnits.value_eq {c : Currency} {n : ℤ} {m : Money} (h : OfUnits c n m) :
    m.value = n / 10 ^ c.minorUnitExponent := by
  rw [eq_div_iff (by positivity)]
  exact h.2

theorem exists_units (m : Money) : ∃ n : ℤ, OfUnits m.currency n m := by
  obtain ⟨n, hn⟩ := m.hasDigits
  exact ⟨n, rfl, hn⟩

/-- The sign an amount's shares get. -/
def signed (isNegative : Bool) (n : ℕ) : ℤ := if isNegative then -(n : ℤ) else n

theorem natAbs_signed (isNegative : Bool) (n : ℕ) : (signed isNegative n).natAbs = n := by
  cases isNegative <;> simp [signed]

/-- The last two steps of a share, from its minor units. -/
def unitMoney (c : Currency) (n : ℤ) : Except Fault Money := do
  let amount ← fromMinorUnits n c.minorUnitExponent
  new amount c

theorem shareOf_eq (c : Currency) (isNegative : Bool) {n : ℕ} (h : n < Decimal.int64Bound) :
    shareOf isNegative c n = unitMoney c (signed isNegative n) := by
  have hsigned : (if isNegative = true then int64 (-(n : ℤ)) else .ok (n : ℤ))
      = .ok (signed isNegative n) := by
    unfold signed
    cases isNegative with
    | false => rfl
    | true => exact int64_ok (by omega)
  unfold shareOf unitMoney
  rw [int64_ok (by omega), ok_bind, hsigned, ok_bind]

theorem unitMoney_ok {c : Currency} (hinit : c.isInitialized = true) {n : ℤ}
    (h : n.natAbs < Decimal.int64Bound) : ∃ m, unitMoney c n = .ok m ∧ OfUnits c n m := by
  have hunits : Decimal.HasDigits (Decimal.scaled n c.minorUnitExponent) c.minorUnitExponent :=
    ⟨n, by unfold Decimal.scaled; field_simp⟩
  have hfrom := fromMinorUnits_eq c h
  have hvalue := @Decimal.value_strip n (h.trans_le (by decide)) _
    (show c.minorUnitExponent ≤ Decimal.maxScale by
      rcases c.minorUnitExponent_cases with hc | hc | hc | hc <;> rw [hc] <;> decide)
  obtain ⟨m, hm, hamount, hcurrency⟩ := new_of_hasDigits hinit (by rw [hvalue]; exact hunits)
  refine ⟨m, ?_, hcurrency, ?_⟩
  · unfold unitMoney
    rw [hfrom, ok_bind]
    exact hm
  · rw [value, hamount, hvalue]
    unfold Decimal.scaled
    field_simp

/-- Negated minor units are negated money. -/
theorem unitMoney_neg {c : Currency} {n : ℤ} (h : n.natAbs < Decimal.int64Bound) {m : Money}
    (hm : unitMoney c n = .ok m) : unitMoney c (-n) = m.neg := by
  have hneg : (-n).natAbs < Decimal.int64Bound := by rwa [Int.natAbs_neg]
  unfold unitMoney at hm ⊢
  rw [fromMinorUnits_eq c h, ok_bind] at hm
  obtain ⟨hamount, hcurrency⟩ := new_eq_ok hm
  rw [fromMinorUnits_eq c hneg, ok_bind, Decimal.strip_neg (h.trans_le (by decide)), ← hamount,
    neg, hcurrency]

theorem unitMoney_default {n : ℤ} (h : n.natAbs < Decimal.int64Bound) :
    ∃ message, unitMoney none n = .error (.argument message "currency") := by
  unfold unitMoney
  rw [fromMinorUnits_eq none h, ok_bind]
  exact ⟨_, rfl⟩

/-! ## When a call returns -/

/-- The checks on the ratios. -/
structure RatiosValid (ratios : List Int32) : Prop where
  ne_nil : ratios ≠ []
  length_le : ratios.length ≤ maxAllocationParts
  pos : ∀ r ∈ ratios, 0 < r.toInt

def weightsOf (ratios : List Int32) : List ℕ := ratios.map fun r => r.toInt.toNat

@[simp] theorem length_weightsOf (ratios : List Int32) :
    (weightsOf ratios).length = ratios.length := List.length_map _

theorem any_nonpos_iff {ratios : List Int32} :
    ratios.any (fun r => r ≤ 0) = true ↔ ¬ ∀ r ∈ ratios, 0 < r.toInt := by
  rw [List.any_eq_true]
  push Not
  constructor
  · rintro ⟨r, hr, hle⟩
    exact ⟨r, hr, Int32.le_iff_toInt_le.mp (decide_eq_true_iff.mp hle)⟩
  · rintro ⟨r, hr, hle⟩
    exact ⟨r, hr, decide_eq_true_iff.mpr (Int32.le_iff_toInt_le.mpr hle)⟩

theorem allocate_of_not_valid {ratios : List Int32} (m : Money) (h : ¬ RatiosValid ratios) :
    ∃ message, m.allocate ratios = .error (.invalidAllocation message (some "ratios")) := by
  unfold allocate
  split
  · exact ⟨_, rfl⟩
  · rename_i hempty
    split
    · exact ⟨_, rfl⟩
    · rename_i hlong
      split
      · exact ⟨_, rfl⟩
      · rename_i hpos
        rw [any_nonpos_iff, not_not] at hpos
        exact absurd ⟨fun hnil => hempty (by rw [hnil]; rfl), Nat.le_of_not_lt hlong, hpos⟩ h

theorem allocate_of_valid {ratios : List Int32} (m : Money) (h : RatiosValid ratios) :
    m.allocate ratios = (do
      let total ← toMinorUnits (if m.amount.isNegative then m.amount.neg else m.amount)
        m.currency.minorUnitExponent
      let shares ← allocateUnits total (ratios.map Int32.toInt)
      shares.mapM (shareOf m.amount.isNegative m.currency)) := by
  have hempty : ¬ ratios.length = 0 := fun hzero => h.ne_nil (List.length_eq_zero_iff.mp hzero)
  have hlong := Nat.not_lt.mpr h.length_le
  have hpos : ¬ ratios.any (fun r => r ≤ 0) = true := by
    rw [any_nonpos_iff, not_not]
    exact h.pos
  unfold allocate
  rw [if_neg hempty, if_neg hlong, if_neg hpos]

theorem map_toInt_eq {ratios : List Int32} (h : RatiosValid ratios) :
    ratios.map Int32.toInt = (weightsOf ratios).map Int.ofNat := by
  unfold weightsOf
  rw [List.map_map]
  apply List.map_congr_left
  intro r hr
  have hpos := h.pos r hr
  simp only [Function.comp_apply, Int.ofNat_eq_natCast]
  omega

theorem RatiosValid.accepted {ratios : List Int32} (h : RatiosValid ratios) {total : ℕ}
    (htotal : total < Decimal.int64Bound) : Accepted total (weightsOf ratios) := by
  refine ⟨htotal, ?_, ?_, ?_, ?_⟩
  · intro hnil
    exact h.ne_nil (List.map_eq_nil_iff.mp hnil)
  · rw [length_weightsOf]
    exact h.length_le
  · intro w hw
    obtain ⟨r, hr, rfl⟩ := List.mem_map.mp hw
    have hpos := h.pos r hr
    omega
  · intro w hw
    obtain ⟨r, hr, rfl⟩ := List.mem_map.mp hw
    have hlt := r.toInt_lt
    unfold int32Bound
    omega

/-- The amount whose minor units are shared out is the absolute one. -/
theorem abs_units {m : Money} {n : ℤ} (h : OfUnits m.currency n m) :
    (if m.amount.isNegative then m.amount.neg else m.amount).value * 10 ^ m.currency.minorUnitExponent
      = (n.natAbs : ℤ) ∧ m.amount.isNegative = decide (n < 0) := by
  have hpow : (0 : ℚ) < 10 ^ m.currency.minorUnitExponent := by positivity
  have hscale : (0 : ℚ) < 10 ^ m.amount.scale := by positivity
  have hvalue := h.value_eq
  have hsign : m.amount.isNegative = decide (n < 0) := by
    unfold Decimal.isNegative
    rw [decide_eq_decide]
    have hmantissa : (m.amount.mantissa : ℚ) = n / 10 ^ m.currency.minorUnitExponent *
        10 ^ m.amount.scale := by
      rw [← hvalue, value, Decimal.value]
      field_simp
    constructor
    · intro hneg
      by_contra hnonneg
      have hcast : (0 : ℚ) ≤ n := by exact_mod_cast not_lt.mp hnonneg
      have hge : (0 : ℚ) ≤ m.amount.mantissa := by
        rw [hmantissa]
        positivity
      have hint : (0 : ℤ) ≤ m.amount.mantissa := by exact_mod_cast hge
      omega
    · intro hneg
      have hcast : (n : ℚ) < 0 := by exact_mod_cast hneg
      have hlt : (m.amount.mantissa : ℚ) < 0 := by
        rw [hmantissa]
        exact mul_neg_of_neg_of_pos (div_neg_of_neg_of_pos hcast hpow) hscale
      exact_mod_cast hlt
  refine ⟨?_, hsign⟩
  rw [hsign]
  by_cases hneg : n < 0
  · rw [if_pos (decide_eq_true hneg), Decimal.value_neg, neg_mul]
    have habs : ((n.natAbs : ℤ) : ℚ) = -(n : ℚ) := by
      have hint : (n.natAbs : ℤ) = -n := by omega
      rw [hint]
      push_cast
      rfl
    rw [habs, ← h.2]
    rfl
  · rw [if_neg (by simpa using hneg)]
    have habs : (n.natAbs : ℤ) = n := by omega
    rw [habs, ← h.2]
    rfl

theorem mapM_eq_ok {α β : Type} {f : α → Except Fault β} {xs : List α} {ys : List β} :
    xs.mapM f = .ok ys ↔ List.Forall₂ (fun x y => f x = .ok y) xs ys := by
  induction xs generalizing ys with
  | nil =>
    rw [List.mapM_nil]
    constructor
    · intro h
      cases h
      exact .nil
    · intro h
      cases h
      rfl
  | cons x xs ih =>
    rw [List.mapM_cons]
    constructor
    · intro h
      cases hx : f x with
      | error e =>
        rw [hx] at h
        cases h
      | ok y =>
        rw [hx, ok_bind] at h
        cases hxs : xs.mapM f with
        | error e =>
          rw [hxs] at h
          cases h
        | ok rest =>
          rw [hxs, ok_bind] at h
          cases h
          exact .cons hx (ih.mp hxs)
    · intro h
      cases h with
      | cons hx hrest =>
        rw [hx, ok_bind, ih.mpr hrest, ok_bind]
        rfl

/-- The minor units of the shares. -/
def signedShares (n : ℤ) (ratios : List Int32) : List ℤ :=
  List.ofFn fun i => signed (decide (n < 0)) (unitShare n.natAbs (weightsOf ratios) i)

theorem length_signedShares (n : ℤ) (ratios : List Int32) :
    (signedShares n ratios).length = ratios.length := by
  simp [signedShares]

section Allocate
variable {m : Money} {n : ℤ} {ratios : List Int32}

theorem unitShare_lt (h : Accepted n.natAbs (weightsOf ratios))
    (i : Fin (weightsOf ratios).length) :
    unitShare n.natAbs (weightsOf ratios) i < Decimal.int64Bound :=
  (share_le_total h.weightSum_pos h.raises i).trans_lt h.total_lt

theorem natAbs_signedShares_lt (h : Accepted n.natAbs (weightsOf ratios)) {z : ℤ}
    (hz : z ∈ signedShares n ratios) : z.natAbs < Decimal.int64Bound := by
  obtain ⟨i, rfl⟩ := List.mem_ofFn.mp hz
  rw [natAbs_signed]
  exact unitShare_lt h i

/-- Past the checks, the call converts the shares in minor units one by one. -/
theorem allocate_eq (hv : RatiosValid ratios) (hm : OfUnits m.currency n m)
    (hlt : n.natAbs < Decimal.int64Bound) :
    m.allocate ratios = (signedShares n ratios).mapM (unitMoney m.currency) := by
  have hacc := hv.accepted hlt
  obtain ⟨habs, hsign⟩ := abs_units hm
  rw [allocate_of_valid m hv, toMinorUnits_eq habs, if_pos (by omega), ok_bind, map_toInt_eq hv,
    hacc.allocateUnits_ok, ok_bind, hsign]
  have hshares : signedShares n ratios = (List.ofFn fun i =>
      ((unitShare n.natAbs (weightsOf ratios) i : ℕ) : ℤ)).map
        fun z => signed (decide (n < 0)) z.toNat := by
    unfold signedShares
    rw [List.map_ofFn]
    rfl
  rw [hshares, List.mapM_map]
  have hstep : ∀ z ∈ List.ofFn fun i => ((unitShare n.natAbs (weightsOf ratios) i : ℕ) : ℤ),
      shareOf (decide (n < 0)) m.currency z =
        unitMoney m.currency (signed (decide (n < 0)) z.toNat) := by
    intro z hz
    obtain ⟨i, rfl⟩ := List.mem_ofFn.mp hz
    exact shareOf_eq m.currency _ (unitShare_lt hacc i)
  revert hstep
  induction (List.ofFn fun i => ((unitShare n.natAbs (weightsOf ratios) i : ℕ) : ℤ)) with
  | nil => exact fun _ => rfl
  | cons z zs ih =>
    intro hstep
    rw [List.mapM_cons, List.mapM_cons, hstep z List.mem_cons_self,
      ih fun y hy => hstep y (List.mem_cons_of_mem z hy)]
    rfl

theorem allocate_large (hv : RatiosValid ratios) (hm : OfUnits m.currency n m)
    (hlarge : Decimal.int64Bound ≤ n.natAbs) : m.allocate ratios = .error tooLarge := by
  obtain ⟨habs, -⟩ := abs_units hm
  rw [allocate_of_valid m hv, toMinorUnits_eq habs, if_neg (by omega)]
  rfl

theorem allocate_ok (hv : RatiosValid ratios) (hm : OfUnits m.currency n m)
    (hinit : m.currency.isInitialized = true) (hlt : n.natAbs < Decimal.int64Bound) :
    ∃ shares, m.allocate ratios = .ok shares := by
  have hacc := hv.accepted hlt
  rw [allocate_eq hv hm hlt]
  have hall := fun z (hz : z ∈ signedShares n ratios) =>
    unitMoney_ok hinit (natAbs_signedShares_lt hacc hz)
  revert hall
  induction signedShares n ratios with
  | nil => exact fun _ => ⟨[], rfl⟩
  | cons z zs ih =>
    intro hall
    obtain ⟨share, hshare, -⟩ := hall z List.mem_cons_self
    obtain ⟨rest, hrest⟩ := ih fun y hy => hall y (List.mem_cons_of_mem z hy)
    exact ⟨share :: rest, mapM_eq_ok.mpr (.cons hshare (mapM_eq_ok.mp hrest))⟩

theorem allocate_default (hv : RatiosValid ratios) (hm : OfUnits m.currency n m)
    (hdefault : m.currency = none) (hlt : n.natAbs < Decimal.int64Bound) :
    ∃ message, m.allocate ratios = .error (.argument message "currency") := by
  have hacc := hv.accepted hlt
  have hlength : 0 < (signedShares n ratios).length := by
    rw [length_signedShares]
    exact List.length_pos_iff.mpr hv.ne_nil
  obtain ⟨z, zs, hcons⟩ := List.exists_cons_of_length_pos hlength
  have hz : z.natAbs < Decimal.int64Bound :=
    natAbs_signedShares_lt hacc (by rw [hcons]; exact List.mem_cons_self)
  obtain ⟨message, hmessage⟩ := unitMoney_default hz
  refine ⟨message, ?_⟩
  rw [allocate_eq hv hm hlt, hcons, List.mapM_cons, hdefault, hmessage]
  rfl

/-- What a call that returned was given, and what it returned. -/
theorem allocate_returned {shares : List Money} (h : m.allocate ratios = .ok shares) :
    RatiosValid ratios ∧ m.currency.isInitialized = true ∧
      ∃ n, OfUnits m.currency n m ∧ n.natAbs < Decimal.int64Bound ∧
        List.Forall₂ (fun z s => unitMoney m.currency z = .ok s) (signedShares n ratios) shares := by
  obtain ⟨n, hm⟩ := m.exists_units
  have hv : RatiosValid ratios := by
    by_contra hnot
    obtain ⟨message, herror⟩ := allocate_of_not_valid m hnot
    rw [herror] at h
    cases h
  have hlt : n.natAbs < Decimal.int64Bound := by
    by_contra hlarge
    rw [allocate_large hv hm (Nat.le_of_not_lt hlarge)] at h
    cases h
  have hinit : m.currency.isInitialized = true := by
    cases hcurrency : m.currency with
    | some c => rfl
    | none =>
      obtain ⟨message, herror⟩ := allocate_default hv hm hcurrency hlt
      rw [herror] at h
      cases h
  refine ⟨hv, hinit, n, hm, hlt, ?_⟩
  rw [allocate_eq hv hm hlt] at h
  exact mapM_eq_ok.mp h

theorem ofUnits_of_unitMoney {c : Currency} {z : ℤ} {s : Money} (hinit : c.isInitialized = true)
    (hz : z.natAbs < Decimal.int64Bound) (h : unitMoney c z = .ok s) : OfUnits c z s := by
  obtain ⟨m, hm, hunits⟩ := unitMoney_ok hinit hz
  rw [hm] at h
  cases h
  exact hunits

/-- A call that returned gave a share of these minor units at every index. -/
theorem share_ofUnits {shares : List Money} (h : m.allocate ratios = .ok shares) :
    ∃ n, OfUnits m.currency n m ∧ n.natAbs < Decimal.int64Bound ∧
      Accepted n.natAbs (weightsOf ratios) ∧
      List.Forall₂ (fun z s => OfUnits m.currency z s) (signedShares n ratios) shares := by
  obtain ⟨hv, hinit, n, hm, hlt, hall⟩ := allocate_returned h
  have hacc := hv.accepted hlt
  refine ⟨n, hm, hlt, hacc, ?_⟩
  have hsmall := fun z (hz : z ∈ signedShares n ratios) => natAbs_signedShares_lt hacc hz
  clear h
  generalize signedShares n ratios = zs at hall hsmall ⊢
  induction hall with
  | nil => exact .nil
  | cons hz _ ih =>
    exact .cons (ofUnits_of_unitMoney hinit (hsmall _ List.mem_cons_self) hz)
      (ih fun y hy => hsmall y (List.mem_cons_of_mem _ hy))

end Allocate

/-! ## The domain -/

def InDomain (m : Money) (ratios : List Int32) : Prop :=
  RatiosValid ratios ∧ ∃ n : ℤ, OfUnits m.currency n m ∧ -2 ^ 63 ≤ n ∧ n < 2 ^ 63

/-- A call returns exactly on the domain, and otherwise throws `InvalidAllocationException`. -/
structure SucceedsOnDomain (m : Money) (ratios : List Int32) : Prop where
  returns_iff : (∃ shares, m.allocate ratios = .ok shares) ↔ InDomain m ratios
  throws : ∀ fault, m.allocate ratios = .error fault →
    ∃ message paramName, fault = .invalidAllocation message paramName

theorem OfUnits.unique {c : Currency} {n k : ℤ} {m : Money} (h : OfUnits c n m)
    (h' : OfUnits c k m) : n = k := by
  have heq : (n : ℚ) = k := by rw [← h.2, ← h'.2]
  exact_mod_cast heq

/-- The one amount of 64 bits whose absolute value has not 64 bits, and the default. -/
theorem succeedsOnDomain_iff (m : Money) (ratios : List Int32) :
    SucceedsOnDomain m ratios ↔
      ¬ (RatiosValid ratios ∧ (m.currency = none ∨ OfUnits m.currency (-2 ^ 63) m)) := by
  obtain ⟨n, hm⟩ := m.exists_units
  have hbound : Decimal.int64Bound = 2 ^ 63 := by decide
  constructor
  · rintro hdomain ⟨hv, hdefault | hmin⟩
    · have hzero : n = 0 := by
        have hvalue := hm.2
        rw [value, m.zero_of_default hdefault, Decimal.value_zero, zero_mul] at hvalue
        exact_mod_cast hvalue.symm
      subst hzero
      obtain ⟨message, herror⟩ := allocate_default hv hm hdefault (by decide)
      obtain ⟨message', paramName, hfault⟩ := hdomain.throws _ herror
      cases hfault
    · have hlarge := allocate_large hv hmin (by rw [hbound]; decide)
      obtain ⟨shares, hshares⟩ := hdomain.returns_iff.mpr ⟨hv, _, hmin, by decide, by decide⟩
      rw [hlarge] at hshares
      cases hshares
  · intro hnot
    by_cases hv : RatiosValid ratios
    · have hboth : ¬ (m.currency = none ∨ OfUnits m.currency (-2 ^ 63) m) := fun h => hnot ⟨hv, h⟩
      rw [not_or] at hboth
      have hinit : m.currency.isInitialized = true := by
        cases hcurrency : m.currency with
        | some c => rfl
        | none => exact absurd hcurrency hboth.1
      by_cases hlt : n.natAbs < Decimal.int64Bound
      · obtain ⟨shares, hshares⟩ := allocate_ok hv hm hinit hlt
        refine ⟨iff_of_true ⟨shares, hshares⟩ ⟨hv, n, hm, by omega, by omega⟩, ?_⟩
        intro fault hfault
        rw [hshares] at hfault
        cases hfault
      · have hlarge := allocate_large hv hm (Nat.le_of_not_lt hlt)
        refine ⟨iff_of_false ?_ ?_, ?_⟩
        · rintro ⟨shares, hshares⟩
          rw [hlarge] at hshares
          cases hshares
        · rintro ⟨-, k, hk, hlow, hhigh⟩
          have hsame := hm.unique hk
          subst hsame
          have hmin : n = -2 ^ 63 := by omega
          rw [hmin] at hm
          exact hboth.2 hm
        · intro fault hfault
          rw [hlarge] at hfault
          cases hfault
          exact ⟨_, _, rfl⟩
    · obtain ⟨message, herror⟩ := allocate_of_not_valid m hv
      refine ⟨iff_of_false ?_ fun h => hv h.1, ?_⟩
      · rintro ⟨shares, hshares⟩
        rw [herror] at hshares
        cases hshares
      · intro fault hfault
        rw [herror] at hfault
        cases hfault
        exact ⟨_, _, rfl⟩

theorem two_le_maxScale : 2 ≤ Decimal.maxScale := by decide

/-- The lowest amount of 64 bits, in dollars. -/
def lowestSample : Money :=
  ⟨⟨-9223372036854775808, 2, by decide, two_le_maxScale⟩, dollar, by decide, fun h => by cases h⟩

theorem lowest_amount_throws : ¬ ∀ m ratios, SucceedsOnDomain m ratios := by
  intro hall
  have hvalid : RatiosValid [1] := by
    refine ⟨List.cons_ne_nil _ _, by decide, ?_⟩
    intro r hr
    rw [List.mem_singleton.mp hr]
    decide
  have hunits : OfUnits lowestSample.currency (-9223372036854775808) lowestSample := by
    refine ⟨rfl, ?_⟩
    norm_num [value, Decimal.value, lowestSample, dollar, Currency.minorUnitExponent]
  obtain ⟨shares, hshares⟩ := (hall lowestSample [1]).returns_iff.mpr
    ⟨hvalid, _, hunits, by decide, by decide⟩
  have herror : lowestSample.allocate [1] = .error tooLarge := rfl
  rw [herror] at hshares
  cases hshares

end Decisya.SharedKernel.Money
