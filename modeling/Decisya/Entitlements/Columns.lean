import Decisya.Entitlements.Handlers

/-!
# What the tables take

The columns next to the check constraints, and the rows that a grant writes. The handler compares
instants of nanoseconds and strings of code units; a column keeps microseconds and code points.
-/

namespace Decisya.Entitlements

open Text Tenancy Concurrency

set_option autoImplicit false

/-! ## Columns -/

/-- What a `character varying` column takes: code points, not too many, and no U+0000. -/
def takesText (limit : ℕ) (s : Utf16) : Bool :=
  (codePoints s).any fun points => decide (points.length ≤ limit) && !points.contains 0

/-- The key column is required. -/
def takesKey (feature : FeatureKey) : Bool := feature.value.any (takesText FeatureKey.maxLength)

/-- The other columns take every value of their type. -/
def fitsColumns : Row → Bool
  | .featureOverride o =>
    takesKey o.featureKey && takesText FeatureOverride.maxReasonLength o.reason
  | .trialGrant _ => true
  | .auditRecord r =>
    r.entry.featureKey.all (takesText maxFeatureKeyLength) && takesText maxActorLength r.actorUserId

def satisfies (row : Row) : Bool := fitsColumns row && rowCheck row

/-- A string that some column takes if it is not too long. -/
def Storable (s : Utf16) : Prop := (codePoints s).isSome = true ∧ 0 ∉ s

theorem takesText_iff {limit : ℕ} {s : Utf16} (hlen : s.length ≤ limit) :
    takesText limit s = true ↔ Storable s := by
  unfold takesText Storable
  cases hpoints : codePoints s with
  | none => simp
  | some points =>
    have hle := length_codePoints_le hpoints
    have hzero := zero_mem_codePoints hpoints
    rw [Option.any_some, Bool.and_eq_true, decide_eq_true_iff, Bool.not_eq_true',
      List.contains_eq_mem, decide_eq_false_iff_not, hzero]
    constructor
    · exact fun h => ⟨rfl, h.2⟩
    · exact fun h => ⟨by omega, h.2⟩

/-! ## Feature keys are stored -/

theorem shapeFrom_units {dots : ℕ} {atSegmentStart : Bool} {s : Utf16}
    (h : FeatureKey.shapeFrom dots atSegmentStart s = true) :
    ∀ c ∈ s, c = 0x2E ∨ FeatureKey.isTail c = true := by
  induction s generalizing dots atSegmentStart with
  | nil => simp
  | cons c s ih =>
    rw [FeatureKey.shapeFrom] at h
    intro d hd
    split at h
    · rename_i hdot
      split at h
      · cases h
      · rcases List.mem_cons.mp hd with rfl | hd
        · exact Or.inl hdot
        · exact ih h d hd
    · split at h
      · split at h
        · rename_i hlower
          rcases List.mem_cons.mp hd with rfl | hd
          · refine Or.inr ?_
            unfold FeatureKey.isTail
            rw [hlower]
            rfl
          · exact ih h d hd
        · cases h
      · split at h
        · rename_i htail
          rcases List.mem_cons.mp hd with rfl | hd
          · exact Or.inr htail
          · exact ih h d hd
        · cases h

theorem isTail_lt {c : UInt16} (h : c = 0x2E ∨ FeatureKey.isTail c = true) :
    0 < c ∧ c < 0xD800 := by
  have hnat : 0 < c.toNat ∧ c.toNat < 0xD800 := by
    rcases h with rfl | htail
    · decide
    · unfold FeatureKey.isTail FeatureKey.isLower at htail
      simp only [Bool.or_eq_true, Bool.and_eq_true, decide_eq_true_eq, beq_iff_eq] at htail
      rcases htail with (⟨hlow, hhigh⟩ | ⟨hlow, hhigh⟩) | rfl
      · have hlow' : 0x61 ≤ c.toNat := hlow
        have hhigh' : c.toNat ≤ 0x7A := hhigh
        omega
      · have hlow' : 0x30 ≤ c.toNat := hlow
        have hhigh' : c.toNat ≤ 0x39 := hhigh
        omega
      · decide
  exact hnat

theorem storable_of_shape {s : Utf16} (h : FeatureKey.hasValidShape s = true) :
    s.length ≤ FeatureKey.maxLength ∧ Storable s := by
  unfold FeatureKey.hasValidShape at h
  split at h
  · cases h
  · rename_i hlen
    have hunits := shapeFrom_units h
    refine ⟨by omega, ?_, ?_⟩
    · rw [codePoints_eq fun c hc => (isTail_lt (hunits c hc)).2]
      rfl
    · intro hmem
      have hpos := (isTail_lt (hunits 0 hmem)).1
      exact absurd hpos (by decide)

theorem takesKey_of_initialized {feature : FeatureKey} (h : feature.isInitialized = true) :
    takesKey feature = true := by
  unfold takesKey
  unfold FeatureKey.isInitialized at h
  cases hvalue : feature.value with
  | none =>
    rw [hvalue] at h
    cases h
  | some v =>
    obtain ⟨hlen, hstorable⟩ := storable_of_shape (feature.shaped v hvalue)
    exact (takesText_iff hlen).mpr hstorable

/-! ## What a grant writes -/

section Grant
variable (catalog : PlanCatalog) (caller : Api.RequestCaller) (command : GrantOverride)
  (grantedAt : Instant) (reason : Utf16)

/-- The reason that the checks of `ExecuteAsync` let through at an instant. -/
def validated : Option Utf16 :=
  if command.tenantId.isInitialized = false then none
  else if catalog.isKnown command.feature = false then none
  else
    match trimmedReason command with
    | none => none
    | some reason =>
      if reason = [] ∨ FeatureOverride.maxReasonLength < reason.length then none
      else if command.expiresAt.any fun expiresAt => decide (expiresAt ≤ grantedAt) then none
      else some reason

def insertedRow (id : Guid) : FeatureOverride :=
  FeatureOverride.stored
    ⟨id, command.tenantId, command.feature, reason, grantedAt, command.expiresAt⟩

/-- The row after a save of the entity read from it. -/
def replacedRow (existing : FeatureOverride) : FeatureOverride :=
  existing.setColumns (existing.replace reason command.expiresAt grantedAt) existing

/-- `ExecuteAsync` after its checks. -/
def storeGrant : Code Result := do
  if (← tenantExists command.tenantId) = false then .ret (.failure .tenantNotFound)
  else inTransaction do
    match ← (upsert command reason grantedAt).attempt with
    | .ok _ => .ret ()
    | .error (.uniqueViolation (.tenantFeature _ _)) => upsert command reason grantedAt
    | .error e => .raise e
    commit ⟨command.tenantId, .overrideGrant, command.feature.value⟩ caller

/-- The statements of an upsert write these two rows and no other. -/
theorem upsert_writes : upsert command reason grantedAt =
    (findOverride command.tenantId command.feature >>= fun found =>
      found.elim
        (newGuid >>= fun id =>
          saveChanges (.insert (.featureOverride (insertedRow command grantedAt reason id))))
        fun existing =>
          if existing.replace reason command.expiresAt grantedAt = existing then .ret ()
          else saveChanges (.update (isRowOf existing)
            (setOverride existing (existing.replace reason command.expiresAt grantedAt)))) := by
  unfold upsert
  congr 1
  funext found
  cases found with
  | none => rfl
  | some existing => rfl

theorem setOverride_self (existing : FeatureOverride) :
    setOverride existing (existing.replace reason command.expiresAt grantedAt)
      (.featureOverride existing) =
        .featureOverride (replacedRow command grantedAt reason existing) := rfl

variable {catalog command grantedAt reason}

/-- A command whose checks pass reads the clock and goes on to the transaction. -/
theorem grantOverride_of_validated (h : validated catalog command grantedAt = some reason) :
    ∃ k : Instant → Code Result, grantOverride catalog caller command = .call .now k ∧
      k grantedAt = storeGrant caller command grantedAt reason := by
  unfold validated at h
  unfold grantOverride
  split at h
  · cases h
  · rename_i htenant
    rw [if_neg htenant]
    split at h
    · cases h
    · rename_i hknown
      rw [if_neg hknown]
      cases htrimmed : trimmedReason command with
      | none =>
        rw [htrimmed] at h
        cases h
      | some trimmed =>
        rw [htrimmed] at h
        dsimp only at h ⊢
        split at h
        · cases h
        · rename_i hlen
          rw [if_neg hlen]
          split at h
          · cases h
          · rename_i hexpiry
            cases h
            refine ⟨_, rfl, ?_⟩
            change (if _ then _ else _) = _
            rw [if_neg hexpiry]
            rfl

structure Validated (catalog : PlanCatalog) (command : GrantOverride) (grantedAt : Instant)
    (reason : Utf16) : Prop where
  tenant : command.tenantId.isInitialized = true
  feature : command.feature.isInitialized = true
  reason_ne_nil : reason ≠ []
  length_le : reason.length ≤ FeatureOverride.maxReasonLength
  later : ∀ expiresAt ∈ command.expiresAt, grantedAt < expiresAt

theorem validated_spec (h : validated catalog command grantedAt = some reason) :
    Validated catalog command grantedAt reason := by
  unfold validated at h
  split at h
  · cases h
  · rename_i htenant
    split at h
    · cases h
    · rename_i hknown
      cases htrimmed : trimmedReason command with
      | none =>
        rw [htrimmed] at h
        cases h
      | some trimmed =>
        rw [htrimmed] at h
        dsimp only at h
        split at h
        · cases h
        · rename_i hlen
          split at h
          · cases h
          · rename_i hexpiry
            cases h
            have hfeature : command.feature.isInitialized = true := by
              unfold PlanCatalog.isKnown at hknown
              cases hinit : command.feature.isInitialized with
              | true => rfl
              | false =>
                rw [hinit] at hknown
                exact absurd rfl hknown
            refine ⟨Bool.not_eq_false _ ▸ htenant, hfeature, fun hnil => hlen (Or.inl hnil), ?_,
              ?_⟩
            · by_contra hlong
              exact hlen (Or.inr (Nat.lt_of_not_le hlong))
            · intro expiresAt hmem
              rw [hmem] at hexpiry
              by_contra hle
              apply hexpiry
              exact decide_eq_true (not_lt.mp hle)

/-! ## Which grants can be stored -/

theorem replacedRow_eq {existing : FeatureOverride} (hstored : existing.stored = existing) :
    replacedRow command grantedAt reason existing = { existing with
      reason := reason
      grantedAt := grantedAt.stored
      expiresAt := command.expiresAt.map Instant.stored } := by
  have hgranted : existing.grantedAt.stored = existing.grantedAt :=
    congrArg FeatureOverride.grantedAt hstored
  have hexpires : existing.expiresAt.map Instant.stored = existing.expiresAt :=
    congrArg FeatureOverride.expiresAt hstored
  have hreason : (if reason = existing.reason then existing.reason else reason) = reason := by
    split
    · rename_i hsame
      exact hsame.symm
    · rfl
  have hnow : (if grantedAt = existing.grantedAt then existing.grantedAt else grantedAt.stored)
      = grantedAt.stored := by
    split
    · rename_i hsame
      rw [hsame, hgranted]
    · rfl
  have hexpiry : (if command.expiresAt = existing.expiresAt then existing.expiresAt
      else command.expiresAt.map Instant.stored) = command.expiresAt.map Instant.stored := by
    split
    · rename_i hsame
      rw [hsame, hexpires]
    · rfl
  unfold replacedRow FeatureOverride.setColumns FeatureOverride.replace
  dsimp only
  rw [hreason, hnow, hexpiry]

/-- In the columns, the expiry is after the grant. -/
def ExpiresLater (grantedAt : Instant) (expiresAt : Option Instant) : Prop :=
  ∀ x ∈ expiresAt, grantedAt.stored < x.stored

theorem satisfies_override_iff {o : FeatureOverride} (hkey : o.featureKey.isInitialized = true)
    (hlen : o.reason.length ≤ FeatureOverride.maxReasonLength) {x : Option Instant}
    (hgranted : o.grantedAt = grantedAt.stored) (hexpires : o.expiresAt = x.map Instant.stored) :
    satisfies (.featureOverride o) = true ↔ Storable o.reason ∧ ExpiresLater grantedAt x := by
  unfold satisfies fitsColumns rowCheck ExpiresLater
  dsimp only
  rw [takesKey_of_initialized hkey, Bool.true_and, Bool.and_eq_true, takesText_iff hlen, hexpires,
    hgranted]
  cases x with
  | none => simp
  | some x => simp

theorem initialized_of_satisfies {o : FeatureOverride}
    (h : satisfies (.featureOverride o) = true) : o.featureKey.isInitialized = true := by
  unfold satisfies fitsColumns takesKey at h
  dsimp only at h
  unfold FeatureKey.isInitialized
  cases hvalue : o.featureKey.value with
  | none =>
    rw [hvalue] at h
    cases h
  | some v => rfl

/-- A validated grant is stored, afresh or over any row, exactly if its reason is a text that the
database knows and its expiry is still after the grant at the precision of the columns. -/
theorem grant_stored_iff (h : validated catalog command grantedAt = some reason) :
    ((∀ id, satisfies (.featureOverride (insertedRow command grantedAt reason id)) = true) ∧
      ∀ existing : FeatureOverride, existing.stored = existing →
        satisfies (.featureOverride existing) = true →
        satisfies (.featureOverride (replacedRow command grantedAt reason existing)) = true) ↔
      Storable reason ∧ ExpiresLater grantedAt command.expiresAt := by
  have hvalid := validated_spec h
  constructor
  · rintro ⟨hinserted, -⟩
    have hrow := hinserted Guid.empty
    exact (satisfies_override_iff hvalid.feature hvalid.length_le rfl rfl).mp hrow
  · intro hstorable
    constructor
    · intro id
      exact (satisfies_override_iff hvalid.feature hvalid.length_le rfl rfl).mpr hstorable
    · intro existing hstored hexisting
      have hkey := initialized_of_satisfies hexisting
      rw [replacedRow_eq hstored]
      refine (satisfies_override_iff (x := command.expiresAt) ?_ ?_ ?_ ?_).mpr hstorable
      · exact hkey
      · exact hvalid.length_le
      · rfl
      · rfl

end Grant

/-! ## A grant that passes its checks and cannot be stored -/

def reasonSample : Utf16 := ascii "support case"

def tenantSample : TenantId := ⟨Guid.ofDigit 1⟩

/-- The start of 2026. -/
def newYearSample : Instant := 1767225600000000000

/-- The expiry is a nanosecond after the start of 2026. -/
def nanosecondSample : GrantOverride :=
  ⟨tenantSample, FeatureKey.ledgerTransactions, some reasonSample,
    some 1767225600000000001⟩

theorem grant_not_stored : ¬ ∀ catalog command grantedAt reason,
    validated catalog command grantedAt = some reason →
      (∀ id, satisfies (.featureOverride (insertedRow command grantedAt reason id)) = true) ∧
        ∀ existing : FeatureOverride, existing.stored = existing →
          satisfies (.featureOverride existing) = true →
          satisfies (.featureOverride (replacedRow command grantedAt reason existing)) = true := by
  intro hall
  have hpasses : validated PlanCatalog.default nanosecondSample newYearSample =
      some reasonSample := by decide
  have hrow := (hall _ _ _ _ hpasses).1 Guid.empty
  have hfails : satisfies (.featureOverride (insertedRow nanosecondSample newYearSample
      reasonSample Guid.empty)) = false := by decide
  rw [hfails] at hrow
  cases hrow

/-- The expiry is a second after the start of 2026. -/
def secondSample : GrantOverride :=
  ⟨tenantSample, FeatureKey.ledgerTransactions, some reasonSample,
    some 1767225601000000000⟩

theorem grant_stored_iff_sample :
    ((∀ id, satisfies (.featureOverride
        (insertedRow secondSample newYearSample reasonSample id)) = true) ∧
      ∀ existing : FeatureOverride, existing.stored = existing →
        satisfies (.featureOverride existing) = true → satisfies (.featureOverride
          (replacedRow secondSample newYearSample reasonSample existing)) = true) ↔
      Storable reasonSample ∧ ExpiresLater newYearSample (some 1767225601000000000) :=
  @grant_stored_iff PlanCatalog.default secondSample newYearSample reasonSample (by decide)

end Decisya.Entitlements
