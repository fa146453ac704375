import Decisya.Tenancy.TenantId
import Decisya.Sql.ReadCommitted
import Mathlib.Data.Int.Notation

/-!
# Features, plans and the rows of the entitlement and audit tables

An instant is a number of nanoseconds since the Unix epoch. A timestamp column keeps whole
microseconds, so a row is stored with its instants truncated.
-/

namespace Decisya.Entitlements

open Text Tenancy

set_option autoImplicit false

/-! ## Feature keys -/

namespace FeatureKey

def maxLength : ℕ := 64

def isLower (c : UInt16) : Bool := 0x61 ≤ c && c ≤ 0x7A

def isTail (c : UInt16) : Bool := isLower c || (0x30 ≤ c && c ≤ 0x39) || c == 0x5F

/-- The loop of `HasValidShape` from a number of dots and a position in a segment. -/
def shapeFrom (dots : ℕ) (atSegmentStart : Bool) : Utf16 → Bool
  | [] => dots == 1 && !atSegmentStart
  | c :: cs =>
    if c = 0x2E then
      if atSegmentStart || decide (1 < dots + 1) then false else shapeFrom (dots + 1) true cs
    else if atSegmentStart then
      if isLower c then shapeFrom dots false cs else false
    else if isTail c then shapeFrom dots atSegmentStart cs
    else false

def hasValidShape (value : Utf16) : Bool :=
  if value.length = 0 ∨ maxLength < value.length then false else shapeFrom 0 true value

end FeatureKey

/-- The default key has no value; any other has the shape `module.feature`. -/
structure FeatureKey where
  value : Option Utf16
  shaped : ∀ v ∈ value, FeatureKey.hasValidShape v = true
  deriving DecidableEq

namespace FeatureKey

def uninitialized : FeatureKey := ⟨none, fun _ h => absurd h (by simp)⟩

def isInitialized (feature : FeatureKey) : Bool := feature.value.isSome

def tryCreate (value : Option Utf16) : Option FeatureKey :=
  match value with
  | none => none
  | some v => if h : hasValidShape v = true then some ⟨some v, fun _ hv => by cases hv; exact h⟩ else none

def ledgerTransactions : FeatureKey := ⟨some (ascii "ledger.transactions"), by decide⟩

def forecastingScenarios : FeatureKey := ⟨some (ascii "forecasting.scenarios"), by decide⟩

end FeatureKey

/-! ## Plans -/

inductive PlanId where
  | free
  | pro
  deriving DecidableEq

structure PlanCatalog where
  plans : List (PlanId × List FeatureKey)

namespace PlanCatalog

def isKnown (catalog : PlanCatalog) (feature : FeatureKey) : Bool :=
  feature.isInitialized && catalog.plans.any fun p => decide (feature ∈ p.2)

def includes (catalog : PlanCatalog) (plan : PlanId) (feature : FeatureKey) : Bool :=
  feature.isInitialized &&
    match catalog.plans.lookup plan with
    | none => false
    | some keys => decide (feature ∈ keys)

def default : PlanCatalog where
  plans := [(.free, [.ledgerTransactions]), (.pro, [.ledgerTransactions, .forecastingScenarios])]

end PlanCatalog

/-! ## Instants -/

abbrev Instant := ℤ

def trialLength : ℤ := 14 * 24 * 3600 * 1000000000

/-- The first tick of 2000 in units of 100 ns, where the column's count starts. -/
def postgresEpochTicks : ℤ := 9466848000000000

/-- An instant after `InstantConverter` and a `timestamptz` column. -/
def Instant.stored (x : Instant) : Instant :=
  let ticks := x.fdiv 100
  (postgresEpochTicks + (ticks - postgresEpochTicks).tdiv 10 * 10) * 100

/-- A whole number of microseconds. -/
def Instant.Whole (x : Instant) : Prop := ∃ k : ℤ, x = 1000 * k

theorem Instant.stored_of_whole {x : Instant} (h : x.Whole) : x.stored = x := by
  obtain ⟨k, rfl⟩ := h
  have hticks : (1000 * k).fdiv 100 = 10 * k := by
    rw [show 1000 * k = 100 * (10 * k) by omega]
    exact Int.mul_fdiv_cancel_left _ (by decide)
  have hmicros : (10 * k - postgresEpochTicks).tdiv 10 = k - postgresEpochTicks / 10 := by
    have hten : 10 * k - postgresEpochTicks = 10 * (k - postgresEpochTicks / 10) := by
      simp only [postgresEpochTicks]
      omega
    rw [hten]
    exact Int.mul_tdiv_cancel_left _ (by decide)
  have hepoch : postgresEpochTicks = 10 * (postgresEpochTicks / 10) := by decide
  simp only [Instant.stored, hticks, hmicros]
  change (postgresEpochTicks + (k - postgresEpochTicks / 10) * 10) * 100 = 1000 * k
  omega

/-! ## Rows -/

structure FeatureOverride where
  id : Guid
  tenantId : TenantId
  featureKey : FeatureKey
  reason : Utf16
  grantedAt : Instant
  expiresAt : Option Instant
  deriving DecidableEq

namespace FeatureOverride

def maxReasonLength : ℕ := 500

def replace (o : FeatureOverride) (reason : Utf16) (expiresAt : Option Instant) (now : Instant) :
    FeatureOverride :=
  { o with reason := reason, expiresAt := expiresAt, grantedAt := now }

def isActiveAt (o : FeatureOverride) (now : Instant) : Bool :=
  match o.expiresAt with
  | none => true
  | some expiresAt => decide (now < expiresAt)

def stored (o : FeatureOverride) : FeatureOverride :=
  { o with grantedAt := o.grantedAt.stored, expiresAt := o.expiresAt.map Instant.stored }

/-- The columns of `row` that an entity read as `old` and saved as `new` sets. -/
def setColumns (old new row : FeatureOverride) : FeatureOverride :=
  { row with
    reason := if new.reason = old.reason then row.reason else new.reason
    grantedAt := if new.grantedAt = old.grantedAt then row.grantedAt else new.grantedAt.stored
    expiresAt := if new.expiresAt = old.expiresAt then row.expiresAt
      else new.expiresAt.map Instant.stored }

end FeatureOverride

structure TrialGrant where
  id : Guid
  tenantId : TenantId
  plan : PlanId
  startsAt : Instant
  endsAt : Instant
  deriving DecidableEq

namespace TrialGrant

def start (id : Guid) (tenantId : TenantId) (now : Instant) : TrialGrant :=
  ⟨id, tenantId, .pro, now, now + trialLength⟩

def isActiveAt (g : TrialGrant) (now : Instant) : Bool := decide (g.startsAt ≤ now) && decide (now < g.endsAt)

def stored (g : TrialGrant) : TrialGrant :=
  { g with startsAt := g.startsAt.stored, endsAt := g.endsAt.stored }

end TrialGrant

inductive AuditAction where
  | trialStart
  | overrideGrant
  | overrideRevoke
  deriving DecidableEq

structure AuditEntry where
  tenantId : TenantId
  action : AuditAction
  featureKey : Option Utf16
  deriving DecidableEq

structure AuditRecord where
  id : Guid
  entry : AuditEntry
  actorUserId : Utf16
  occurredAt : Instant
  deriving DecidableEq

inductive Row where
  | featureOverride (o : FeatureOverride)
  | trialGrant (g : TrialGrant)
  | auditRecord (r : AuditRecord)
  deriving DecidableEq

/-- The values under the primary keys, `ux_feature_overrides_tenant_feature` and
`ux_trial_grants_tenant`. -/
inductive IndexKey where
  | overrideId (id : Guid)
  | tenantFeature (tenantId : TenantId) (featureKey : FeatureKey)
  | trialId (id : Guid)
  | trialTenant (tenantId : TenantId)
  | auditId (id : Guid)
  deriving DecidableEq

def rowKeys : Row → List IndexKey
  | .featureOverride o => [.overrideId o.id, .tenantFeature o.tenantId o.featureKey]
  | .trialGrant g => [.trialId g.id, .trialTenant g.tenantId]
  | .auditRecord r => [.auditId r.id]

/-- The check constraints of the three tables. -/
def rowCheck : Row → Bool
  | .featureOverride o =>
    match o.expiresAt with
    | none => true
    | some expiresAt => decide (o.grantedAt < expiresAt)
  | .trialGrant g => decide (g.startsAt < g.endsAt)
  | .auditRecord r =>
    (decide (r.entry.action = .trialStart) == r.entry.featureKey.isNone) &&
      r.actorUserId.any fun c => c != 0x20

def schema : Sql.Schema Row IndexKey := ⟨rowKeys, rowCheck⟩

def isAudit : Row → Bool
  | .auditRecord _ => true
  | _ => false

end Decisya.Entitlements
