import Decisya.Tenancy.TenantId

/-!
# The caller context of a request

The identity is read from the claims of a validated principal, and the scope's
`RequestCaller` is set from it once. A scope also carries the values its log records are
enriched with.
-/

namespace Decisya.Api

open Text Tenancy

set_option autoImplicit false

/-! ## Claims -/

structure Claim where
  type : Utf16
  value : Utf16
  valueType : Utf16
  deriving DecidableEq

abbrev ClaimsPrincipal := List Claim

def upperUnit (c : UInt16) : UInt16 := if 0x61 ≤ c ∧ c ≤ 0x7A then c - 0x20 else c

/-- Claims are found by type without regard to case. -/
def findAll (principal : ClaimsPrincipal) (type : Utf16) : List Claim :=
  principal.filter fun c => c.type.map upperUnit == type.map upperUnit

/-- The predicate overload compares ordinally. -/
def findAllOrdinal (principal : ClaimsPrincipal) (type : Utf16) : List Claim :=
  principal.filter fun c => c.type == type

def rolesClaimType : Utf16 := ascii "roles"
def platformAdminRole : Utf16 := ascii "platform-admin"
def acrClaimType : Utf16 := ascii "acr"
def mfaAcrValue : Utf16 := ascii "2"
def stringValueType : Utf16 := ascii "http://www.w3.org/2001/XMLSchema#string"

structure CallerIdentity where
  userId : Utf16
  tenantId : Option Utf16
  hasPlatformAdminRole : Bool
  hasMfaLevel : Bool
  deriving DecidableEq

namespace CallerIdentity

def readMfaLevel (principal : ClaimsPrincipal) : Bool :=
  match findAllOrdinal principal acrClaimType with
  | [claim] => claim.valueType == stringValueType && claim.value == mfaAcrValue
  | _ => false

def readPlatformAdminRole (principal : ClaimsPrincipal) : Bool :=
  let roles := findAllOrdinal principal rolesClaimType
  roles.all (fun c => c.valueType == stringValueType) && roles.any fun c => c.value == platformAdminRole

/-- `CallerIdentity.From`. -/
def fromPrincipal (principal : ClaimsPrincipal) : Option CallerIdentity :=
  match findAll principal (ascii "sub") with
  | [subject] =>
    if isBlank subject.value then none
    else
      match findAll principal (ascii "tenant_id") with
      | [] => some ⟨subject.value, none, readPlatformAdminRole principal, readMfaLevel principal⟩
      | [tenant] =>
        if isBlank tenant.value then none
        else some ⟨subject.value, some tenant.value, readPlatformAdminRole principal,
          readMfaLevel principal⟩
      | _ => none
  | _ => none

end CallerIdentity

/-! ## The scope's caller -/

/-- Nothing is known before `set` runs, and an administrator has no tenant. -/
structure RequestCaller where
  isSet : Bool
  resolution : TenantResolution
  userId : Option Utf16
  isPlatformAdmin : Bool
  hasMfaLevel : Bool
  unset : isSet = false → resolution = .invalid ∧ userId = none ∧ hasMfaLevel = false
  admin_tenantless : isPlatformAdmin = true → resolution = .none
  deriving DecidableEq

inductive SetException where
  | blankUserId
  | alreadySet
  deriving DecidableEq

namespace RequestCaller

def fresh : RequestCaller where
  isSet := false
  resolution := .invalid
  userId := none
  isPlatformAdmin := false
  hasMfaLevel := false
  unset := fun _ => ⟨rfl, rfl, rfl⟩
  admin_tenantless := fun h => absurd h Bool.false_ne_true

/-- What `set` leaves when it does not throw. -/
def populated (resolution : TenantResolution) (userId : Utf16) (isPlatformAdmin hasMfaLevel : Bool) :
    RequestCaller where
  isSet := true
  resolution := resolution
  userId := some userId
  isPlatformAdmin := isPlatformAdmin && decide (resolution = .none)
  hasMfaLevel := hasMfaLevel
  unset := fun h => absurd h.symm Bool.false_ne_true
  admin_tenantless := fun h => of_decide_eq_true (Bool.and_eq_true_iff.mp h).2

def set (caller : RequestCaller) (resolution : TenantResolution) (userId : Utf16)
    (isPlatformAdmin hasMfaLevel : Bool) : Except SetException RequestCaller :=
  if isBlank userId then .error .blankUserId
  else if caller.isSet then .error .alreadySet
  else .ok (populated resolution userId isPlatformAdmin hasMfaLevel)

theorem set_eq_ok {caller caller' : RequestCaller} {resolution : TenantResolution} {userId : Utf16}
    {isPlatformAdmin hasMfaLevel : Bool} :
    caller.set resolution userId isPlatformAdmin hasMfaLevel = .ok caller' ↔
      isBlank userId = false ∧ caller.isSet = false ∧
        caller' = populated resolution userId isPlatformAdmin hasMfaLevel := by
  unfold set
  cases isBlank userId <;> cases caller.isSet <;> simp [eq_comm]

end RequestCaller

/-! ## Log enrichment -/

structure Values where
  tenantId : Option Utf16
  userIdHash : Option Utf16
  deriving DecidableEq

/-- `UserIdHasher.Hash` over a keyed digest of the text. -/
def hashUserId (digest : Utf16 → Utf16) (userId : Option Utf16) : Option Utf16 :=
  match userId with
  | some (c :: cs) => some (digest (c :: cs))
  | _ => none

/-- The value to put back, until it is disposed of. -/
structure Handle where
  previous : Option Values
  disposed : Bool
  deriving DecidableEq

/-- A scope: its caller, the current log enrichment and the middleware's handle on it. -/
structure Scope where
  caller : RequestCaller
  enrichment : Option Values
  enrichmentScope : Option Handle
  deriving DecidableEq

def Scope.start (enrichment : Option Values) : Scope := ⟨.fresh, enrichment, none⟩

section Middleware
variable (digest : Utf16 → Utf16)

/-- `LogEnrichmentContext.Begin`. -/
def begin (current : Option Values) (tenantId userId : Option Utf16) : Option Values × Handle :=
  (some ⟨tenantId, hashUserId digest userId⟩, ⟨current, false⟩)

def Handle.dispose (handle : Handle) (current : Option Values) : Option Values :=
  if handle.disposed then current else handle.previous

inductive RequestOutcome where
  | anonymous
  | forbidden
  | threw (e : SetException)
  | next (scope : Scope)
  deriving DecidableEq

/-- `CallerContextMiddleware.InvokeAsync` up to `next`; `none` is a caller nobody validated. -/
def callerContext (principal : Option ClaimsPrincipal) (scope : Scope) : RequestOutcome :=
  match principal with
  | none => .anonymous
  | some claims =>
    match CallerIdentity.fromPrincipal claims with
    | none => .forbidden
    | some identity =>
      let resolution := TenantResolution.fromClaim identity.tenantId
      if resolution = .invalid then .forbidden
      else
        let isPlatformAdmin := identity.hasPlatformAdminRole && decide (resolution = .none)
        match scope.caller.set resolution identity.userId isPlatformAdmin identity.hasMfaLevel with
        | .error e => .threw e
        | .ok caller =>
          let tenantIdForLogs := resolution.tenantId?.map TenantId.toText
          let enrichment := begin digest scope.enrichment tenantIdForLogs (some identity.userId)
          .next { scope with caller := caller, enrichment := enrichment.1 }

theorem fromPrincipal_not_blank {principal : ClaimsPrincipal} {identity : CallerIdentity}
    (h : CallerIdentity.fromPrincipal principal = some identity) : isBlank identity.userId = false := by
  unfold CallerIdentity.fromPrincipal at h
  split at h
  · split at h
    · cases h
    · rename_i hblank
      have hfalse := Bool.eq_false_iff.mpr hblank
      split at h
      · cases h
        exact hfalse
      · split at h
        · cases h
        · cases h
          exact hfalse
      · cases h
  · cases h

/-- A request with a tenant is let through. -/
theorem callerContext_tenant {claims : ClaimsPrincipal} {identity : CallerIdentity}
    {t : {t : TenantId // t.isInitialized = true}}
    (hid : CallerIdentity.fromPrincipal claims = some identity)
    (ht : TenantResolution.fromClaim identity.tenantId = .tenant t) (log : Option Values) :
    callerContext digest (some claims) (Scope.start log) =
      .next ⟨.populated (.tenant t) identity.userId (identity.hasPlatformAdminRole && false)
        identity.hasMfaLevel, (begin digest log (some t.val.toText) (some identity.userId)).1, none⟩ := by
  have hset := RequestCaller.set_eq_ok.mpr ⟨fromPrincipal_not_blank hid, (rfl : RequestCaller.fresh.isSet = false),
    (rfl : RequestCaller.populated (.tenant t) identity.userId (identity.hasPlatformAdminRole && false)
      identity.hasMfaLevel = _)⟩
  have hnone : TenantResolution.tenant t ≠ .none := TenantResolution.noConfusion
  have hinvalid : TenantResolution.tenant t ≠ .invalid := TenantResolution.noConfusion
  simp only [callerContext, hid, ht, if_neg hinvalid, decide_eq_false hnone, Scope.start, hset]
  rfl

/-- The caller of a request that is let through is the one its claims name. -/
theorem callerContext_next {principal : Option ClaimsPrincipal} {scope scope' : Scope}
    (h : callerContext digest principal scope = .next scope') :
    ∃ claims identity, principal = some claims ∧
      CallerIdentity.fromPrincipal claims = some identity ∧
      TenantResolution.fromClaim identity.tenantId ≠ .invalid ∧ isBlank identity.userId = false ∧
      scope'.caller = .populated (TenantResolution.fromClaim identity.tenantId) identity.userId
        (identity.hasPlatformAdminRole &&
          decide (TenantResolution.fromClaim identity.tenantId = .none)) identity.hasMfaLevel ∧
      scope'.enrichmentScope = scope.enrichmentScope := by
  unfold callerContext at h
  cases principal with
  | none => cases h
  | some claims =>
    cases hid : CallerIdentity.fromPrincipal claims with
    | none => simp [hid] at h
    | some identity =>
      simp only [hid] at h
      split at h
      · cases h
      · rename_i hvalid
        split at h
        · cases h
        · rename_i caller hset
          obtain ⟨hblank, -, rfl⟩ := RequestCaller.set_eq_ok.mp hset
          cases h
          exact ⟨claims, identity, rfl, hid, hvalid, hblank, rfl, rfl⟩

end Middleware

end Decisya.Api
