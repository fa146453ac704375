import Decisya.Api.CallerContext
import Decisya.Concurrency.Program
import Decisya.Entitlements.Model

/-!
# The entitlement commands

Each handler is its code between the operations it performs: statements of its transaction,
the clock, a fresh identifier, and the question whether a tenant exists. Any operation may
throw. A save inside a transaction runs under a savepoint of its own and goes back to it
when it fails.
-/

namespace Decisya.Entitlements

open Text Tenancy Concurrency

set_option autoImplicit false

/-! ## Operations -/

inductive Op where
  | sql (o : Sql.Op Row)
  | tenantExists (tenantId : TenantId)
  | now
  | newGuid

def Res : Op → Type
  | .sql o => Sql.Reply Row IndexKey o
  | .tenantExists _ => Except Unit Bool
  | .now => Instant
  | .newGuid => Guid

/-- `DbUpdateException` with a unique violation, `DbUpdateConcurrencyException`, any other. -/
inductive Exn where
  | uniqueViolation (key : IndexKey)
  | concurrency
  | other
  deriving DecidableEq

abbrev Code (α : Type) := Prog Op Res Exn α

def ofReply {o : Sql.Op Row} : Sql.Reply Row IndexKey o → Code (Sql.Value Row o)
  | .ok v => .ret v
  | .error (.unique key) => .raise (.uniqueViolation key)
  | .error .other => .raise .other

/-- A statement, its error thrown. -/
def sql (o : Sql.Op Row) : Code (Sql.Value Row o) := .call (.sql o) ofReply

/-- A statement whose error is logged and dropped. -/
def sqlQuietly (o : Sql.Op Row) : Code Unit := .call (.sql o) fun _ => .ret ()

def now : Code Instant := .call .now fun (x : Instant) => .ret x

def newGuid : Code Guid := .call .newGuid fun (g : Guid) => .ret g

def tenantExists (tenantId : TenantId) : Code Bool :=
  .call (.tenantExists tenantId) fun (r : Except Unit Bool) =>
    match r with
    | .ok b => .ret b
    | .error _ => .raise .other

/-- The rows a statement reached, where that is what it answers. -/
def affected : (o : Sql.Op Row) → Sql.Value Row o → ℕ
  | .update _ _, n => n
  | .delete _, n => n
  | _, _ => 1

/-- `SaveChangesAsync` with one statement, in a transaction that is open. -/
def saveChanges (o : Sql.Op Row) : Code Unit := do
  let _ ← sql .savepoint
  match ← (sql o).attempt with
  | .ok v =>
    if affected o v = 1 then .ret ()
    else do
      sqlQuietly .rollbackTo
      .raise .concurrency
  | .error e => do
    sqlQuietly .rollbackTo
    .raise e

/-! ## The audit writer -/

def maxFeatureKeyLength : ℕ := 64

def maxActorLength : ℕ := 255

/-- `[a-z][a-z0-9_]*`. -/
def segmentShape (segment : Utf16) : Bool :=
  match segment with
  | [] => false
  | c :: cs => FeatureKey.isLower c && cs.all FeatureKey.isTail

/-- Two segments and one dot, over the whole text. -/
def featureKeyShape (text : Utf16) : Bool :=
  match text.splitOnP (· == 0x2E) with
  | [first, second] => segmentShape first && segmentShape second
  | _ => false

def validateEntry (entry : AuditEntry) : Bool :=
  entry.tenantId.isInitialized &&
    (decide (entry.action = .trialStart) == entry.featureKey.isNone) &&
    entry.featureKey.all fun key => decide (key.length ≤ maxFeatureKeyLength) && featureKeyShape key

/-- The ambient tenant of a command is no other than its target. -/
def ambientAllows (resolution : TenantResolution) (tenantId : TenantId) : Bool :=
  match resolution with
  | .invalid => false
  | .none => true
  | .tenant t => decide (t.val = tenantId)

def appendAudit (caller : Api.RequestCaller) (entry : AuditEntry) : Code Unit :=
  if validateEntry entry = false then .raise .other
  else if ambientAllows caller.resolution entry.tenantId = false then .raise .other
  else
    match caller.userId with
    | none => .raise .other
    | some actor =>
      if isBlank actor || decide (maxActorLength < actor.length) then .raise .other
      else do
        let occurredAt ← now
        let id ← newGuid
        saveChanges (.insert (.auditRecord ⟨id, entry, actor, occurredAt.stored⟩))

/-! ## The handlers -/

inductive EntitlementsError where
  | forbidden
  | actorUnknown
  | tenantInvalid
  | featureUnknown
  | reasonInvalid
  | expiryNotInFuture
  | trialAlreadyUsed
  | tenantNotFound
  deriving DecidableEq

inductive Result where
  | success
  | failure (e : EntitlementsError)
  deriving DecidableEq

structure StartTrial where
  tenantId : TenantId
  deriving DecidableEq

structure GrantOverride where
  tenantId : TenantId
  feature : FeatureKey
  reason : Option Utf16
  expiresAt : Option Instant
  deriving DecidableEq

structure RevokeOverride where
  tenantId : TenantId
  feature : FeatureKey
  deriving DecidableEq

/-- `await using`: the transaction is rolled back on the way out unless it was committed. -/
def inTransaction (body : Code Result) : Code Result := do
  let _ ← sql .begin
  body.tryFinally (sqlQuietly .rollback)

def commit (entry : AuditEntry) (caller : Api.RequestCaller) : Code Result := do
  appendAudit caller entry
  let _ ← sql .commit
  .ret .success

def isTrialOf (tenantId : TenantId) : Row → Bool
  | .trialGrant g => decide (g.tenantId = tenantId)
  | _ => false

def isOverrideOf (tenantId : TenantId) (feature : FeatureKey) : Row → Bool
  | .featureOverride o => decide (o.tenantId = tenantId) && decide (o.featureKey = feature)
  | _ => false

/-- `WHERE id = @id AND tenant_id = @original`. -/
def isRowOf (existing : FeatureOverride) : Row → Bool
  | .featureOverride o => decide (o.id = existing.id) && decide (o.tenantId = existing.tenantId)
  | _ => false

def startTrial (caller : Api.RequestCaller) (command : StartTrial) : Code Result :=
  if command.tenantId.isInitialized = false then .ret (.failure .tenantInvalid)
  else do
    if (← tenantExists command.tenantId) = false then .ret (.failure .tenantNotFound)
    else do
      let startsAt ← now
      inTransaction do
        match ← sql (.query (isTrialOf command.tenantId)) with
        | _ :: _ => .ret (.failure .trialAlreadyUsed)
        | [] => do
          let id ← newGuid
          match ← (saveChanges (.insert
            (.trialGrant (TrialGrant.start id command.tenantId startsAt).stored))).attempt with
          | .ok _ => commit ⟨command.tenantId, .trialStart, none⟩ caller
          | .error (.uniqueViolation (.trialTenant _)) => .ret (.failure .trialAlreadyUsed)
          | .error e => .raise e

/-- `SingleOrDefaultAsync` over the overrides of one tenant and feature. -/
def findOverride (tenantId : TenantId) (feature : FeatureKey) : Code (Option FeatureOverride) := do
  match ← sql (.query (isOverrideOf tenantId feature)) with
  | [] => .ret none
  | [.featureOverride o] => .ret (some o)
  | _ => .raise .other

def setOverride (old new : FeatureOverride) : Row → Row
  | .featureOverride o => .featureOverride (old.setColumns new o)
  | row => row

/-- A save of an entity that did not change sends nothing. -/
def upsert (command : GrantOverride) (reason : Utf16) (grantedAt : Instant) : Code Unit := do
  match ← findOverride command.tenantId command.feature with
  | none => do
    let id ← newGuid
    saveChanges (.insert (.featureOverride (FeatureOverride.stored
      ⟨id, command.tenantId, command.feature, reason, grantedAt, command.expiresAt⟩)))
  | some existing =>
    let replaced := existing.replace reason command.expiresAt grantedAt
    if replaced = existing then .ret ()
    else saveChanges (.update (isRowOf existing) (setOverride existing replaced))

def trimmedReason (command : GrantOverride) : Option Utf16 :=
  command.reason.map (Text.trim isWhiteSpaceUnit)

def grantOverride (catalog : PlanCatalog) (caller : Api.RequestCaller) (command : GrantOverride) :
    Code Result :=
  if command.tenantId.isInitialized = false then .ret (.failure .tenantInvalid)
  else if catalog.isKnown command.feature = false then .ret (.failure .featureUnknown)
  else
    match trimmedReason command with
    | none => .ret (.failure .reasonInvalid)
    | some reason =>
      if reason = [] ∨ FeatureOverride.maxReasonLength < reason.length then
        .ret (.failure .reasonInvalid)
      else do
        let grantedAt ← now
        if command.expiresAt.any fun expiresAt => decide (expiresAt ≤ grantedAt) then
          .ret (.failure .expiryNotInFuture)
        else if (← tenantExists command.tenantId) = false then .ret (.failure .tenantNotFound)
        else inTransaction do
          match ← (upsert command reason grantedAt).attempt with
          | .ok _ => .ret ()
          -- A concurrent grant won the insert: once more, and any further exception is thrown.
          | .error (.uniqueViolation (.tenantFeature _ _)) => upsert command reason grantedAt
          | .error e => .raise e
          commit ⟨command.tenantId, .overrideGrant, command.feature.value⟩ caller

def revokeOverride (caller : Api.RequestCaller) (command : RevokeOverride) : Code Result :=
  if command.tenantId.isInitialized = false then .ret (.failure .tenantInvalid)
  else if command.feature.isInitialized = false then .ret (.failure .featureUnknown)
  else do
    if (← tenantExists command.tenantId) = false then .ret (.failure .tenantNotFound)
    else inTransaction do
      match ← findOverride command.tenantId command.feature with
      | none => .ret ()
      | some existing =>
        match ← (saveChanges (.delete (isRowOf existing))).attempt with
        | .ok _ => .ret ()
        | .error .concurrency => .ret ()
        | .error e => .raise e
      commit ⟨command.tenantId, .overrideRevoke, command.feature.value⟩ caller

inductive Command where
  | startTrial (command : StartTrial)
  | grantOverride (command : GrantOverride)
  | revokeOverride (command : RevokeOverride)
  deriving DecidableEq

/-- The record a command leaves when it commits. -/
def Command.auditEntry : Command → AuditEntry
  | .startTrial c => ⟨c.tenantId, .trialStart, none⟩
  | .grantOverride c => ⟨c.tenantId, .overrideGrant, c.feature.value⟩
  | .revokeOverride c => ⟨c.tenantId, .overrideRevoke, c.feature.value⟩

def executeCommand (catalog : PlanCatalog) (caller : Api.RequestCaller) : Command → Code Result
  | .startTrial c => startTrial caller c
  | .grantOverride c => grantOverride catalog caller c
  | .revokeOverride c => revokeOverride caller c

/-- `HandleAsync`: only a tenant-less platform admin with a user id gets to the command. -/
def handle (catalog : PlanCatalog) (caller : Api.RequestCaller) (command : Command) : Code Result :=
  if caller.resolution ≠ .none ∨ caller.isPlatformAdmin = false then .ret (.failure .forbidden)
  else if caller.userId.all isBlank then .ret (.failure .actorUnknown)
  else executeCommand catalog caller command

end Decisya.Entitlements
