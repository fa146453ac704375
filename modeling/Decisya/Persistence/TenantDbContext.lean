import Decisya.Tenancy.TenantId

/-!
# The tenant-scoped database context

A row of the database has a key and a tenant. The context tracks entries, checks them
against the ambient tenant and then sends one statement for each row it writes. An entry of
an owned type is stored in its owner's row: the check passes over it, and the statement
carries the key and the original tenant of the owner.
-/

namespace Decisya.Persistence

open Tenancy

set_option autoImplicit false

/-! ## Violations -/

inductive TenantIsolationViolation where
  | invalidTenant
  | noTenant
  | untenantedEntity
  | tenantMismatch
  | tenantChanged
  | unscopedEntityType
  | ownedTypeNotInOwnersTable
  deriving DecidableEq

structure TenantIsolationException where
  violation : TenantIsolationViolation
  entityTypeNames : List String
  deriving DecidableEq

def TenantIsolationException.message (e : TenantIsolationException) : String :=
  let names := ", ".intercalate e.entityTypeNames
  match e.violation with
  | .invalidTenant =>
    "The current tenant resolution is Invalid; no tenant-scoped query or save can run."
  | .noTenant =>
    "A write to '" ++ names ++ "' was attempted while the current tenant resolution is 'no tenant'; a write always needs a specific tenant."
  | .untenantedEntity =>
    "A new '" ++ names ++ "' entity has no TenantId assigned; every persisted entity must carry an initialized TenantId."
  | .tenantMismatch =>
    "A '" ++ names ++ "' entity's TenantId does not match the current tenant; a row can never be read, written or removed under another tenant."
  | .tenantChanged =>
    "A '" ++ names ++ "' entity's TenantId was changed; a row can never be moved from one tenant to another."
  | .unscopedEntityType =>
    "The following mapped entity type(s) do not implement ITenantScoped: " ++ names ++ ". Every type mapped into a TenantDbContext model must implement ITenantScoped."
  | .ownedTypeNotInOwnersTable =>
    "The following owned type(s) are not stored in their owner's table: " ++ names ++ ". An owned type must share its owner's table and schema (table splitting) or be mapped with ToJson; a separate table (for example OwnsMany, or OwnsOne(...).ToTable(...)) carries no tenant_id column of its own."

/-! ## Building the model -/

structure Storage where
  tableName : Option String
  schema : Option String
  deriving DecidableEq

structure EntityType where
  name : String
  isOwned : Bool
  isTenantScoped : Bool
  isMappedToJson : Bool
  isRoot : Bool
  storage : Storage
  ownerStorage : Option Storage
  deriving DecidableEq

def ownedTypeSharesOwnersStorage (entityType : EntityType) : Bool :=
  entityType.isMappedToJson ||
    match entityType.ownerStorage with
    | none => false
    | some owner => entityType.storage == owner

/-- An entity type and what the walk configured on it. -/
structure MappedType where
  entityType : EntityType
  tenantIdRequired : Bool
  tenantIdIsConcurrencyToken : Bool
  hasTenantFilter : Bool
  deriving DecidableEq

def configure (entityType : EntityType) : MappedType :=
  if entityType.isOwned then ⟨entityType, false, false, false⟩
  else ⟨entityType, true, true, entityType.isRoot⟩

def unscopedTypes (entityTypes : List EntityType) : List EntityType :=
  entityTypes.filter fun t => !t.isOwned && !t.isTenantScoped

def misplacedOwnedTypes (entityTypes : List EntityType) : List EntityType :=
  entityTypes.filter fun t => t.isOwned && !ownedTypeSharesOwnersStorage t

/-- An unscoped type is reported before a misplaced owned type. -/
def onModelCreating (entityTypes : List EntityType) :
    Except TenantIsolationException (List MappedType) :=
  if unscopedTypes entityTypes ≠ [] then
    .error ⟨.unscopedEntityType, (unscopedTypes entityTypes).map EntityType.name⟩
  else if misplacedOwnedTypes entityTypes ≠ [] then
    .error ⟨.ownedTypeNotInOwnersTable, (misplacedOwnedTypes entityTypes).map EntityType.name⟩
  else .ok (entityTypes.map configure)

/-- A context type whose model was built. -/
structure TenantModel where
  contextName : String
  entityTypes : List EntityType
  mapped : List MappedType
  built : onModelCreating entityTypes = .ok mapped

/-! ## Tracked entries -/

inductive EntityState where
  | unchanged
  | added
  | modified
  | deleted
  deriving DecidableEq

def EntityState.isWritten (state : EntityState) : Bool := state != .unchanged

/-- The current and the original value of an entity's `TenantId`. -/
structure TenantValues where
  current : TenantId
  original : TenantId
  deriving DecidableEq

/-- An entry of the change tracker; `tenant` is absent when the entity is not `ITenantScoped`. -/
structure EntityEntry where
  typeName : String
  state : EntityState
  tenant : Option TenantValues
  dataChanged : Bool
  deriving DecidableEq

def EntityEntry.tenantChanged (entry : EntityEntry) : Bool :=
  match entry.tenant with
  | none => false
  | some values => values.current != values.original

/-- `DetectChanges` on one entry. -/
def EntityEntry.detectChanges (entry : EntityEntry) : EntityEntry :=
  if entry.state = .unchanged ∧ (entry.dataChanged = true ∨ entry.tenantChanged = true) then
    { entry with state := .modified }
  else entry

section Tracker
variable {κ ν : Type}

/-- The entries stored in one row. `replaced` is a deleted entry whose key the added one takes. -/
structure TrackedRow (κ ν : Type) where
  key : κ
  type : MappedType
  state : EntityState
  tenant : TenantValues
  dataChanged : Bool
  replaced : Option TenantValues
  owned : List EntityEntry
  values : ν
  assign : ν → ν

namespace TrackedRow

def ownerEntry (row : TrackedRow κ ν) : EntityEntry :=
  EntityEntry.detectChanges ⟨row.type.entityType.name, row.state, some row.tenant, row.dataChanged⟩

def ownedEntries (row : TrackedRow κ ν) : List EntityEntry := row.owned.map EntityEntry.detectChanges

def replacedEntry (row : TrackedRow κ ν) : Option EntityEntry :=
  row.replaced.map fun tenant => ⟨row.type.entityType.name, .deleted, some tenant, false⟩

/-- The entries of a row after `DetectChanges`. -/
def entries (row : TrackedRow κ ν) : List EntityEntry :=
  row.replacedEntry.toList ++ row.ownerEntry :: row.ownedEntries

end TrackedRow

/-- What a context tracks: entities of mapped types, each row once. -/
structure ChangeTracker (model : TenantModel) (κ ν : Type) where
  rows : List (TrackedRow κ ν)
  mapped : ∀ row ∈ rows, row.type ∈ model.mapped ∧ row.type.entityType.isOwned = false
  keys_nodup : (rows.map TrackedRow.key).Nodup
  replaced_by_added : ∀ row ∈ rows, row.replaced.isSome = true → row.state = .added

def ChangeTracker.entries {model : TenantModel} (tracker : ChangeTracker model κ ν) :
    List EntityEntry :=
  tracker.rows.flatMap TrackedRow.entries

/-! ## The guard -/

/-- The body of the guard's loop. -/
def checkEntry (resolution : TenantResolution) (entry : EntityEntry) :
    Except TenantIsolationException Unit :=
  match entry.tenant with
  | none => .ok ()
  | some values =>
    if entry.state.isWritten = false then .ok ()
    else
      match resolution with
      | .invalid => .error ⟨.invalidTenant, [entry.typeName]⟩
      | .none => .error ⟨.noTenant, [entry.typeName]⟩
      | .tenant currentTenantId =>
        if entry.state = .added then
          if values.current.isInitialized = false then .error ⟨.untenantedEntity, [entry.typeName]⟩
          else if values.current ≠ currentTenantId.val then .error ⟨.tenantMismatch, [entry.typeName]⟩
          else .ok ()
        else if values.original ≠ currentTenantId.val then .error ⟨.tenantMismatch, [entry.typeName]⟩
        else if entry.state = .modified ∧ values.current ≠ values.original then
          .error ⟨.tenantChanged, [entry.typeName]⟩
        else .ok ()

def checkEntries (resolution : TenantResolution) : List EntityEntry →
    Except TenantIsolationException Unit
  | [] => .ok ()
  | entry :: entries =>
    match checkEntry resolution entry with
    | .error e => .error e
    | .ok () => checkEntries resolution entries

def enforceTenantIsolation (resolution : TenantResolution) {model : TenantModel}
    (tracker : ChangeTracker model κ ν) : Except TenantIsolationException Unit :=
  if resolution = .invalid then .error ⟨.invalidTenant, [model.contextName]⟩
  else checkEntries resolution tracker.entries

/-! ## The database -/

structure Row (ν : Type) where
  tenant : TenantId
  data : ν

abbrev Database (κ ν : Type) := κ → Option (Row ν)

inductive Statement (κ ν : Type) where
  | insert (key : κ) (row : Row ν)
  | update (key : κ) (tenant : Option TenantId) (newTenant : Option TenantId) (assign : ν → ν)
  | delete (key : κ) (tenant : Option TenantId)

inductive SaveException where
  | isolation (e : TenantIsolationException)
  | concurrency
  | duplicateKey
  deriving DecidableEq

/-- A `WHERE` clause with the key found and the tenant where it is given. -/
def Row.matchesTenant (row : Row ν) (tenant : Option TenantId) : Bool :=
  match tenant with
  | none => true
  | some t => row.tenant == t

variable [DecidableEq κ]

def Statement.run (statement : Statement κ ν) (db : Database κ ν) :
    Except SaveException (Database κ ν) :=
  match statement with
  | .insert key row =>
    match db key with
    | some _ => .error .duplicateKey
    | none => .ok (Function.update db key (some row))
  | .update key tenant newTenant assign =>
    match db key with
    | none => .error .concurrency
    | some row =>
      if row.matchesTenant tenant then
        .ok (Function.update db key (some ⟨newTenant.getD row.tenant, assign row.data⟩))
      else .error .concurrency
  | .delete key tenant =>
    match db key with
    | none => .error .concurrency
    | some row =>
      if row.matchesTenant tenant then .ok (Function.update db key none) else .error .concurrency

/-- The original tenant, where it is a concurrency token. -/
def MappedType.token (type : MappedType) (tenant : TenantValues) : Option TenantId :=
  if type.tenantIdIsConcurrencyToken then some tenant.original else none

/-- The statement that writes the entries of one row. -/
def TrackedRow.statement (row : TrackedRow κ ν) : Option (Statement κ ν) :=
  match row.ownerEntry.state with
  | .added =>
    match row.replaced with
    | none => some (.insert row.key ⟨row.tenant.current, row.values⟩)
    | some replaced =>
      some (.update row.key (row.type.token replaced) (some row.tenant.current) fun _ => row.values)
  | .deleted => some (.delete row.key (row.type.token row.tenant))
  | .modified =>
    some (.update row.key (row.type.token row.tenant) (some row.tenant.current) row.assign)
  | .unchanged =>
    if row.ownedEntries.any fun e => e.state.isWritten then
      some (.update row.key (row.type.token row.tenant) none row.assign)
    else none

def runStatements (db : Database κ ν) : List (Statement κ ν) →
    Except SaveException (Database κ ν)
  | [] => .ok db
  | statement :: statements =>
    match statement.run db with
    | .error e => .error e
    | .ok db' => runStatements db' statements

/-- What a save returns and the database it leaves; a failed save is rolled back. -/
structure SaveOutcome (κ ν : Type) where
  result : Except SaveException Unit
  database : Database κ ν

/-- `SaveChanges`, the rows written in the given order. -/
def saveChanges (resolution : TenantResolution) {model : TenantModel}
    (tracker : ChangeTracker model κ ν) (order : List (TrackedRow κ ν)) (db : Database κ ν) :
    SaveOutcome κ ν :=
  match enforceTenantIsolation resolution tracker with
  | .error e => ⟨.error (.isolation e), db⟩
  | .ok () =>
    match runStatements db (order.filterMap TrackedRow.statement) with
    | .error e => ⟨.error e, db⟩
    | .ok db' => ⟨.ok (), db'⟩

/-! ## Filtered queries -/

def currentTenantFilter (resolution : TenantResolution) (model : TenantModel) :
    Except TenantIsolationException (Option TenantId) :=
  match resolution with
  | .tenant t => .ok (some t.val)
  | .none => .ok none
  | .invalid => .error ⟨.invalidTenant, [model.contextName]⟩

/-- The rows a query on a root type reads; a null parameter equals no tenant. -/
def query (resolution : TenantResolution) (model : TenantModel) (type : MappedType)
    (db : Database κ ν) : Except TenantIsolationException (Database κ ν) :=
  if type.hasTenantFilter then
    match currentTenantFilter resolution model with
    | .error e => .error e
    | .ok tenant => .ok fun key => (db key).filter fun row => tenant == some row.tenant
  else .ok db

end Tracker

end Decisya.Persistence
