import Decisya.Migrator.AppendOnlyGrants
import Decisya.Sql.Connection
import Decisya.Sql.Roles
import Decisya.Text.Utf16

/-!
# A run of the migrator

Three migrations on the owner's connection, a login role for each of two modules after the
migration of the module, and the grants on the audit table. Only those grants are one
transaction: a run may end with a role half made, and the next one goes over it again.
-/

namespace Decisya.Migrator

open Concurrency Sql.Grants Sql.Roles Sql.Connection
open Sql.Session (outcome)
open Text (Utf16 isBlank)

set_option autoImplicit false

abbrev RoleStatement := Sql.Roles.Statement String Role String

/-- The password a role has is its verifier. -/
abbrev Cluster := Sql.Roles.Cluster String Role String

abbrev RoleAttributes := Sql.Roles.Attributes

inductive Module where
  | tenancy
  | entitlements
  | audit
  deriving DecidableEq

def tenancySchema : String := "tenancy"

def entitlementsSchema : String := "entitlements"

def Module.schema : Module → String
  | .tenancy => tenancySchema
  | .entitlements => entitlementsSchema
  | .audit => auditSchema

inductive Failure where
  | invalidOperation (message : String)
  | server (e : Option Sql.Roles.Error)
  deriving DecidableEq

/-! ## The verifier -/

abbrev Bytes := List UInt8

/-- What the runtime and the driver compute; `pbkdf2` and `hmac` are over SHA-256, and `pbkdf2`
takes the password's bytes in UTF-8. -/
structure Libraries where
  pbkdf2 : (password : Utf16) → (salt : Bytes) → (iterations keyLength : ℕ) → Bytes
  hmac : (key data : Bytes) → Bytes
  sha256 : Bytes → Bytes
  toBase64String : Bytes → String
  database : Utf16 → Option String

def clientKeyLabel : Bytes := "Client Key".toUTF8.data.toList

def serverKeyLabel : Bytes := "Server Key".toUTF8.data.toList

def Libraries.compute (lib : Libraries) (password : Utf16) (salt : Bytes) : String :=
  let saltedPassword := lib.pbkdf2 password salt 4096 32
  let storedKey := lib.sha256 (lib.hmac saltedPassword clientKeyLabel)
  let serverKey := lib.hmac saltedPassword serverKeyLabel
  "SCRAM-SHA-256$4096:" ++ lib.toBase64String salt ++ "$" ++ lib.toBase64String storedKey ++ ":" ++
    lib.toBase64String serverKey

/-! ## The server -/

inductive Request where
  | migrate (m : Module)
  | randomSalt
  | formatAlterRole (role : Role) (verifier : String)
  | readAttributes (role : Role)

abbrev Reply : Request → Type
  | .migrate _ => Except Unit Unit
  | .randomSalt => Bytes
  | .formatAlterRole _ _ => Except Unit RoleStatement
  | .readAttributes _ => Except Unit (Option RoleAttributes)

/-- The migrations of a module create tables in its schema, and may be broken off between two. -/
structure Migrated (m : Module) (c c' : Cluster) : Prop where
  holds : ∀ p g, c'.holds p g = c.holds p g
  attributes : c'.attributes = c.attributes
  password : c'.password = c.password
  roles : c'.catalog.roles = c.catalog.roles
  elsewhere : ∀ s t, s ≠ m.schema → ((s, t) ∈ c'.catalog.tables ↔ (s, t) ∈ c.catalog.tables)

def attributesOf (role : Role) (c : Cluster) : Option RoleAttributes :=
  if role ∈ c.catalog.roles then some (c.attributes role) else none

inductive Answers : (x : Request) → Cluster → Reply x → Cluster → Prop where
  | migrate {m : Module} {c c' : Cluster} (r : Except Unit Unit) (h : Migrated m c c') :
      Answers (.migrate m) c r c'
  | randomSalt (salt : Bytes) (c : Cluster) : Answers .randomSalt c salt c
  | formatAlterRole (role : Role) (verifier : String) (c : Cluster) :
      Answers (.formatAlterRole role verifier) c (.ok (.alterRole role verifier)) c
  | formatFails (role : Role) (verifier : String) (c : Cluster) :
      Answers (.formatAlterRole role verifier) c (.error ()) c
  | readAttributes (role : Role) (c : Cluster) :
      Answers (.readAttributes role) c (.ok (attributesOf role c)) c
  | readFails (role : Role) (c : Cluster) : Answers (.readAttributes role) c (.error ()) c

def server : Server RoleStatement Sql.Roles.Error Cluster Request Reply where
  run := Sql.Roles.Statement.run
  other := Answers

/-! ## The run -/

abbrev Run := Sql.Connection.Code RoleStatement Sql.Roles.Error Request Reply Failure

def ask (x : Request) : Run (Reply x) := Prog.perform (Op.other x)

def orFail {α : Type} : Except Unit α → Run α
  | .ok a => .ret a
  | .error _ => .raise (.server none)

def execute (st : RoleStatement) : Run Unit := command .server (.execute st)

def isAlphanumericUnit (u : UInt16) : Bool :=
  (48 ≤ u && u ≤ 57) || (65 ≤ u && u ≤ 90) || (97 ≤ u && u ≤ 122)

def passwordShapeRegex (password : Utf16) : Bool :=
  32 ≤ password.length && password.all isAlphanumericUnit

def tenancyPasswordKey : String := "Migrator:TenancyRolePassword"

def entitlementsPasswordKey : String := "Migrator:EntitlementsRolePassword"

/-- The password, once it is not null. -/
def validatePassword (password : Option Utf16) (configurationKey : String) : Except Failure Utf16 :=
  let failure := Failure.invalidOperation ("Missing or invalid required configuration key: " ++
    configurationKey ++ " (must be at least 32 alphanumeric characters).")
  match password with
  | none => .error failure
  | some password =>
    if isBlank password || !passwordShapeRegex password then .error failure else .ok password

def offending (attributes : RoleAttributes) : Option String :=
  if attributes.super then some "SUPERUSER"
  else if attributes.createDb then some "CREATEDB"
  else if attributes.createRole then some "CREATEROLE"
  else if attributes.replication then some "REPLICATION"
  else if attributes.bypassRls then some "BYPASSRLS"
  else if attributes.inherit then some "INHERIT"
  else if !attributes.canLogin then some "NOLOGIN"
  else none

def ensureNoElevatedAttributes (role : Role) (attributes : RoleAttributes) : Except Failure Unit :=
  match offending attributes with
  | some found => .error (.invalidOperation ("Database role '" ++ role.name ++
      "' has an unexpected attribute (" ++ found ++ "); refusing to continue. " ++
      "A role created outside the migrator must be corrected by a superuser."))
  | none => .ok ()

def verifyRoleHasNoElevatedAttributes (role : Role) : Run Unit :=
  (ask (.readAttributes role)).bind fun r => (orFail r).bind fun found =>
    match found with
    | none => .raise (.invalidOperation
        ("Database role '" ++ role.name ++ "' does not exist after provisioning."))
    | some attributes => Prog.ofExcept (ensureNoElevatedAttributes role attributes)

/-- A role that is there already is not made again. -/
def createRole (role : Role) : Run Unit :=
  .call (.command (.execute (.createRole role))) fun r =>
    match r with
    | .ok _ => .ret ()
    | .error (some .duplicateObject) => .ret ()
    | .error e => .raise (.server e)

def buildFormattedSql (role : Role) (verifier : String) : Run RoleStatement :=
  (ask (.formatAlterRole role verifier)).bind orFail

def migrationsHistoryTable : String := "__EFMigrationsHistory"

def dataPrivileges : List TablePrivilege := [.select, .insert, .update, .delete]

def moduleStatements (role : Role) (schema : String) : List RoleStatement :=
  [.revokeAllOnDatabase .everyone,
    .grantConnect (.role role),
    .object (.revokeAllOnSchema schema .everyone),
    .object (.grantOnSchema .usage schema (.role role)),
    .grantOnAllTables dataPrivileges schema (.role role),
    .revokeAllOnTable schema migrationsHistoryTable (.role role)]

def provisionRole (verifier : String) (database : Option String) (role : Role) (schema : String) :
    Run Unit :=
  match database with
  | none => .raise (.invalidOperation "ConnectionStrings:decisya must name a database.")
  | some _ =>
    (createRole role).bind fun _ =>
    (buildFormattedSql role verifier).bind fun alterRoleSql =>
    (execute alterRoleSql).bind fun _ =>
    (verifyRoleHasNoElevatedAttributes role).bind fun _ =>
    executeAll .server (moduleStatements role schema)

def provisionModuleRole (lib : Libraries) (ownerConnectionString : Utf16) (role : Role)
    (schema : String) (password : Utf16) : Run Unit :=
  (ask .randomSalt).bind fun salt =>
    connected .server (provisionRole (lib.compute password salt) (lib.database ownerConnectionString)
      role schema)

def migrate (m : Module) : Run Unit := (ask (.migrate m)).bind orFail

def provisionAuditTable : Run Unit :=
  connected .server (transaction .server
    ((appendOnlyStatements auditSchema recordsTable [entitlementsRole]
      [tenancyRole, entitlementsRole]).map .object))

structure Settings where
  ownerConnectionString : Option Utf16
  tenancyRolePassword : Option Utf16
  entitlementsRolePassword : Option Utf16

def checkedOwner (ownerConnectionString : Option Utf16) : Except Failure Utf16 :=
  match ownerConnectionString with
  | none => .error (.invalidOperation "Missing required configuration key: ConnectionStrings:decisya.")
  | some owner =>
    if isBlank owner then
      .error (.invalidOperation "Missing required configuration key: ConnectionStrings:decisya.")
    else .ok owner

def runAsync (lib : Libraries) (settings : Settings) : Run Unit :=
  (Prog.ofExcept (checkedOwner settings.ownerConnectionString)).bind fun owner =>
  (Prog.ofExcept (validatePassword settings.tenancyRolePassword tenancyPasswordKey)).bind
    fun tenancyPassword =>
  (Prog.ofExcept (validatePassword settings.entitlementsRolePassword entitlementsPasswordKey)).bind
    fun entitlementsPassword =>
  (migrate .tenancy).bind fun _ =>
  (provisionModuleRole lib owner tenancyRole tenancySchema tenancyPassword).bind fun _ =>
  (migrate .entitlements).bind fun _ =>
  (provisionModuleRole lib owner entitlementsRole entitlementsSchema entitlementsPassword).bind fun _ =>
  (migrate .audit).bind fun _ => provisionAuditTable

/-! ## What a complete run leaves -/

def isModuleRight (schema : String) (p : Privilege String) : Prop :=
  p = .database .connect ∨ p = .object (.schema schema .usage) ∨
    ∃ t q, q ∈ dataPrivileges ∧ p = .object (.table schema t q)

/-- What a run may give a role, if only for a while: the history table is among the tables of its
schema until the last statement. -/
def mayHold (role : Role) (p : Privilege String) : Prop :=
  role = tenancyRole ∧ isModuleRight tenancySchema p ∨
    role = entitlementsRole ∧ (isModuleRight entitlementsSchema p ∨
      ∃ r, p = .object r ∧ isWriterRight auditSchema recordsTable r)

def moduleRoles : List Role := [tenancyRole, entitlementsRole]

/-- A module can log in and do its work, and `PUBLIC` can do nothing where it does. -/
structure ModuleReady (lib : Libraries) (role : Role) (schema : String) (password : Utf16)
    (c : Cluster) : Prop where
  known : role ∈ c.catalog.roles
  plain : c.attributes role = Attributes.plain
  verifier : ∃ salt, c.password role = some (lib.compute password salt)
  noDatabase : ∀ p, c.holds (.database p) .everyone = none
  noSchema : ∀ p, c.holds (.object (.schema schema p)) .everyone = none
  connect : c.holds (.database .connect) (.role role) ≠ none
  usage : c.holds (.object (.schema schema .usage)) (.role role) ≠ none
  data : ∀ t p, (schema, t) ∈ c.catalog.tables → t ≠ migrationsHistoryTable → p ∈ dataPrivileges →
    c.holds (.object (.table schema t p)) (.role role) ≠ none
  history : ∀ r, onTable schema migrationsHistoryTable r = true →
    c.holds (.object r) (.role role) = none

/-- The audit table takes new rows from the writer; nobody else comes near it. -/
structure AuditReady (c : Cluster) : Prop where
  writer : ∀ r : Right String, r.schemaOf = auditSchema →
    (isWriterRight auditSchema recordsTable r →
      c.holds (.object r) (.role entitlementsRole) = some .plain) ∧
    (¬ isWriterRight auditSchema recordsTable r → c.holds (.object r) (.role entitlementsRole) = none)
  tenancy : ∀ r : Right String, r.schemaOf = auditSchema → c.holds (.object r) (.role tenancyRole) = none
  everyone : ∀ r : Right String, r.schemaOf = auditSchema → c.holds (.object r) .everyone = none

/-- With the passwords of this run. -/
structure Ready (lib : Libraries) (settings : Settings) (c : Cluster) : Prop where
  tenancy : ∃ password, settings.tenancyRolePassword = some password ∧
    ModuleReady lib tenancyRole tenancySchema password c
  entitlements : ∃ password, settings.entitlementsRolePassword = some password ∧
    ModuleReady lib entitlementsRole entitlementsSchema password c
  audit : AuditReady c

/-! ## The statements of a module -/

section Statements
variable {lib : Libraries} {role : Role} {schema : String} {password : Utf16} {c b : Cluster}

/-- Statements that make and alter no role. -/
theorem unaltered_of_outcome {statements : List RoleStatement}
    (hstatements : ∀ st ∈ statements, st.altered = none)
    (h : outcome Sql.Roles.Statement.run statements c = some b) :
    b.catalog.tables = c.catalog.tables ∧ ∀ r, b.attributes r = c.attributes r ∧
      b.password r = c.password r ∧ (r ∈ b.catalog.roles ↔ r ∈ c.catalog.roles) := by
  induction statements generalizing c with
  | nil =>
    cases h
    exact ⟨rfl, fun _ => ⟨rfl, rfl, Iff.rfl⟩⟩
  | cons st rest ih =>
    obtain ⟨c₁, h₁, h⟩ := outcome_cons h
    have hran := ran_of_run h₁
    obtain ⟨htables, hroles⟩ := ih (fun st' hmem => hstatements st' (by simp [hmem])) h
    refine ⟨htables.trans hran.tables, fun r => ?_⟩
    have hnone : st.altered ≠ some r := by simp [hstatements st (by simp)]
    obtain ⟨hattributes, hpassword, hrole⟩ := hran.unaltered r hnone
    obtain ⟨hattributes', hpassword', hrole'⟩ := hroles r
    exact ⟨hattributes'.trans hattributes, hpassword'.trans hpassword, hrole'.trans hrole⟩

theorem moduleStatements_altered (role : Role) (schema : String) :
    ∀ st ∈ moduleStatements role schema, st.altered = none := by
  intro st hst
  simp only [moduleStatements, List.mem_cons, List.not_mem_nil, or_false] at hst
  rcases hst with rfl | rfl | rfl | rfl | rfl | rfl <;> rfl

theorem ready_of_moduleStatements
    (h : outcome Sql.Roles.Statement.run (moduleStatements role schema) c = some b)
    (hknown : role ∈ c.catalog.roles) (hplain : c.attributes role = Attributes.plain)
    (hverifier : ∃ salt, c.password role = some (lib.compute password salt)) :
    ModuleReady lib role schema password b := by
  obtain ⟨htables, hunaltered⟩ := unaltered_of_outcome (moduleStatements_altered role schema) h
  obtain ⟨hattributes, hpassword, hroles⟩ := hunaltered role
  obtain ⟨c₁, h₁, h⟩ := outcome_cons h
  obtain ⟨c₂, h₂, h⟩ := outcome_cons h
  obtain ⟨c₃, h₃, h⟩ := outcome_cons h
  obtain ⟨c₄, h₄, h⟩ := outcome_cons h
  obtain ⟨c₅, h₅, h⟩ := outcome_cons h
  obtain ⟨c₆, h₆, h⟩ := outcome_cons h
  cases h
  have h₅tables : c₄.catalog.tables = c.catalog.tables := by
    rw [(ran_of_run h₄).tables, (ran_of_run h₃).tables, (ran_of_run h₂).tables, (ran_of_run h₁).tables]
  replace h₁ := (ran_of_run h₁).holds
  replace h₂ := (ran_of_run h₂).holds
  replace h₃ := (ran_of_run h₃).holds
  replace h₄ := (ran_of_run h₄).holds
  replace h₅ := (ran_of_run h₅).holds
  replace h₆ := (ran_of_run h₆).holds
  simp only [Sql.Roles.Statement.grantee, Sql.Roles.Statement.grants, Sql.Roles.Statement.touches,
    Sql.Grants.Statement.grantee, objectTouches, Option.some.injEq] at h₁ h₂ h₃ h₄ h₅ h₆
  refine ⟨hroles.mpr hknown, hattributes.trans hplain, ?_, fun p => ?_, fun p => ?_, ?_, ?_,
    fun t p ht hhistory hp => ?_, fun r hr => ?_⟩
  · rw [hpassword]
    exact hverifier
  · rw [h₆, h₅, h₄, h₃, h₂, h₁]
    simp
  · rw [h₆, h₅, h₄, h₃]
    simp [Right.onSchema]
  · rw [h₆, h₅, h₄, h₃, h₂]
    simp
  · rw [h₆, h₅, h₄]
    simp [onTable, tableRight]
  · rw [h₆, h₅]
    rw [htables] at ht
    simp [onTable, tableRight, Sql.Grants.Catalog.has, h₅tables, ht, hhistory, hp]
  · rw [h₆]
    simp [hr]

theorem permitted_moduleStatements (hallowed : ∀ p, isModuleRight schema p → mayHold role p)
    (hplain : c.attributes role = Attributes.plain) :
    ∀ st ∈ moduleStatements role schema, Permitted [role] mayHold st c := by
  intro st hst
  have haltered := moduleStatements_altered role schema st hst
  have htouched : st.grantee = some (.role role) ∧ (st.grants = true →
      ∀ p, st.touches c.catalog p = true → isModuleRight schema p) ∨
      st.grantee = some .everyone ∧ st.grants = false := by
    simp only [moduleStatements, List.mem_cons, List.not_mem_nil, or_false] at hst
    rcases hst with rfl | rfl | rfl | rfl | rfl | rfl
    · exact .inr ⟨rfl, rfl⟩
    · refine .inl ⟨rfl, fun _ p hp => .inl ?_⟩
      simpa [Sql.Roles.Statement.touches] using hp
    · exact .inr ⟨rfl, rfl⟩
    · refine .inl ⟨rfl, fun _ p hp => .inr (.inl ?_)⟩
      cases p with
      | database p => cases hp
      | object r => simpa [Sql.Roles.Statement.touches, objectTouches] using hp
    · refine .inl ⟨rfl, fun _ p hp => .inr (.inr ?_)⟩
      cases p with
      | database p => cases hp
      | object r =>
        simp only [Sql.Roles.Statement.touches] at hp
        cases r with
        | table s t q =>
          simp only [tableRight, Bool.and_eq_true, decide_eq_true_eq] at hp
          exact ⟨t, q, hp.2, by rw [hp.1.1]⟩
        | _ => cases hp
    · exact .inl ⟨rfl, fun h => by cases h⟩
  refine ⟨fun r hr => ?_, fun heveryone => ?_, fun r hr => ?_⟩
  · rw [haltered] at hr
    cases hr
  · rcases htouched with ⟨hgrantee, -⟩ | ⟨-, hgrants⟩
    · rw [hgrantee] at heveryone
      cases heveryone
    · exact hgrants
  · rcases htouched with ⟨hgrantee, htouches⟩ | ⟨hgrantee, -⟩
    · rw [hgrantee] at hr
      cases hr
      exact ⟨by simp, fun hgrants => ⟨hplain, fun p hp => hallowed p (htouches hgrants p hp)⟩⟩
    · rw [hgrantee] at hr
      cases hr

end Statements

/-! ## What each part of a run does -/

/-- Only the role is changed, and it is given what it may hold. -/
structure Changed (role : Role) (c b : Cluster) : Prop where
  narrow : Narrow [role] mayHold c b
  tables : b.catalog.tables = c.catalog.tables

section Parts
variable {lib : Libraries} {role : Role} {schema : String} {password : Utf16} {a c b : Cluster}

theorem Changed.refl (role : Role) (c : Cluster) : Changed role c c := ⟨Narrow.refl c, rfl⟩

theorem Changed.trans {d : Cluster} (h : Changed role c b) (h' : Changed role b d) : Changed role c d :=
  ⟨h.narrow.trans h'.narrow, h'.tables.trans h.tables⟩

theorem Changed.run {st : RoleStatement} (hst : Permitted [role] mayHold st c) (h : st.run c = .ok b) :
    Changed role c b := ⟨Narrow.run hst h, (ran_of_run h).tables⟩

theorem Changed.keeps (h : Changed role c b) (hrole : role ∈ moduleRoles)
    (ha : Narrow moduleRoles mayHold a c) : Narrow moduleRoles mayHold a b :=
  ha.trans (h.narrow.mono (by simpa using hrole))

theorem permitted_altering {st : RoleStatement} (hst : st.altered = some role)
    (hgrantee : st.grantee = none) (c : Cluster) : Permitted [role] mayHold st c := by
  refine ⟨fun r hr => ?_, fun h => ?_, fun r hr => ?_⟩
  · rw [hst] at hr
    cases hr
    simp
  · rw [hgrantee] at h
    cases h
  · rw [hgrantee] at hr
    cases hr

theorem spec_createRole (hrole : role ∈ moduleRoles) :
    Spec server (Narrow moduleRoles mayHold a) c (createRole role) fun _ b => Changed role c b := by
  have hchanged : ∀ b, Sql.Roles.Statement.run (.createRole role) c = .ok b → Changed role c b := by
    intro b hrun
    exact Changed.run (permitted_altering rfl rfl c) hrun
  apply Spec.tryExecute
  · intro b ha hrun
    exact (hchanged b hrun).keeps hrole ha
  · intro b hrun
    exact Spec.ret (hchanged b hrun)
  · intro e hrun
    change Sql.Roles.Statement.run (.createRole role) c = .error e at hrun
    simp only [Sql.Roles.Statement.run] at hrun
    split at hrun
    · cases hrun
      exact Spec.ret (Changed.refl role c)
    · cases hrun
  · intro b
    exact Spec.raise

theorem spec_ask {x : Request} {Φ : Reply x → Cluster → Prop}
    (h : ∀ r b, Answers x c r b → (Narrow moduleRoles mayHold a c → Narrow moduleRoles mayHold a b) ∧
      Φ r b) : Spec server (Narrow moduleRoles mayHold a) c (ask x) Φ :=
  Spec.other (fun r b hi hanswer => (h r b hanswer).1 hi) fun r b hanswer => (h r b hanswer).2

theorem spec_orFail {α : Type} {I : Cluster → Prop} {r : Except Unit α} {Φ : α → Cluster → Prop}
    (h : ∀ x, r = .ok x → Φ x c) : Spec server I c (orFail r) Φ := by
  cases r with
  | ok x => exact Spec.ret (h x rfl)
  | error e => exact Spec.raise

theorem spec_buildFormattedSql (verifier : String) :
    Spec server (Narrow moduleRoles mayHold a) c (buildFormattedSql role verifier)
      fun st b => st = .alterRole role verifier ∧ b = c := by
  have hask : Spec server (Narrow moduleRoles mayHold a) c (ask (.formatAlterRole role verifier))
      fun r b => b = c ∧ ∀ st, r = .ok st → st = .alterRole role verifier := by
    apply spec_ask
    intro r b hanswer
    cases hanswer with
    | formatAlterRole =>
      exact ⟨fun hi => hi, rfl, fun st hst => by cases hst; rfl⟩
    | formatFails => exact ⟨fun hi => hi, rfl, fun st hst => by cases hst⟩
  apply Spec.bind hask
  rintro r b ⟨rfl, hr⟩
  exact spec_orFail fun st hst => ⟨hr st hst, rfl⟩

theorem spec_alterRole (hrole : role ∈ moduleRoles) (verifier : String) :
    Spec server (Narrow moduleRoles mayHold a) c (execute (.alterRole role verifier))
      fun _ b => Changed role c b ∧ role ∈ b.catalog.roles ∧ b.password role = some verifier := by
  have hchanged : ∀ b, Sql.Roles.Statement.run (.alterRole role verifier) c = .ok b →
      Changed role c b := by
    intro b hrun
    exact Changed.run (permitted_altering rfl rfl c) hrun
  apply Spec.execute
  · intro b ha hrun
    exact (hchanged b hrun).keeps hrole ha
  · intro b hrun
    refine ⟨hchanged b hrun, ?_⟩
    change Sql.Roles.Statement.run (.alterRole role verifier) c = .ok b at hrun
    simp only [Sql.Roles.Statement.run] at hrun
    split at hrun
    · cases hrun
    · rename_i hmem
      cases hrun
      simp only [not_not] at hmem
      simp [hmem]

theorem plain_of_offending {attributes : RoleAttributes} (h : offending attributes = none) :
    attributes = Attributes.plain := by
  obtain ⟨super, createDb, createRole, replication, bypassRls, inherit, canLogin⟩ := attributes
  cases super <;> cases createDb <;> cases createRole <;> cases replication <;> cases bypassRls <;>
    cases inherit <;> cases canLogin <;> first | rfl | cases h

theorem spec_verify : Spec server (Narrow moduleRoles mayHold a) c
    (verifyRoleHasNoElevatedAttributes role) fun _ b => b = c ∧ c.attributes role = Attributes.plain := by
  have hask : Spec server (Narrow moduleRoles mayHold a) c (ask (.readAttributes role))
      fun r b => b = c ∧ ∀ found, r = .ok found → found = attributesOf role c := by
    apply spec_ask
    intro r b hanswer
    cases hanswer with
    | readAttributes => exact ⟨fun hi => hi, rfl, fun found hfound => by cases hfound; rfl⟩
    | readFails => exact ⟨fun hi => hi, rfl, fun found hfound => by cases hfound⟩
  apply Spec.bind hask
  rintro r b ⟨rfl, hr⟩
  have hfound : Spec server (Narrow moduleRoles mayHold a) b (orFail r)
      fun found b' => b' = b ∧ found = attributesOf role b :=
    spec_orFail fun found hfound => ⟨rfl, hr found hfound⟩
  apply Spec.bind hfound
  rintro found b' ⟨rfl, rfl⟩
  cases hattributes : attributesOf role b' with
  | none => exact Spec.raise
  | some attributes =>
    have hattributes : attributes = b'.attributes role := by
      unfold attributesOf at hattributes
      split at hattributes
      · exact (Option.some.inj hattributes).symm
      · cases hattributes
    cases hoffending : offending attributes with
    | some name =>
      simp only [ensureNoElevatedAttributes, hoffending]
      exact Spec.raise
    | none =>
      simp only [ensureNoElevatedAttributes, hoffending]
      refine Spec.ret ⟨rfl, ?_⟩
      rw [← hattributes]
      exact plain_of_offending hoffending

/-- The six statements are each saved at once; the role stays the plain login it was found to be. -/
theorem spec_moduleStatements (hrole : role ∈ moduleRoles)
    (hallowed : ∀ p, isModuleRight schema p → mayHold role p) (hknown : role ∈ c.catalog.roles)
    (hplain : c.attributes role = Attributes.plain)
    (hverifier : ∃ salt, c.password role = some (lib.compute password salt)) :
    Spec server (Narrow moduleRoles mayHold a) c
      (executeAll Failure.server (moduleStatements role schema))
      fun _ b => Changed role c b ∧ ModuleReady lib role schema password b := by
  apply Spec.executeAll (J := fun b => Changed role c b ∧ b.attributes role = Attributes.plain)
  · exact ⟨Changed.refl role c, hplain⟩
  · rintro st hmem x y ⟨hchanged, hx⟩ hrun
    have hstep : Changed role x y :=
      Changed.run (permitted_moduleStatements hallowed hx st hmem) hrun
    exact ⟨⟨hchanged.trans hstep, hstep.narrow.plain role hx⟩, hstep.keeps hrole⟩
  · rintro b ⟨hchanged, -⟩ hrun
    exact ⟨hchanged, ready_of_moduleStatements hrun hknown hplain hverifier⟩

theorem spec_provisionRole (hrole : role ∈ moduleRoles)
    (hallowed : ∀ p, isModuleRight schema p → mayHold role p) (salt : Bytes)
    (database : Option String) :
    Spec server (Narrow moduleRoles mayHold a) c
      (provisionRole (lib.compute password salt) database role schema)
      fun _ b => Changed role c b ∧ ModuleReady lib role schema password b := by
  cases database with
  | none => exact Spec.raise
  | some name =>
    simp only [provisionRole]
    apply Spec.bind (spec_createRole hrole)
    intro _ c₁ hcreated
    apply Spec.bind (spec_buildFormattedSql _)
    rintro _ c₂ ⟨rfl, rfl⟩
    apply Spec.bind (spec_alterRole hrole _)
    rintro _ c₃ ⟨haltered, hknown, hpassword⟩
    apply Spec.bind spec_verify
    rintro _ c₄ ⟨rfl, hplain⟩
    apply Spec.mono (spec_moduleStatements hrole hallowed hknown hplain ⟨salt, hpassword⟩)
    rintro _ b ⟨hgranted, hready⟩
    exact ⟨(hcreated.trans haltered).trans hgranted, hready⟩

theorem spec_provisionModuleRole (hrole : role ∈ moduleRoles)
    (hallowed : ∀ p, isModuleRight schema p → mayHold role p) (owner : Utf16) :
    Spec server (Narrow moduleRoles mayHold a) c (provisionModuleRole lib owner role schema password)
      fun _ b => Changed role c b ∧ ModuleReady lib role schema password b := by
  have hask : Spec server (Narrow moduleRoles mayHold a) c (ask .randomSalt) fun _ b => b = c := by
    apply spec_ask
    intro r b hanswer
    cases hanswer
    exact ⟨fun hi => hi, rfl⟩
  apply Spec.bind hask
  rintro salt b rfl
  exact Spec.connected (spec_provisionRole hrole hallowed salt _)

theorem Migrated.narrow {m : Module} (h : Migrated m c b) : Narrow moduleRoles mayHold c b := by
  refine ⟨fun r p x hx => .inl ?_, fun p x hx => ?_, fun r _ => ⟨fun p => h.holds p _, ?_, ?_, ?_⟩,
    fun r hr => ?_⟩
  · rwa [h.holds] at hx
  · rwa [h.holds] at hx
  · rw [h.attributes]
  · rw [h.password]
  · rw [h.roles]
  · rwa [h.attributes]

theorem spec_migrate (m : Module) :
    Spec server (Narrow moduleRoles mayHold a) c (migrate m) fun _ b => Migrated m c b := by
  have hask : Spec server (Narrow moduleRoles mayHold a) c (ask (.migrate m))
      fun _ b => Migrated m c b := by
    apply spec_ask
    intro r b hanswer
    cases hanswer with
    | migrate _ h => exact ⟨fun hi => hi.trans h.narrow, h⟩
  apply Spec.bind hask
  intro r b h
  exact spec_orFail fun _ _ => h

/-! ## The audit table -/

theorem outcome_object {statements : List Statement}
    (h : outcome Sql.Roles.Statement.run (statements.map .object) c = some b) :
    ∃ acl, runAll statements c.acl = some acl ∧ b = { c with acl := acl } := by
  induction statements generalizing c with
  | nil =>
    cases h
    exact ⟨b.acl, rfl, rfl⟩
  | cons st rest ih =>
    obtain ⟨c₁, h₁, h⟩ := outcome_cons h
    simp only [Sql.Roles.Statement.run] at h₁
    cases hrun : Sql.Grants.Statement.run st c.acl with
    | error e =>
      rw [hrun] at h₁
      cases h₁
    | ok acl₁ =>
      rw [hrun] at h₁
      cases h₁
      obtain ⟨acl, hacl, rfl⟩ := ih h
      refine ⟨acl, ?_, rfl⟩
      simp only [runAll, outcome, hrun]
      exact hacl

abbrev AuditProvisioned {C : Catalog} (before after : Acl C) : Prop :=
  Provisioned auditSchema recordsTable [entitlementsRole] [tenancyRole, entitlementsRole] before after

theorem narrow_of_provisioned {acl : Acl c.catalog} (h : AuditProvisioned c.acl acl)
    (hplain : c.attributes entitlementsRole = Attributes.plain) :
    Narrow moduleRoles mayHold c { c with acl := acl } := by
  refine ⟨fun r p x hx => ?_, fun p x hx => ?_, fun r hr => ⟨fun p => ?_, rfl, rfl, Iff.rfl⟩,
    fun r hr => hr⟩
  · cases p with
    | database p => exact .inl hx
    | object right =>
      change acl.holds right (.role r) = some x at hx
      by_cases hschema : right.schemaOf = auditSchema
      · by_cases hwriter : r = entitlementsRole
        · rw [hwriter, h.writers entitlementsRole (by simp) right hschema] at hx
          split at hx
          · rename_i hright
            cases hx
            rw [hwriter]
            exact .inr ⟨rfl, by simp [moduleRoles], .inr ⟨rfl, .inr ⟨right, rfl, hright⟩⟩, hplain⟩
          · cases hx
        · by_cases htenancy : r = tenancyRole
          · rw [htenancy, h.modules tenancyRole (by simp) (by decide) right hschema] at hx
            cases hx
          · rw [h.others r (by simpa using hwriter) (by simp [hwriter, htenancy])] at hx
            exact .inl hx
      · rw [h.elsewhere right hschema] at hx
        exact .inl hx
  · cases p with
    | database p => exact hx
    | object right =>
      change acl.holds right .everyone = some x at hx
      by_cases hschema : right.schemaOf = auditSchema
      · rw [h.everyone right hschema] at hx
        cases hx
      · rw [h.elsewhere right hschema] at hx
        exact hx
  · cases p with
    | database p => rfl
    | object right =>
      simp only [moduleRoles, List.mem_cons, List.not_mem_nil, or_false, not_or] at hr
      exact h.others r (by simpa using hr.2) (by simp [hr.1, hr.2]) right

theorem auditReady_of_provisioned {acl : Acl c.catalog} (h : AuditProvisioned c.acl acl) :
    AuditReady { c with acl := acl } := by
  refine ⟨fun r hr => ⟨fun hright => ?_, fun hright => ?_⟩, fun r hr => ?_, fun r hr => ?_⟩
  · change acl.holds r _ = _
    rw [h.writers entitlementsRole (by simp) r hr, if_pos hright]
  · change acl.holds r _ = _
    rw [h.writers entitlementsRole (by simp) r hr, if_neg hright]
  · exact h.modules tenancyRole (by simp) (by decide) r hr
  · exact h.everyone r hr

theorem spec_provisionAuditTable (hplain : c.attributes entitlementsRole = Attributes.plain) :
    Spec server (Narrow moduleRoles mayHold a) c provisionAuditTable
      fun _ b => ∃ acl, AuditProvisioned c.acl acl ∧ b = { c with acl := acl } := by
  have hprovisioned : ∀ b, outcome Sql.Roles.Statement.run
      ((appendOnlyStatements auditSchema recordsTable [entitlementsRole]
        [tenancyRole, entitlementsRole]).map .object) c = some b →
      ∃ acl, AuditProvisioned c.acl acl ∧ b = { c with acl := acl } := by
    intro b hrun
    obtain ⟨acl, hacl, hb⟩ := outcome_object hrun
    exact ⟨acl, provisioned_of_runAll (by simp) hacl, hb⟩
  apply Spec.connected
  apply Spec.transaction
  · intro b ha hrun
    obtain ⟨acl, hacl, rfl⟩ := hprovisioned b hrun
    exact ha.trans (narrow_of_provisioned hacl hplain)
  · exact hprovisioned

/-! ## What the later parts leave to a module -/

/-- Nothing that a module needs is touched outside its schema. -/
theorem ModuleReady.frame (h : ModuleReady lib role schema password c)
    (hrole : b.attributes role = c.attributes role ∧ b.password role = c.password role ∧
      (role ∈ b.catalog.roles ↔ role ∈ c.catalog.roles))
    (hdatabase : ∀ p, b.holds (.database p) (.role role) = c.holds (.database p) (.role role))
    (hschema : ∀ r, r.schemaOf = schema →
      b.holds (.object r) (.role role) = c.holds (.object r) (.role role))
    (heveryone : ∀ p x, b.holds p .everyone = some x → c.holds p .everyone = some x)
    (htables : ∀ t, (schema, t) ∈ b.catalog.tables ↔ (schema, t) ∈ c.catalog.tables) :
    ModuleReady lib role schema password b := by
  obtain ⟨hattributes, hpassword, hknown⟩ := hrole
  have hnobody : ∀ p, c.holds p .everyone = none → b.holds p .everyone = none := by
    intro p hp
    cases hb : b.holds p .everyone with
    | none => rfl
    | some x =>
      rw [heveryone p x hb] at hp
      cases hp
  refine ⟨hknown.mpr h.known, hattributes.trans h.plain, ?_, fun p => hnobody _ (h.noDatabase p),
    fun p => hnobody _ (h.noSchema p), ?_, ?_, fun t p ht hhistory hp => ?_, fun r hr => ?_⟩
  · rw [hpassword]
    exact h.verifier
  · rw [hdatabase]
    exact h.connect
  · rw [hschema _ rfl]
    exact h.usage
  · rw [hschema _ rfl]
    exact h.data t p ((htables t).mp ht) hhistory hp
  · have hin : r.schemaOf = schema := by
      cases r <;> simp [onTable] at hr <;> exact hr.1
    rw [hschema r hin]
    exact h.history r hr

theorem ModuleReady.migrated {m : Module} (h : ModuleReady lib role schema password c)
    (hm : Migrated m c b) (hschema : schema ≠ m.schema) : ModuleReady lib role schema password b := by
  apply h.frame
  · exact ⟨by rw [hm.attributes], by rw [hm.password], by rw [hm.roles]⟩
  · intro p
    exact hm.holds _ _
  · intro r _
    exact hm.holds _ _
  · exact hm.narrow.everyone
  · intro t
    exact hm.elsewhere schema t hschema

theorem ModuleReady.changed {other : Role} (h : ModuleReady lib role schema password c)
    (hchanged : Changed other c b) (hother : role ≠ other) : ModuleReady lib role schema password b := by
  obtain ⟨hholds, hattributes, hpassword, hroles⟩ :=
    hchanged.narrow.others role (by simpa using hother)
  apply h.frame
  · exact ⟨hattributes, hpassword, hroles⟩
  · intro p
    exact hholds _
  · intro r _
    exact hholds _
  · exact hchanged.narrow.everyone
  · intro t
    rw [hchanged.tables]

theorem ModuleReady.audited {acl : Acl c.catalog} (h : ModuleReady lib role schema password c)
    (hacl : AuditProvisioned c.acl acl) (hplain : c.attributes entitlementsRole = Attributes.plain)
    (hschema : schema ≠ auditSchema) : ModuleReady lib role schema password { c with acl := acl } := by
  apply h.frame
  · exact ⟨rfl, rfl, Iff.rfl⟩
  · intro p
    rfl
  · intro r hr
    exact hacl.elsewhere r (by rw [hr]; exact hschema) _
  · exact (narrow_of_provisioned hacl hplain).everyone
  · intro t
    rfl

end Parts

/-! ## Runs -/

theorem validatePassword_eq_ok {password : Option Utf16} {configurationKey : String} {p : Utf16}
    (h : validatePassword password configurationKey = .ok p) : password = some p := by
  cases password with
  | none => cases h
  | some q =>
    simp only [validatePassword] at h
    split at h
    · cases h
    · cases h
      rfl

theorem spec_runAsync (lib : Libraries) (settings : Settings) (a c : Cluster) :
    Spec server (Narrow moduleRoles mayHold a) c (runAsync lib settings)
      fun _ b => Ready lib settings b := by
  have htenancyAllowed : ∀ p, isModuleRight tenancySchema p → mayHold tenancyRole p :=
    fun p hp => .inl ⟨rfl, hp⟩
  have hentitlementsAllowed : ∀ p, isModuleRight entitlementsSchema p → mayHold entitlementsRole p :=
    fun p hp => .inr ⟨rfl, .inl hp⟩
  apply Spec.ofExcept
  intro owner _
  apply Spec.ofExcept
  intro tenancyPassword htenancyPassword
  apply Spec.ofExcept
  intro entitlementsPassword hentitlementsPassword
  apply Spec.bind (spec_migrate .tenancy)
  intro _ c₁ _
  apply Spec.bind (spec_provisionModuleRole (by simp [moduleRoles]) htenancyAllowed owner)
  rintro _ c₂ ⟨-, htenancy⟩
  apply Spec.bind (spec_migrate .entitlements)
  intro _ c₃ hmigrated
  replace htenancy := htenancy.migrated hmigrated (by decide)
  apply Spec.bind (spec_provisionModuleRole (by simp [moduleRoles]) hentitlementsAllowed owner)
  rintro _ c₄ ⟨hchanged, hentitlements⟩
  replace htenancy := htenancy.changed hchanged (by decide)
  apply Spec.bind (spec_migrate .audit)
  intro _ c₅ hmigrated'
  replace htenancy := htenancy.migrated hmigrated' (by decide)
  replace hentitlements := hentitlements.migrated hmigrated' (by decide)
  apply Spec.mono (spec_provisionAuditTable hentitlements.plain)
  rintro _ b ⟨acl, hacl, rfl⟩
  exact ⟨⟨tenancyPassword, validatePassword_eq_ok htenancyPassword,
      htenancy.audited hacl hentitlements.plain (by decide)⟩,
    ⟨entitlementsPassword, validatePassword_eq_ok hentitlementsPassword,
      hentitlements.audited hacl hentitlements.plain (by decide)⟩,
    auditReady_of_provisioned hacl⟩

abbrev RunState :=
  Config Unit (Op RoleStatement Request) (Sql.Connection.Res Sql.Roles.Error Reply) Failure Unit
    (Sql.Connection.State Cluster)

/-- One run after another, each with its settings and each ended or broken off anywhere. -/
inductive Runs (lib : Libraries) : Cluster → Cluster → Prop where
  | none (a : Cluster) : Runs lib a a
  | run {a b : Cluster} (settings : Settings) (h : Runs lib a b) {k : RunState}
      (hk : (Sql.Connection.system server).Reach
        (Sql.Connection.start (runAsync lib settings) b) k) : Runs lib a k.shared.saved

theorem Runs.narrow {lib : Libraries} {a b : Cluster} (h : Runs lib a b) :
    Narrow moduleRoles mayHold a b := by
  induction h with
  | none => exact Narrow.refl _
  | run settings _ hk ih => exact (Spec.reach ih (spec_runAsync lib settings _ _) hk).1

/-- Whatever the runs before did and wherever they stopped: no run widens anything beyond what the
two roles may hold, and one that returns leaves the modules ready and the audit table closed. -/
theorem runs_provision (lib : Libraries) {a b : Cluster} (h : Runs lib a b) (settings : Settings)
    {k : RunState} (hk : (Sql.Connection.system server).Reach
      (Sql.Connection.start (runAsync lib settings) b) k) :
    Narrow moduleRoles mayHold a k.shared.saved ∧
    ((k.threads ()).outcome? = some (.ok ()) → Ready lib settings k.shared.saved) := by
  obtain ⟨hnarrow, hready⟩ := Spec.reach h.narrow (spec_runAsync lib settings a b) hk
  exact ⟨hnarrow, hready ()⟩

/-! ## A run that breaks off and one that returns -/

def sampleSettings : Settings :=
  ⟨some ("Host=db".toList.map fun c => c.toNat.toUInt16), some (List.replicate 32 97),
    some (List.replicate 32 97)⟩

def sampleSalt : Bytes := (List.range 16).map Nat.toUInt8

def sampleSaltedPassword : Bytes :=
  [13, 145, 130, 126, 116, 58, 61, 109, 233, 212, 141, 143, 170, 29, 215, 147, 172, 98, 230, 96,
    213, 8, 180, 22, 194, 89, 230, 148, 114, 157, 157, 220]

def sampleClientKey : Bytes :=
  [62, 108, 247, 123, 7, 205, 250, 169, 72, 160, 121, 72, 149, 242, 106, 113, 202, 34, 12, 123,
    9, 216, 166, 4, 162, 174, 24, 16, 135, 242, 139, 125]

def sampleStoredKey : Bytes :=
  [48, 220, 53, 170, 48, 137, 205, 35, 240, 137, 249, 12, 135, 171, 246, 6, 155, 105, 30, 10,
    247, 152, 205, 126, 104, 179, 20, 80, 54, 188, 133, 104]

def sampleServerKey : Bytes :=
  [164, 161, 185, 129, 227, 45, 236, 250, 198, 183, 186, 182, 41, 134, 124, 219, 100, 153, 192,
    129, 108, 217, 47, 175, 145, 10, 97, 180, 175, 191, 192, 203]

/-- What they compute of thirty-two times the letter a, and of this salt. -/
def sampleLibraries : Libraries where
  pbkdf2 _ _ _ _ := sampleSaltedPassword
  hmac _ data := if data = clientKeyLabel then sampleClientKey else sampleServerKey
  sha256 _ := sampleStoredKey
  toBase64String bytes :=
    if bytes = sampleSalt then "AAECAwQFBgcICQoLDA0ODw=="
    else if bytes = sampleStoredKey then "MNw1qjCJzSPwifkMh6v2BptpHgr3mM1+aLMUUDa8hWg="
    else "pKG5geMt7PrGt7q2KYZ822SZwIFs2S+vkQphtK+/wMs="
  database _ := some "decisya"

/-- The migrations are done; `PUBLIC` may still connect. -/
def sampleCluster : Cluster where
  catalog :=
    { schemas := [tenancySchema, entitlementsSchema, auditSchema]
      tables := [(tenancySchema, migrationsHistoryTable), (tenancySchema, "tenants"),
        (tenancySchema, "memberships"), (entitlementsSchema, migrationsHistoryTable),
        (entitlementsSchema, "feature_overrides"), (entitlementsSchema, "trial_grants"),
        (auditSchema, migrationsHistoryTable), (auditSchema, recordsTable)]
      columns := []
      sequences := []
      roles := [] }
  acl := Acl.empty _
  database p g := if p = .connect ∧ g = .everyone then some .plain else none
  attributes _ := Attributes.plain
  password _ := none

def answerRequest : (x : Request) → Cluster → Reply x
  | .migrate _, _ => .ok ()
  | .randomSalt, _ => sampleSalt
  | .formatAlterRole role verifier, _ => .ok (.alterRole role verifier)
  | .readAttributes role, c => .ok (attributesOf role c)

def sampleAnswer : (o : Op RoleStatement Request) → Sql.Connection.State Cluster →
    Option (Sql.Connection.Res Sql.Roles.Error Reply o × Sql.Connection.State Cluster)
  | .command cmd, s => Sql.Connection.answer Sql.Roles.Statement.run cmd s
  | .other x, s => some (answerRequest x s.saved, s)

theorem exec_of_sampleAnswer {o : Op RoleStatement Request} {s s' : Sql.Connection.State Cluster}
    {r : Sql.Connection.Res Sql.Roles.Error Reply o} (h : sampleAnswer o s = some (r, s')) :
    Sql.Connection.exec server o s r s' := by
  cases o with
  | command cmd => exact exec_of_answer h
  | other x =>
    cases h
    refine ⟨s.saved, ?_, rfl⟩
    cases x with
    | migrate m =>
      exact .migrate _ ⟨fun _ _ => rfl, rfl, rfl, rfl, fun _ _ _ => Iff.rfl⟩
    | randomSalt => exact .randomSalt _ _
    | formatAlterRole role verifier => exact .formatAlterRole _ _ _
    | readAttributes role => exact .readAttributes _ _

/-- The first `n` operations of a run from `c`. -/
def sampleOperations (c : Cluster) (n : ℕ) : RunState :=
  Config.advance (fun _ => sampleAnswer)
    (Sql.Connection.start (runAsync sampleLibraries sampleSettings) c) () n

theorem sampleOperations_reach (c : Cluster) (n : ℕ) : (Sql.Connection.system server).Reach
    (Sql.Connection.start (runAsync sampleLibraries sampleSettings) c) (sampleOperations c n) :=
  (System.Reach.refl _).advance (fun _ _ _ _ _ => exec_of_sampleAnswer) () n

/-- The first run stops in the middle of the grants of a role. -/
def sampleBroken : Cluster := (sampleOperations sampleCluster 12).shared.saved

theorem runs_provision_sample : ∃ k : RunState,
    Runs sampleLibraries sampleCluster sampleBroken ∧
    (Sql.Connection.system server).Reach
      (Sql.Connection.start (runAsync sampleLibraries sampleSettings) sampleBroken) k ∧
    (k.threads ()).outcome? = some (.ok ()) ∧
    k.shared.saved.holds (.database .connect) .everyone = none ∧
    Ready sampleLibraries sampleSettings k.shared.saved := by
  have hruns : Runs sampleLibraries sampleCluster sampleBroken :=
    .run sampleSettings (.none sampleCluster) (sampleOperations_reach sampleCluster 12)
  have hreach := sampleOperations_reach sampleBroken 45
  have hend : ((sampleOperations sampleBroken 45).threads ()).outcome? = some (.ok ()) := by decide +kernel
  have hready := (runs_provision sampleLibraries hruns sampleSettings hreach).2 hend
  obtain ⟨password, -, htenancy⟩ := hready.tenancy
  exact ⟨sampleOperations sampleBroken 45, hruns, hreach, hend, htenancy.noDatabase _, hready⟩

end Decisya.Migrator
