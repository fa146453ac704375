import Decisya.Sql.Grants
import Decisya.Sql.Session
import Mathlib.Data.List.Infix

/-!
# The append-only grants on the audit table

One transaction on the owner's connection takes everything in the schema from `PUBLIC` and
from every module role, and then gives the writer roles `USAGE` on the schema and `INSERT` on
the table.
-/

namespace Decisya.Migrator

open Sql.Grants Sql.Session

set_option autoImplicit false

/-- The server has no role with one of the names it reserves. -/
structure Role where
  name : String
  notPublic : name ≠ "public"
  deriving DecidableEq

abbrev Statement := Sql.Grants.Statement String Role

abbrev Catalog := Sql.Grants.Catalog String Role

/-! ## The statements -/

def quoteMark : Char := Char.ofNat 34

def doubled (c : Char) : List Char := if c = quoteMark then [quoteMark, quoteMark] else [c]

def quoteIdentifier (identifier : String) : String :=
  String.ofList (quoteMark :: identifier.toList.flatMap doubled ++ [quoteMark])

/-- How the server reads on in a quoted identifier: the name, and what comes after it. -/
def readIdentifier : List Char → Option (List Char × List Char)
  | [] => none
  | [c] => if c = quoteMark then some ([], []) else none
  | c :: d :: rest =>
    if c ≠ quoteMark then (readIdentifier (d :: rest)).map fun x => (c :: x.1, x.2)
    else if d = quoteMark then (readIdentifier rest).map fun x => (quoteMark :: x.1, x.2)
    else some ([], d :: rest)

theorem readIdentifier_cons {c : Char} (hc : c ≠ quoteMark) (text : List Char) :
    readIdentifier (c :: text) = (readIdentifier text).map fun x => (c :: x.1, x.2) := by
  cases text with
  | nil => simp [readIdentifier, hc]
  | cons d rest => simp [readIdentifier, hc]

/-- Whatever the name, the server reads that name and nothing more. -/
theorem readIdentifier_quoted (name rest : List Char) (hrest : rest.head? ≠ some quoteMark) :
    readIdentifier (name.flatMap doubled ++ quoteMark :: rest) = some (name, rest) := by
  induction name with
  | nil =>
    cases rest with
    | nil => simp [readIdentifier]
    | cons d rest =>
      have hd : d ≠ quoteMark := fun h => hrest (by rw [h]; rfl)
      simp [readIdentifier, hd]
  | cons c name ih =>
    by_cases hc : c = quoteMark
    · simp [doubled, hc, readIdentifier, ih]
    · have htail := readIdentifier_cons hc (name.flatMap doubled ++ quoteMark :: rest)
      rw [ih] at htail
      simpa [doubled, hc] using htail

def granteeText : Grantee Role → String
  | .everyone => "PUBLIC"
  | .role r => quoteIdentifier r.name

def schemaPrivilegeText : SchemaPrivilege → String
  | .create => "CREATE"
  | .usage => "USAGE"

def tablePrivilegeText : TablePrivilege → String
  | .select => "SELECT"
  | .insert => "INSERT"
  | .update => "UPDATE"
  | .delete => "DELETE"
  | .truncate => "TRUNCATE"
  | .references => "REFERENCES"
  | .trigger => "TRIGGER"
  | .maintain => "MAINTAIN"

/-- The text that is sent. -/
def statementText : Statement → String
  | .revokeAllOnSchema s g =>
    "REVOKE ALL ON SCHEMA " ++ quoteIdentifier s ++ " FROM " ++ granteeText g
  | .revokeAllOnAllTables s g =>
    "REVOKE ALL ON ALL TABLES IN SCHEMA " ++ quoteIdentifier s ++ " FROM " ++ granteeText g
  | .revokeAllOnAllSequences s g =>
    "REVOKE ALL ON ALL SEQUENCES IN SCHEMA " ++ quoteIdentifier s ++ " FROM " ++ granteeText g
  | .grantOnSchema p s g =>
    "GRANT " ++ schemaPrivilegeText p ++ " ON SCHEMA " ++ quoteIdentifier s ++ " TO " ++
      granteeText g
  | .grantOnTable p s t g =>
    "GRANT " ++ tablePrivilegeText p ++ " ON " ++ quoteIdentifier s ++ "." ++ quoteIdentifier t ++
      " TO " ++ granteeText g

def revokesFromPublic (schema : String) : List Statement :=
  [.revokeAllOnSchema schema .everyone,
    .revokeAllOnAllTables schema .everyone,
    .revokeAllOnAllSequences schema .everyone]

def revokesFrom (schema : String) (role : Role) : List Statement :=
  [.revokeAllOnAllTables schema (.role role),
    .revokeAllOnAllSequences schema (.role role),
    .revokeAllOnSchema schema (.role role)]

def grantsTo (schema table : String) (role : Role) : List Statement :=
  [.grantOnSchema .usage schema (.role role),
    .grantOnTable .insert schema table (.role role)]

def appendOnlyStatements (schema table : String) (writerRoles moduleRoles : List Role) :
    List Statement :=
  revokesFromPublic schema ++ moduleRoles.flatMap (revokesFrom schema) ++
    writerRoles.flatMap (grantsTo schema table)

abbrev Code := Sql.Session.Code Statement Sql.Grants.Error

def provisionAppendOnlyGrantsAsync (schema table : String) (writerRoles moduleRoles : List Role) :
    Code Unit :=
  inOneTransaction (appendOnlyStatements schema table writerRoles moduleRoles)

def auditSchema : String := "audit"

def recordsTable : String := "audit_records"

def tenancyRole : Role := ⟨"decisya_tenancy", by decide⟩

def entitlementsRole : Role := ⟨"decisya_entitlements", by decide⟩

/-- The last step of `RunAsync`. -/
def provisionAuditGrants : Code Unit :=
  provisionAppendOnlyGrantsAsync auditSchema recordsTable [entitlementsRole]
    [tenancyRole, entitlementsRole]

/-! ## What the statements leave -/

section Effect
variable {C : Catalog}

abbrev runAll (statements : List Statement) (a : Acl C) : Option (Acl C) :=
  outcome Sql.Grants.Statement.run statements a

theorem runAll_cons {st : Statement} {rest : List Statement} {a b : Acl C}
    (h : runAll (st :: rest) a = some b) : ∃ a', st.change a = .ok a' ∧ runAll rest a' = some b := by
  obtain ⟨a', ha', hrest⟩ := Option.bind_eq_some_iff.mp h
  refine ⟨a', Sql.Grants.Statement.change_of_run ?_, hrest⟩
  cases hrun : st.run a with
  | error e => simp [hrun, Except.toOption] at ha'
  | ok x =>
    have hx : x = a' := by simpa [hrun, Except.toOption] using ha'
    rw [hx]

theorem runAll_append {xs ys : List Statement} {a b : Acl C} (h : runAll (xs ++ ys) a = some b) :
    ∃ a', runAll xs a = some a' ∧ runAll ys a' = some b := by
  induction xs generalizing a with
  | nil => exact ⟨a, rfl, h⟩
  | cons st rest ih =>
    obtain ⟨a₁, ha₁, hrest⟩ := Option.bind_eq_some_iff.mp h
    obtain ⟨a₂, hxs, hys⟩ := ih hrest
    refine ⟨a₂, ?_, hys⟩
    exact Option.bind_eq_some_iff.mpr ⟨a₁, ha₁, hxs⟩

theorem run_revokesFromPublic {schema : String} {a b : Acl C}
    (h : runAll (revokesFromPublic schema) a = some b) :
    b = a.revoke (Right.inSchema schema) .everyone := by
  obtain ⟨a₁, h₁, h⟩ := runAll_cons h
  obtain ⟨a₂, h₂, h⟩ := runAll_cons h
  obtain ⟨a₃, h₃, h⟩ := runAll_cons h
  cases h₁
  cases h₂
  cases h₃
  cases h
  rw [Acl.revoke_revoke, Acl.revoke_revoke]
  exact a.revoke_congr (Right.kinds schema) _

theorem run_revokesFrom {schema : String} {role : Role} {a b : Acl C}
    (h : runAll (revokesFrom schema role) a = some b) :
    b = a.revoke (Right.inSchema schema) (.role role) := by
  obtain ⟨a₁, h₁, h⟩ := runAll_cons h
  obtain ⟨a₂, h₂, h⟩ := runAll_cons h
  obtain ⟨a₃, h₃, h⟩ := runAll_cons h
  cases h₁
  cases h₂
  cases h₃
  cases h
  rw [Acl.revoke_revoke, Acl.revoke_revoke]
  refine a.revoke_congr (fun r => ?_) _
  rw [← Right.kinds schema r, Bool.or_comm (Right.onSchema schema r), Bool.or_assoc]

theorem holds_of_revokes {schema : String} {roles : List Role} {a b : Acl C}
    (h : runAll (roles.flatMap (revokesFrom schema)) a = some b) (r : Right String)
    (g : Grantee Role) :
    b.holds r g = if g ∈ roles.map .role ∧ r.schemaOf = schema then none else a.holds r g := by
  induction roles generalizing a with
  | nil =>
    cases h
    simp
  | cons role rest ih =>
    obtain ⟨a₁, h₁, h⟩ := runAll_append h
    rw [ih h, run_revokesFrom h₁]
    by_cases hg : g = .role role <;> by_cases hs : r.schemaOf = schema <;>
      simp [Right.inSchema, hg, hs]

/-- The two privileges of a writer. -/
def isWriterRight (schema table : String) (r : Right String) : Prop :=
  r = .schema schema .usage ∨ r = .table schema table .insert

instance (schema table : String) (r : Right String) : Decidable (isWriterRight schema table r) :=
  inferInstanceAs (Decidable (_ ∨ _))

theorem holds_of_grantsTo {schema table : String} {role : Role} {a b : Acl C}
    (h : runAll (grantsTo schema table role) a = some b) (r : Right String) (g : Grantee Role) :
    b.holds r g = if g = .role role ∧ isWriterRight schema table r
      then some ((a.holds r g).getD .plain) else a.holds r g := by
  obtain ⟨a₁, h₁, h⟩ := runAll_cons h
  obtain ⟨a₂, h₂, h⟩ := runAll_cons h
  cases h
  simp only [Sql.Grants.Statement.change] at h₁ h₂
  split at h₁
  · split at h₂
    · cases h₁
      cases h₂
      by_cases hg : g = .role role
      · subst hg
        by_cases hu : r = .schema schema .usage
        · subst hu
          simp [isWriterRight]
        · by_cases hi : r = .table schema table .insert
          · subst hi
            simp [isWriterRight]
          · simp [isWriterRight, hu, hi]
      · simp [hg]
    · cases h₂
  · cases h₁

theorem holds_of_grants {schema table : String} {roles : List Role} {a b : Acl C}
    (h : runAll (roles.flatMap (grantsTo schema table)) a = some b) (r : Right String)
    (g : Grantee Role) :
    b.holds r g = if g ∈ roles.map .role ∧ isWriterRight schema table r
      then some ((a.holds r g).getD .plain) else a.holds r g := by
  induction roles generalizing a with
  | nil =>
    cases h
    simp
  | cons role rest ih =>
    obtain ⟨a₁, h₁, h⟩ := runAll_append h
    rw [ih h, holds_of_grantsTo h₁]
    by_cases hg : g = .role role <;> by_cases hw : isWriterRight schema table r <;>
      simp [hg, hw]

/-- What each grantee holds after the step: the writers their two privileges in the schema,
the other module roles and `PUBLIC` nothing there; everything else is as it was. -/
structure Provisioned (schema table : String) (writerRoles moduleRoles : List Role)
    (before after : Acl C) : Prop where
  writers : ∀ w ∈ writerRoles, ∀ r : Right String, r.schemaOf = schema →
    after.holds r (.role w) = if isWriterRight schema table r then some .plain else none
  modules : ∀ m ∈ moduleRoles, m ∉ writerRoles → ∀ r : Right String, r.schemaOf = schema →
    after.holds r (.role m) = none
  everyone : ∀ r : Right String, r.schemaOf = schema → after.holds r .everyone = none
  others : ∀ m, m ∉ writerRoles → m ∉ moduleRoles → ∀ r,
    after.holds r (.role m) = before.holds r (.role m)
  elsewhere : ∀ r : Right String, r.schemaOf ≠ schema → ∀ g, after.holds r g = before.holds r g

variable {schema table : String} {writerRoles moduleRoles : List Role}

theorem provisioned_of_runAll (hsub : writerRoles ⊆ moduleRoles) {a b : Acl C}
    (h : runAll (appendOnlyStatements schema table writerRoles moduleRoles) a = some b) :
    Provisioned schema table writerRoles moduleRoles a b := by
  obtain ⟨a₂, h, hgrants⟩ := runAll_append h
  obtain ⟨a₁, heveryone, hrevokes⟩ := runAll_append h
  have hholds : ∀ r g, b.holds r g = if g ∈ writerRoles.map .role ∧ isWriterRight schema table r
      then some ((a₂.holds r g).getD .plain) else a₂.holds r g := holds_of_grants hgrants
  have hnarrow : ∀ r g, a₂.holds r g = if g ∈ moduleRoles.map .role ∧ r.schemaOf = schema then none
      else if g = .everyone ∧ r.schemaOf = schema then none else a.holds r g := by
    intro r g
    rw [holds_of_revokes hrevokes r g, run_revokesFromPublic heveryone]
    simp [Right.inSchema]
  have hright : ∀ r, isWriterRight schema table r → r.schemaOf = schema := by
    intro r hr
    rcases hr with rfl | rfl <;> rfl
  constructor
  · intro w hw r hr
    have hm := hsub hw
    simp [hholds, hnarrow, hw, hm, hr]
  · intro m hm hw r hr
    simp [hholds, hnarrow, hw, hm, hr]
  · intro r hr
    simp [hholds, hnarrow, hr]
  · intro m hw hm r
    simp [hholds, hnarrow, hw, hm]
  · intro r hr g
    have hnot : ¬ isWriterRight schema table r := fun h => hr (hright r h)
    simp [hholds, hnarrow, hr, hnot]

/-- A second time changes nothing. -/
theorem Provisioned.again {a b c : Acl C}
    (hb : Provisioned schema table writerRoles moduleRoles a b)
    (hc : Provisioned schema table writerRoles moduleRoles b c) : c = b := by
  have hholds : ∀ r g, c.holds r g = b.holds r g := by
    intro r g
    by_cases hr : r.schemaOf = schema
    · cases g with
      | everyone => rw [hc.everyone r hr, hb.everyone r hr]
      | role m =>
        by_cases hw : m ∈ writerRoles
        · rw [hc.writers m hw r hr, hb.writers m hw r hr]
        · by_cases hm : m ∈ moduleRoles
          · rw [hc.modules m hm hw r hr, hb.modules m hm hw r hr]
          · exact hc.others m hw hm r
    · exact hc.elsewhere r hr g
  ext r g x
  rw [hholds r g]

end Effect

/-! ## Runs -/

abbrev State (C : Catalog) :=
  Concurrency.Config Unit (Command Statement) (Res Statement Sql.Grants.Error)
    (Failure Statement Sql.Grants.Error) Unit (Sql.Session.State (Acl C))

abbrev system (C : Catalog) :
    Concurrency.System Unit (Command Statement) (Res Statement Sql.Grants.Error) Crash
      (Sql.Session.State (Acl C)) :=
  Sql.Session.system Sql.Grants.Statement.run

def start {C : Catalog} (schema table : String) (writerRoles moduleRoles : List Role) (a : Acl C) :
    State C :=
  ⟨fun _ => provisionAppendOnlyGrantsAsync schema table writerRoles moduleRoles, ⟨a, none, 0⟩⟩

section Runs
variable {C : Catalog} {schema table : String} {writerRoles moduleRoles : List Role}

theorem reach_allOrNothing (hsub : writerRoles ⊆ moduleRoles) {a : Acl C} {c : State C}
    (h : (system C).Reach (start schema table writerRoles moduleRoles a) c) :
    (c.shared.commits = 0 ∧ c.shared.saved = a) ∨
      (c.shared.commits = 1 ∧
        Provisioned schema table writerRoles moduleRoles a c.shared.saved) := by
  rcases (inOneTransaction_reach h).1 with hnothing | ⟨hcommits, hall⟩
  · exact .inl hnothing
  · exact .inr ⟨hcommits, provisioned_of_runAll hsub hall⟩

/-- At every moment, whatever failed and wherever the server went down, the ACL is the old one
or the one that is wanted; it is the wanted one when the code returned and the old one when
anything but the commit raised. From the wanted one, another run does not move it. -/
theorem append_only_grants_converge (schema table : String) (writerRoles moduleRoles : List Role)
    (hsub : writerRoles ⊆ moduleRoles) (a : Acl C) (c : State C)
    (h : (system C).Reach (start schema table writerRoles moduleRoles a) c) :
    ((c.shared.commits = 0 ∧ c.shared.saved = a) ∨
      (c.shared.commits = 1 ∧
        Provisioned schema table writerRoles moduleRoles a c.shared.saved)) ∧
    ((c.threads ()).outcome? = some (.ok ()) →
      Provisioned schema table writerRoles moduleRoles a c.shared.saved) ∧
    (∀ f, (c.threads ()).outcome? = some (.error f) → f.command ≠ .commit →
      c.shared.saved = a) ∧
    (c.shared.commits = 1 → ∀ c' : State C,
      (system C).Reach (start schema table writerRoles moduleRoles c.shared.saved) c' →
      c'.shared.saved = c.shared.saved) := by
  have hinv := reach_allOrNothing hsub h
  have hdone := (inOneTransaction_reach h).2
  refine ⟨hinv, fun hok => ?_, fun f hf hne => ?_, fun hcommits c' h' => ?_⟩
  · obtain ⟨hcommits, -⟩ := hdone (.ok ()) hok
    rcases hinv with ⟨h0, -⟩ | ⟨-, hprov⟩
    · omega
    · exact hprov
  · have h0 := (hdone (.error f) hf).2 hne
    rcases hinv with ⟨-, hsaved⟩ | ⟨h1, -⟩
    · exact hsaved
    · omega
  · have hprov : Provisioned schema table writerRoles moduleRoles a c.shared.saved := by
      rcases hinv with ⟨h0, -⟩ | ⟨-, hprov⟩
      · omega
      · exact hprov
    rcases reach_allOrNothing hsub h' with ⟨-, hsaved⟩ | ⟨-, hagain⟩
    · exact hsaved
    · exact hprov.again hagain

end Runs

def sampleCatalog : Catalog where
  schemas := [auditSchema]
  tables := [(auditSchema, recordsTable)]
  columns := [(auditSchema, recordsTable, "reason")]
  sequences := []
  roles := [tenancyRole, entitlementsRole]

/-- `PUBLIC` may use the schema, and the writer may update a column and grant that on. -/
def sampleAcl : Acl sampleCatalog :=
  { holds := fun r g =>
      if r = .schema auditSchema .usage ∧ g = .everyone then some .plain
      else if r = .column auditSchema recordsTable "reason" .update ∧ g = .role entitlementsRole
        then some .grantable
      else none
    known := by
      intro r g h
      split at h
      · rename_i hr
        rw [hr.1]
        decide
      · split at h
        · rename_i hr
          rw [hr.1]
          decide
        · simp at h }

def sampleRun : State sampleCatalog :=
  Concurrency.Config.advance (fun _ => answer Sql.Grants.Statement.run)
    (start auditSchema recordsTable [entitlementsRole] [tenancyRole, entitlementsRole] sampleAcl) () 16

theorem append_only_grants_converge_sample : ∃ c : State sampleCatalog,
    (system sampleCatalog).Reach (start auditSchema recordsTable [entitlementsRole]
      [tenancyRole, entitlementsRole] sampleAcl) c ∧
    (c.threads ()).outcome? = some (.ok ()) ∧
    c.shared.saved.holds (.schema auditSchema .usage) .everyone = none ∧
    c.shared.saved.holds (.column auditSchema recordsTable "reason" .update)
      (.role entitlementsRole) = none ∧
    c.shared.saved.holds (.table auditSchema recordsTable .insert) (.role entitlementsRole) =
      some .plain := by
  have hreach : (system sampleCatalog).Reach (start auditSchema recordsTable [entitlementsRole]
      [tenancyRole, entitlementsRole] sampleAcl) sampleRun :=
    (Concurrency.System.Reach.refl _).advance (fun _ _ _ _ _ => exec_of_answer) () 16
  have hend : (sampleRun.threads ()).outcome? = some (.ok ()) := by decide +kernel
  have hprov := (append_only_grants_converge auditSchema recordsTable [entitlementsRole]
    [tenancyRole, entitlementsRole] (by simp) sampleAcl sampleRun hreach).2.1 hend
  refine ⟨sampleRun, hreach, hend, hprov.everyone _ rfl, ?_, ?_⟩
  · rw [hprov.writers entitlementsRole (by simp) _ rfl]
    decide
  · rw [hprov.writers entitlementsRole (by simp) _ rfl]
    decide

end Decisya.Migrator
