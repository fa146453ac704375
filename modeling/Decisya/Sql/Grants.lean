import Mathlib.Data.List.Basic

/-!
# Privileges on the objects of a schema

What each grantee holds, privilege by privilege, with or without the grant option. All of it
was granted by one role, the owner, so that nothing hangs on a grant that is taken back.
A privilege on a table and the same one on a column are two; taking all from a table takes
all from its columns.
-/

namespace Sql.Grants

set_option autoImplicit false

inductive SchemaPrivilege where
  | create
  | usage
  deriving DecidableEq

inductive TablePrivilege where
  | select
  | insert
  | update
  | delete
  | truncate
  | references
  | trigger
  | maintain
  deriving DecidableEq

inductive ColumnPrivilege where
  | select
  | insert
  | update
  | references
  deriving DecidableEq

inductive SequencePrivilege where
  | usage
  | select
  | update
  deriving DecidableEq

/-- One privilege on one object. -/
inductive Right (ν : Type) where
  | schema (schema : ν) (p : SchemaPrivilege)
  | table (schema table : ν) (p : TablePrivilege)
  | column (schema table column : ν) (p : ColumnPrivilege)
  | sequence (schema sequence : ν) (p : SequencePrivilege)
  deriving DecidableEq

/-- `everyone` is `PUBLIC`. -/
inductive Grantee (ρ : Type) where
  | everyone
  | role (r : ρ)
  deriving DecidableEq

/-- `grantable` is held `WITH GRANT OPTION`. -/
inductive Holding where
  | plain
  | grantable
  deriving DecidableEq

/-- Tables are relations of every kind but sequences: views are among them. -/
structure Catalog (ν ρ : Type) where
  schemas : List ν
  tables : List (ν × ν)
  columns : List (ν × ν × ν)
  sequences : List (ν × ν)
  roles : List ρ

namespace Right
variable {ν : Type}

def schemaOf : Right ν → ν
  | schema s _ => s
  | table s _ _ => s
  | column s _ _ _ => s
  | sequence s _ _ => s

variable [DecidableEq ν]

def onSchema (s : ν) : Right ν → Bool
  | schema s' _ => decide (s' = s)
  | _ => false

def onTables (s : ν) : Right ν → Bool
  | table s' _ _ => decide (s' = s)
  | column s' _ _ _ => decide (s' = s)
  | _ => false

def onSequences (s : ν) : Right ν → Bool
  | sequence s' _ _ => decide (s' = s)
  | _ => false

def inSchema (s : ν) (r : Right ν) : Bool := decide (r.schemaOf = s)

/-- Every privilege in a schema is of one of the three kinds. -/
theorem kinds (s : ν) (r : Right ν) :
    (r.onSchema s || (r.onTables s || r.onSequences s)) = r.inSchema s := by
  rw [Bool.eq_iff_iff, inSchema, decide_eq_true_iff]
  cases r <;> simp [onSchema, onTables, onSequences, schemaOf]

end Right

section Acl
variable {ν ρ : Type} [DecidableEq ν] [DecidableEq ρ]

def Catalog.has (C : Catalog ν ρ) : Right ν → Bool
  | .schema s _ => decide (s ∈ C.schemas)
  | .table s t _ => decide ((s, t) ∈ C.tables)
  | .column s t c _ => decide ((s, t, c) ∈ C.columns)
  | .sequence s q _ => decide ((s, q) ∈ C.sequences)

def Catalog.hasGrantee (C : Catalog ν ρ) : Grantee ρ → Bool
  | .everyone => true
  | .role r => decide (r ∈ C.roles)

/-- Privileges are held on objects that exist. -/
@[ext] structure Acl (C : Catalog ν ρ) where
  holds : Right ν → Grantee ρ → Option Holding
  known : ∀ r g, (holds r g).isSome = true → C.has r = true

namespace Acl
variable {C : Catalog ν ρ}

def empty (C : Catalog ν ρ) : Acl C := ⟨fun _ _ => none, fun _ _ h => by simp at h⟩

/-- `REVOKE ALL`: the privilege goes, and the grant option with it. -/
def revoke (a : Acl C) (p : Right ν → Bool) (g : Grantee ρ) : Acl C where
  holds r g' := if g' = g ∧ p r = true then none else a.holds r g'
  known r g' h := by
    split at h
    · simp at h
    · exact a.known r g' h

/-- `GRANT` without the option leaves an option that is there. -/
def grant (a : Acl C) (r : Right ν) (g : Grantee ρ) (hr : C.has r = true) : Acl C where
  holds r' g' := if g' = g ∧ r' = r then some ((a.holds r g).getD .plain) else a.holds r' g'
  known r' g' h := by
    split at h
    · rename_i hg
      rw [hg.2]
      exact hr
    · exact a.known r' g' h

@[simp] theorem revoke_holds (a : Acl C) (p : Right ν → Bool) (g g' : Grantee ρ) (r : Right ν) :
    (a.revoke p g).holds r g' = if g' = g ∧ p r = true then none else a.holds r g' := rfl

@[simp] theorem grant_holds (a : Acl C) (r r' : Right ν) (g g' : Grantee ρ) (hr : C.has r = true) :
    (a.grant r g hr).holds r' g' =
      if g' = g ∧ r' = r then some ((a.holds r g).getD .plain) else a.holds r' g' := rfl

theorem revoke_revoke (a : Acl C) (p q : Right ν → Bool) (g : Grantee ρ) :
    (a.revoke p g).revoke q g = a.revoke (fun r => p r || q r) g := by
  ext r g' x
  by_cases hg : g' = g <;> cases hp : p r <;> cases hq : q r <;> simp [hg, hp, hq]

theorem revoke_congr (a : Acl C) {p q : Right ν → Bool} (h : ∀ r, p r = q r) (g : Grantee ρ) :
    a.revoke p g = a.revoke q g := by
  rw [funext h]

end Acl

inductive Statement (ν ρ : Type) where
  | revokeAllOnSchema (schema : ν) (g : Grantee ρ)
  | revokeAllOnAllTables (schema : ν) (g : Grantee ρ)
  | revokeAllOnAllSequences (schema : ν) (g : Grantee ρ)
  | grantOnSchema (p : SchemaPrivilege) (schema : ν) (g : Grantee ρ)
  | grantOnTable (p : TablePrivilege) (schema table : ν) (g : Grantee ρ)
  deriving DecidableEq

inductive Error where
  | undefinedSchema
  | undefinedTable
  | undefinedRole
  deriving DecidableEq

namespace Statement
variable {C : Catalog ν ρ}

def schema : Statement ν ρ → ν
  | revokeAllOnSchema s _ => s
  | revokeAllOnAllTables s _ => s
  | revokeAllOnAllSequences s _ => s
  | grantOnSchema _ s _ => s
  | grantOnTable _ s _ _ => s

def grantee : Statement ν ρ → Grantee ρ
  | revokeAllOnSchema _ g => g
  | revokeAllOnAllTables _ g => g
  | revokeAllOnAllSequences _ g => g
  | grantOnSchema _ _ g => g
  | grantOnTable _ _ _ g => g

/-- What a statement does once its names are resolved. -/
def change (a : Acl C) : Statement ν ρ → Except Error (Acl C)
  | revokeAllOnSchema s g => .ok (a.revoke (Right.onSchema s) g)
  | revokeAllOnAllTables s g => .ok (a.revoke (Right.onTables s) g)
  | revokeAllOnAllSequences s g => .ok (a.revoke (Right.onSequences s) g)
  | grantOnSchema p s g =>
    if h : C.has (.schema s p) = true then .ok (a.grant (.schema s p) g h)
    else .error .undefinedSchema
  | grantOnTable p s t g =>
    if h : C.has (.table s t p) = true then .ok (a.grant (.table s t p) g h)
    else .error .undefinedTable

def run (st : Statement ν ρ) (a : Acl C) : Except Error (Acl C) :=
  if st.schema ∉ C.schemas then .error .undefinedSchema
  else if C.hasGrantee st.grantee = false then .error .undefinedRole
  else st.change a

theorem change_of_run {st : Statement ν ρ} {a b : Acl C} (h : st.run a = .ok b) :
    st.change a = .ok b := by
  unfold run at h
  split at h
  · cases h
  · split at h
    · cases h
    · exact h

end Statement

end Acl

end Sql.Grants
