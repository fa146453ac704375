import Decisya.Sql.Grants
import Mathlib.Logic.Function.Basic

/-!
# Roles, their attributes and what they hold

A server with its roles and one database. Statements create and alter roles and give and take
privileges. What a run of statements can have widened is said against the state before it: only
listed roles, only by listed privileges, and only while the role has no attribute that gives more.
-/

namespace Sql.Roles

open Sql.Grants

set_option autoImplicit false

structure Attributes where
  super : Bool
  createDb : Bool
  createRole : Bool
  replication : Bool
  bypassRls : Bool
  inherit : Bool
  canLogin : Bool
  deriving DecidableEq

/-- A login and nothing more. -/
def Attributes.plain : Attributes := ⟨false, false, false, false, false, false, true⟩

inductive DatabasePrivilege where
  | create
  | connect
  | temporary
  deriving DecidableEq

inductive Privilege (ν : Type) where
  | database (p : DatabasePrivilege)
  | object (r : Right ν)
  deriving DecidableEq

inductive Statement (ν ρ κ : Type) where
  | createRole (r : ρ)
  | alterRole (r : ρ) (password : κ)
  | revokeAllOnDatabase (g : Grantee ρ)
  | grantConnect (g : Grantee ρ)
  | grantOnAllTables (ps : List TablePrivilege) (schema : ν) (g : Grantee ρ)
  | revokeAllOnTable (schema table : ν) (g : Grantee ρ)
  | object (st : Sql.Grants.Statement ν ρ)

inductive Error where
  | duplicateObject
  | undefined (e : Sql.Grants.Error)
  deriving DecidableEq

section
variable {ν ρ κ : Type} [DecidableEq ν] [DecidableEq ρ]

structure Cluster (ν ρ κ : Type) [DecidableEq ν] [DecidableEq ρ] where
  catalog : Catalog ν ρ
  acl : Acl catalog
  database : DatabasePrivilege → Grantee ρ → Option Holding
  attributes : ρ → Attributes
  password : ρ → Option κ

def Cluster.holds (c : Cluster ν ρ κ) : Privilege ν → Grantee ρ → Option Holding
  | .database p, g => c.database p g
  | .object r, g => c.acl.holds r g

/-! ## Privileges -/

/-- One of the privileges on a table of the schema. -/
def tableRight (C : Catalog ν ρ) (ps : List TablePrivilege) (s : ν) : Right ν → Bool
  | .table s' t p => decide (s' = s) && C.has (.table s' t p) && decide (p ∈ ps)
  | _ => false

/-- On the table or one of its columns. -/
def onTable (s t : ν) : Right ν → Bool
  | .table s' t' _ => decide (s' = s) && decide (t' = t)
  | .column s' t' _ _ => decide (s' = s) && decide (t' = t)
  | _ => false

def grantTables {C : Catalog ν ρ} (a : Acl C) (ps : List TablePrivilege) (s : ν) (g : Grantee ρ) :
    Acl C where
  holds r g' := if g' = g ∧ tableRight C ps s r = true then some ((a.holds r g').getD .plain)
    else a.holds r g'
  known r g' h := by
    split at h
    · rename_i htable
      cases r with
      | table s' t p =>
        have hright := htable.2
        unfold tableRight at hright
        rw [Bool.and_eq_true, Bool.and_eq_true] at hright
        exact hright.1.2
      | _ => cases htable.2
    · exact a.known r g' h

/-- A role more leaves the privileges as they are. -/
def withRole (C : Catalog ν ρ) (r : ρ) : Catalog ν ρ := { C with roles := r :: C.roles }

def overRole {C : Catalog ν ρ} (a : Acl C) (r : ρ) : Acl (withRole C r) where
  holds := a.holds
  known x g h := by
    have hknown := a.known x g h
    cases x <;> exact hknown

def Statement.run : Statement ν ρ κ → Cluster ν ρ κ → Except Error (Cluster ν ρ κ)
  | .createRole r, c =>
    if r ∈ c.catalog.roles then .error .duplicateObject
    else .ok ⟨withRole c.catalog r, overRole c.acl r, c.database,
      Function.update c.attributes r Attributes.plain, Function.update c.password r none⟩
  | .alterRole r password, c =>
    if r ∉ c.catalog.roles then .error (.undefined .undefinedRole)
    else .ok { c with
      attributes := Function.update c.attributes r
        { c.attributes r with canLogin := true, inherit := false, createRole := false }
      password := Function.update c.password r (some password) }
  | .revokeAllOnDatabase g, c =>
    if c.catalog.hasGrantee g = false then .error (.undefined .undefinedRole)
    else .ok { c with database := fun p g' => if g' = g then none else c.database p g' }
  | .grantConnect g, c =>
    if c.catalog.hasGrantee g = false then .error (.undefined .undefinedRole)
    else .ok { c with database := fun p g' =>
      if g' = g ∧ p = .connect then some ((c.database p g').getD .plain) else c.database p g' }
  | .grantOnAllTables ps s g, c =>
    if s ∉ c.catalog.schemas then .error (.undefined .undefinedSchema)
    else if c.catalog.hasGrantee g = false then .error (.undefined .undefinedRole)
    else .ok { c with acl := grantTables c.acl ps s g }
  | .revokeAllOnTable s t g, c =>
    if c.catalog.has (.table s t .select) = false then .error (.undefined .undefinedTable)
    else if c.catalog.hasGrantee g = false then .error (.undefined .undefinedRole)
    else .ok { c with acl := c.acl.revoke (onTable s t) g }
  | .object st, c =>
    match st.run c.acl with
    | .ok a => .ok { c with acl := a }
    | .error e => .error (.undefined e)

/-! ## What a statement does -/

/-- Whose privileges a statement changes. -/
def Statement.grantee : Statement ν ρ κ → Option (Grantee ρ)
  | .createRole _ | .alterRole _ _ => none
  | .revokeAllOnDatabase g | .grantConnect g | .grantOnAllTables _ _ g | .revokeAllOnTable _ _ g => some g
  | .object st => some st.grantee

def Statement.altered : Statement ν ρ κ → Option ρ
  | .createRole r | .alterRole r _ => some r
  | _ => none

def Statement.grants : Statement ν ρ κ → Bool
  | .grantConnect _ | .grantOnAllTables _ _ _ => true
  | .object (.grantOnSchema _ _ _) | .object (.grantOnTable _ _ _ _) => true
  | _ => false

def objectTouches : Sql.Grants.Statement ν ρ → Right ν → Bool
  | .revokeAllOnSchema s _, r => r.onSchema s
  | .revokeAllOnAllTables s _, r => r.onTables s
  | .revokeAllOnAllSequences s _, r => r.onSequences s
  | .grantOnSchema p s _, r => decide (r = .schema s p)
  | .grantOnTable p s t _, r => decide (r = .table s t p)

def Statement.touches (C : Catalog ν ρ) : Statement ν ρ κ → Privilege ν → Bool
  | .revokeAllOnDatabase _, .database _ => true
  | .grantConnect _, p => decide (p = .database .connect)
  | .grantOnAllTables ps s _, .object r => tableRight C ps s r
  | .revokeAllOnTable s t _, .object r => onTable s t r
  | .object st, .object r => objectTouches st r
  | _, _ => false

variable {c c' : Cluster ν ρ κ} {st : Statement ν ρ κ}

theorem holds_of_change {C : Catalog ν ρ} {a b : Acl C} {st : Sql.Grants.Statement ν ρ}
    (h : st.run a = .ok b) (r : Right ν) (g : Grantee ρ) :
    b.holds r g = if g = st.grantee ∧ objectTouches st r = true then
      (if (Statement.object st : Statement ν ρ κ).grants = true then some ((a.holds r g).getD .plain)
        else none) else a.holds r g := by
  have hchange := Sql.Grants.Statement.change_of_run h
  cases st with
  | grantOnSchema p s g' =>
    simp only [Sql.Grants.Statement.change] at hchange
    split at hchange
    · cases hchange
      by_cases hg : g = g' ∧ r = .schema s p
      · obtain ⟨rfl, rfl⟩ := hg
        simp [Sql.Grants.Statement.grantee, objectTouches, Statement.grants]
      · simp [Sql.Grants.Statement.grantee, objectTouches, hg]
    · cases hchange
  | grantOnTable p s t g' =>
    simp only [Sql.Grants.Statement.change] at hchange
    split at hchange
    · cases hchange
      by_cases hg : g = g' ∧ r = .table s t p
      · obtain ⟨rfl, rfl⟩ := hg
        simp [Sql.Grants.Statement.grantee, objectTouches, Statement.grants]
      · simp [Sql.Grants.Statement.grantee, objectTouches, hg]
    · cases hchange
  | _ =>
    cases hchange
    rfl

/-- All that a statement does: it gives privileges to one grantee or takes them from it, or it gives
one role its attributes. -/
structure Ran (st : Statement ν ρ κ) (c c' : Cluster ν ρ κ) : Prop where
  holds : ∀ p g, c'.holds p g = if some g = st.grantee ∧ st.touches c.catalog p = true then
    (if st.grants = true then some ((c.holds p g).getD .plain) else none) else c.holds p g
  unaltered : ∀ r, st.altered ≠ some r → c'.attributes r = c.attributes r ∧
    c'.password r = c.password r ∧ (r ∈ c'.catalog.roles ↔ r ∈ c.catalog.roles)
  plain : ∀ r, c.attributes r = Attributes.plain → c'.attributes r = Attributes.plain
  tables : c'.catalog.tables = c.catalog.tables

theorem ran_of_run (h : st.run c = .ok c') : Ran st c c' := by
  cases st with
  | createRole r =>
    simp only [Statement.run] at h
    split at h
    · cases h
    cases h
    refine ⟨fun p g => ?_, fun r' hne => ?_, fun r' hplain => ?_, rfl⟩
    · cases p <;> rfl
    · have hr : r' ≠ r := fun heq => hne (by rw [heq]; rfl)
      simp [withRole, hr]
    · by_cases hr : r' = r
      · rw [hr]
        exact Function.update_self ..
      · simpa [Function.update_of_ne hr] using hplain
  | alterRole r password =>
    simp only [Statement.run] at h
    split at h
    · cases h
    cases h
    refine ⟨fun p g => ?_, fun r' hne => ?_, fun r' hplain => ?_, rfl⟩
    · cases p <;> rfl
    · have hr : r' ≠ r := fun heq => hne (by rw [heq]; rfl)
      simp [Function.update_of_ne hr]
    · by_cases hr : r' = r
      · subst hr
        simp [hplain, Attributes.plain]
      · simpa [Function.update_of_ne hr] using hplain
  | revokeAllOnDatabase g' =>
    simp only [Statement.run] at h
    split at h
    · cases h
    cases h
    refine ⟨fun p g => ?_, fun _ _ => ⟨rfl, rfl, Iff.rfl⟩, fun _ hplain => hplain, rfl⟩
    cases p <;> simp [Cluster.holds, Statement.grantee, Statement.touches, Statement.grants]
  | grantConnect g' =>
    simp only [Statement.run] at h
    split at h
    · cases h
    cases h
    refine ⟨fun p g => ?_, fun _ _ => ⟨rfl, rfl, Iff.rfl⟩, fun _ hplain => hplain, rfl⟩
    cases p <;> simp [Cluster.holds, Statement.grantee, Statement.touches, Statement.grants]
  | grantOnAllTables ps s g' =>
    simp only [Statement.run] at h
    split at h
    · cases h
    split at h
    · cases h
    cases h
    refine ⟨fun p g => ?_, fun _ _ => ⟨rfl, rfl, Iff.rfl⟩, fun _ hplain => hplain, rfl⟩
    cases p <;> simp [Cluster.holds, Statement.grantee, Statement.touches, Statement.grants, grantTables]
  | revokeAllOnTable s t g' =>
    simp only [Statement.run] at h
    split at h
    · cases h
    split at h
    · cases h
    cases h
    refine ⟨fun p g => ?_, fun _ _ => ⟨rfl, rfl, Iff.rfl⟩, fun _ hplain => hplain, rfl⟩
    cases p <;> simp [Cluster.holds, Statement.grantee, Statement.touches, Statement.grants]
  | object st =>
    simp only [Statement.run] at h
    cases hrun : st.run c.acl with
    | error e =>
      rw [hrun] at h
      cases h
    | ok a =>
      rw [hrun] at h
      cases h
      refine ⟨fun p g => ?_, fun _ _ => ⟨rfl, rfl, Iff.rfl⟩, fun _ hplain => hplain, rfl⟩
      cases p with
      | database p => simp [Cluster.holds, Statement.touches]
      | object r =>
        simp only [Cluster.holds, Statement.grantee, Statement.touches, Option.some.injEq]
        exact holds_of_change hrun r g

/-! ## What a run can have widened -/

section Narrow
variable (roles : List ρ) (allowed : ρ → Privilege ν → Prop)

/-- Against the state `a`: only the listed roles are changed, what they hold more is allowed them and
they are plain logins then, nobody else holds more, and a plain role stays one. -/
structure Narrow (a c : Cluster ν ρ κ) : Prop where
  rights : ∀ r p x, c.holds p (.role r) = some x → a.holds p (.role r) = some x ∨
    x = .plain ∧ r ∈ roles ∧ allowed r p ∧ c.attributes r = Attributes.plain
  everyone : ∀ p x, c.holds p .everyone = some x → a.holds p .everyone = some x
  others : ∀ r, r ∉ roles → (∀ p, c.holds p (.role r) = a.holds p (.role r)) ∧
    c.attributes r = a.attributes r ∧ c.password r = a.password r ∧
    (r ∈ c.catalog.roles ↔ r ∈ a.catalog.roles)
  plain : ∀ r, a.attributes r = Attributes.plain → c.attributes r = Attributes.plain

variable {roles allowed} {a b : Cluster ν ρ κ}

theorem Narrow.refl (a : Cluster ν ρ κ) : Narrow roles allowed a a :=
  ⟨fun _ _ _ h => .inl h, fun _ _ h => h, fun _ _ => ⟨fun _ => rfl, rfl, rfl, Iff.rfl⟩, fun _ h => h⟩

theorem Narrow.trans (h : Narrow roles allowed a b) (h' : Narrow roles allowed b c) :
    Narrow roles allowed a c := by
  refine ⟨fun r p x hx => ?_, fun p x hx => h.everyone p x (h'.everyone p x hx), fun r hr => ?_,
    fun r hplain => h'.plain r (h.plain r hplain)⟩
  · rcases h'.rights r p x hx with hb | hnew
    · rcases h.rights r p x hb with ha | ⟨hx, hr, hallowed, hplain⟩
      · exact .inl ha
      · exact .inr ⟨hx, hr, hallowed, h'.plain r hplain⟩
    · exact .inr hnew
  · obtain ⟨hrights, hattributes, hpassword, hroles⟩ := h.others r hr
    obtain ⟨hrights', hattributes', hpassword', hroles'⟩ := h'.others r hr
    exact ⟨fun p => (hrights' p).trans (hrights p), hattributes'.trans hattributes,
      hpassword'.trans hpassword, hroles'.trans hroles⟩

theorem Narrow.mono {roles' : List ρ} (hsub : roles ⊆ roles') (h : Narrow roles allowed a c) :
    Narrow roles' allowed a c := by
  refine ⟨fun r p x hx => ?_, h.everyone, fun r hr => h.others r fun hmem => hr (hsub hmem), h.plain⟩
  rcases h.rights r p x hx with ha | ⟨hx, hr, hallowed, hplain⟩
  · exact .inl ha
  · exact .inr ⟨hx, hsub hr, hallowed, hplain⟩

/-- What may be run on `c`. -/
structure Permitted (roles : List ρ) (allowed : ρ → Privilege ν → Prop) (st : Statement ν ρ κ)
    (c : Cluster ν ρ κ) : Prop where
  altered : ∀ r, st.altered = some r → r ∈ roles
  everyone : st.grantee = some .everyone → st.grants = false
  role : ∀ r, st.grantee = some (.role r) → r ∈ roles ∧ (st.grants = true →
    c.attributes r = Attributes.plain ∧ ∀ p, st.touches c.catalog p = true → allowed r p)

theorem Narrow.run (hst : Permitted roles allowed st c) (h : st.run c = .ok c') :
    Narrow roles allowed c c' := by
  have hran := ran_of_run h
  refine ⟨fun r p x hx => ?_, fun p x hx => ?_, fun r hr => ?_, hran.plain⟩
  · rw [hran.holds] at hx
    split at hx
    · rename_i htouched
      obtain ⟨hroles, hgrants⟩ := hst.role r htouched.1.symm
      split at hx
      · rename_i hgrant
        obtain ⟨hplain, hallowed⟩ := hgrants hgrant
        cases hheld : c.holds p (.role r) with
        | none =>
          rw [hheld] at hx
          cases hx
          exact .inr ⟨rfl, hroles, hallowed p htouched.2, hran.plain r hplain⟩
        | some y =>
          rw [hheld] at hx
          exact .inl hx
      · cases hx
    · exact .inl hx
  · rw [hran.holds] at hx
    split at hx
    · rename_i htouched
      rw [hst.everyone htouched.1.symm] at hx
      cases hx
    · exact hx
  · have hgrantee : some (Grantee.role r) ≠ st.grantee := fun heq => hr (hst.role r heq.symm).1
    have haltered : st.altered ≠ some r := fun heq => hr (hst.altered r heq)
    obtain ⟨hattributes, hpassword, hroles⟩ := hran.unaltered r haltered
    refine ⟨fun p => ?_, hattributes, hpassword, hroles⟩
    rw [hran.holds, if_neg fun h => hgrantee h.1]

end Narrow

end

end Sql.Roles
