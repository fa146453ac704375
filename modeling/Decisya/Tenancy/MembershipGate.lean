import Decisya.Sql.Protocol
import Decisya.Tenancy.TenantId
import Mathlib.Data.Int.Notation

/-!
# Provisioning of a tenant on its first request

`EnsureAsync` reads whether the tenant exists and then whether the caller is a member of it.
Where it does not exist it inserts the tenant and its owner in one save, a transaction of its
own; if another call won, it reads the membership once more.
-/

namespace Decisya.Tenancy

open Text Concurrency

set_option autoImplicit false

/-! ## Rows -/

/-- `createdAt` is in nanoseconds since the Unix epoch. -/
structure Tenant where
  tenantId : TenantId
  createdAt : ℤ
  deriving DecidableEq

inductive TenantRole where
  | owner
  | member
  deriving DecidableEq

structure Membership where
  id : Guid
  tenantId : TenantId
  userId : Utf16
  role : TenantRole
  createdAt : ℤ
  deriving DecidableEq

inductive Row where
  | tenant (t : Tenant)
  | membership (m : Membership)
  deriving DecidableEq

/-- The values under `PK_tenants`, `PK_memberships` and `ux_memberships_tenant_user`. -/
inductive IndexKey where
  | tenants (tenantId : TenantId)
  | memberships (id : Guid)
  | tenantUser (tenantId : TenantId) (userId : Utf16)
  deriving DecidableEq

def rowKeys : Row → List IndexKey
  | .tenant t => [.tenants t.tenantId]
  | .membership m => [.memberships m.id, .tenantUser m.tenantId m.userId]

def maxUserIdLength : ℕ := 255

/-- `varchar(255)` counts characters: a surrogate pair is one. -/
def rowCheck : Row → Bool
  | .tenant _ => true
  | .membership m =>
    decide ((m.userId.filter fun c => !(0xDC00 ≤ c && c ≤ 0xDFFF)).length ≤ maxUserIdLength)

def schema : Sql.Schema Row IndexKey := ⟨rowKeys, rowCheck⟩

abbrev Db (Tid : Type) := Sql.Db Tid Row

/-! ## Operations -/

inductive Op where
  | sql (o : Sql.Op Row)
  | now
  | newGuid

def Res : Op → Type
  | .sql o => Sql.Reply Row IndexKey o
  | .now => ℤ
  | .newGuid => Guid

/-- `DbUpdateException` with a unique violation, and any other exception. -/
inductive Exn where
  | uniqueViolation (key : IndexKey)
  | other
  deriving DecidableEq

abbrev Code (α : Type) := Prog Op Res Exn α

def ofReply {o : Sql.Op Row} : Sql.Reply Row IndexKey o → Code (Sql.Value Row o)
  | .ok v => .ret v
  | .error (.unique key) => .raise (.uniqueViolation key)
  | .error .other => .raise .other

def sql (o : Sql.Op Row) : Code (Sql.Value Row o) := .call (.sql o) ofReply

def sqlQuietly (o : Sql.Op Row) : Code Unit := .call (.sql o) fun _ => .ret ()

def now : Code ℤ := .call .now fun (x : ℤ) => .ret x

def newGuid : Code Guid := .call .newGuid fun (g : Guid) => .ret g

/-! ## The gate -/

inductive MembershipResult where
  | member
  | provisioned
  | refused
  deriving DecidableEq

structure Caller where
  tenantId : TenantId
  userId : Utf16
  deriving DecidableEq

def isTenantRow (tenantId : TenantId) : Row → Bool
  | .tenant t => decide (t.tenantId = tenantId)
  | .membership _ => false

/-- The tenant filter and the caller's user. -/
def isOwnMembership (caller : Caller) : Row → Bool
  | .tenant _ => false
  | .membership m => decide (m.tenantId = caller.tenantId) && decide (m.userId = caller.userId)

def hasOwnMembership (caller : Caller) : Code Bool := do
  let rows ← sql (.query (isOwnMembership caller))
  .ret (!rows.isEmpty)

def memberOrRefused (caller : Caller) : Code MembershipResult := do
  if ← hasOwnMembership caller then .ret .member else .ret .refused

/-- `SaveChangesAsync` with two inserts, in its own transaction. -/
def saveProvision (tenant : Tenant) (membership : Membership) : Code Unit := do
  let _ ← sql .begin
  Prog.tryFinally (do
    let _ ← sql (.insert (.tenant tenant))
    let _ ← sql (.insert (.membership membership))
    let _ ← sql .commit
    .ret ()) (sqlQuietly .rollback)

def isRaceLossOnProvisioning : Exn → Bool
  | .uniqueViolation (.tenants _) => true
  | .uniqueViolation (.tenantUser _ _) => true
  | _ => false

def ensure (caller : Caller) : Code MembershipResult := do
  let tenants ← sql (.query (isTenantRow caller.tenantId))
  if !tenants.isEmpty then memberOrRefused caller
  else do
    let createdAt ← now
    if isBlank caller.userId then .raise .other
    else do
      let id ← newGuid
      match ← (saveProvision ⟨caller.tenantId, createdAt⟩
        ⟨id, caller.tenantId, caller.userId, .owner, createdAt⟩).attempt with
      | .ok _ => .ret .provisioned
      | .error e => if isRaceLossOnProvisioning e then memberOrRefused caller else .raise e

/-! ## Calls among one another -/

variable {Tid : Type} [DecidableEq Tid]

def exec (t : Tid) : (o : Op) → Db Tid → Res o → Db Tid → Prop
  | .sql o, s, r, s' => Sql.exec schema t o s r s'
  | .now, s, _, s' => s' = s
  | .newGuid, s, _, s' => s' = s

/-- The server may end any transaction that is open. -/
def system (Tid : Type) [DecidableEq Tid] : System Tid Op Res Tid (Db Tid) where
  exec := exec
  env u s s' := s' = s.abort u

abbrev State (Tid : Type) := Config Tid Op Res Exn MembershipResult (Db Tid)

def start (caller : Tid → Caller) : State Tid :=
  ⟨fun t => ensure (caller t), Sql.Db.empty Tid Row⟩

section Protocol
variable (caller : Tid → Caller)

/-- The rows a call commits: the tenant and its owner. -/
def IsProvision (t : Tid) (rows : List Row) : Prop :=
  ∃ createdAt id, rows = [.tenant ⟨(caller t).tenantId, createdAt⟩,
    .membership ⟨id, (caller t).tenantId, (caller t).userId, .owner, createdAt⟩]

abbrev protocol : Protocol Tid (Db Tid) := Sql.protocol schema (fun _ => true) (IsProvision caller)

abbrev Inv (s : Db Tid) : Prop := Sql.Inv schema (fun _ => true) (IsProvision caller) s

def rowsOf (t : Tid) (s : Db Tid) : List Row := s.own (fun _ => true) t

/-- The call is not in a transaction it could go on with. -/
def Down (t : Tid) (s : Db Tid) : Prop :=
  Sql.Open t s ∧ ((s.tx t).status = .active → (s.tx t).failed = true)

def Unfailed (t : Tid) (s : Db Tid) : Prop :=
  Sql.Open t s ∧ ((s.tx t).status = .active → (s.tx t).failed = false)

/-- Some call has provisioned the tenant of call `t`. -/
def Provided (t : Tid) (s : Db Tid) : Prop :=
  ∃ u ∈ s.commits, (caller u).tenantId = (caller t).tenantId

def Done (t : Tid) (s : Db Tid) : Prop :=
  (s.tx t).status = .committed ∧ IsProvision caller t (rowsOf t s)

/-- What the call answers is so from then on. -/
def Answered (t : Tid) (s : Db Tid) : MembershipResult → Prop
  | .provisioned => (s.tx t).status = .committed
  | .member => ∃ u ∈ s.commits, caller u = caller t
  | .refused => ∃ u ∈ s.commits, (caller u).tenantId = (caller t).tenantId ∧
      (caller u).userId ≠ (caller t).userId

def Post (t : Tid) (x : Except Exn MembershipResult) (s : Db Tid) : Prop :=
  ∀ result, x = .ok result → Answered caller t s result

variable {caller} {t : Tid} {s s' : Db Tid}

theorem down_stable : (protocol caller).Stable t (Down t) :=
  fun _ _ hs h => ⟨Sql.Rely.open_ h hs.1, Sql.Rely.failed h hs.2⟩

theorem provided_stable : (protocol caller).Stable t (Provided caller t) := by
  intro s s' hs h
  obtain ⟨u, hu, htenant⟩ := hs
  exact ⟨u, Sql.Rely.commits h u hu, htenant⟩

theorem answered_stable (result : MembershipResult) :
    (protocol caller).Stable t fun s => Answered caller t s result := by
  intro s s' hs h
  cases result with
  | provisioned => exact Sql.Rely.committed h hs
  | member =>
    obtain ⟨u, hu, hsame⟩ := hs
    exact ⟨u, Sql.Rely.commits h u hu, hsame⟩
  | refused =>
    obtain ⟨u, hu, hsame⟩ := hs
    exact ⟨u, Sql.Rely.commits h u hu, hsame⟩

/-! ## Reads -/

/-- An operation that leaves the database alone. -/
theorem unchanged_call {α : Type} {o : Op} (ho : ∀ (s : Db Tid) r s', exec t o s r s' → s' = s)
    {k : Res o → Code α} {A : Db Tid → Prop} {Q : Except Exn α → Db Tid → Prop}
    (hA : (protocol caller).Stable t A)
    (hk : ∀ r, (protocol caller).Triple (system Tid) t A (k r) Q) :
    (protocol caller).Triple (system Tid) t A (.call o k) Q := by
  refine Protocol.Triple.call (fun _ => A) hA (fun s r s' hinv hs hx => ?_) hk
  rw [ho s r s' hx]
  exact ⟨Sql.keeps_refl hinv, hs⟩

/-- Outside a transaction a query reads what everyone sees. -/
theorem query_down {p : Row → Bool} {rows : List Row} (hinv : Inv caller s) (hdown : Down t s)
    (h : Sql.exec schema t (.query p) s (.ok rows) s') : rows = s.visible.filter p ∧ s' = s := by
  obtain ⟨husable, hrows, hsame⟩ := h
  have hinactive : (s.tx t).status ≠ .active := fun hactive => husable ⟨hactive, hdown.2 hactive⟩
  refine ⟨?_, hsame⟩
  rw [hrows]
  congr 1
  unfold Sql.Db.visibleTo Sql.Db.visible
  congr 1
  apply List.filter_congr
  intro v hv
  have hx := hinv.untouched v hv rfl
  simp [Sql.Version.VisibleTo, Sql.Version.Committed, hx, hinactive]

/-- The rule for a read outside a transaction: `B` is what the rows tell. -/
theorem query_then {α : Type} {p : Row → Bool} {f : List Row → Code α} {A : Db Tid → Prop}
    {B : List Row → Db Tid → Prop} {Q : Except Exn α → Db Tid → Prop}
    (hA : (protocol caller).Stable t A)
    (hB : ∀ s, Inv caller s → A s → B (s.visible.filter p) s)
    (hf : ∀ rows, (protocol caller).Triple (system Tid) t (fun s => Down t s ∧ B rows s) (f rows) Q)
    (he : ∀ e s, Q (.error e) s) :
    (protocol caller).Triple (system Tid) t (fun s => Down t s ∧ A s)
      ((sql (.query p)).bind f) Q := by
  have hne : (Sql.Op.query p) ≠ .commit := by simp
  let After (x : Sql.Reply Row IndexKey (.query p)) (s : Db Tid) : Prop :=
    ∀ rows, x = .ok rows → Down t s ∧ B rows s
  refine Protocol.Triple.call After (down_stable.and hA) (fun s x s' hinv hs hx => ?_) fun x => ?_
  · refine ⟨(Sql.keeps_of_open hinv (o := .query p) trivial hne hs.1.1 hx).1, fun rows heq => ?_⟩
    subst heq
    obtain ⟨rfl, rfl⟩ := query_down hinv hs.1 hx
    exact ⟨hs.1, hB s' hinv hs.2⟩
  · cases x with
    | ok rows => exact (hf rows).conseq (fun s hs => hs rows rfl) fun _ _ h => h
    | error e =>
      cases e with
      | unique key => exact Protocol.Triple.raise fun s _ => he _ s
      | other => exact Protocol.Triple.raise fun s _ => he _ s

/-! ## What committed calls have left -/

theorem mem_visible (hinv : Inv caller s) {row : Row} :
    row ∈ s.visible ↔ ∃ u ∈ s.commits, row ∈ rowsOf u s := by
  rw [Sql.mem_visible_iff hinv.untouched rfl]
  constructor
  · intro h
    obtain ⟨u, hu, hrow⟩ := h
    exact ⟨u, (hinv.consistent.logged u).mpr hu, hrow⟩
  · intro h
    obtain ⟨u, hu, hrow⟩ := h
    exact ⟨u, (hinv.consistent.logged u).mp hu, hrow⟩

theorem provision_of_commit (hinv : Inv caller s) {u : Tid} (hu : u ∈ s.commits) :
    IsProvision caller u (rowsOf u s) :=
  hinv.recorded u ((hinv.consistent.logged u).mp hu)

omit [DecidableEq Tid] in
/-- The tenant and the user of the rows a call commits. -/
theorem IsProvision.of_mem {u : Tid} {rows : List Row} (h : IsProvision caller u rows) {row : Row}
    (hrow : row ∈ rows) : (∃ createdAt, row = .tenant ⟨(caller u).tenantId, createdAt⟩) ∨
      ∃ createdAt id, row = .membership ⟨id, (caller u).tenantId, (caller u).userId, .owner, createdAt⟩ := by
  obtain ⟨createdAt, id, rfl⟩ := h
  rcases List.mem_cons.mp hrow with rfl | hrest
  · exact .inl ⟨createdAt, rfl⟩
  · exact .inr ⟨createdAt, id, List.mem_singleton.mp hrest⟩

theorem provided_of_tenant (hinv : Inv caller s) {row : Row} (hrow : row ∈ s.visible)
    (hkind : isTenantRow (caller t).tenantId row = true) : Provided caller t s := by
  obtain ⟨u, hu, hmem⟩ := (mem_visible hinv).mp hrow
  refine ⟨u, hu, ?_⟩
  rcases (provision_of_commit hinv hu).of_mem hmem with ⟨createdAt, rfl⟩ | ⟨createdAt, id, rfl⟩
  · exact of_decide_eq_true hkind
  · cases hkind

theorem member_of_membership (hinv : Inv caller s) {row : Row} (hrow : row ∈ s.visible)
    (hkind : isOwnMembership (caller t) row = true) : Answered caller t s .member := by
  obtain ⟨u, hu, hmem⟩ := (mem_visible hinv).mp hrow
  refine ⟨u, hu, ?_⟩
  rcases (provision_of_commit hinv hu).of_mem hmem with ⟨createdAt, rfl⟩ | ⟨createdAt, id, rfl⟩
  · cases hkind
  · simp only [isOwnMembership, Bool.and_eq_true, decide_eq_true_eq] at hkind
    cases hu : caller u
    cases ht : caller t
    simp_all

theorem refused_of_none (hinv : Inv caller s) (hprovided : Provided caller t s)
    (hnone : s.visible.filter (isOwnMembership (caller t)) = []) : Answered caller t s .refused := by
  obtain ⟨u, hu, htenant⟩ := hprovided
  refine ⟨u, hu, htenant, fun huser => ?_⟩
  obtain ⟨createdAt, id, hrows⟩ := provision_of_commit hinv hu
  have hmem : Row.membership ⟨id, (caller u).tenantId, (caller u).userId, .owner, createdAt⟩ ∈
      s.visible := (mem_visible hinv).mpr ⟨u, hu, by rw [hrows]; simp⟩
  rw [List.filter_eq_nil_iff] at hnone
  apply hnone _ hmem
  simp [isOwnMembership, htenant, huser]

omit [DecidableEq Tid] in
theorem post_error (e : Exn) (s : Db Tid) : Post caller t (.error e) s := fun _ h => by cases h

/-- What a read of the caller's membership tells. -/
def Read (caller : Tid → Caller) (t : Tid) (isMember : Bool) (s : Db Tid) : Prop :=
  Answered caller t s (if isMember then .member else .refused)

/-- Once the tenant is there, one read of the membership is enough. -/
theorem hasOwnMembership_read :
    (protocol caller).Triple (system Tid) t (fun s => Down t s ∧ Provided caller t s)
      (hasOwnMembership (caller t)) fun x s => ∀ isMember, x = .ok isMember → Read caller t isMember s := by
  refine query_then (B := fun rows s => Read caller t (!rows.isEmpty) s) provided_stable
    (fun s hinv hprovided => ?_) (fun rows => ?_) fun e s isMember h => by cases h
  · cases hrows : s.visible.filter (isOwnMembership (caller t)) with
    | nil => exact refused_of_none hinv hprovided hrows
    | cons row rows =>
      have hmem : row ∈ s.visible.filter (isOwnMembership (caller t)) := by
        rw [hrows]
        exact List.mem_cons_self
      obtain ⟨hvisible, hkind⟩ := List.mem_filter.mp hmem
      exact member_of_membership hinv hvisible hkind
  · refine Protocol.Triple.ret fun s hs isMember heq => ?_
    cases heq
    exact hs.2

theorem memberOrRefused_post :
    (protocol caller).Triple (system Tid) t (fun s => Down t s ∧ Provided caller t s)
      (memberOrRefused (caller t)) (Post caller t) := by
  refine Protocol.Triple.bind _ hasOwnMembership_read (fun isMember => ?_) fun e s _ => post_error e s
  cases isMember with
  | true =>
    refine Protocol.Triple.ret fun s hs result heq => ?_
    cases heq
    exact hs true rfl
  | false =>
    refine Protocol.Triple.ret fun s hs result heq => ?_
    cases heq
    exact hs false rfl

/-! ## The save -/

def Untried (t : Tid) (s : Db Tid) : Prop := Down t s ∧ rowsOf t s = []

theorem untried_stable : (protocol caller).Stable t (Untried t) :=
  fun s s' hs h => ⟨down_stable s s' hs.1 h, (Sql.Rely.own h).trans hs.2⟩

def Begun (t : Tid) (s : Db Tid) : Prop := Unfailed t s ∧ rowsOf t s = []

def HalfWritten (caller : Tid → Caller) (t : Tid) (createdAt : ℤ) (s : Db Tid) : Prop :=
  Unfailed t s ∧ rowsOf t s = [.tenant ⟨(caller t).tenantId, createdAt⟩]

def FullyWritten (caller : Tid → Caller) (t : Tid) (s : Db Tid) : Prop :=
  Unfailed t s ∧ IsProvision caller t (rowsOf t s)

theorem begun_stable : (protocol caller).Stable t (Begun t) :=
  fun _ _ hs h => ⟨⟨Sql.Rely.open_ h hs.1.1, Sql.Rely.unfailed h hs.1.2⟩,
    (Sql.Rely.own h).trans hs.2⟩

theorem halfWritten_stable (createdAt : ℤ) :
    (protocol caller).Stable t (HalfWritten caller t createdAt) :=
  fun _ _ hs h => ⟨⟨Sql.Rely.open_ h hs.1.1, Sql.Rely.unfailed h hs.1.2⟩,
    (Sql.Rely.own h).trans hs.2⟩

theorem fullyWritten_stable : (protocol caller).Stable t (FullyWritten caller t) := by
  intro s s' hs h
  refine ⟨⟨Sql.Rely.open_ h hs.1.1, Sql.Rely.unfailed h hs.1.2⟩, ?_⟩
  unfold rowsOf
  rw [Sql.Rely.own h]
  exact hs.2

/-- How a save ends. Where it lost the race, the winner's tenant is there. -/
def Saved (caller : Tid → Caller) (t : Tid) (x : Except Exn Unit) (s : Db Tid) : Prop :=
  match x with
  | .ok _ => (s.tx t).status = .committed
  | .error e => isRaceLossOnProvisioning e = true → Down t s ∧ Provided caller t s

/-- An insert met a row of its key. -/
theorem down_of_conflict {row : Row} {k : IndexKey}
    (h : Sql.exec schema t (.insert row) s (.error (.unique k)) s') :
    Down t s' ∧ k ∈ rowKeys row ∧ ∃ v ∈ s.versions, k ∈ rowKeys v.row ∧ v.VisibleTo s.tx t := by
  obtain ⟨row', heq, hkey, hready, ⟨v, hv, hvkey, hvis, -⟩, rfl⟩ := h
  cases heq
  refine ⟨?_, hkey, v, hv, hvkey, hvis⟩
  unfold Down Sql.Open Sql.Db.fail
  rw [if_pos hready.1, Sql.Db.setTx_self]
  refine ⟨?_, fun _ => rfl⟩
  dsimp only
  rw [hready.1]
  exact Sql.Status.noConfusion

/-- The row met is the call's own or a committed one. -/
theorem met_row (hinv : Inv caller s) {v : Sql.Version Tid Row} (hv : v ∈ s.versions)
    (hvis : v.VisibleTo s.tx t) : v.row ∈ rowsOf t s ∨ v.row ∈ s.visible := by
  have hx := hinv.untouched v hv rfl
  rcases hvis.1 with ⟨hown, -⟩ | hcommitted
  · exact .inl (Sql.mem_own.mpr ⟨v, hv, hown, rfl, rfl⟩)
  · exact .inr ((Sql.mem_visible_iff hinv.untouched rfl).mpr
      ⟨v.xmin, hcommitted, Sql.mem_own.mpr ⟨v, hv, rfl, rfl, rfl⟩⟩)

/-- A committed row with a key of the call's tenant. -/
theorem provided_of_key (hinv : Inv caller s) {row : Row} (hrow : row ∈ s.visible)
    (hkey : .tenants (caller t).tenantId ∈ rowKeys row ∨
      .tenantUser (caller t).tenantId (caller t).userId ∈ rowKeys row) : Provided caller t s := by
  obtain ⟨u, hu, hmem⟩ := (mem_visible hinv).mp hrow
  refine ⟨u, hu, ?_⟩
  rcases (provision_of_commit hinv hu).of_mem hmem with ⟨createdAt, rfl⟩ | ⟨createdAt, id, rfl⟩
  · rcases hkey with hkey | hkey
    · simpa [rowKeys, eq_comm] using hkey
    · simp [rowKeys] at hkey
  · rcases hkey with hkey | hkey
    · simp [rowKeys] at hkey
    · have hboth : (caller t).tenantId = (caller u).tenantId ∧
          (caller t).userId = (caller u).userId := by simpa [rowKeys] using hkey
      exact hboth.1.symm

/-- Before the roll back on the way out. -/
def Ending (caller : Tid → Caller) (t : Tid) (x : Except Exn Unit) (s : Db Tid) : Prop :=
  (Sql.Open t s ∨ Done caller t s) ∧ Saved caller t x s

theorem Provided.exec {o : Sql.Op Row} {r : Sql.Reply Row IndexKey o} (hs : Provided caller t s)
    (h : Sql.exec schema t o s r s') : Provided caller t s' := by
  obtain ⟨u, hu, htenant⟩ := hs
  exact ⟨u, Sql.commits_of_exec h u hu, htenant⟩

/-- The rule for an insert: `B` holds if it succeeds, and the tenant is there if it met a
row that decides the race. -/
theorem insert_then {row : Row} {A B : Db Tid → Prop} {f : Unit → Code Unit}
    (hA : (protocol caller).Stable t A) (hopen : ∀ s, A s → Sql.Open t s)
    (hok : ∀ s s', A s → Sql.run schema t (.insert row) s () s' → B s')
    (hmeet : ∀ s k, Inv caller s → A s → k ∈ rowKeys row →
      isRaceLossOnProvisioning (.uniqueViolation k) = true →
      (∃ v ∈ s.versions, k ∈ rowKeys v.row ∧ v.VisibleTo s.tx t) → Provided caller t s)
    (hf : (protocol caller).Triple (system Tid) t B (f ()) (Ending caller t)) :
    (protocol caller).Triple (system Tid) t A ((sql (.insert row)).bind f) (Ending caller t) := by
  have hne : Sql.Op.insert row ≠ .commit := by simp
  let After (x : Sql.Reply Row IndexKey (.insert row)) (s : Db Tid) : Prop :=
    (∀ v, x = .ok v → B s) ∧ Sql.Open t s ∧
      ∀ k, x = .error (.unique k) → isRaceLossOnProvisioning (.uniqueViolation k) = true →
        Down t s ∧ Provided caller t s
  refine Protocol.Triple.call After hA (fun s x s' hinv hs hx => ?_) fun x => ?_
  · obtain ⟨hkeeps, hopen'⟩ :=
      Sql.keeps_of_open hinv (o := .insert row) trivial hne (hopen s hs) hx
    refine ⟨hkeeps, fun v heq => ?_, hopen', fun k heq hrace => ?_⟩
    · subst heq
      exact hok s s' hs hx
    · subst heq
      obtain ⟨hdown, hkey, hmet⟩ := down_of_conflict hx
      exact ⟨hdown, (hmeet s k hinv hs hkey hrace hmet).exec (o := .insert row) (r := .error (.unique k)) hx⟩
  · cases x with
    | ok v => exact hf.conseq (fun s hs => hs.1 v rfl) fun _ _ h => h
    | error e =>
      cases e with
      | unique k =>
        exact Protocol.Triple.raise fun s hs => ⟨.inl hs.2.1, fun hrace => hs.2.2 k rfl hrace⟩
      | other =>
        exact Protocol.Triple.raise fun s hs => ⟨.inl hs.2.1, fun hrace => by cases hrace⟩

theorem commit_ending :
    (protocol caller).Triple (system Tid) t (FullyWritten caller t)
      ((sql .commit).bind fun _ => .ret ()) (Ending caller t) := by
  let After (x : Sql.Reply Row IndexKey .commit) (s : Db Tid) : Prop :=
    (Sql.Open t s ∧ (∀ v, x ≠ .ok v) ∨ Done caller t s) ∧ ∀ k, x ≠ .error (.unique k)
  refine Protocol.Triple.call After fullyWritten_stable (fun s x s' hinv hs hx => ?_) fun x => ?_
  · obtain ⟨hkeeps, hcommitted⟩ := Sql.keeps_of_commit hinv hs.1.1 hs.1.2 hs.2 hx
    refine ⟨hkeeps, hcommitted, fun k heq => ?_⟩
    subst heq
    obtain ⟨row, hinsert, -⟩ := hx
    cases hinsert
  · cases x with
    | ok v =>
      refine Protocol.Triple.ret fun s hs => ?_
      rcases hs.1 with ⟨-, hthrown⟩ | hdone
      · exact absurd rfl (hthrown v)
      · exact ⟨.inr hdone, hdone.1⟩
    | error e =>
      cases e with
      | unique k => exact Protocol.Triple.of_false fun s hs => hs.2 k rfl
      | other =>
        refine Protocol.Triple.raise fun s hs => ⟨?_, fun hrace => by cases hrace⟩
        rcases hs.1 with ⟨hopen, -⟩ | hdone
        · exact .inl hopen
        · exact .inr hdone

theorem rollback_saved (x : Except Exn Unit) :
    (protocol caller).Triple (system Tid) t (Ending caller t x) (sqlQuietly .rollback)
      (Protocol.finallyPost (Saved caller t) x) := by
  have hne : (Sql.Op.rollback : Sql.Op Row) ≠ .commit := by simp
  refine Protocol.Triple.call (fun _ => Saved caller t x) ?_ (fun s y s' hinv hs hx => ?_) fun _ =>
    Protocol.Triple.ret fun s hs => hs
  · intro s s' hs hrely
    refine ⟨?_, ?_⟩
    · rcases hs.1 with hopen | hdone
      · exact .inl (Sql.Rely.open_ hrely hopen)
      · refine .inr ⟨Sql.Rely.committed hrely hdone.1, ?_⟩
        unfold rowsOf
        rw [Sql.Rely.own hrely]
        exact hdone.2
    · cases x with
      | ok _ => exact Sql.Rely.committed hrely hs.2
      | error e =>
        intro hrace
        obtain ⟨hdown, hprovided⟩ := hs.2 hrace
        exact ⟨down_stable s s' hdown hrely, provided_stable s s' hprovided hrely⟩
  · rcases hs.1 with hopen | hdone
    · obtain ⟨hkeeps, hopen'⟩ := Sql.keeps_of_open hinv (o := .rollback) trivial hne hopen hx
      refine ⟨hkeeps, ?_⟩
      cases x with
      | ok _ => exact absurd hs.2 hopen
      | error e =>
        intro hrace
        obtain ⟨hdown, hprovided⟩ := hs.2 hrace
        exact ⟨⟨hopen', Sql.rollback_failed hdown.2 hx⟩, hprovided.exec (o := .rollback) (r := y) hx⟩
    · have hsame := Sql.rollback_committed hdone.1 hx
      rw [hsame]
      exact ⟨Sql.keeps_refl hinv, hs.2⟩

theorem begun_of_begin (hs : Untried t s)
    (h : Sql.run schema t .begin s () s') : Begun t s' := by
  obtain ⟨-, rfl⟩ := h
  refine ⟨⟨?_, fun _ => ?_⟩, hs.2⟩
  · unfold Sql.Open
    rw [Sql.Db.setTx_self]
    exact Sql.Status.noConfusion
  · rw [Sql.Db.setTx_self]

theorem halfWritten_of_insert {createdAt : ℤ} (hs : Begun t s)
    (h : Sql.run schema t (.insert (.tenant ⟨(caller t).tenantId, createdAt⟩)) s () s') :
    HalfWritten caller t createdAt s' := by
  obtain ⟨-, -, -, rfl⟩ := h
  refine ⟨hs.1, ?_⟩
  unfold rowsOf
  rw [Sql.own_push, if_pos rfl]
  have hnone : s.own (fun _ => true) t = [] := hs.2
  rw [hnone]
  rfl

theorem fullyWritten_of_insert {createdAt : ℤ} {id : Guid} (hs : HalfWritten caller t createdAt s)
    (h : Sql.run schema t (.insert (.membership
      ⟨id, (caller t).tenantId, (caller t).userId, .owner, createdAt⟩)) s () s') :
    FullyWritten caller t s' := by
  obtain ⟨-, -, -, rfl⟩ := h
  refine ⟨hs.1, createdAt, id, ?_⟩
  unfold rowsOf
  rw [Sql.own_push, if_pos rfl]
  have htenant : s.own (fun _ => true) t = [.tenant ⟨(caller t).tenantId, createdAt⟩] := hs.2
  rw [htenant]
  rfl

theorem saveProvision_saved {createdAt : ℤ} {id : Guid} :
    (protocol caller).Triple (system Tid) t (Untried t)
      (saveProvision ⟨(caller t).tenantId, createdAt⟩
        ⟨id, (caller t).tenantId, (caller t).userId, .owner, createdAt⟩) (Saved caller t) := by
  have hne : (Sql.Op.begin : Sql.Op Row) ≠ .commit := by simp
  let After (x : Sql.Reply Row IndexKey .begin) (s : Db Tid) : Prop :=
    (∀ v, x = .ok v → Begun t s) ∧ ∀ k, x ≠ .error (.unique k)
  refine Protocol.Triple.call After untried_stable (fun s x s' hinv hs hx => ?_) fun x => ?_
  · refine ⟨(Sql.keeps_of_open hinv (o := .begin) trivial hne hs.1.1 hx).1, fun v heq => ?_,
      fun k heq => ?_⟩
    · subst heq
      exact begun_of_begin hs hx
    · subst heq
      obtain ⟨row, hinsert, -⟩ := hx
      cases hinsert
  · cases x with
    | ok v =>
      refine Protocol.Triple.tryFinally (Ending caller t) ?_ rollback_saved
      refine Protocol.Triple.conseq ?_ (fun s hs => hs.1 v rfl) fun _ _ h => h
      refine insert_then begun_stable (fun s hs => hs.1.1) (fun s s' hs h => halfWritten_of_insert hs h)
        (fun s k hinv hs hkey hrace hmet => ?_) ?_
      · obtain ⟨v, hv, hvkey, hvis⟩ := hmet
        obtain rfl : k = .tenants (caller t).tenantId := List.mem_singleton.mp hkey
        rcases met_row hinv hv hvis with hown | hvisible
        · rw [hs.2] at hown
          cases hown
        · exact provided_of_key hinv hvisible (.inl hvkey)
      · refine insert_then (halfWritten_stable createdAt) (fun s hs => hs.1.1)
          (fun s s' hs h => fullyWritten_of_insert hs h)
          (fun s k hinv hs hkey hrace hmet => ?_) commit_ending
        obtain ⟨v, hv, hvkey, hvis⟩ := hmet
        have hk : k = .memberships id ∨ k = .tenantUser (caller t).tenantId (caller t).userId := by
          simpa [rowKeys] using hkey
        rcases hk with rfl | rfl
        · cases hrace
        · rcases met_row hinv hv hvis with hown | hvisible
          · rw [hs.2, List.mem_singleton] at hown
            rw [hown] at hvkey
            simp [rowKeys] at hvkey
          · exact provided_of_key hinv hvisible (.inr hvkey)
    | error e =>
      cases e with
      | unique k => exact Protocol.Triple.of_false fun s hs => hs.2 k rfl
      | other => exact Protocol.Triple.raise fun s _ hrace => by cases hrace

/-! ## The call -/

theorem provision_post :
    (protocol caller).Triple (system Tid) t (Untried t)
      (now.bind fun createdAt =>
        if isBlank (caller t).userId then .raise .other
        else newGuid.bind fun id =>
          (saveProvision ⟨(caller t).tenantId, createdAt⟩
            ⟨id, (caller t).tenantId, (caller t).userId, .owner, createdAt⟩).attempt.bind fun x =>
          match x with
          | .ok _ => .ret .provisioned
          | .error e =>
            if isRaceLossOnProvisioning e then memberOrRefused (caller t) else .raise e)
      (Post caller t) := by
  refine unchanged_call (o := .now) (fun _ _ _ h => h) untried_stable fun createdAt => ?_
  change (protocol caller).Triple (system Tid) t (Untried t) (ite _ _ _) (Post caller t)
  split
  · exact Protocol.Triple.raise fun s _ => post_error _ s
  · refine unchanged_call (o := .newGuid) (fun _ _ _ h => h) untried_stable fun id => ?_
    refine Protocol.Triple.attempt_bind (Saved caller t) saveProvision_saved fun x => ?_
    cases x with
    | ok _ =>
      refine Protocol.Triple.ret fun s hs result heq => ?_
      cases heq
      exact hs
    | error e =>
      dsimp only
      split
      · rename_i hrace
        exact memberOrRefused_post.conseq (fun s hs => hs hrace) fun _ _ h => h
      · exact Protocol.Triple.raise fun s _ => post_error e s

theorem ensure_post :
    (protocol caller).Triple (system Tid) t (Untried t) (ensure (caller t)) (Post caller t) := by
  have hrows : (protocol caller).Stable t fun s => rowsOf t s = [] :=
    fun s s' hs h => (Sql.Rely.own h).trans hs
  refine query_then (B := fun rows s => rowsOf t s = [] ∧ (rows ≠ [] → Provided caller t s)) hrows
    (fun s hinv hnone => ⟨hnone, fun hsome => ?_⟩) (fun rows => ?_) post_error
  · obtain ⟨row, hrow⟩ := List.exists_mem_of_ne_nil _ hsome
    obtain ⟨hvisible, hkind⟩ := List.mem_filter.mp hrow
    exact provided_of_tenant hinv hvisible hkind
  · cases rows with
    | nil => exact provision_post.conseq (fun s hs => ⟨hs.1, hs.2.1⟩) fun _ _ h => h
    | cons row rows =>
      exact memberOrRefused_post.conseq (fun s hs => ⟨hs.1, hs.2.2 (List.cons_ne_nil row rows)⟩)
        fun _ _ h => h

end Protocol

/-! ## Every interleaving -/

def isMembershipOf (tenantId : TenantId) : Row → Bool
  | .tenant _ => false
  | .membership m => decide (m.tenantId = tenantId)

def isTenant : Row → Bool
  | .tenant _ => true
  | .membership _ => false

section Runs
variable {caller : Tid → Caller} {c : State Tid} {s : Db Tid}

theorem reach_ok (h : (system Tid).Reach (start caller) c) :
    Protocol.Ok (protocol caller) (system Tid) (Post caller) c := by
  have hstart : ∀ t, Untried t (start caller).shared :=
    fun t => ⟨⟨Sql.Status.noConfusion, fun h => Sql.Status.noConfusion h⟩, rfl⟩
  have hok : Protocol.Ok (protocol caller) (system Tid) (Post caller) (start caller) :=
    Protocol.sound Sql.inv_empty hstart fun t => ensure_post
  refine (hok.reach (fun u s s' hinv hs => ?_) h).1
  obtain rfl := hs
  exact Sql.keepsAll_abort u hinv

/-- Rows of a tenant, of either kind, count the calls that provisioned it. -/
theorem countP_provisions (hinv : Inv caller s) (tenantId : TenantId) :
    s.visible.countP (isTenantRow tenantId) =
        s.commits.countP (fun u => decide ((caller u).tenantId = tenantId)) ∧
      s.visible.countP (isMembershipOf tenantId) =
        s.commits.countP fun u => decide ((caller u).tenantId = tenantId) := by
  constructor
  · refine Sql.countP_visible hinv.consistent (hinv.untouched.of_all isTenant) (fun row hrow => ?_)
      fun u hu => ?_
    · cases row with
      | tenant t => rfl
      | membership m => cases hrow
    · obtain ⟨createdAt, id, hrows⟩ := hinv.recorded u hu
      refine ⟨.tenant ⟨(caller u).tenantId, createdAt⟩, ?_, rfl⟩
      rw [Sql.own_filter, hrows]
      rfl
  · refine Sql.countP_visible hinv.consistent (hinv.untouched.of_all fun row => !isTenant row)
      (fun row hrow => ?_) fun u hu => ?_
    · cases row with
      | tenant t => cases hrow
      | membership m => rfl
    · obtain ⟨createdAt, id, hrows⟩ := hinv.recorded u hu
      refine ⟨.membership ⟨id, (caller u).tenantId, (caller u).userId, .owner, createdAt⟩, ?_, rfl⟩
      rw [Sql.own_filter, hrows]
      rfl

theorem countP_tenant_le_one (hinv : Inv caller s) (tenantId : TenantId) :
    s.visible.countP (isTenantRow tenantId) ≤ 1 := by
  refine hinv.consistent.countP_le_one schema (k := .tenants tenantId) fun row hrow => ?_
  cases row with
  | tenant t =>
    have htenant : t.tenantId = tenantId := of_decide_eq_true hrow
    rw [← htenant]
    exact List.mem_singleton.mpr rfl
  | membership m => cases hrow

/-- Two calls that provisioned one tenant are one call. -/
theorem commit_unique (hinv : Inv caller s) {u v : Tid} (hu : u ∈ s.commits) (hv : v ∈ s.commits)
    (htenant : (caller u).tenantId = (caller v).tenantId) : u = v := by
  have hle := countP_tenant_le_one hinv (caller v).tenantId
  rw [(countP_provisions hinv (caller v).tenantId).1, List.countP_eq_length_filter] at hle
  have humem : u ∈ s.commits.filter fun w => decide ((caller w).tenantId = (caller v).tenantId) :=
    List.mem_filter.mpr ⟨hu, decide_eq_true htenant⟩
  have hvmem : v ∈ s.commits.filter fun w => decide ((caller w).tenantId = (caller v).tenantId) :=
    List.mem_filter.mpr ⟨hv, decide_eq_true rfl⟩
  have hpos := List.length_pos_of_mem humem
  obtain ⟨w, hw⟩ := List.length_eq_one_iff.mp (Nat.le_antisymm hle hpos)
  rw [hw, List.mem_singleton] at humem hvmem
  rw [humem, hvmem]

/-- The owner a call finds in the end, and what it was told. -/
theorem owner_of_answer (hinv : Inv caller s) {t : Tid} {result : MembershipResult}
    (h : Answered caller t s result) : ∃ m, Row.membership m ∈ s.visible ∧
      m.tenantId = (caller t).tenantId ∧
      (m.userId = (caller t).userId → result = .provisioned ∨ result = .member) ∧
      (m.userId ≠ (caller t).userId → result = .refused) := by
  have howner : ∀ u ∈ s.commits, ∃ m, Row.membership m ∈ s.visible ∧
      m.tenantId = (caller u).tenantId ∧ m.userId = (caller u).userId := by
    intro u hu
    obtain ⟨createdAt, id, hrows⟩ := provision_of_commit hinv hu
    refine ⟨⟨id, (caller u).tenantId, (caller u).userId, .owner, createdAt⟩, ?_, rfl, rfl⟩
    refine (mem_visible hinv).mpr ⟨u, hu, ?_⟩
    rw [hrows]
    exact List.mem_cons_of_mem _ List.mem_cons_self
  cases result with
  | provisioned =>
    obtain ⟨m, hm, htenant, huser⟩ := howner t ((hinv.consistent.logged t).mpr h)
    exact ⟨m, hm, htenant, fun _ => .inl rfl, fun hne => absurd huser hne⟩
  | member =>
    obtain ⟨u, hu, hsame⟩ := h
    obtain ⟨m, hm, htenant, huser⟩ := howner u hu
    rw [hsame] at htenant huser
    exact ⟨m, hm, htenant, fun _ => .inr rfl, fun hne => absurd huser hne⟩
  | refused =>
    obtain ⟨u, hu, hsame, hother⟩ := h
    obtain ⟨m, hm, htenant, huser⟩ := howner u hu
    refine ⟨m, hm, htenant.trans hsame, fun heq => ?_, fun _ => rfl⟩
    rw [huser] at heq
    exact absurd heq hother

/-- However calls interleave, a tenant has one row at most and one member for it, its
owner; one call provisions it; and a call that returns lets the owner in and nobody else. -/
theorem provisioning_idempotent (h : (system Tid).Reach (start caller) c) :
    (∀ tenantId, c.shared.visible.countP (isTenantRow tenantId) ≤ 1 ∧
      c.shared.visible.countP (isMembershipOf tenantId) =
        c.shared.visible.countP (isTenantRow tenantId)) ∧
    (∀ m, Row.membership m ∈ c.shared.visible → m.role = .owner) ∧
    (∀ t u, (c.threads t).outcome? = some (.ok .provisioned) →
      (c.threads u).outcome? = some (.ok .provisioned) →
      (caller t).tenantId = (caller u).tenantId → t = u) ∧
    ∀ t result, (c.threads t).outcome? = some (.ok result) →
      ∃ m, Row.membership m ∈ c.shared.visible ∧ m.tenantId = (caller t).tenantId ∧
        (m.userId = (caller t).userId → result = .provisioned ∨ result = .member) ∧
        (m.userId ≠ (caller t).userId → result = .refused) := by
  have hok := reach_ok h
  have hinv : Inv caller c.shared := hok.1
  have hanswered : ∀ t result, (c.threads t).outcome? = some (.ok result) →
      Answered caller t c.shared result := by
    intro t result ht
    obtain ⟨s, hmeanwhile, hpost⟩ := hok.outcome ht
    exact (answered_stable result).meanwhile hmeanwhile (hpost result rfl)
  refine ⟨fun tenantId => ⟨countP_tenant_le_one hinv tenantId, ?_⟩, fun m hm => ?_,
    fun t u ht hu htenant => ?_, fun t result ht => owner_of_answer hinv (hanswered t result ht)⟩
  · obtain ⟨htenants, hmemberships⟩ := countP_provisions hinv tenantId
    rw [htenants, hmemberships]
  · obtain ⟨u, hu, hmem⟩ := (mem_visible hinv).mp hm
    rcases (provision_of_commit hinv hu).of_mem hmem with ⟨createdAt, heq⟩ | ⟨createdAt, id, heq⟩
    · cases heq
    · cases heq
      rfl
  · exact commit_unique hinv ((hinv.consistent.logged t).mpr (hanswered t _ ht))
      ((hinv.consistent.logged u).mpr (hanswered u _ hu)) htenant

end Runs

/-- Users 0 and 1 race for one tenant, and user 0 has two calls. -/
def racingCaller (t : ℕ) : Caller :=
  ⟨⟨.ofDigit 1⟩, if t = 1 then ascii "second" else ascii "first"⟩

def answer (t : ℕ) : (o : Op) → Db ℕ → Option (Res o × Db ℕ)
  | .sql o, s => (Sql.answer schema t o s).map fun (v, s') => (.ok v, s')
  | .now, s => some ((0 : ℤ), s)
  | .newGuid, s => some (Guid.ofDigit t, s)

theorem exec_of_answer {t : ℕ} {o : Op} {s s' : Db ℕ} {r : Res o} (h : answer t o s = some (r, s')) :
    (system ℕ).exec t o s r s' := by
  cases o with
  | sql o =>
    obtain ⟨⟨v, s''⟩, hx, heq⟩ := Option.map_eq_some_iff.mp h
    obtain ⟨rfl, rfl⟩ := Prod.mk.inj heq
    exact Sql.run_of_answer schema hx
  | now => exact (Prod.mk.inj (Option.some.inj h)).2.symm
  | newGuid => exact (Prod.mk.inj (Option.some.inj h)).2.symm

/-- Calls 0 and 1 have both read that there is no tenant. Call 0 provisions it, and call 1
comes to its insert. -/
def raced : State ℕ :=
  Config.advance answer (Config.advance answer (Config.advance answer (start racingCaller) 1 1) 0 8)
    1 3

theorem raced_reach : (system ℕ).Reach (start racingCaller) raced :=
  (((System.Reach.refl _).advance (fun _ _ _ _ _ => exec_of_answer) 1 1).advance
    (fun _ _ _ _ _ => exec_of_answer) 0 8).advance (fun _ _ _ _ _ => exec_of_answer) 1 3

def racedTenant : Tenant := ⟨(racingCaller 1).tenantId, 0⟩

theorem raced_insert : ∃ k, raced.threads 1 = .call (.sql (.insert (.tenant racedTenant))) k := ⟨_, rfl⟩

/-- The insert of call 1 meets the tenant's row. -/
theorem raced_conflict : Sql.exec schema 1 (.insert (.tenant racedTenant)) raced.shared
    (.error (.unique (.tenants racedTenant.tenantId))) (raced.shared.fail 1) := by
  have hready : (raced.shared.tx 1).Ready := by decide +kernel
  have hversions : raced.shared.versions.head? = some ⟨.tenant racedTenant, 0, 0, none⟩ := rfl
  have hcommitted : (raced.shared.tx 0).status = .committed := by decide +kernel
  refine ⟨.tenant racedTenant, rfl, List.mem_singleton.mpr rfl, hready, ?_, rfl⟩
  refine ⟨_, List.mem_of_head? hversions, List.mem_singleton.mpr rfl, ⟨.inr hcommitted, ?_⟩, ?_⟩
  · exact fun d hd => by cases hd
  · exact fun d hd => by cases hd

/-- The call that lost the race reads the membership once more. -/
def settled : State ℕ :=
  Config.advance answer ⟨Function.update raced.threads 1 (match raced.threads 1 with
    | .call (.sql (.insert (.tenant _))) k => k (.error (.unique (.tenants racedTenant.tenantId)))
    | p => p), raced.shared.fail 1⟩ 1 2

theorem settled_reach : (system ℕ).Reach (start racingCaller) settled := by
  obtain ⟨k, hk⟩ := raced_insert
  have hlost := raced_reach.run 1 hk (.error (.unique (.tenants racedTenant.tenantId)))
    (raced.shared.fail 1) raced_conflict
  unfold settled
  rw [hk]
  exact hlost.advance (fun _ _ _ _ _ => exec_of_answer) 1 2

theorem provisioning_idempotent_raced : ∃ c : State ℕ, (system ℕ).Reach (start racingCaller) c ∧
    (c.threads 1).outcome? = some (.ok .refused) ∧
    c.shared.visible.countP (isMembershipOf racedTenant.tenantId) =
      c.shared.visible.countP (isTenantRow racedTenant.tenantId) ∧
    ∃ m, Row.membership m ∈ c.shared.visible ∧ m.userId ≠ (racingCaller 1).userId := by
  have hrefused : (settled.threads 1).outcome? = some (.ok .refused) := by decide +kernel
  obtain ⟨hcounts, -, -, howner⟩ := provisioning_idempotent settled_reach
  obtain ⟨m, hm, -, hown, -⟩ := howner 1 .refused hrefused
  refine ⟨settled, settled_reach, hrefused, (hcounts _).2, m, hm, fun heq => ?_⟩
  rcases hown heq with h | h
  · cases h
  · cases h

end Decisya.Tenancy
