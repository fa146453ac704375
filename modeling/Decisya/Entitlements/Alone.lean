import Decisya.Concurrency.Alone
import Decisya.Entitlements.AuditTrail
import Decisya.Sql.View

/-!
# What one command commits when nobody disturbs it

Commands run one after another, each in a transaction of its own and at one instant of the
clock. Any of their operations may still throw. A command ends with the tables as they were,
or commits the one change it is about.
-/

namespace Decisya.Entitlements

open Text Tenancy Concurrency

set_option autoImplicit false

variable {Tid : Type} [DecidableEq Tid]

/-! ## Running alone -/

/-- The clock stands at `instant`. -/
def AtInstant (instant : Instant) : (o : Op) → Res o → Prop
  | .now, r => r = instant
  | _, _ => True

/-- The operations of transaction `t`, and nobody else's. -/
def alone (t : Tid) (instant : Instant) : System Unit Op Res Empty (Db Tid) where
  exec _ o s r s' := exec t o s r s' ∧ AtInstant instant o r
  env e _ _ := e.elim

/-- Operations keep the database consistent. -/
abbrev solo : Protocol Unit (Db Tid) := .sole (Sql.Consistent schema)

section Alone
variable {α β : Type} {t : Tid} {instant : Instant}

theorem consistent_of_exec {o : Op} {s s' : Db Tid} {r : Res o} (hs : Sql.Consistent schema s)
    (h : exec t o s r s') : Sql.Consistent schema s' := by
  cases o with
  | sql o => exact hs.exec h
  | tenantExists tenantId => exact h ▸ hs
  | now => exact h ▸ hs
  | newGuid => exact h ▸ hs

theorem solo_call {o : Op} {k : Res o → Code α} {A : Db Tid → Prop} {Q : Except Exn α → Db Tid → Prop}
    (B : Res o → Db Tid → Prop)
    (hop : ∀ s r s', Sql.Consistent schema s → A s → exec t o s r s' → AtInstant instant o r → B r s')
    (hk : ∀ r, solo.Triple (alone t instant) () (B r) (k r) Q) :
    solo.Triple (alone t instant) () A (.call o k) Q := by
  refine Protocol.Triple.sole_call B (fun s r s' hinv hs hx => ?_) hk
  exact ⟨consistent_of_exec hinv hx.1, hop s r s' hinv hs hx.1 hx.2⟩

/-! ## Views -/

variable {rows₀ rows : List Row}

/-- The transaction is open and sees `rows`; everyone else sees `rows₀`. -/
def Sees (t : Tid) (rows₀ rows : List Row) (s : Db Tid) : Prop :=
  Sql.Sees t rows s ∧ s.visible = rows₀ ∧ Sql.Consistent schema s

/-- The transaction has not committed. -/
def Lost (t : Tid) (rows₀ : List Row) (s : Db Tid) : Prop :=
  (s.tx t).status ≠ .committed ∧ s.visible = rows₀

/-- It has, and everyone sees `rows`. -/
def Written (t : Tid) (rows : List Row) (s : Db Tid) : Prop :=
  (s.tx t).status = .committed ∧ s.visible = rows

theorem Sees.lost {s : Db Tid} (h : Sees t rows₀ rows s) : Lost t rows₀ s := by
  refine ⟨?_, h.2.1⟩
  rw [h.1.1.1]
  exact Sql.Status.noConfusion

theorem Lost.exec {s s' : Db Tid} {o : Sql.Op Row} {r : Sql.Reply Row IndexKey o}
    (hs : Sql.Consistent schema s) (h : Lost t rows₀ s) (ho : o ≠ .commit)
    (hx : Sql.exec schema t o s r s') : Lost t rows₀ s' := by
  refine ⟨Sql.exec_not_committed hs h.1 ho hx, ?_⟩
  rcases Sql.exec_quiet hx with hquiet | ⟨hcommit, -⟩
  · rw [hquiet.visible, h.2]
  · exact absurd hcommit ho

theorem Statement.ne_commit {o : Sql.Op Row} (ho : o.Statement) : o ≠ .commit := by
  intro heq
  rw [heq] at ho
  exact ho

/-- Why a save of `o` next to `rows` threw. -/
def Failed (rows : List Row) (o : Sql.Op Row) : Exn → Prop
  | .uniqueViolation key => ∃ row, o = .insert row ∧ key ∈ rowKeys row ∧ ∃ x ∈ rows, key ∈ rowKeys x
  | .concurrency => ∃ n rows', o.Shows rows n rows' ∧ affected o n ≠ 1
  | .other => True

/-- What a statement leaves. -/
def Stated (t : Tid) (rows₀ rows : List Row) (o : Sql.Op Row) (x : Except Exn (Sql.Value Row o))
    (s : Db Tid) : Prop :=
  match x with
  | .ok v => ∃ rows', o.Shows rows v rows' ∧ Sees t rows₀ rows' s
  | .error e => Lost t rows₀ s ∧ Failed rows o e

/-- What the reply to a statement tells. -/
def Replied (t : Tid) (rows₀ rows : List Row) (o : Sql.Op Row) (x : Sql.Reply Row IndexKey o)
    (s : Db Tid) : Prop :=
  match x with
  | .ok v => ∃ rows', o.Shows rows v rows' ∧ Sees t rows₀ rows' s
  | .error (.unique key) => Lost t rows₀ s ∧ Failed rows o (.uniqueViolation key)
  | .error .other => Lost t rows₀ s

theorem sql_stated {o : Sql.Op Row} (ho : o.Statement) :
    solo.Triple (alone t instant) () (Sees t rows₀ rows) (sql o) (Stated t rows₀ rows o) := by
  refine solo_call (Replied t rows₀ rows o) (fun s x s' hinv hs hx _ => ?_) fun x => ?_
  · have hlost : Lost t rows₀ s' := hs.lost.exec hinv (Statement.ne_commit ho) hx
    cases x with
    | ok v =>
      obtain ⟨rows', hshows, hsees⟩ := hs.1.run ho hx
      exact ⟨rows', hshows, hsees, hlost.2, consistent_of_exec hinv hx⟩
    | error e =>
      cases e with
      | unique key =>
        obtain ⟨row, ho, hkey, -, hconflict, -⟩ := hx
        exact ⟨hlost, row, ho, hkey, hs.1.conflict hconflict⟩
      | other => exact hlost
  · cases x with
    | ok v => exact Protocol.Triple.ret fun _ h => h
    | error e =>
      cases e with
      | unique key => exact Protocol.Triple.raise fun _ h => h
      | other => exact Protocol.Triple.raise fun _ h => ⟨h, trivial⟩

theorem rollbackTo_lost {f : Unit → Code α} {Q : Except Exn α → Db Tid → Prop}
    (hf : solo.Triple (alone t instant) () (Lost t rows₀) (f ()) Q) :
    solo.Triple (alone t instant) () (Lost t rows₀) ((sqlQuietly .rollbackTo).bind f) Q := by
  have hne : (Sql.Op.rollbackTo : Sql.Op Row) ≠ .commit := by simp
  refine solo_call (fun _ => Lost t rows₀) (fun s x s' hinv hs hx _ => ?_) fun _ => hf
  exact hs.exec hinv hne hx

theorem Failed.eq_other {o : Sql.Op Row} {e : Exn} (h : Failed rows o e)
    (hinsert : ∀ row, o ≠ .insert row) (hone : ∀ n, affected o n = 1) : e = .other := by
  cases e with
  | uniqueViolation key =>
    obtain ⟨row, ho, -⟩ := h
    exact absurd ho (hinsert row)
  | concurrency =>
    obtain ⟨n, rows', -, hne⟩ := h
    exact absurd (hone n) hne
  | other => rfl

theorem Failed.not_unique {o : Sql.Op Row} {e : Exn} (h : Failed rows o e)
    (hinsert : ∀ row, o ≠ .insert row) (key : IndexKey) : e ≠ .uniqueViolation key := by
  intro heq
  subst heq
  obtain ⟨row, ho, -⟩ := h
  exact hinsert row ho

/-- What a save of one statement leaves. -/
def Saving (t : Tid) (rows₀ rows : List Row) (o : Sql.Op Row) (x : Except Exn Unit) (s : Db Tid) :
    Prop :=
  match x with
  | .ok _ => ∃ n rows', o.Shows rows n rows' ∧ affected o n = 1 ∧ Sees t rows₀ rows' s
  | .error e => Lost t rows₀ s ∧ Failed rows o e

theorem saveChanges_saving {o : Sql.Op Row} (ho : o.Statement) :
    solo.Triple (alone t instant) () (Sees t rows₀ rows) (saveChanges o)
      (Saving t rows₀ rows o) := by
  refine Protocol.Triple.bind (Stated t rows₀ rows .savepoint) (sql_stated trivial) (fun _ => ?_)
    fun e s hs => ?_
  · have hsame : ∀ s, Stated t rows₀ rows .savepoint (.ok ()) s → Sees t rows₀ rows s := by
      intro s hs
      obtain ⟨rows', rfl, hsees⟩ := hs
      exact hsees
    refine Protocol.Triple.attempt_bind (Stated t rows₀ rows o)
      ((sql_stated ho).conseq hsame fun _ _ h => h) fun x => ?_
    cases x with
    | ok v =>
      dsimp only
      split
      · rename_i hone
        refine Protocol.Triple.ret fun s hs => ?_
        obtain ⟨rows', hshows, hsees⟩ := hs
        exact ⟨v, rows', hshows, hone, hsees⟩
      · rename_i hmany
        have hfailed : ∀ s, Stated t rows₀ rows o (.ok v) s → Failed rows o .concurrency := by
          intro s hs
          obtain ⟨rows', hshows, -⟩ := hs
          exact ⟨v, rows', hshows, hmany⟩
        refine Protocol.Triple.of_pure hfailed fun hfail => ?_
        refine (rollbackTo_lost (Protocol.Triple.raise fun s hs => ⟨hs, hfail⟩)).conseq
          (fun s hs => ?_) fun _ _ h => h
        obtain ⟨rows', -, hsees⟩ := hs
        exact hsees.lost
    | error e =>
      refine Protocol.Triple.of_pure (fun s hs => hs.2) fun hfail => ?_
      exact (rollbackTo_lost (Protocol.Triple.raise fun s hs => ⟨hs, hfail⟩)).conseq
        (fun s hs => hs.1) fun _ _ h => h
  · obtain ⟨hlost, hfailed⟩ := hs
    rw [hfailed.eq_other (by simp) fun _ => rfl]
    exact ⟨hlost, trivial⟩

/-! ## Around the statements -/

theorem unchanged_call {o : Op} (ho : ∀ (s : Db Tid) r s', exec t o s r s' → s' = s)
    {k : Res o → Code α} {A : Db Tid → Prop} {Q : Except Exn α → Db Tid → Prop}
    (hk : ∀ r, AtInstant instant o r → solo.Triple (alone t instant) () A (k r) Q) :
    solo.Triple (alone t instant) () A (.call o k) Q := by
  refine solo_call (fun r s => AtInstant instant o r ∧ A s) (fun s r s' _ hs hx hr => ?_) fun r => ?_
  · rw [ho s r s' hx]
    exact ⟨hr, hs⟩
  · refine Protocol.Triple.of_pure (fun s hs => hs.1) fun hr => ?_
    exact (hk r hr).conseq (fun s hs => hs.2) fun _ _ h => h

section Then
variable {A : Db Tid → Prop} {Q : Except Exn β → Db Tid → Prop}

theorem now_then {f : Instant → Code β} (hf : solo.Triple (alone t instant) () A (f instant) Q) :
    solo.Triple (alone t instant) () A (now.bind f) Q := by
  refine unchanged_call (o := .now) (fun _ _ _ h => h) fun r hr => ?_
  obtain rfl := hr
  exact hf

theorem newGuid_then {f : Guid → Code β}
    (hf : ∀ id, solo.Triple (alone t instant) () A (f id) Q) :
    solo.Triple (alone t instant) () A (newGuid.bind f) Q :=
  unchanged_call (o := .newGuid) (fun _ _ _ h => h) fun id _ => hf id

theorem tenantExists_then {tenantId : TenantId} {f : Bool → Code β}
    (hf : ∀ found, solo.Triple (alone t instant) () A (f found) Q)
    (he : ∀ s, A s → Q (.error .other) s) :
    solo.Triple (alone t instant) () A ((tenantExists tenantId).bind f) Q := by
  refine unchanged_call (o := .tenantExists tenantId) (fun _ _ _ h => h)
    fun (r : Except Unit Bool) _ => ?_
  cases r with
  | ok found => exact hf found
  | error e => exact Protocol.Triple.raise he

end Then

/-- How a command ends: its transaction committed tables that `E` describes, or it did not. -/
def Ended (t : Tid) (rows₀ : List Row) (E : List Row → Prop) (x : Except Exn Result) (s : Db Tid) :
    Prop :=
  (∃ rows, E rows ∧ Written t rows s) ∨ Lost t rows₀ s ∧ x ≠ .ok .success

variable {E : List Row → Prop}

theorem ret_failure_ended {A : Db Tid → Prop} (hA : ∀ s, A s → Lost t rows₀ s) (e : EntitlementsError) :
    solo.Triple (alone t instant) () A (.ret (.failure e)) (Ended t rows₀ E) :=
  Protocol.Triple.ret fun s hs => .inr ⟨hA s hs, by simp⟩

theorem raise_ended {A : Db Tid → Prop} (hA : ∀ s, A s → Lost t rows₀ s) (e : Exn) :
    solo.Triple (alone t instant) () A (.raise e) (Ended t rows₀ E) :=
  Protocol.Triple.raise fun s hs => .inr ⟨hA s hs, by simp⟩

def Appended (t : Tid) (rows₀ rows : List Row) (x : Except Exn Unit) (s : Db Tid) : Prop :=
  match x with
  | .ok _ => ∃ r, Sees t rows₀ (rows ++ [.auditRecord r]) s
  | .error _ => Lost t rows₀ s

theorem appendAudit_appended (caller : Api.RequestCaller) (entry : AuditEntry) :
    solo.Triple (alone t instant) () (Sees t rows₀ rows) (appendAudit caller entry)
      (Appended t rows₀ rows) := by
  have hraise : solo.Triple (alone t instant) () (Sees t rows₀ rows) (.raise .other : Code Unit)
      (Appended t rows₀ rows) := Protocol.Triple.raise fun s hs => hs.lost
  unfold appendAudit
  split
  · exact hraise
  · split
    · exact hraise
    · split
      · exact hraise
      · split
        · exact hraise
        · refine now_then (newGuid_then fun id => ?_)
          refine (saveChanges_saving (o := .insert _) trivial).conseq (fun s hs => hs) fun x s hs => ?_
          cases x with
          | ok _ =>
            obtain ⟨n, rows', rfl, -, hsees⟩ := hs
            exact ⟨_, hsees⟩
          | error e => exact hs.1

theorem commit_ended (hE : ∀ r, E (rows ++ [.auditRecord r])) (caller : Api.RequestCaller)
    (entry : AuditEntry) :
    solo.Triple (alone t instant) () (Sees t rows₀ rows) (commit entry caller) (Ended t rows₀ E) := by
  refine Protocol.Triple.bind (Appended t rows₀ rows) (appendAudit_appended caller entry)
    (fun _ => Protocol.Triple.of_exists fun r => ?_) fun e s hs => .inr ⟨hs, by simp⟩
  let rows' := rows ++ [Row.auditRecord r]
  let After (x : Sql.Reply Row IndexKey .commit) (s : Db Tid) : Prop :=
    Written t rows' s ∨ Lost t rows₀ s ∧ ∀ v, x ≠ .ok v
  refine solo_call After (fun s x s' hinv hs hx _ => ?_) fun x => ?_
  · rcases Sql.exec_quiet hx with hquiet | ⟨-, hready, rfl⟩
    · -- Nothing was committed, so the operation threw.
      have hlost : Lost t rows₀ s' := by
        refine ⟨fun hc => hs.lost.1 ?_, by rw [hquiet.visible, hs.2.1]⟩
        have hmem := ((hinv.exec hx).logged t).mpr hc
        rw [hquiet.commits] at hmem
        exact (hinv.logged t).mp hmem
      refine .inr ⟨hlost, fun v heq => ?_⟩
      subst heq
      exact hlost.1 (Sql.Sees.commit (T := schema) hs.1 hx).1
    · refine .inl ⟨by simp, ?_⟩
      rw [Sql.visible_commit hready.1]
      exact hs.1.2
  · cases x with
    | ok v =>
      refine Protocol.Triple.ret fun s hs => ?_
      rcases hs with hwritten | ⟨-, hthrown⟩
      · exact .inl ⟨rows', hE r, hwritten⟩
      · exact absurd rfl (hthrown v)
    | error e =>
      have hend : ∀ (e' : Exn) s, After (.error e) s → Ended t rows₀ E (.error e') s := by
        intro e' s hs
        rcases hs with hwritten | ⟨hlost, -⟩
        · exact .inl ⟨rows', hE r, hwritten⟩
        · exact .inr ⟨hlost, by simp⟩
      cases e with
      | unique key => exact Protocol.Triple.raise (hend _)
      | other => exact Protocol.Triple.raise (hend _)

/-- Before a command begins its transaction. -/
def Fresh (t : Tid) (rows₀ : List Row) (s : Db Tid) : Prop :=
  (s.tx t).status = .idle ∧ s.visible = rows₀

omit [DecidableEq Tid] in
theorem Fresh.lost {s : Db Tid} (h : Fresh t rows₀ s) : Lost t rows₀ s := by
  refine ⟨?_, h.2⟩
  rw [h.1]
  exact Sql.Status.noConfusion

theorem rollback_ended {x : Except Exn Result} :
    solo.Triple (alone t instant) () (Ended t rows₀ E x) (sqlQuietly .rollback)
      (Protocol.finallyPost (Ended t rows₀ E) x) := by
  have hne : (Sql.Op.rollback : Sql.Op Row) ≠ .commit := by simp
  refine solo_call (fun _ => Ended t rows₀ E x) (fun s y s' hinv hs hx _ => ?_) fun _ =>
    Protocol.Triple.ret fun _ h => h
  rcases hs with ⟨rows, hE, hcommitted, hvisible⟩ | ⟨hlost, hfail⟩
  · have hmem := (hinv.logged t).mpr hcommitted
    rcases Sql.exec_quiet hx with hquiet | ⟨hcommit, -⟩
    · refine .inl ⟨rows, hE, ((hinv.exec hx).logged t).mp ?_, ?_⟩
      · rwa [hquiet.commits]
      · rw [hquiet.visible, hvisible]
    · exact absurd hcommit hne
  · exact .inr ⟨hlost.exec hinv hne hx, hfail⟩

/-- What the reply to the begin tells. -/
def Begun (t : Tid) (rows₀ : List Row) (x : Sql.Reply Row IndexKey .begin) (s : Db Tid) : Prop :=
  match x with
  | .ok _ => Sees t rows₀ rows₀ s
  | .error _ => Lost t rows₀ s

theorem inTransaction_ended {body : Code Result}
    (h : solo.Triple (alone t instant) () (Sees t rows₀ rows₀) body (Ended t rows₀ E)) :
    solo.Triple (alone t instant) () (Fresh t rows₀) (inTransaction body) (Ended t rows₀ E) := by
  have hne : (Sql.Op.begin : Sql.Op Row) ≠ .commit := by simp
  refine solo_call (Begun t rows₀) (fun s x s' hinv hs hx _ => ?_) fun x => ?_
  · have hlost := hs.lost.exec hinv hne hx
    cases x with
    | ok v =>
      have hsees := Sql.Sees.begin hinv hx
      rw [hs.2] at hsees
      exact ⟨hsees, hlost.2, consistent_of_exec hinv hx⟩
    | error e => exact hlost
  · cases x with
    | ok v => exact Protocol.Triple.tryFinally (Ended t rows₀ E) h fun y => rollback_ended
    | error e =>
      cases e with
      | unique key => exact raise_ended (fun s hs => hs) _
      | other => exact raise_ended (fun s hs => hs) _

/-! ## What each command commits -/

def Command.tenantId : Command → TenantId
  | .startTrial c => c.tenantId
  | .grantOverride c => c.tenantId
  | .revokeOverride c => c.tenantId

/-- A grant or a revoke of one tenant and feature. -/
def Command.isOverrideChange (tenantId : TenantId) (feature : FeatureKey) : Command → Bool
  | .startTrial _ => false
  | .grantOverride c => decide (c.tenantId = tenantId) && decide (c.feature = feature)
  | .revokeOverride c => decide (c.tenantId = tenantId) && decide (c.feature = feature)

def Command.isTrialStart (tenantId : TenantId) : Command → Bool
  | .startTrial c => decide (c.tenantId = tenantId)
  | _ => false

/-- All instants of the command are whole microseconds. -/
def Command.Whole (instant : Instant) : Command → Prop
  | .grantOverride c => instant.Whole ∧ ∀ expiresAt ∈ c.expiresAt, Instant.Whole expiresAt
  | _ => instant.Whole

/-- The overrides of one tenant and feature. -/
def overrides (rows : List Row) (tenantId : TenantId) (feature : FeatureKey) : List Row :=
  rows.filter (isOverrideOf tenantId feature)

def trials (rows : List Row) (tenantId : TenantId) : List Row := rows.filter (isTrialOf tenantId)

/-- What a command that commits has done: of all overrides and trials, only those it is
about differ. -/
structure Effect (command : Command) (instant : Instant) (rows₀ rows : List Row) : Prop where
  overrides_frame : ∀ tenantId feature, command.isOverrideChange tenantId feature = false →
    overrides rows tenantId feature = overrides rows₀ tenantId feature
  trials_frame : ∀ tenantId, command.isTrialStart tenantId = false →
    trials rows tenantId = trials rows₀ tenantId
  trial : ∀ c, command = .startTrial c → trials rows₀ c.tenantId = [] ∧
    ∃ id, trials rows c.tenantId = [.trialGrant (.start id c.tenantId instant)]
  grant : ∀ c, command = .grantOverride c →
    ∃ o, overrides rows c.tenantId c.feature = [.featureOverride o] ∧ o.expiresAt = c.expiresAt
  revoke : ∀ c, command = .revokeOverride c → overrides rows c.tenantId c.feature = []

theorem overrides_append_audit (rows : List Row) (r : AuditRecord) (tenantId : TenantId)
    (feature : FeatureKey) :
    overrides (rows ++ [.auditRecord r]) tenantId feature = overrides rows tenantId feature := by
  simp [overrides, isOverrideOf]

theorem trials_append_audit (rows : List Row) (r : AuditRecord) (tenantId : TenantId) :
    trials (rows ++ [.auditRecord r]) tenantId = trials rows tenantId := by
  simp [trials, isTrialOf]

theorem Effect.append_audit {command : Command} (h : Effect command instant rows₀ rows)
    (r : AuditRecord) : Effect command instant rows₀ (rows ++ [.auditRecord r]) := by
  constructor
  · intro tenantId feature hother
    rw [overrides_append_audit]
    exact h.overrides_frame tenantId feature hother
  · intro tenantId hother
    rw [trials_append_audit]
    exact h.trials_frame tenantId hother
  · intro c hc
    rw [trials_append_audit]
    exact h.trial c hc
  · intro c hc
    rw [overrides_append_audit]
    exact h.grant c hc
  · intro c hc
    rw [overrides_append_audit]
    exact h.revoke c hc

theorem Instant.Whole.add_trialLength {x : Instant} (h : x.Whole) :
    Instant.Whole (x + trialLength) := by
  obtain ⟨k, rfl⟩ := h
  refine ⟨k + 14 * 24 * 3600 * 1000000, ?_⟩
  change (1000 * k + 14 * 24 * 3600 * 1000000000 : ℤ) = 1000 * (k + 14 * 24 * 3600 * 1000000)
  omega

theorem TrialGrant.stored_start {x : Instant} (h : x.Whole) (id : Guid) (tenantId : TenantId) :
    (TrialGrant.start id tenantId x).stored = .start id tenantId x := by
  simp only [TrialGrant.start, TrialGrant.stored, Instant.stored_of_whole h,
    Instant.stored_of_whole h.add_trialLength]

theorem effect_trial {c : StartTrial} (id : Guid) (hnone : trials rows₀ c.tenantId = []) :
    Effect (.startTrial c) instant rows₀
      (rows₀ ++ [.trialGrant (.start id c.tenantId instant)]) where
  overrides_frame tenantId feature _ := by simp [overrides, isOverrideOf]
  trials_frame tenantId hother := by
    have hne : c.tenantId ≠ tenantId := of_decide_eq_false hother
    simp [trials, isTrialOf, TrialGrant.start, hne]
  trial c' hc := by
    cases hc
    refine ⟨hnone, id, ?_⟩
    unfold trials at hnone ⊢
    rw [List.filter_append, hnone]
    simp [isTrialOf, TrialGrant.start]
  grant c' hc := by cases hc
  revoke c' hc := by cases hc

theorem sql_then {o : Sql.Op Row} (ho : o.Statement) {f : Sql.Value Row o → Code Result}
    (hf : ∀ v rows', o.Shows rows v rows' →
      solo.Triple (alone t instant) () (Sees t rows₀ rows') (f v) (Ended t rows₀ E)) :
    solo.Triple (alone t instant) () (Sees t rows₀ rows) ((sql o).bind f) (Ended t rows₀ E) := by
  refine Protocol.Triple.bind (Stated t rows₀ rows o) (sql_stated ho) (fun v => ?_) fun e s hs =>
    .inr ⟨hs.1, by simp⟩
  intro s hs
  obtain ⟨rows', hshows, hsees⟩ := hs
  exact hf v rows' hshows s hsees

theorem startTrial_ended {caller : Api.RequestCaller} {c : StartTrial} (hwhole : instant.Whole) :
    solo.Triple (alone t instant) () (Fresh t rows₀) (startTrial caller c)
      (Ended t rows₀ (Effect (.startTrial c) instant rows₀)) := by
  unfold startTrial
  split
  · exact ret_failure_ended (fun _ hs => hs.lost) _
  · refine tenantExists_then (fun found => ?_) fun s hs => .inr ⟨hs.lost, by simp⟩
    split
    · exact ret_failure_ended (fun _ hs => hs.lost) _
    · refine now_then (inTransaction_ended ?_)
      refine sql_then (o := .query _) trivial fun found rows hshows => ?_
      obtain ⟨rfl, rfl⟩ := hshows
      split
      · exact ret_failure_ended (fun _ hs => hs.lost) _
      · rename_i hnone
        refine newGuid_then fun id => ?_
        rw [TrialGrant.stored_start hwhole]
        refine Protocol.Triple.attempt_bind _ (saveChanges_saving (o := .insert _) trivial) fun x => ?_
        cases x with
        | ok _ =>
          intro s hs
          obtain ⟨n, rows', rfl, -, hsees⟩ := hs
          exact commit_ended (fun r => (effect_trial id hnone).append_audit r) caller _ s hsees
        | error e =>
          split
          · rename_i heq
            cases heq
          · exact ret_failure_ended (fun _ hs => hs.1) _
          · exact raise_ended (fun _ hs => hs.1) _

/-- What `findOverride` answers next to a transaction that sees `rows`. -/
def Found (t : Tid) (rows₀ rows : List Row) (tenantId : TenantId) (feature : FeatureKey)
    (x : Except Exn (Option FeatureOverride)) (s : Db Tid) : Prop :=
  match x with
  | .ok found => overrides rows tenantId feature = (found.map Row.featureOverride).toList ∧
      Sees t rows₀ rows s
  | .error _ => Lost t rows₀ s ∧ x = .error .other

theorem findOverride_found (tenantId : TenantId) (feature : FeatureKey) :
    solo.Triple (alone t instant) () (Sees t rows₀ rows) (findOverride tenantId feature)
      (Found t rows₀ rows tenantId feature) := by
  refine Protocol.Triple.bind (Stated t rows₀ rows _) (sql_stated (o := .query _) trivial)
    (fun found => ?_) fun e s hs => ?_
  · intro s hs
    obtain ⟨rows', ⟨hfound, rfl⟩, hsees⟩ := hs
    split
    · exact ⟨hfound.symm, hsees⟩
    · exact ⟨hfound.symm, hsees⟩
    · exact ⟨hsees.lost, rfl⟩
  · have hother := hs.2.eq_other (by simp) fun _ => rfl
    exact ⟨hs.1, congrArg Except.error hother⟩

/-- Where `p` selects one row, rows of another kind are not among those it selects. -/
theorem filter_filter_not {ρ : Type} {rows : List ρ} {p q : ρ → Bool} {old : ρ}
    (hone : rows.filter p = [old]) (hq : q old = false) :
    (rows.filter fun row => !p row).filter q = rows.filter q := by
  rw [List.filter_filter]
  apply List.filter_congr
  intro row hrow
  cases hp : p row with
  | false => simp
  | true =>
    have hmem : row ∈ rows.filter p := List.mem_filter.mpr ⟨hrow, hp⟩
    rw [hone, List.mem_singleton] at hmem
    rw [hmem, hq]
    rfl

/-- Where `q` selects the same one row, none is left. -/
theorem filter_filter_not_same {ρ : Type} {rows : List ρ} {p q : ρ → Bool} {old : ρ}
    (hone : rows.filter q = [old]) (hp : p old = true) :
    (rows.filter fun row => !p row).filter q = [] := by
  rw [List.filter_filter, List.filter_eq_nil_iff]
  intro row hrow hboth
  rw [Bool.and_eq_true] at hboth
  have hmem : row ∈ rows.filter q := List.mem_filter.mpr ⟨hrow, hboth.1⟩
  rw [hone, List.mem_singleton] at hmem
  rw [hmem, hp] at hboth
  cases hboth.2

section Existing
variable {existing : FeatureOverride}

theorem isRowOf_self (existing : FeatureOverride) :
    isRowOf existing (.featureOverride existing) = true := by
  simp [isRowOf]

theorem isOverrideOf_of_found {tenantId : TenantId} {feature : FeatureKey}
    (hfound : overrides rows tenantId feature = [.featureOverride existing]) :
    existing.tenantId = tenantId ∧ existing.featureKey = feature ∧
      Row.featureOverride existing ∈ rows := by
  have hmem : Row.featureOverride existing ∈ overrides rows tenantId feature := by
    rw [hfound]
    exact List.mem_singleton.mpr rfl
  obtain ⟨hrows, hkind⟩ := List.mem_filter.mp hmem
  simp only [isOverrideOf, Bool.and_eq_true, decide_eq_true_eq] at hkind
  exact ⟨hkind.1, hkind.2, hrows⟩

/-- The one row selected by the entity's keys is the row it was read from. -/
theorem filter_isRowOf (hmem : Row.featureOverride existing ∈ rows)
    (hone : (rows.filter (isRowOf existing)).length = 1) :
    rows.filter (isRowOf existing) = [.featureOverride existing] := by
  obtain ⟨row, hrow⟩ := List.length_eq_one_iff.mp hone
  have hself : Row.featureOverride existing ∈ rows.filter (isRowOf existing) :=
    List.mem_filter.mpr ⟨hmem, isRowOf_self existing⟩
  rw [hrow, List.mem_singleton] at hself
  rw [hrow, hself]

/-- There is no second row of its primary key. -/
theorem length_filter_isRowOf {s : Db Tid} (hsees : Sees t rows₀ rows s)
    (hmem : Row.featureOverride existing ∈ rows) :
    (rows.filter (isRowOf existing)).length = 1 := by
  have hself : Row.featureOverride existing ∈ rows.filter (isRowOf existing) :=
    List.mem_filter.mpr ⟨hmem, isRowOf_self existing⟩
  have hle : (rows.filter (isRowOf existing)).length ≤ 1 := by
    have hunique := Sql.visibleTo_unique (t := t) hsees.2.2
    rw [hsees.1.2] at hunique
    refine Sql.length_filter_le_one schema (k := .overrideId existing.id) hunique fun row hrow => ?_
    cases row with
    | featureOverride o =>
      simp only [isRowOf, Bool.and_eq_true, decide_eq_true_eq] at hrow
      simp [schema, rowKeys, hrow.1]
    | trialGrant g => cases hrow
    | auditRecord r => cases hrow
  have hpos := List.length_pos_of_mem hself
  omega

theorem isOverrideOf_iff {tenantId : TenantId} {feature : FeatureKey} {o : FeatureOverride} :
    isOverrideOf tenantId feature (.featureOverride o) = true ↔
      o.tenantId = tenantId ∧ o.featureKey = feature := by
  simp [isOverrideOf]

theorem isOverrideOf_eq_false {tenantId tenantId' : TenantId} {feature feature' : FeatureKey}
    {o : FeatureOverride} (ho : o.tenantId = tenantId ∧ o.featureKey = feature)
    (hother : (decide (tenantId = tenantId') && decide (feature = feature')) = false) :
    isOverrideOf tenantId' feature' (.featureOverride o) = false := by
  obtain ⟨rfl, rfl⟩ := ho
  exact hother

/-- Next to no override of the command's tenant and feature a new one is put. -/
theorem effect_insert {c : GrantOverride} {o : FeatureOverride}
    (hnone : overrides rows c.tenantId c.feature = [])
    (ho : o.tenantId = c.tenantId ∧ o.featureKey = c.feature) (hexpiry : o.expiresAt = c.expiresAt) :
    Effect (.grantOverride c) instant rows (rows ++ [.featureOverride o]) where
  overrides_frame tenantId feature hother := by
    have hrow := isOverrideOf_eq_false ho hother
    simp [overrides, hrow]
  trials_frame tenantId _ := by simp [trials, isTrialOf]
  trial c' hc := by cases hc
  grant c' hc := by
    cases hc
    refine ⟨o, ?_, hexpiry⟩
    have hrow := isOverrideOf_iff.mpr ho
    unfold overrides at hnone ⊢
    rw [List.filter_append, hnone, List.filter_cons_of_pos hrow]
    rfl
  revoke c' hc := by cases hc

/-- A grant whose override stands as it is. -/
theorem effect_same {c : GrantOverride}
    (hfound : overrides rows c.tenantId c.feature = [.featureOverride existing])
    (hexpiry : existing.expiresAt = c.expiresAt) : Effect (.grantOverride c) instant rows rows where
  overrides_frame _ _ _ := rfl
  trials_frame _ _ := rfl
  trial c' hc := by cases hc
  grant c' hc := by
    cases hc
    exact ⟨existing, hfound, hexpiry⟩
  revoke c' hc := by cases hc

/-- The row of an override is put in the place of the one that was read. -/
theorem effect_update {c : GrantOverride} {o : FeatureOverride}
    (hfound : overrides rows c.tenantId c.feature = [.featureOverride existing])
    (hone : rows.filter (isRowOf existing) = [.featureOverride existing])
    (ho : o.tenantId = c.tenantId ∧ o.featureKey = c.feature) (hexpiry : o.expiresAt = c.expiresAt) :
    Effect (.grantOverride c) instant rows
      ((rows.filter fun row => !isRowOf existing row) ++ [.featureOverride o]) where
  overrides_frame tenantId feature hother := by
    obtain ⟨htenant, hfeature, -⟩ := isOverrideOf_of_found hfound
    have hrow := isOverrideOf_eq_false ho hother
    have hold := isOverrideOf_eq_false ⟨htenant, hfeature⟩ hother
    unfold overrides
    rw [List.filter_append, filter_filter_not hone hold, List.filter_cons_of_neg (by simp [hrow])]
    exact List.append_nil _
  trials_frame tenantId _ := by
    unfold trials
    rw [List.filter_append, filter_filter_not hone rfl]
    exact List.append_nil _
  trial c' hc := by cases hc
  grant c' hc := by
    cases hc
    refine ⟨o, ?_, hexpiry⟩
    have hrow := isOverrideOf_iff.mpr ho
    have hgone := filter_filter_not_same hfound (isRowOf_self existing)
    unfold overrides
    rw [List.filter_append, hgone, List.filter_cons_of_pos hrow]
    rfl
  revoke c' hc := by cases hc

/-- A revoke that finds nothing. -/
theorem effect_none {c : RevokeOverride} (hnone : overrides rows c.tenantId c.feature = []) :
    Effect (.revokeOverride c) instant rows rows where
  overrides_frame _ _ _ := rfl
  trials_frame _ _ := rfl
  trial c' hc := by cases hc
  grant c' hc := by cases hc
  revoke c' hc := by
    cases hc
    exact hnone

theorem effect_delete {c : RevokeOverride}
    (hfound : overrides rows c.tenantId c.feature = [.featureOverride existing])
    (hone : rows.filter (isRowOf existing) = [.featureOverride existing]) :
    Effect (.revokeOverride c) instant rows (rows.filter fun row => !isRowOf existing row) where
  overrides_frame tenantId feature hother := by
    obtain ⟨htenant, hfeature, -⟩ := isOverrideOf_of_found hfound
    exact filter_filter_not hone (isOverrideOf_eq_false ⟨htenant, hfeature⟩ hother)
  trials_frame tenantId _ := filter_filter_not hone rfl
  trial c' hc := by cases hc
  grant c' hc := by cases hc
  revoke c' hc := by
    cases hc
    exact filter_filter_not_same hfound (isRowOf_self existing)

end Existing

/-! ## The other two commands -/

/-- What `upsert` leaves. -/
def Upserted (t : Tid) (rows₀ rows : List Row) (c : GrantOverride) (instant : Instant)
    (x : Except Exn Unit) (s : Db Tid) : Prop :=
  match x with
  | .ok _ => ∃ rows', Effect (.grantOverride c) instant rows rows' ∧ Sees t rows₀ rows' s
  | .error e => Lost t rows₀ s ∧
      ∀ tenantId feature, e ≠ .uniqueViolation (.tenantFeature tenantId feature)

/-- No row of the view has the new override's tenant and feature. -/
theorem not_tenantFeature {o : FeatureOverride} {e : Exn}
    (hnone : overrides rows o.tenantId o.featureKey = [])
    (hfailed : Failed rows (.insert (.featureOverride o)) e) (tenantId : TenantId)
    (feature : FeatureKey) : e ≠ .uniqueViolation (.tenantFeature tenantId feature) := by
  intro heq
  subst heq
  obtain ⟨row, hrow, hkey, x, hx, hxkey⟩ := hfailed
  cases hrow
  have hkeys : tenantId = o.tenantId ∧ feature = o.featureKey := by simpa [rowKeys] using hkey
  obtain ⟨rfl, rfl⟩ := hkeys
  have hmem : x ∈ overrides rows o.tenantId o.featureKey := by
    refine List.mem_filter.mpr ⟨hx, ?_⟩
    cases x with
    | featureOverride o' =>
      have hsame : o.tenantId = o'.tenantId ∧ o.featureKey = o'.featureKey := by
        simpa [rowKeys] using hxkey
      exact isOverrideOf_iff.mpr ⟨hsame.1.symm, hsame.2.symm⟩
    | trialGrant g => simp [rowKeys] at hxkey
    | auditRecord r => simp [rowKeys] at hxkey
  rw [hnone] at hmem
  cases hmem

theorem expiresAt_setColumns (existing : FeatureOverride) (reason : Utf16) (instant : Instant)
    {expiresAt : Option Instant} (hstored : expiresAt.map Instant.stored = expiresAt) :
    (existing.setColumns (existing.replace reason expiresAt instant) existing).expiresAt =
      expiresAt := by
  unfold FeatureOverride.setColumns FeatureOverride.replace
  dsimp only
  split
  · rename_i hsame
    exact hsame.symm
  · exact hstored

theorem upsert_upserted {c : GrantOverride} {reason : Utf16}
    (hwhole : ∀ expiresAt ∈ c.expiresAt, Instant.Whole expiresAt) :
    solo.Triple (alone t instant) () (Sees t rows₀ rows) (upsert c reason instant)
      (Upserted t rows₀ rows c instant) := by
  have hstored : c.expiresAt.map Instant.stored = c.expiresAt := by
    cases hexpiry : c.expiresAt with
    | none => rfl
    | some x => exact congrArg some (Instant.stored_of_whole (hwhole x hexpiry))
  refine Protocol.Triple.bind _ (findOverride_found c.tenantId c.feature) (fun found => ?_)
    fun e s hs => ?_
  · refine Protocol.Triple.of_pure (fun s hs => hs.1) fun hfound => ?_
    cases found with
    | none =>
      refine newGuid_then fun id => ?_
      refine (saveChanges_saving (o := .insert _) trivial).conseq (fun s hs => hs.2) fun x s hs => ?_
      cases x with
      | ok _ =>
        obtain ⟨n, rows', rfl, -, hsees⟩ := hs
        exact ⟨_, effect_insert hfound ⟨rfl, rfl⟩ hstored, hsees⟩
      | error e => exact ⟨hs.1, not_tenantFeature hfound hs.2⟩
    | some existing =>
      obtain ⟨htenant, hfeature, hmem⟩ := isOverrideOf_of_found hfound
      dsimp only
      split
      · rename_i hsame
        refine Protocol.Triple.ret fun s hs => ⟨rows, effect_same hfound ?_, hs.2⟩
        rw [← hsame]
        rfl
      · refine (saveChanges_saving (o := .update _ _) trivial).conseq (fun s hs => hs.2) fun x s hs => ?_
        cases x with
        | ok _ =>
          obtain ⟨n, rows', ⟨hn, rfl⟩, haffected, hsees⟩ := hs
          have hone := filter_isRowOf hmem (hn.symm.trans haffected)
          rw [hone] at hsees
          refine ⟨_, effect_update (o := existing.setColumns _ existing) hfound hone
            ⟨htenant, hfeature⟩ ?_, hsees⟩
          exact expiresAt_setColumns existing reason instant hstored
        | error e => exact ⟨hs.1, fun tenantId feature => hs.2.not_unique (by simp) _⟩
  · obtain ⟨hlost, heq⟩ := hs
    cases heq
    exact ⟨hlost, by simp⟩

theorem grantOverride_ended {catalog : PlanCatalog} {caller : Api.RequestCaller} {c : GrantOverride}
    (hwhole : ∀ expiresAt ∈ c.expiresAt, Instant.Whole expiresAt) :
    solo.Triple (alone t instant) () (Fresh t rows₀) (grantOverride catalog caller c)
      (Ended t rows₀ (Effect (.grantOverride c) instant rows₀)) := by
  have hfail : ∀ e, solo.Triple (alone t instant) () (Fresh t rows₀) (.ret (.failure e))
      (Ended t rows₀ (Effect (.grantOverride c) instant rows₀)) :=
    ret_failure_ended fun _ hs => hs.lost
  unfold grantOverride
  split
  · exact hfail _
  · split
    · exact hfail _
    · split
      · exact hfail _
      · split
        · exact hfail _
        · refine now_then ?_
          split
          · exact hfail _
          · refine tenantExists_then (fun found => ?_) fun s hs => .inr ⟨hs.lost, by simp⟩
            split
            · exact hfail _
            · refine inTransaction_ended ?_
              refine Protocol.Triple.attempt_bind _ (upsert_upserted hwhole) fun x => ?_
              cases x with
              | ok _ =>
                refine Protocol.Triple.of_exists fun rows => ?_
                refine Protocol.Triple.of_pure (fun s hs => hs.1) fun heffect => ?_
                exact (commit_ended (fun r => heffect.append_audit r) caller _).conseq
                  (fun s hs => hs.2) fun _ _ h => h
              | error e =>
                split
                · rename_i heq
                  cases heq
                · -- Alone, no other grant can have won the insert.
                  rename_i heq
                  refine Protocol.Triple.of_pure (fun s hs => hs.2) fun hne => ?_
                  cases heq
                  exact absurd rfl (hne _ _)
                · exact raise_ended (fun _ hs => hs.1) _

theorem revokeOverride_ended {caller : Api.RequestCaller} {c : RevokeOverride} :
    solo.Triple (alone t instant) () (Fresh t rows₀) (revokeOverride caller c)
      (Ended t rows₀ (Effect (.revokeOverride c) instant rows₀)) := by
  have hfail : ∀ e, solo.Triple (alone t instant) () (Fresh t rows₀) (.ret (.failure e))
      (Ended t rows₀ (Effect (.revokeOverride c) instant rows₀)) :=
    ret_failure_ended fun _ hs => hs.lost
  unfold revokeOverride
  split
  · exact hfail _
  · split
    · exact hfail _
    · refine tenantExists_then (fun found => ?_) fun s hs => .inr ⟨hs.lost, by simp⟩
      split
      · exact hfail _
      · refine inTransaction_ended ?_
        refine Protocol.Triple.bind _ (findOverride_found c.tenantId c.feature) (fun found => ?_)
          fun e s hs => .inr ⟨hs.1, by simp⟩
        refine Protocol.Triple.of_pure (fun s hs => hs.1) fun hfound => ?_
        cases found with
        | none =>
          exact (commit_ended (fun r => (effect_none hfound).append_audit r) caller _).conseq
            (fun s hs => hs.2) fun _ _ h => h
        | some existing =>
          obtain ⟨-, -, hmem⟩ := isOverrideOf_of_found hfound
          refine Protocol.Triple.of_pure (fun s hs => length_filter_isRowOf hs.2 hmem) fun hone => ?_
          have hrow := filter_isRowOf hmem hone
          refine Protocol.Triple.attempt_bind _ ((saveChanges_saving (o := .delete _) trivial).conseq
            (fun s hs => hs.2) fun _ _ h => h) fun x => ?_
          cases x with
          | ok _ =>
            intro s hs
            obtain ⟨n, rows', ⟨-, rfl⟩, -, hsees⟩ := hs
            exact commit_ended (fun r => (effect_delete hfound hrow).append_audit r) caller _ s hsees
          | error e =>
            split
            · rename_i heq
              cases heq
            · -- The row that was read is still there to be deleted.
              rename_i heq
              cases heq
              refine Protocol.Triple.of_pure (fun s hs => hs.2) fun hfailed => ?_
              obtain ⟨n, rows', ⟨hn, -⟩, hmany⟩ := hfailed
              exact absurd (hn.trans hone) hmany
            · exact raise_ended (fun _ hs => hs.1) _

theorem handle_ended {catalog : PlanCatalog} {caller : Api.RequestCaller} {command : Command}
    (hwhole : command.Whole instant) :
    solo.Triple (alone t instant) () (Fresh t rows₀) (handle catalog caller command)
      (Ended t rows₀ (Effect command instant rows₀)) := by
  unfold handle
  split
  · exact ret_failure_ended (fun _ hs => hs.lost) _
  · split
    · exact ret_failure_ended (fun _ hs => hs.lost) _
    · cases command with
      | startTrial c => exact startTrial_ended hwhole
      | grantOverride c => exact grantOverride_ended hwhole.2
      | revokeOverride c => exact revokeOverride_ended

end Alone

end Decisya.Entitlements
