import Decisya.Entitlements.Handlers
import Decisya.Sql.Protocol

/-!
# Entitlement changes and their audit records

Each command runs in a transaction of its own. It is the only one that inserts audit rows
with its transaction, it inserts one, and it commits only after that. Nobody updates or
deletes an audit row. So the records everyone sees are those of the commits.
-/

namespace Decisya.Entitlements

open Text Tenancy Concurrency

set_option autoImplicit false

variable {Tid : Type} [DecidableEq Tid]

abbrev Db (Tid : Type) := Sql.Db Tid Row

/-! ## The system -/

def exec (t : Tid) : (o : Op) → Db Tid → Res o → Db Tid → Prop
  | .sql o, s, r, s' => Sql.exec schema t o s r s'
  | .tenantExists _, s, _, s' => s' = s
  | .now, s, _, s' => s' = s
  | .newGuid, s, _, s' => s' = s

/-- The server may end any transaction that is open. -/
def system (Tid : Type) [DecidableEq Tid] : System Tid Op Res Tid (Db Tid) where
  exec := exec
  env u s s' := s' = s.abort u

/-- A command, the caller it is run for, and the catalog of the host. -/
structure Invocation where
  catalog : PlanCatalog
  caller : Api.RequestCaller
  command : Command

def Invocation.code (i : Invocation) : Code Result := handle i.catalog i.caller i.command

abbrev State (Tid : Type) := Config Tid Op Res Exn Result (Db Tid)

def start (invocation : Tid → Invocation) : State Tid :=
  ⟨fun t => (invocation t).code, Sql.Db.empty Tid Row⟩

/-! ## The protocol -/

section Protocol
variable (entry : Tid → AuditEntry)

/-- One audit row, and it is the command's. -/
def IsRecord (t : Tid) (rows : List Row) : Prop := ∃ r, rows = [.auditRecord r] ∧ r.entry = entry t

abbrev protocol : Protocol Tid (Db Tid) := Sql.protocol schema isAudit (IsRecord entry)

abbrev Inv (s : Db Tid) : Prop := Sql.Inv schema isAudit (IsRecord entry) s

def HasRecord (t : Tid) (s : Db Tid) : Prop := IsRecord entry t (s.own isAudit t)

def Unwritten (t : Tid) (s : Db Tid) : Prop := Sql.Open t s ∧ s.own isAudit t = []

def Recorded (t : Tid) (s : Db Tid) : Prop :=
  Sql.Open t s ∧ ((s.tx t).status = .active → (s.tx t).failed = false) ∧ HasRecord entry t s

def Done (t : Tid) (s : Db Tid) : Prop := (s.tx t).status = .committed ∧ HasRecord entry t s

def Settled (t : Tid) (s : Db Tid) : Prop := Sql.Open t s ∨ Done entry t s

variable {entry} {t : Tid} {s s' : Db Tid}

theorem HasRecord.rely (h : Sql.Rely isAudit t s s') (hs : HasRecord entry t s) :
    HasRecord entry t s' := by
  unfold HasRecord
  rw [h.own]
  exact hs

theorem unwritten_stable : (protocol entry).Stable t (Unwritten t) :=
  fun _ _ hs h => ⟨Sql.Rely.open_ h hs.1, (Sql.Rely.own h).trans hs.2⟩

theorem recorded_stable : (protocol entry).Stable t (Recorded entry t) :=
  fun _ _ hs h => ⟨Sql.Rely.open_ h hs.1, Sql.Rely.unfailed h hs.2.1, hs.2.2.rely h⟩

theorem done_stable : (protocol entry).Stable t (Done entry t) :=
  fun _ _ hs h => ⟨Sql.Rely.committed h hs.1, hs.2.rely h⟩

theorem settled_stable : (protocol entry).Stable t (Settled entry t) := by
  intro s s' hs h
  rcases hs with hopen | hdone
  · exact .inl (Sql.open_stable s s' hopen h)
  · exact .inr (done_stable s s' hdone h)

/-! ## Operations -/

/-- An operation that is neither a commit nor the insert of an audit row. -/
def Plain : Op → Prop
  | .sql .commit => False
  | .sql o => o.AddsNone isAudit
  | _ => True

theorem Plain.ne_commit {o : Sql.Op Row} (h : Plain (.sql o)) : o ≠ .commit := by
  intro heq
  rw [heq] at h
  exact h

theorem Plain.addsNone {o : Sql.Op Row} (h : Plain (.sql o)) : o.AddsNone isAudit := by
  cases o with
  | commit => exact h.elim
  | _ => exact h

theorem keeps_of_plain {o : Op} (ho : Plain o) {r : Res o} (hinv : Inv entry s)
    (hs : Unwritten t s) (h : exec t o s r s') :
    (protocol entry).Keeps t s s' ∧ Unwritten t s' := by
  cases o with
  | sql o =>
    obtain ⟨hkeeps, hopen⟩ := Sql.keeps_of_open hinv ho.addsNone.spares ho.ne_commit hs.1 h
    have hsub := Sql.exec_own_sublist ho.addsNone h
    rw [hs.2] at hsub
    exact ⟨hkeeps, hopen, List.sublist_nil.mp hsub⟩
  | tenantExists tenantId =>
    obtain rfl := h
    exact ⟨Sql.keeps_refl hinv, hs⟩
  | now =>
    obtain rfl := h
    exact ⟨Sql.keeps_refl hinv, hs⟩
  | newGuid =>
    obtain rfl := h
    exact ⟨Sql.keeps_refl hinv, hs⟩

/-! ## Code before the commit -/

/-- How a command ends: with success only if it committed, with its record. -/
def Post (entry : Tid → AuditEntry) (t : Tid) (x : Except Exn Result) (s : Db Tid) : Prop :=
  Settled entry t s ∧ (x = .ok .success → Done entry t s)

theorem plain_then {α β : Type} {p : Code α} {f : α → Code β} {Q : Except Exn β → Db Tid → Prop}
    (hp : p.Performs Plain fun _ => True)
    (hf : ∀ a, (protocol entry).Triple (system Tid) t (Unwritten t) (f a) Q)
    (he : ∀ e s, Unwritten t s → Q (.error e) s) :
    (protocol entry).Triple (system Tid) t (Unwritten t) (p.bind f) Q := by
  have hplain : (protocol entry).Triple (system Tid) t (Unwritten t) p fun _ s => Unwritten t s := by
    have hops : p.Performs (fun o => ∀ s r s', (protocol entry).inv s → Unwritten t s →
        (system Tid).exec t o s r s' → (protocol entry).Keeps t s s' ∧ Unwritten t s') fun _ => True :=
      hp.mono (fun o ho s r s' hinv hs hx => keeps_of_plain ho hinv hs hx) fun _ h => h
    exact (Protocol.Triple.of_performs unwritten_stable hops).conseq (fun _ h => h) fun _ _ h => h.1
  exact Protocol.Triple.bind _ hplain hf he

theorem plain_sql {o : Sql.Op Row} (h : Plain (.sql o)) : (sql o).Performs Plain fun _ => True := by
  refine ⟨h, fun r => ?_⟩
  cases r with
  | ok v => trivial
  | error e => cases e <;> trivial

theorem plain_sqlQuietly {o : Sql.Op Row} (h : Plain (.sql o)) :
    (sqlQuietly o).Performs Plain fun _ => True := ⟨h, fun _ => trivial⟩

theorem plain_now : now.Performs Plain fun _ => True := ⟨trivial, fun _ => trivial⟩

theorem plain_newGuid : newGuid.Performs Plain fun _ => True := ⟨trivial, fun _ => trivial⟩

theorem plain_tenantExists (tenantId : TenantId) :
    (tenantExists tenantId).Performs Plain fun _ => True := by
  refine ⟨trivial, fun r => ?_⟩
  change Except Unit Bool at r
  cases r <;> trivial

theorem plain_savepoint : Plain (.sql .savepoint) := trivial

theorem plain_rollbackTo : Plain (.sql .rollbackTo) := trivial

theorem plain_query (p : Row → Bool) : Plain (.sql (.query p)) := trivial

theorem plain_saveChanges {o : Sql.Op Row} (h : Plain (.sql o)) :
    (saveChanges o).Performs Plain fun _ => True := by
  refine (plain_sql plain_savepoint).bind fun _ _ => ?_
  refine (plain_sql h).attempt.bind fun x _ => ?_
  have hback := plain_sqlQuietly plain_rollbackTo
  cases x with
  | ok v =>
    dsimp only
    split
    · trivial
    · exact hback.bind fun _ _ => trivial
  | error e => exact hback.bind fun _ _ => trivial

theorem plain_findOverride (tenantId : TenantId) (feature : FeatureKey) :
    (findOverride tenantId feature).Performs Plain fun _ => True := by
  refine (plain_sql (plain_query _)).bind fun rows _ => ?_
  split <;> trivial

theorem isRowOf_spares (existing : FeatureOverride) {row : Row} (h : isRowOf existing row = true) :
    isAudit row = false := by
  cases row with
  | featureOverride o => rfl
  | trialGrant g => cases h
  | auditRecord r => cases h

theorem plain_upsert (command : GrantOverride) (reason : Text.Utf16) (grantedAt : Instant) :
    (upsert command reason grantedAt).Performs Plain fun _ => True := by
  refine (plain_findOverride _ _).bind fun found _ => ?_
  cases found with
  | none =>
    refine plain_newGuid.bind fun id _ => ?_
    exact plain_saveChanges rfl
  | some existing =>
    dsimp only
    split
    · trivial
    · refine plain_saveChanges fun row hrow => ?_
      have hspared := isRowOf_spares existing hrow
      refine ⟨hspared, ?_⟩
      cases row with
      | featureOverride o => rfl
      | trialGrant g => rfl
      | auditRecord r => cases hspared

/-! ## The audit record and the commit -/

theorem recorded_of_insert {r : AuditRecord} (hentry : r.entry = entry t) (hinv : Inv entry s)
    (hs : Unwritten t s) {v : Sql.Value Row (.insert (Row.auditRecord r))}
    (h : Sql.run schema t (.insert (.auditRecord r)) s v s') :
    Recorded entry t s' := by
  obtain ⟨hready, -, -, rfl⟩ := h
  refine ⟨hs.1, fun _ => hready.2, r, ?_, hentry⟩
  rw [Sql.own_push, if_pos rfl, hs.2]
  rfl

/-- Outcomes of a save: the record is written, or the transaction stays open without it. -/
def Saved (entry : Tid → AuditEntry) (t : Tid) {ε : Type} (x : Except ε Unit) (s : Db Tid) : Prop :=
  match x with
  | .ok _ => Recorded entry t s
  | .error _ => Sql.Open t s

theorem insert_record {r : AuditRecord} (hentry : r.entry = entry t) :
    (protocol entry).Triple (system Tid) t (Unwritten t) (sql (.insert (.auditRecord r)))
      (Saved entry t) := by
  have hspares : (Sql.Op.insert (Row.auditRecord r)).Spares isAudit := trivial
  have hne : Sql.Op.insert (Row.auditRecord r) ≠ .commit := by simp
  refine Protocol.Triple.call (Saved entry t) unwritten_stable (fun s x s' hinv hs hx => ?_)
    fun x => ?_
  · obtain ⟨hkeeps, hopen⟩ := Sql.keeps_of_open hinv hspares hne hs.1 hx
    refine ⟨hkeeps, ?_⟩
    cases x with
    | ok v => exact recorded_of_insert (v := v) hentry hinv hs hx
    | error e => exact hopen
  · cases x with
    | ok v => exact Protocol.Triple.ret fun s hs => hs
    | error e => cases e <;> exact Protocol.Triple.raise fun s hs => hs

theorem rollbackTo_open {α : Type} {f : Unit → Code α} {Q : Except Exn α → Db Tid → Prop}
    (hf : ∀ s, Sql.Open t s → (protocol entry).wp (system Tid) t (f ()) Q s) :
    (protocol entry).Triple (system Tid) t (Sql.Open t) ((sqlQuietly .rollbackTo).bind f) Q := by
  have hspares : (Sql.Op.rollbackTo : Sql.Op Row).Spares isAudit := trivial
  have hne : (Sql.Op.rollbackTo : Sql.Op Row) ≠ .commit := by simp
  refine Protocol.Triple.call (fun _ => Sql.Open t) Sql.open_stable (fun s x s' hinv hs hx => ?_) fun _ => hf
  exact Sql.keeps_of_open hinv hspares hne hs hx

theorem save_record {r : AuditRecord} (hentry : r.entry = entry t) :
    (protocol entry).Triple (system Tid) t (Unwritten t) (saveChanges (.insert (.auditRecord r)))
      (Saved entry t) := by
  refine plain_then (plain_sql plain_savepoint) (fun _ => ?_) fun e s hs => hs.1
  refine Protocol.Triple.attempt_bind (Saved entry t) (insert_record hentry) fun y => ?_
  cases y with
  | ok v => exact Protocol.Triple.ret fun s hs => hs
  | error e => exact rollbackTo_open fun s hs => hs

theorem append_record {e : AuditEntry} (hentry : e = entry t) (caller : Api.RequestCaller) :
    (protocol entry).Triple (system Tid) t (Unwritten t) (appendAudit caller e) (Saved entry t) := by
  have hraise : (protocol entry).Triple (system Tid) t (Unwritten t) (.raise .other : Code Unit)
      (Saved entry t) := Protocol.Triple.raise fun s hs => hs.1
  unfold appendAudit
  split
  · exact hraise
  · split
    · exact hraise
    · split
      · exact hraise
      · split
        · exact hraise
        · refine plain_then plain_now (fun occurredAt => ?_) fun _ _ hs => hs.1
          refine plain_then plain_newGuid (fun id => ?_) fun _ _ hs => hs.1
          exact save_record hentry

theorem commit_post {e : AuditEntry} (hentry : e = entry t) (caller : Api.RequestCaller) :
    (protocol entry).Triple (system Tid) t (Unwritten t) (commit e caller) (Post entry t) := by
  refine Protocol.Triple.bind (Saved entry t) (append_record hentry caller) (fun _ => ?_)
    fun e s hs => ⟨.inl hs, fun h => absurd h (by simp)⟩
  let After (x : Sql.Reply Row IndexKey .commit) (s : Db Tid) : Prop :=
    Sql.Open t s ∧ (∀ v, x ≠ .ok v) ∨ Done entry t s
  refine Protocol.Triple.call After recorded_stable
    (fun s x s' hinv hs hx => Sql.keeps_of_commit hinv hs.1 hs.2.1 hs.2.2 hx) fun x => ?_
  cases x with
  | ok v =>
    refine Protocol.Triple.ret fun s hs => ?_
    rcases hs with ⟨-, hthrown⟩ | hdone
    · exact absurd rfl (hthrown v)
    · exact ⟨.inr hdone, fun _ => hdone⟩
  | error e =>
    have hpost : ∀ (e' : Exn) s, After (.error e) s → Post entry t (.error e') s := by
      intro e' s hs
      refine ⟨?_, fun h => absurd h (by simp)⟩
      rcases hs with ⟨hopen, -⟩ | hdone
      · exact .inl hopen
      · exact .inr hdone
    cases e with
    | unique key => exact Protocol.Triple.raise (hpost _)
    | other => exact Protocol.Triple.raise (hpost _)

/-! ## The commands -/

theorem failure_post {α : Type} {f : α → Code Result} {p : Code α} (hp : p.Performs Plain fun _ => True)
    (hf : ∀ a, (protocol entry).Triple (system Tid) t (Unwritten t) (f a) (Post entry t)) :
    (protocol entry).Triple (system Tid) t (Unwritten t) (p.bind f) (Post entry t) :=
  plain_then hp hf fun _ _ hs => ⟨.inl hs.1, fun h => absurd h (by simp)⟩

theorem ret_failure_post (e : EntitlementsError) :
    (protocol entry).Triple (system Tid) t (Unwritten t) (.ret (.failure e)) (Post entry t) :=
  Protocol.Triple.ret fun _ hs => ⟨.inl hs.1, fun h => absurd h (by simp)⟩

theorem raise_post (e : Exn) :
    (protocol entry).Triple (system Tid) t (Unwritten t) (.raise e : Code Result) (Post entry t) :=
  Protocol.Triple.raise fun _ hs => ⟨.inl hs.1, fun h => absurd h (by simp)⟩

/-- The roll back on the way out changes nothing of a committed transaction. -/
theorem inTransaction_post {body : Code Result}
    (h : (protocol entry).Triple (system Tid) t (Unwritten t) body (Post entry t)) :
    (protocol entry).Triple (system Tid) t (Unwritten t) (inTransaction body) (Post entry t) := by
  have hspares : (Sql.Op.rollback : Sql.Op Row).Spares isAudit := trivial
  have hne : (Sql.Op.rollback : Sql.Op Row) ≠ .commit := by simp
  refine failure_post (plain_sql trivial) fun _ => ?_
  refine Protocol.Triple.tryFinally (Post entry t) h fun x => ?_
  refine Protocol.Triple.call (fun _ s => Post entry t x s) ?_ (fun s y s' hinv hs hx => ?_) fun _ =>
    Protocol.Triple.ret fun s hs => hs
  · intro s s' hs hrely
    exact ⟨settled_stable s s' hs.1 hrely, fun hx => done_stable s s' (hs.2 hx) hrely⟩
  · rcases hs.1 with hopen | hdone
    · obtain ⟨hkeeps, hopen'⟩ := Sql.keeps_of_open hinv hspares hne hopen hx
      exact ⟨hkeeps, .inl hopen', fun hsuccess => absurd (hs.2 hsuccess).1 hopen⟩
    · have hsame := Sql.rollback_committed hdone.1 hx
      rw [hsame]
      exact ⟨Sql.keeps_refl hinv, .inr hdone, fun _ => hdone⟩

theorem trial_post {caller : Api.RequestCaller} {command : StartTrial}
    (hentry : (Command.startTrial command).auditEntry = entry t) :
    (protocol entry).Triple (system Tid) t (Unwritten t) (startTrial caller command)
      (Post entry t) := by
  unfold startTrial
  split
  · exact ret_failure_post _
  · refine failure_post (plain_tenantExists _) fun found => ?_
    split
    · exact ret_failure_post _
    · refine failure_post plain_now fun startsAt => inTransaction_post ?_
      refine failure_post (plain_sql (plain_query _)) fun rows => ?_
      split
      · exact ret_failure_post _
      · refine failure_post plain_newGuid fun id => ?_
        refine failure_post (plain_saveChanges ?_).attempt fun saved => ?_
        · exact rfl
        · split
          · exact commit_post hentry caller
          · exact ret_failure_post _
          · exact raise_post _

theorem grant_post {catalog : PlanCatalog} {caller : Api.RequestCaller} {command : GrantOverride}
    (hentry : (Command.grantOverride command).auditEntry = entry t) :
    (protocol entry).Triple (system Tid) t (Unwritten t) (grantOverride catalog caller command)
      (Post entry t) := by
  unfold grantOverride
  split
  · exact ret_failure_post _
  · split
    · exact ret_failure_post _
    · split
      · exact ret_failure_post _
      · split
        · exact ret_failure_post _
        · refine failure_post plain_now fun grantedAt => ?_
          split
          · exact ret_failure_post _
          · refine failure_post (plain_tenantExists _) fun found => ?_
            split
            · exact ret_failure_post _
            · refine inTransaction_post ?_
              refine failure_post (plain_upsert _ _ _).attempt fun saved => ?_
              split
              · exact commit_post hentry caller
              · exact failure_post (plain_upsert _ _ _) fun _ => commit_post hentry caller
              · exact raise_post _

theorem revoke_post {caller : Api.RequestCaller} {command : RevokeOverride}
    (hentry : (Command.revokeOverride command).auditEntry = entry t) :
    (protocol entry).Triple (system Tid) t (Unwritten t) (revokeOverride caller command)
      (Post entry t) := by
  unfold revokeOverride
  split
  · exact ret_failure_post _
  · split
    · exact ret_failure_post _
    · refine failure_post (plain_tenantExists _) fun found => ?_
      split
      · exact ret_failure_post _
      · refine inTransaction_post ?_
        refine failure_post (plain_findOverride _ _) fun existing => ?_
        split
        · exact commit_post hentry caller
        · refine failure_post (plain_saveChanges ?_).attempt fun saved => ?_
          · exact fun row hrow => isRowOf_spares _ hrow
          · split
            · exact commit_post hentry caller
            · exact commit_post hentry caller
            · exact raise_post _

theorem handle_post {i : Invocation} (hentry : i.command.auditEntry = entry t) :
    (protocol entry).Triple (system Tid) t (Unwritten t) i.code (Post entry t) := by
  unfold Invocation.code handle
  split
  · exact ret_failure_post _
  · split
    · exact ret_failure_post _
    · cases hcommand : i.command with
      | startTrial command =>
        rw [hcommand] at hentry
        exact trial_post hentry
      | grantOverride command =>
        rw [hcommand] at hentry
        exact grant_post hentry
      | revokeOverride command =>
        rw [hcommand] at hentry
        exact revoke_post hentry

end Protocol

/-! ## Every interleaving -/

def isRecordOf (entry : AuditEntry) : Row → Bool
  | .auditRecord r => decide (r.entry = entry)
  | _ => false

theorem isAudit_of_isRecordOf {entry : AuditEntry} {row : Row} (h : isRecordOf entry row = true) :
    isAudit row = true := by
  cases row with
  | auditRecord r => rfl
  | featureOverride o => cases h
  | trialGrant g => cases h

theorem isOverrideOf_key {tenantId : TenantId} {feature : FeatureKey} {row : Row}
    (h : isOverrideOf tenantId feature row = true) :
    IndexKey.tenantFeature tenantId feature ∈ schema.keys row := by
  cases row with
  | featureOverride o =>
    simp only [isOverrideOf, Bool.and_eq_true, decide_eq_true_eq] at h
    simp [schema, rowKeys, h.1, h.2]
  | trialGrant g => cases h
  | auditRecord r => cases h

theorem isTrialOf_key {tenantId : TenantId} {row : Row} (h : isTrialOf tenantId row = true) :
    IndexKey.trialTenant tenantId ∈ schema.keys row := by
  cases row with
  | featureOverride o => cases h
  | trialGrant g =>
    simp only [isTrialOf, decide_eq_true_eq] at h
    simp [schema, rowKeys, h]
  | auditRecord r => cases h

section Runs
variable {invocation : Tid → Invocation} {c : State Tid}

/-- The record the command of each thread leaves. -/
def entryOf (invocation : Tid → Invocation) (t : Tid) : AuditEntry :=
  (invocation t).command.auditEntry

theorem reach_ok (h : (system Tid).Reach (start invocation) c) :
    Protocol.Ok (protocol (entryOf invocation)) (system Tid) (Post (entryOf invocation)) c := by
  have hstart : ∀ t, Unwritten t (start invocation).shared := fun t => ⟨Sql.Status.noConfusion, rfl⟩
  have hok : Protocol.Ok (protocol (entryOf invocation)) (system Tid)
      (Post (entryOf invocation)) (start invocation) :=
    Protocol.sound Sql.inv_empty hstart fun t => handle_post rfl
  refine (hok.reach (fun u s s' hinv hs => ?_) h).1
  obtain rfl := hs
  exact Sql.keepsAll_abort u hinv

theorem records_of_commits {entry : Tid → AuditEntry} {s : Db Tid} (hinv : Inv entry s)
    (e : AuditEntry) :
    s.visible.countP (isRecordOf e) = s.commits.countP fun t => decide (entry t = e) := by
  refine Sql.countP_visible hinv.consistent hinv.untouched (fun row => isAudit_of_isRecordOf)
    fun u hu => ?_
  obtain ⟨r, hown, hr⟩ := hinv.recorded u hu
  refine ⟨.auditRecord r, hown, ?_⟩
  rw [← hr]
  rfl

/-- Records and changes commit together: everyone sees as many records of a tenant, an
action and a feature as commands for them committed, one of each; a command that returned
success is one of them; one that did not commit could as well never have written. -/
theorem changes_commit_with_records (h : (system Tid).Reach (start invocation) c) :
    (∀ e, c.shared.visible.countP (isRecordOf e) =
      c.shared.commits.countP fun t => decide (entryOf invocation t = e)) ∧
    c.shared.commits.Nodup ∧
    (∀ t ∈ c.shared.commits, ∃ r, c.shared.own isAudit t = [.auditRecord r] ∧
      r.entry = entryOf invocation t) ∧
    (∀ t, (c.threads t).outcome? = some (.ok .success) → t ∈ c.shared.commits) ∧
    (∀ t, t ∉ c.shared.commits → (c.shared.without t).visible = c.shared.visible) ∧
    (∀ c', (system Tid).Step c c' → Sql.Quiet c.shared c'.shared ∨
      ∃ t, c'.shared.commits = t :: c.shared.commits) ∧
    (∀ tenantId feature, c.shared.visible.countP (isOverrideOf tenantId feature) ≤ 1) ∧
    ∀ tenantId, c.shared.visible.countP (isTrialOf tenantId) ≤ 1 := by
  have hok := reach_ok h
  have hinv : Inv (entryOf invocation) c.shared := hok.1
  have hcommitted : ∀ t, t ∈ c.shared.commits ↔ (c.shared.tx t).status = .committed :=
    hinv.consistent.logged
  refine ⟨records_of_commits hinv, hinv.consistent.nodup, fun t ht => ?_, fun t ht => ?_,
    fun t ht => ?_, fun c' hstep => ?_, fun tenantId feature => ?_, fun tenantId => ?_⟩
  · exact hinv.recorded t ((hcommitted t).mp ht)
  · obtain ⟨s, hmeanwhile, hpost⟩ := hok.outcome ht
    have hdone := done_stable.meanwhile hmeanwhile (hpost.2 rfl)
    exact (hcommitted t).mpr hdone.1
  · exact Sql.Db.visible_without fun hc => ht ((hcommitted t).mpr hc)
  · refine (hok.step (fun u s s' hs hx => ?_) hstep).2
    obtain rfl := hx
    exact Sql.keepsAll_abort u hs
  · exact hinv.consistent.countP_le_one schema fun row hrow => isOverrideOf_key hrow
  · exact hinv.consistent.countP_le_one schema fun row hrow => isTrialOf_key hrow

end Runs

def sampleTenant : TenantId := ⟨.ofDigit 1⟩

def platformAdmin : Api.RequestCaller := .populated .none (ascii "admin") true true

/-- Thread 0 starts a trial of the tenant, every other thread grants it an override. -/
def sampleInvocation (t : ℕ) : Invocation where
  catalog := .default
  caller := platformAdmin
  command := if t = 0 then .startTrial ⟨sampleTenant⟩
    else .grantOverride ⟨sampleTenant, .forecastingScenarios, ascii "pilot", none⟩

/-- The tenant exists, the clock stands, and identifiers are told apart by their threads. -/
def answer (t : ℕ) : (o : Op) → Db ℕ → Option (Res o × Db ℕ)
  | .sql o, s => (Sql.answer schema t o s).map fun (v, s') => (.ok v, s')
  | .tenantExists _, s => some (.ok true, s)
  | .now, s => some ((0 : ℤ), s)
  | .newGuid, s => some (Guid.ofDigit t, s)

theorem exec_of_answer {t : ℕ} {o : Op} {s s' : Db ℕ} {r : Res o} (h : answer t o s = some (r, s')) :
    (system ℕ).exec t o s r s' := by
  cases o with
  | sql o =>
    obtain ⟨⟨v, s''⟩, hx, heq⟩ := Option.map_eq_some_iff.mp h
    obtain ⟨rfl, rfl⟩ := Prod.mk.inj heq
    exact Sql.run_of_answer schema hx
  | tenantExists tenantId => exact (Prod.mk.inj (Option.some.inj h)).2.symm
  | now => exact (Prod.mk.inj (Option.some.inj h)).2.symm
  | newGuid => exact (Prod.mk.inj (Option.some.inj h)).2.symm

/-- The trial is committed, and a grant has inserted its override. -/
def trialThenGrant : State ℕ :=
  Config.advance answer (Config.advance answer (start sampleInvocation) 0 12) 1 7

theorem changes_commit_with_records_trial : ∃ c : State ℕ,
    (system ℕ).Reach (start sampleInvocation) c ∧ c.shared.commits = [0] ∧
      c.shared.visible.countP (isRecordOf ⟨sampleTenant, .trialStart, none⟩) = 1 ∧
      (c.shared.without 1).visible = c.shared.visible := by
  have hreach : (system ℕ).Reach (start sampleInvocation) trialThenGrant :=
    ((System.Reach.refl _).advance (fun _ _ _ _ _ => exec_of_answer) 0 12).advance
      (fun _ _ _ _ _ => exec_of_answer) 1 7
  have hcommits : trialThenGrant.shared.commits = [0] := by decide +kernel
  obtain ⟨hrecords, -, -, -, hwithout, -⟩ := changes_commit_with_records hreach
  refine ⟨trialThenGrant, hreach, hcommits, ?_, hwithout 1 ?_⟩
  · rw [hrecords, hcommits]
    decide
  · rw [hcommits]
    decide

end Decisya.Entitlements
