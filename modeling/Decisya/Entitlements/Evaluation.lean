import Decisya.Entitlements.Alone

/-!
# Evaluation of a feature, and the history of commands

What a tenant may use is told by the commands that succeeded: the last grant or revoke of
the feature, and the one trial.
-/

namespace Decisya.Entitlements

open Text Tenancy Concurrency

set_option autoImplicit false

/-! ## The service -/

inductive Source where
  | none
  | plan
  | override
  | trial
  deriving DecidableEq

/-- `SingleOrDefaultAsync` over the trials of one tenant. -/
def findTrial (tenantId : TenantId) : Code (Option TrialGrant) := do
  match ← sql (.query (isTrialOf tenantId)) with
  | [] => .ret none
  | [.trialGrant g] => .ret (some g)
  | _ => .raise .other

/-- `EvaluateAsync`; the tenant filter is the tenant of the resolution. -/
def evaluate (catalog : PlanCatalog) (resolution : TenantResolution) (feature : FeatureKey) :
    Code (Bool × Source) :=
  match resolution with
  | .tenant tenantId =>
    if catalog.includes .free feature then .ret (true, .plan)
    else do
      let instant ← now
      let featureOverride ← findOverride tenantId.val feature
      if featureOverride.any fun o => o.isActiveAt instant then .ret (true, .override)
      else do
        let trial ← findTrial tenantId.val
        if trial.any fun g => g.isActiveAt instant && catalog.includes g.plan feature then
          .ret (true, .trial)
        else .ret (false, .none)
  | _ => .ret (false, .none)

def isEnabled (catalog : PlanCatalog) (resolution : TenantResolution) (feature : FeatureKey) :
    Code Bool :=
  if catalog.isKnown feature then do
    let (granted, _) ← evaluate catalog resolution feature
    .ret granted
  else .ret false

/-! ## What it answers -/

variable {Tid : Type} [DecidableEq Tid]

section Answers
variable {α β : Type} {t : Tid} {instant : Instant} {rows₀ : List Row}

/-- Outside a transaction a query reads what everyone sees. -/
theorem query_fresh {p : Row → Bool} {f : List Row → Code β} {Q : Except Exn β → Db Tid → Prop}
    (hf : solo.Triple (alone t instant) () (Fresh t rows₀) (f (rows₀.filter p)) Q)
    (he : ∀ e s, Q (.error e) s) :
    solo.Triple (alone t instant) () (Fresh t rows₀) ((sql (.query p)).bind f) Q := by
  let After (x : Sql.Reply Row IndexKey (.query p)) (s : Db Tid) : Prop :=
    ∀ rows, x = .ok rows → rows = rows₀.filter p ∧ Fresh t rows₀ s
  refine solo_call After (fun s x s' hinv hs hx _ rows heq => ?_) fun x => ?_
  · subst heq
    obtain ⟨-, hrows, rfl⟩ := hx
    rw [Sql.visibleTo_of_idle hinv hs.1, hs.2] at hrows
    exact ⟨hrows, hs⟩
  · cases x with
    | ok rows =>
      refine Protocol.Triple.of_pure (fun s hs => (hs rows rfl).1) fun heq => ?_
      subst heq
      exact hf.conseq (fun s hs => (hs _ rfl).2) fun _ _ h => h
    | error e =>
      cases e with
      | unique key => exact Protocol.Triple.raise fun s _ => he _ s
      | other => exact Protocol.Triple.raise fun s _ => he _ s

/-- What the service answers next to these rows. -/
def evaluation (catalog : PlanCatalog) (feature : FeatureKey) (instant : Instant)
    (featureOverride : Option FeatureOverride) (trial : Option TrialGrant) : Bool × Source :=
  if catalog.includes .free feature then (true, .plan)
  else if featureOverride.any fun o => o.isActiveAt instant then (true, .override)
  else if trial.any fun g => g.isActiveAt instant && catalog.includes g.plan feature then (true, .trial)
  else (false, .none)

/-- The overrides and trials of one tenant, one at most of each. -/
structure Holds (rows : List Row) (tenantId : TenantId) (feature : FeatureKey)
    (featureOverride : Option FeatureOverride) (trial : Option TrialGrant) : Prop where
  overrides : overrides rows tenantId feature = (featureOverride.map Row.featureOverride).toList
  trials : trials rows tenantId = (trial.map Row.trialGrant).toList

section Service
variable {catalog : PlanCatalog} {feature : FeatureKey} {tenant : { t : TenantId // t.isInitialized = true }}
  {featureOverride : Option FeatureOverride} {trial : Option TrialGrant}

/-- Code outside a transaction that answers `a`, unless it throws. -/
def Answers (t : Tid) (rows₀ : List Row) {α : Type} (a : α) (x : Except Exn α) (s : Db Tid) : Prop :=
  ∀ b, x = .ok b → b = a ∧ Fresh t rows₀ s

theorem ret_answers (a : α) :
    solo.Triple (alone t instant) () (Fresh t rows₀) (.ret a) (Answers t rows₀ a) := by
  refine Protocol.Triple.ret fun s hs b hb => ?_
  cases hb
  exact ⟨rfl, hs⟩

theorem answers_then {p : Code α} {a : α} {f : α → Code β} {b : β}
    (hp : solo.Triple (alone t instant) () (Fresh t rows₀) p (Answers t rows₀ a))
    (hf : solo.Triple (alone t instant) () (Fresh t rows₀) (f a) (Answers t rows₀ b)) :
    solo.Triple (alone t instant) () (Fresh t rows₀) (p.bind f) (Answers t rows₀ b) := by
  refine Protocol.Triple.bind _ hp (fun a' => ?_) fun e s _ b' hb => by cases hb
  refine Protocol.Triple.of_pure (fun s hs => (hs a' rfl).1) fun heq => ?_
  subst heq
  exact hf.conseq (fun s hs => (hs _ rfl).2) fun _ _ h => h

theorem findOverride_answers (h : Holds rows₀ tenant.val feature featureOverride trial) :
    solo.Triple (alone t instant) () (Fresh t rows₀) (findOverride tenant.val feature)
      (Answers t rows₀ featureOverride) := by
  have hfound := h.overrides
  unfold overrides at hfound
  refine query_fresh ?_ fun e s b hb => by cases hb
  rw [hfound]
  cases featureOverride with
  | none => exact ret_answers _
  | some o => exact ret_answers _

theorem findTrial_answers (h : Holds rows₀ tenant.val feature featureOverride trial) :
    solo.Triple (alone t instant) () (Fresh t rows₀) (findTrial tenant.val)
      (Answers t rows₀ trial) := by
  have hfound := h.trials
  unfold trials at hfound
  refine query_fresh ?_ fun e s b hb => by cases hb
  rw [hfound]
  cases trial with
  | none => exact ret_answers _
  | some g => exact ret_answers _

theorem evaluate_answers (h : Holds rows₀ tenant.val feature featureOverride trial) :
    solo.Triple (alone t instant) () (Fresh t rows₀) (evaluate catalog (.tenant tenant) feature)
      (Answers t rows₀ (evaluation catalog feature instant featureOverride trial)) := by
  unfold evaluate evaluation
  dsimp only
  split
  · exact ret_answers _
  · refine now_then ?_
    refine answers_then (findOverride_answers h) ?_
    split
    · exact ret_answers _
    · refine answers_then (findTrial_answers h) ?_
      split <;> exact ret_answers _

theorem isEnabled_answers (h : Holds rows₀ tenant.val feature featureOverride trial) :
    solo.Triple (alone t instant) () (Fresh t rows₀) (isEnabled catalog (.tenant tenant) feature)
      (Answers t rows₀ (catalog.isKnown feature &&
        (evaluation catalog feature instant featureOverride trial).1)) := by
  unfold isEnabled
  cases catalog.isKnown feature with
  | false => exact ret_answers _
  | true => exact answers_then (evaluate_answers h) (ret_answers _)

/-! Without a failure it does answer. -/

theorem query_returns {s : Db Tid} (hs : Sql.Consistent schema s) (hfresh : Fresh t rows₀ s)
    (p : Row → Bool) : Ends (alone t instant) (sql (.query p)) s (.ok (rows₀.filter p)) s := by
  refine .call (.ok (rows₀.filter p)) ⟨⟨?_, ?_, rfl⟩, trivial⟩ (.ret _ s)
  · rw [hfresh.1]
    exact fun h => Sql.Status.noConfusion h.1
  · rw [Sql.visibleTo_of_idle hs hfresh.1, hfresh.2]

theorem findOverride_returns {s : Db Tid} (hs : Sql.Consistent schema s) (hfresh : Fresh t rows₀ s)
    (h : Holds rows₀ tenant.val feature featureOverride trial) :
    Ends (alone t instant) (findOverride tenant.val feature) s (.ok featureOverride) s := by
  have hfound := h.overrides
  unfold overrides at hfound
  refine (query_returns hs hfresh _).bind ?_
  rw [hfound]
  cases featureOverride <;> exact .ret _ s

theorem findTrial_returns {s : Db Tid} (hs : Sql.Consistent schema s) (hfresh : Fresh t rows₀ s)
    (h : Holds rows₀ tenant.val feature featureOverride trial) :
    Ends (alone t instant) (findTrial tenant.val) s (.ok trial) s := by
  have hfound := h.trials
  unfold trials at hfound
  refine (query_returns hs hfresh _).bind ?_
  rw [hfound]
  cases trial <;> exact .ret _ s

theorem isEnabled_returns {s : Db Tid} (hs : Sql.Consistent schema s) (hfresh : Fresh t rows₀ s)
    (h : Holds rows₀ tenant.val feature featureOverride trial) :
    ∃ b, Ends (alone t instant) (isEnabled catalog (.tenant tenant) feature) s (.ok b) s := by
  have hclock : Ends (alone t instant) now s (.ok instant) s :=
    .call (S := alone t instant) (o := Op.now) instant ⟨rfl, rfl⟩ (.ret _ s)
  have hevaluate : ∃ a, Ends (alone t instant) (evaluate catalog (.tenant tenant) feature) s (.ok a) s := by
    unfold evaluate
    dsimp only
    split
    · exact ⟨_, .ret _ s⟩
    · by_cases hactive : (featureOverride.any fun o => o.isActiveAt instant) = true
      · refine ⟨(true, .override), hclock.bind ((findOverride_returns hs hfresh h).bind ?_)⟩
        rw [if_pos hactive]
        exact .ret _ s
      · have htrial : Ends (alone t instant) (findTrial tenant.val) s (.ok trial) s :=
          findTrial_returns hs hfresh h
        by_cases hgranted : (trial.any fun g =>
            g.isActiveAt instant && catalog.includes g.plan feature) = true
        · refine ⟨(true, .trial), hclock.bind ((findOverride_returns hs hfresh h).bind ?_)⟩
          rw [if_neg hactive]
          refine htrial.bind ?_
          rw [if_pos hgranted]
          exact .ret _ s
        · refine ⟨(false, .none), hclock.bind ((findOverride_returns hs hfresh h).bind ?_)⟩
          rw [if_neg hactive]
          refine htrial.bind ?_
          rw [if_neg hgranted]
          exact .ret _ s
  unfold isEnabled
  split
  · obtain ⟨a, ha⟩ := hevaluate
    exact ⟨a.1, ha.bind (.ret _ s)⟩
  · exact ⟨_, .ret _ s⟩

end Service

end Answers

/-! ## Histories -/

structure Executed where
  caller : Api.RequestCaller
  command : Command
  instant : Instant
  outcome : Except Exn Result

def Executed.succeeded (e : Executed) : Bool :=
  match e.outcome with
  | .ok .success => true
  | _ => false

/-- The commands so far, the last one first, and the database they lead to from an empty
one. A command is atomic: nothing of it stays unless it succeeded, and the server ends what
it left open. -/
inductive History (catalog : PlanCatalog) : List Executed → Db Tid → Prop
  | start : History catalog [] (Sql.Db.empty Tid Row)
  | run {history : List Executed} {s s' : Db Tid} (e : Executed) (t : Tid)
      (hprev : History catalog history s) (hidle : (s.tx t).status = .idle)
      (hwhole : e.command.Whole e.instant)
      (hends : Ends (alone t e.instant) (handle catalog e.caller e.command) s e.outcome s')
      (hatomic : (s'.tx t).status = .committed → e.succeeded = true) :
      History catalog (e :: history) (s'.abort t)

/-- The last grant or revoke of the feature for the tenant that succeeded. -/
def lastOverrideChange (history : List Executed) (tenantId : TenantId) (feature : FeatureKey) :
    Option Command :=
  (history.find? fun e => e.succeeded && e.command.isOverrideChange tenantId feature).map
    Executed.command

/-- The trials of the tenant that succeeded. -/
def trialStarts (history : List Executed) (tenantId : TenantId) : List Executed :=
  history.filter fun e => e.succeeded && e.command.isTrialStart tenantId

/-- What the commands that succeeded entitle a tenant to. -/
def Entitled (catalog : PlanCatalog) (history : List Executed) (tenantId : TenantId)
    (feature : FeatureKey) (instant : Instant) : Prop :=
  catalog.isKnown feature = true ∧
    (catalog.includes .free feature = true ∨
      (∃ c, lastOverrideChange history tenantId feature = some (.grantOverride c) ∧
        ∀ expiresAt ∈ c.expiresAt, instant < expiresAt) ∨
      ∃ e ∈ trialStarts history tenantId, e.instant ≤ instant ∧
        instant < e.instant + trialLength ∧ catalog.includes .pro feature = true)

/-- The rows are those the history leads to. -/
structure Reflects (history : List Executed) (rows : List Row) : Prop where
  afterGrant : ∀ tenantId feature c,
    lastOverrideChange history tenantId feature = some (.grantOverride c) →
    ∃ o, overrides rows tenantId feature = [.featureOverride o] ∧ o.expiresAt = c.expiresAt
  otherwise : ∀ tenantId feature,
    (∀ c, lastOverrideChange history tenantId feature ≠ some (.grantOverride c)) →
    overrides rows tenantId feature = []
  afterTrial : ∀ tenantId, (trialStarts history tenantId = [] ∧ trials rows tenantId = []) ∨
    ∃ e id, trialStarts history tenantId = [e] ∧
      trials rows tenantId = [.trialGrant (.start id tenantId e.instant)]

section Histories
variable {history : List Executed} {rows rows' : List Row} {e : Executed}

theorem lastOverrideChange_cons (tenantId : TenantId) (feature : FeatureKey) :
    lastOverrideChange (e :: history) tenantId feature =
      if e.succeeded && e.command.isOverrideChange tenantId feature then some e.command
      else lastOverrideChange history tenantId feature := by
  unfold lastOverrideChange
  rw [List.find?_cons]
  split <;> simp_all

theorem trialStarts_cons (tenantId : TenantId) :
    trialStarts (e :: history) tenantId =
      if e.succeeded && e.command.isTrialStart tenantId then e :: trialStarts history tenantId
      else trialStarts history tenantId := by
  unfold trialStarts
  rw [List.filter_cons]

theorem Reflects.start : Reflects [] [] where
  afterGrant _ _ _ h := by cases h
  otherwise _ _ _ := rfl
  afterTrial _ := .inl ⟨rfl, rfl⟩

/-- A command that did not succeed leaves everything. -/
theorem Reflects.failed (h : Reflects history rows) (he : e.succeeded = false) :
    Reflects (e :: history) rows := by
  have hchange : ∀ tenantId feature, lastOverrideChange (e :: history) tenantId feature =
      lastOverrideChange history tenantId feature := by
    intro tenantId feature
    rw [lastOverrideChange_cons, he]
    rfl
  constructor
  · intro tenantId feature c hc
    rw [hchange] at hc
    exact h.afterGrant tenantId feature c hc
  · intro tenantId feature hnone
    simp only [hchange] at hnone
    exact h.otherwise tenantId feature hnone
  · intro tenantId
    rw [trialStarts_cons, he]
    exact h.afterTrial tenantId

theorem isOverrideChange_grant {command : Command} {c : GrantOverride} {tenantId : TenantId}
    {feature : FeatureKey} (hcommand : command = .grantOverride c)
    (h : command.isOverrideChange tenantId feature = true) :
    c.tenantId = tenantId ∧ c.feature = feature := by
  subst hcommand
  simpa [Command.isOverrideChange] using h

/-- One that did has its effect. -/
theorem Reflects.succeeded (h : Reflects history rows) (he : e.succeeded = true)
    (heffect : Effect e.command e.instant rows rows') : Reflects (e :: history) rows' := by
  constructor
  · intro tenantId feature c hc
    rw [lastOverrideChange_cons, he, Bool.true_and] at hc
    cases hchange : e.command.isOverrideChange tenantId feature with
    | false =>
      rw [heffect.overrides_frame tenantId feature hchange]
      rw [hchange] at hc
      exact h.afterGrant tenantId feature c hc
    | true =>
      rw [hchange] at hc
      have hcommand : e.command = .grantOverride c := Option.some.inj hc
      obtain ⟨rfl, rfl⟩ := isOverrideChange_grant hcommand hchange
      exact heffect.grant c hcommand
  · intro tenantId feature hnone
    simp only [lastOverrideChange_cons, he, Bool.true_and] at hnone
    cases hchange : e.command.isOverrideChange tenantId feature with
    | false =>
      rw [heffect.overrides_frame tenantId feature hchange]
      simp only [hchange] at hnone
      exact h.otherwise tenantId feature hnone
    | true =>
      simp only [hchange, if_true] at hnone
      cases hcommand : e.command with
      | startTrial c =>
        rw [hcommand] at hchange
        cases hchange
      | grantOverride c => exact absurd (congrArg some hcommand) (hnone c)
      | revokeOverride c =>
        rw [hcommand] at hchange
        have htarget : c.tenantId = tenantId ∧ c.feature = feature := by
          simpa [Command.isOverrideChange] using hchange
        obtain ⟨rfl, rfl⟩ := htarget
        exact heffect.revoke c hcommand
  · intro tenantId
    rw [trialStarts_cons, he, Bool.true_and]
    cases hstart : e.command.isTrialStart tenantId with
    | false =>
      rw [heffect.trials_frame tenantId hstart]
      exact h.afterTrial tenantId
    | true =>
      cases hcommand : e.command with
      | grantOverride c =>
        rw [hcommand] at hstart
        cases hstart
      | revokeOverride c =>
        rw [hcommand] at hstart
        cases hstart
      | startTrial c =>
        rw [hcommand] at hstart
        obtain rfl : c.tenantId = tenantId := of_decide_eq_true hstart
        obtain ⟨hbefore, id, hafter⟩ := heffect.trial c hcommand
        rcases h.afterTrial c.tenantId with ⟨hnone, -⟩ | ⟨e', id', -, hone⟩
        · rw [if_pos rfl, hnone]
          exact .inr ⟨e, id, rfl, hafter⟩
        · rw [hone] at hbefore
          cases hbefore

variable {catalog : PlanCatalog}

theorem History.reflects {s : Db Tid} (h : History catalog history s) :
    Sql.Consistent schema s ∧ Reflects history s.visible := by
  induction h with
  | start => exact ⟨Sql.Consistent.empty schema, .start⟩
  | run e t hprev hidle hwhole hends hatomic ih =>
    rename_i history s s'
    obtain ⟨hconsistent, hreflects⟩ := ih
    obtain ⟨hconsistent', hended⟩ := (handle_ended hwhole).of_ends hends hconsistent ⟨hidle, rfl⟩
    refine ⟨hconsistent'.abort, ?_⟩
    rw [Sql.Db.visible_abort]
    rcases hended with ⟨rows, heffect, hcommitted, rfl⟩ | ⟨⟨-, hvisible⟩, hfailed⟩
    · exact hreflects.succeeded (hatomic hcommitted) heffect
    · rw [hvisible]
      refine hreflects.failed ?_
      unfold Executed.succeeded
      split
      · rename_i houtcome
        exact absurd houtcome hfailed
      · rfl

theorem isActiveAt_iff {o : FeatureOverride} {instant : Instant} :
    o.isActiveAt instant = true ↔ ∀ expiresAt ∈ o.expiresAt, instant < expiresAt := by
  unfold FeatureOverride.isActiveAt
  cases o.expiresAt <;> simp

/-- The override of a tenant and feature, if any, and when it is active. -/
theorem Reflects.exists_override (h : Reflects history rows) (tenantId : TenantId)
    (feature : FeatureKey) : ∃ featureOverride : Option FeatureOverride,
      overrides rows tenantId feature = (featureOverride.map Row.featureOverride).toList ∧
      ∀ instant, (featureOverride.any fun o => o.isActiveAt instant) = true ↔
        ∃ c, lastOverrideChange history tenantId feature = some (.grantOverride c) ∧
          ∀ expiresAt ∈ c.expiresAt, instant < expiresAt := by
  by_cases hgrant : ∃ c, lastOverrideChange history tenantId feature = some (.grantOverride c)
  · obtain ⟨c, hc⟩ := hgrant
    obtain ⟨o, hfound, hexpiry⟩ := h.afterGrant tenantId feature c hc
    refine ⟨some o, hfound, fun instant => ?_⟩
    rw [Option.any_some, isActiveAt_iff, hexpiry]
    constructor
    · intro hactive
      exact ⟨c, hc, hactive⟩
    · intro hsome
      obtain ⟨c', hc', hactive⟩ := hsome
      rw [hc] at hc'
      cases hc'
      exact hactive
  · have hnone := h.otherwise tenantId feature fun c hc => hgrant ⟨c, hc⟩
    refine ⟨none, hnone, fun instant => ?_⟩
    constructor
    · intro hactive
      cases hactive
    · intro hsome
      obtain ⟨c, hc, -⟩ := hsome
      exact absurd ⟨c, hc⟩ hgrant

/-- The trial of a tenant, if any, and when it includes the feature. -/
theorem Reflects.exists_trial (catalog : PlanCatalog) (h : Reflects history rows) (tenantId : TenantId)
    (feature : FeatureKey) : ∃ trial : Option TrialGrant,
      trials rows tenantId = (trial.map Row.trialGrant).toList ∧
      ∀ instant, (trial.any fun g => g.isActiveAt instant && catalog.includes g.plan feature) = true ↔
        ∃ e ∈ trialStarts history tenantId, e.instant ≤ instant ∧
          instant < e.instant + trialLength ∧ catalog.includes .pro feature = true := by
  rcases h.afterTrial tenantId with ⟨hnone, hrows⟩ | ⟨e, id, hone, hrows⟩
  · refine ⟨none, hrows, fun instant => ?_⟩
    rw [hnone]
    simp
  · refine ⟨some (.start id tenantId e.instant), hrows, fun instant => ?_⟩
    rw [hone]
    simp [TrialGrant.isActiveAt, TrialGrant.start, and_assoc]

/-- What the service answers is what the history entitles the tenant to. -/
theorem Reflects.exists_answer (catalog : PlanCatalog) (h : Reflects history rows) (tenantId : TenantId)
    (feature : FeatureKey) : ∃ featureOverride trial,
      Holds rows tenantId feature featureOverride trial ∧
      ∀ instant, (catalog.isKnown feature &&
        (evaluation catalog feature instant featureOverride trial).1) = true ↔
          Entitled catalog history tenantId feature instant := by
  obtain ⟨featureOverride, hoverride, hactive⟩ := h.exists_override tenantId feature
  obtain ⟨trial, htrial, hrunning⟩ := h.exists_trial catalog tenantId feature
  refine ⟨featureOverride, trial, ⟨hoverride, htrial⟩, fun instant => ?_⟩
  unfold Entitled
  rw [Bool.and_eq_true, ← hactive, ← hrunning]
  refine and_congr_right fun _ => ?_
  unfold evaluation
  split
  · rename_i hfree
    simp [hfree]
  · rename_i hfree
    split
    · rename_i hov
      simp [hov]
    · rename_i hov
      split
      · rename_i htr
        simp [htr]
      · rename_i htr
        simp only [Bool.not_eq_true] at hfree hov htr
        simp [hfree, hov, htr]

theorem Reflects.trialStarts_le_one (h : Reflects history rows) (tenantId : TenantId) :
    (trialStarts history tenantId).length ≤ 1 := by
  rcases h.afterTrial tenantId with ⟨hnone, -⟩ | ⟨e, id, hone, -⟩
  · rw [hnone]
    exact Nat.zero_le 1
  · rw [hone]
    exact Nat.le_refl 1

theorem Entitled.other_tenant {tenantId : TenantId} {feature : FeatureKey} {instant : Instant}
    (h : e.command.tenantId ≠ tenantId) :
    Entitled catalog (e :: history) tenantId feature instant ↔
      Entitled catalog history tenantId feature instant := by
  have hchange : e.command.isOverrideChange tenantId feature = false := by
    cases hcommand : e.command with
    | startTrial c => rfl
    | grantOverride c =>
      rw [hcommand] at h
      have hne : c.tenantId ≠ tenantId := h
      simp [Command.isOverrideChange, hne]
    | revokeOverride c =>
      rw [hcommand] at h
      have hne : c.tenantId ≠ tenantId := h
      simp [Command.isOverrideChange, hne]
  have hstart : e.command.isTrialStart tenantId = false := by
    cases hcommand : e.command with
    | startTrial c =>
      rw [hcommand] at h
      exact decide_eq_false h
    | grantOverride c => rfl
    | revokeOverride c => rfl
  unfold Entitled
  rw [lastOverrideChange_cons, trialStarts_cons, hchange, hstart]
  simp

/-- Whatever commands were executed, the service answers, and what it answers is what the
commands that succeeded entitle the tenant to; one trial of a tenant succeeds at most; and
a command for one tenant changes no answer for another. -/
theorem evaluation_refines_history {s : Db Tid} (h : History catalog history s) :
    (∀ (tenant : {t : TenantId // t.isInitialized = true}) feature instant t,
      (s.tx t).status = .idle →
      (∃ b s', Ends (alone t instant) (isEnabled catalog (.tenant tenant) feature) s (.ok b) s') ∧
      ∀ b s', Ends (alone t instant) (isEnabled catalog (.tenant tenant) feature) s (.ok b) s' →
        (b = true ↔ Entitled catalog history tenant.val feature instant)) ∧
    (∀ tenantId, (trialStarts history tenantId).length ≤ 1) ∧
    ∀ e (s₁ : Db Tid), History catalog (e :: history) s₁ →
      ∀ (tenant : {t : TenantId // t.isInitialized = true}) feature instant t t₁ b b₁ s' s₁',
      e.command.tenantId ≠ tenant.val → (s.tx t).status = .idle → (s₁.tx t₁).status = .idle →
      Ends (alone t instant) (isEnabled catalog (.tenant tenant) feature) s (.ok b) s' →
      Ends (alone t₁ instant) (isEnabled catalog (.tenant tenant) feature) s₁ (.ok b₁) s₁' →
      b₁ = b := by
  have hanswer : ∀ {history : List Executed} {s : Db Tid}, History catalog history s →
      ∀ (tenant : {t : TenantId // t.isInitialized = true}) feature instant t,
      (s.tx t).status = .idle → ∀ b s',
      Ends (alone t instant) (isEnabled catalog (.tenant tenant) feature) s (.ok b) s' →
        (b = true ↔ Entitled catalog history tenant.val feature instant) := by
    intro history s h tenant feature instant t hidle b s' hends
    obtain ⟨hconsistent, hreflects⟩ := h.reflects
    obtain ⟨featureOverride, trial, hholds, hiff⟩ := hreflects.exists_answer catalog tenant.val feature
    have hpost := ((isEnabled_answers hholds).of_ends hends hconsistent ⟨hidle, rfl⟩).2
    rw [(hpost b rfl).1, hiff]
  refine ⟨fun tenant feature instant t hidle => ⟨?_, ?_⟩, ?_, ?_⟩
  · obtain ⟨hconsistent, hreflects⟩ := h.reflects
    obtain ⟨featureOverride, trial, hholds, -⟩ :=
      hreflects.exists_answer catalog tenant.val feature
    obtain ⟨b, hb⟩ := isEnabled_returns hconsistent ⟨hidle, rfl⟩ hholds
    exact ⟨b, s, hb⟩
  · exact hanswer h tenant feature instant t hidle
  · exact h.reflects.2.trialStarts_le_one
  · intro e s₁ h₁ tenant feature instant t t₁ b b₁ s' s₁' hother hidle hidle₁ hends hends₁
    have hbefore := hanswer h tenant feature instant t hidle b s' hends
    have hafter := hanswer h₁ tenant feature instant t₁ hidle₁ b₁ s₁' hends₁
    rw [Entitled.other_tenant hother, ← hbefore] at hafter
    exact Bool.eq_iff_iff.mpr hafter

end Histories

/-- `n` operations of the command of thread `t` of the sample, alone and without failures. -/
def sampleEnd (t n : ℕ) (s : Db ℕ) : Config Unit Op Res Exn Result (Db ℕ) :=
  Config.advance (fun _ => answer t) ⟨fun _ => (sampleInvocation t).code, s⟩ () n

theorem sampleEnd_ends {t n : ℕ} {s : Db ℕ} {x : Except Exn Result}
    (hx : ((sampleEnd t n s).threads ()).outcome? = some x) :
    Ends (alone t 0) (sampleInvocation t).code s x (sampleEnd t n s).shared := by
  have hanswer : ∀ (u : Unit) o (s : Db ℕ) r s', answer t o s = some (r, s') →
      (alone t 0).exec u o s r s' := by
    intro u o s r s' h
    refine ⟨exec_of_answer h, ?_⟩
    cases o with
    | now => exact (Prod.mk.inj (Option.some.inj h)).1.symm
    | sql o => trivial
    | tenantExists tenantId => trivial
    | newGuid => trivial
  exact ⟨_, (System.Reach.refl _).advance hanswer () n, hx, rfl⟩

/-- The trial and the grant of the sample, both at the Unix epoch. -/
def sampleExecuted (t : ℕ) : Executed :=
  ⟨platformAdmin, (sampleInvocation t).command, 0, .ok .success⟩

def afterSampleTrial : Db ℕ := (sampleEnd 0 13 (Sql.Db.empty ℕ Row)).shared.abort 0

def afterSampleGrant : Db ℕ := (sampleEnd 1 13 afterSampleTrial).shared.abort 1

theorem sample_history :
    History PlanCatalog.default [sampleExecuted 1, sampleExecuted 0] afterSampleGrant := by
  have hzero : Instant.Whole 0 := ⟨0, rfl⟩
  have htrial : History PlanCatalog.default [sampleExecuted 0] afterSampleTrial := by
    refine .run (sampleExecuted 0) 0 .start rfl hzero (sampleEnd_ends (n := 13) ?_) fun _ => rfl
    decide +kernel
  refine .run (sampleExecuted 1) 1 htrial ?_ ⟨hzero, fun _ h => by cases h⟩
    (sampleEnd_ends (n := 13) ?_) fun _ => rfl
  · decide +kernel
  · decide +kernel

theorem evaluation_refines_history_sample : ∃ b s',
    Ends (alone 2 1) (isEnabled .default (.tenant ⟨sampleTenant, by decide⟩) .forecastingScenarios)
      afterSampleGrant (.ok b) s' ∧ b = true ∧
    (trialStarts [sampleExecuted 1, sampleExecuted 0] sampleTenant).length ≤ 1 := by
  obtain ⟨hanswers, htrials, -⟩ := evaluation_refines_history sample_history
  have hidle : (afterSampleGrant.tx 2).status = .idle := by decide +kernel
  obtain ⟨⟨b, s', hends⟩, hiff⟩ :=
    hanswers ⟨sampleTenant, by decide⟩ .forecastingScenarios 1 2 hidle
  refine ⟨b, s', hends, (hiff b s' hends).mpr ⟨by decide +kernel, .inr (.inl ?_)⟩, htrials sampleTenant⟩
  exact ⟨⟨sampleTenant, .forecastingScenarios, ascii "pilot", none⟩, by decide +kernel,
    fun _ h => by cases h⟩

end Decisya.Entitlements
