import Decisya.Deploy.Commands

/-!
# What a command does, and after what

Whatever Docker and the folders reply, and wherever a command is broken off: a container is started
only after the checks of its command passed in the same run, the identity database is dropped only
after every user was seen to be synthetic, and the key ring is changed only by the pinned image.
-/

namespace Decisya.Deploy.Stack

open Concurrency
open Python (Str strip)

set_option autoImplicit false

variable (rules : Rules)

/-! ## Approval -/

/-- Creates or starts a container of the stack. -/
def Op.starts : Op → Bool
  | .compose (.up _) => true
  | .compose (.create _) => true
  | _ => false

/-- The Docker checks ran to their end and found nothing. -/
def DockerPassed (t : List Event) : Prop :=
  ∃ values scanRefs releaseRefs config cfg caddyText redisText envFile image adaptation adapted,
    t = [⟨.readEnv, .ok (values, [])⟩, ⟨.scanRefs, .ok scanRefs⟩, ⟨.releaseRefs, .ok releaseRefs⟩,
        ⟨.compose .config, .ok config⟩, ⟨.readText .caddyfile, .ok caddyText⟩,
        ⟨.readText .redisConf, .ok redisText⟩, ⟨.caddyEnv values, .ok envFile⟩,
        ⟨.docker (.adapt envFile image), .ok adaptation⟩] ∧
      rules.envProblems values = [] ∧ config.returncode = 0 ∧ rules.loads config.stdout = .ok cfg ∧
      rules.configProblems cfg values scanRefs releaseRefs = .ok [] ∧
      rules.caddyTextProblems caddyText = [] ∧ rules.redisConfProblems redisText = [] ∧
      rules.caddyImage cfg = .ok image ∧ adaptation.returncode = 0 ∧
      rules.loads adaptation.stdout = .ok adapted ∧ rules.caddyProblems adapted values = .ok []

/-- The run began with a fresh scan, static checks and Docker checks without a problem. -/
def Checked (past : List Event) : Prop :=
  ∃ t rest, past = ⟨.freshness, []⟩ :: ⟨.static, .ok []⟩ :: t ++ rest ∧ DockerPassed rules t

/-- Caddy was started, it was healthy, and then its root was installed. -/
def Exported (past : List Event) : Prop :=
  ∃ started container health text,
    List.Sublist [⟨.compose (.up (some "caddy".toList)), .ok started⟩,
        ⟨.docker (.inspectHealth container), .ok health⟩, ⟨.readRoot, some text⟩,
        ⟨.installRoot, .ok ()⟩] past ∧
      started.returncode = 0 ∧ strip health.stdout = "healthy".toList ∧ rootProblems (some text) = []

/-- The key ring got its owner and modes from the pinned image. -/
def Prepared (past : List Event) : Prop :=
  ∃ image proc, (⟨.docker (.oneshot image .prepare), .ok proc⟩ : Event) ∈ past ∧ isPinned image = true ∧
    proc.returncode = 0

/-- The gate of the other commands passed at the start. -/
def gate : List Event := [⟨.freshness, []⟩, ⟨.manifest, .ok []⟩]

/-- The identity check ran with the file's script and told these facts. -/
def Identified (t : List Event) (facts : Facts) : Prop :=
  ∃ text proc, t = [⟨.readText .identitySql, .ok text⟩, ⟨.compose (.psql "keycloak".toList text), .ok proc⟩] ∧
    IdentitySql.identitySqlProblems rules.sqlTables text = [] ∧ proc.returncode = 0 ∧
    parseIdentityOutput proc.stdout = .ok facts

/-- The bootstrap secret is not known to be empty or gone. -/
def NotRetired (t : List Event) : Prop :=
  ∃ reply : Except StatError ℕ, t = [⟨.bootstrapSize, reply⟩] ∧ reply ≠ .ok 0 ∧ reply ≠ .error .missing

/-- All that happens before the database is dropped. -/
def Rebuildable (past : List Event) : Prop :=
  ∃ identity size stopped facts,
    past = ⟨.isDir, true⟩ :: gate ++ identity ++ size ++ [⟨.compose (.stop "keycloak".toList), .ok stopped⟩] ∧
      Identified rules identity facts ∧ countOf facts "users_without_synthetic" = 0 ∧ NotRetired size ∧
      stopped.returncode = 0

/-- The database was dropped and made again. -/
def Rebuilt (past : List Event) : Prop :=
  ∃ before proc, past = before ++ [⟨.compose (.psql "postgres".toList rebuildSql), .ok proc⟩] ∧
    Rebuildable rules before ∧ proc.returncode = 0

/-- When a command may start or create a container. -/
def StartApproved (past : List Event) (o : Op) : Command → Prop
  | .up => Checked rules past ∧ (o = .compose (.up (some "caddy".toList)) ∨
      Exported past ∧ (o = .compose (.create "bff".toList) ∨ o = .compose (.up none) ∧ Prepared past))
  | .keyringPrepare => o = .compose (.create "bff".toList) ∧ ∃ rest, past = gate ++ rest
  | .realmRebuild confirm => confirm = true ∧ o = .compose (.up (some "keycloak".toList)) ∧ Rebuilt rules past
  | _ => False

/-- What a command may send to the databases. -/
def SqlApproved (past : List Event) (database sql : Str) (cmd : Command) : Prop :=
  database = "keycloak".toList ∧ IdentitySql.identitySqlProblems rules.sqlTables sql = [] ∨
    cmd = .realmRebuild true ∧ database = "postgres".toList ∧ sql = rebuildSql ∧ Rebuildable rules past

/-- All that happens before key files are deleted. -/
def Resettable (past : List Event) (image : Str) : Prop :=
  ∃ volume stopped, past = [⟨.pinnedCaddy, .ok image⟩, ⟨.docker .volumeInspect, .ok volume⟩,
      ⟨.compose (.stop "bff".toList), .ok stopped⟩] ∧ volume.returncode = 0 ∧ stopped.returncode = 0

/-- When a command may run a script on the key ring. -/
def OneshotApproved (past : List Event) (script : Script) (image : Str) : Command → Prop
  | .up => script = .prepare ∧ Checked rules past ∧ Exported past
  | .keyringPrepare => script = .prepare ∧ ∃ rest, past = gate ++ rest
  | .keyringReset confirm allKeys => confirm = true ∧
      (script = (if allKeys = true then .resetAll else .reset) ∧ Resettable past image ∨
        script = .prepare ∧ ∃ before image₀ proc rest, Resettable before image₀ ∧ proc.returncode = 0 ∧
          past = before ++ ⟨.docker (.oneshot image₀ (if allKeys = true then .resetAll else .reset)), .ok proc⟩ ::
            rest)
  | _ => False

structure Approved (cmd : Command) (past : List Event) (o : Op) : Prop where
  start : o.starts = true → StartApproved rules past o cmd
  sql : ∀ database sql, o = .compose (.psql database sql) → SqlApproved rules past database sql cmd
  oneshot : ∀ image script, o = .docker (.oneshot image script) →
    isPinned image = true ∧ OneshotApproved rules past script image cmd

/-! ## Operations that need no approval -/

/-- Starts nothing, runs no script on the key ring and sends the identity check at most. -/
def Op.unguarded : Op → Prop
  | .compose (.up _) => False
  | .compose (.create _) => False
  | .compose (.psql database sql) =>
    database = "keycloak".toList ∧ IdentitySql.identitySqlProblems rules.sqlTables sql = []
  | .docker (.oneshot _ _) => False
  | _ => True

theorem approved_of_unguarded {o : Op} (h : o.unguarded rules) (cmd : Command) (past : List Event) :
    Approved rules cmd past o := by
  constructor
  · intro hstarts
    cases o with
    | compose c => cases c <;> first | exact h.elim | cases hstarts
    | _ => cases hstarts
  · rintro database sql rfl
    exact .inl h
  · rintro image script rfl
    exact h.elim

section Performs

/-- All operations of the code are free. -/
abbrev Free {α : Type} (p : Code α) : Prop := p.Performs (Op.unguarded rules) fun _ => True

theorem free_ask {α : Type} (o : Op) {f : Res o → Code α} (ho : o.unguarded rules)
    (hf : ∀ r, Free rules (f r)) : Free rules ((Prog.perform o).bind f) := ⟨ho, hf⟩

theorem free_ofExcept {α : Type} (x : Except Raised α) : Free rules (Prog.ofExcept x) :=
  Prog.Performs.ofExcept x

theorem free_compose (c : Compose) (h : (Op.compose c).unguarded rules) : Free rules (compose c) :=
  free_ask rules (.compose c) h (free_ofExcept rules)

theorem free_docker (d : Docker) (h : (Op.docker d).unguarded rules) : Free rules (docker d) :=
  free_ask rules (.docker d) h (free_ofExcept rules)

theorem free_readEnv : Free rules readEnv := free_ask rules .readEnv trivial (free_ofExcept rules)

theorem free_readText (file : StackFile) : Free rules (readText file) :=
  free_ask rules (.readText file) trivial (free_ofExcept rules)

theorem Free.bind {α β : Type} {p : Code α} {f : α → Code β} (hp : Free rules p)
    (hf : ∀ a, Free rules (f a)) : Free rules (p.bind f) :=
  Prog.Performs.bind hp fun a _ => hf a

theorem free_keeping {α : Type} (problems : List Str) {p : Code α} (hp : Free rules p) :
    (keeping problems p).Performs (Op.unguarded rules) fun _ => True := by
  unfold keeping
  apply Prog.Performs.bind (Prog.Performs.attempt hp)
  intro outcome _
  cases outcome <;> trivial

theorem free_configJson : Free rules (configJson rules) := by
  unfold configJson
  apply Free.bind rules (free_compose rules .config trivial)
  intro proc
  split
  · trivial
  · exact free_ofExcept rules _

theorem free_caddyAdapt (image : Str) (values : Values) : Free rules (caddyAdapt rules image values) := by
  unfold caddyAdapt
  split
  · trivial
  · apply Free.bind rules (free_ask rules (.caddyEnv values) trivial (free_ofExcept rules))
    intro envFile
    apply Free.bind rules (free_docker rules (.adapt envFile image) trivial)
    intro proc
    split
    · trivial
    · exact free_ofExcept rules _

theorem free_dockerChecks (values : Values) :
    (dockerChecks rules values).Performs (Op.unguarded rules) fun _ => True := by
  unfold dockerChecks
  apply Prog.Performs.bind (free_keeping rules [] (free_ask rules .scanRefs trivial (free_ofExcept rules)))
  intro scanRefs _
  apply Prog.Performs.bind (free_keeping rules [] (free_ask rules .releaseRefs trivial (free_ofExcept rules)))
  intro releaseRefs _
  apply Prog.Performs.bind (free_keeping rules [] (free_configJson rules))
  intro cfg _
  apply Prog.Performs.bind (free_keeping rules [] (free_ofExcept rules _))
  intro config _
  apply Prog.Performs.bind (free_keeping rules _ (free_readText rules _))
  intro caddyText _
  apply Prog.Performs.bind (free_keeping rules _ (free_readText rules _))
  intro redisText _
  apply Prog.Performs.bind (free_keeping rules _ (free_ofExcept rules _))
  intro image _
  apply Prog.Performs.bind (free_keeping rules _ (free_caddyAdapt rules _ _))
  intro adapted _
  apply Prog.Performs.bind (free_keeping rules _ (free_ofExcept rules _))
  intro caddy _
  trivial

theorem free_dockerProblems : Free rules (dockerProblems rules) := by
  unfold dockerProblems
  apply Free.bind rules (free_readEnv rules)
  rintro ⟨values, parseProblems⟩
  dsimp only
  split
  · trivial
  · apply Prog.Performs.bind (Prog.Performs.attempt (free_dockerChecks rules values))
    intro outcome _
    cases outcome with
    | ok problems => trivial
    | error e =>
      dsimp only
      split <;> trivial

theorem free_pinnedCaddyImage : Free rules pinnedCaddyImage := by
  apply free_ask rules .pinnedCaddy trivial
  intro reply
  cases reply with
  | error e =>
    dsimp only
    split <;> trivial
  | ok image =>
    dsimp only
    split <;> trivial

theorem free_keyringVolumeExists : Free rules keyringVolumeExists :=
  Free.bind rules (free_docker rules .volumeInspect trivial) fun _ => trivial

theorem free_keyringCheck : Free rules keyringCheck := by
  unfold keyringCheck
  apply Prog.Performs.bind (Prog.Performs.attempt (free_pinnedCaddyImage rules))
  intro pinned _
  cases pinned with
  | error e =>
    dsimp only
    split <;> trivial
  | ok image =>
    apply free_ask rules (.docker (.verifyRing image)) trivial
    intro reply
    cases reply with
    | error e =>
      dsimp only
      split <;> trivial
    | ok proc =>
      dsimp only
      split
      · trivial
      · cases parseKeyringReport proc.stdout <;> trivial

theorem free_bootstrapRetired : Free rules bootstrapRetired := by
  apply free_ask rules .bootstrapSize trivial
  intro reply
  cases reply with
  | ok size => trivial
  | error e => cases e <;> trivial

theorem free_runIdentityCheck : Free rules (runIdentityCheck rules) := by
  apply free_ask rules (.readText .identitySql) trivial
  intro reply
  cases reply with
  | error e =>
    dsimp only
    split <;> trivial
  | ok text =>
    cases hproblems : IdentitySql.identitySqlProblems rules.sqlTables text with
    | cons broken rest =>
      dsimp only
      rw [hproblems]
      trivial
    | nil =>
      dsimp only
      rw [hproblems]
      apply free_ask rules (.compose (.psql "keycloak".toList text)) ⟨rfl, hproblems⟩
      intro reply
      cases reply with
      | error e =>
        dsimp only
        split <;> trivial
      | ok proc =>
        dsimp only
        split <;> trivial

theorem free_identityCheckProblems : Free rules (identityCheckProblems rules) := by
  apply Free.bind rules (free_runIdentityCheck rules)
  intro outcome
  cases outcome with
  | error reason => trivial
  | ok facts => exact Free.bind rules (free_bootstrapRetired rules) fun _ => trivial

theorem free_inspectProject : Free rules (inspectProject rules) := by
  apply Free.bind rules (free_compose rules .psAll trivial)
  intro listing
  split
  · trivial
  · apply Free.bind rules (free_docker rules (.inspect _) trivial)
    intro proc
    split
    · trivial
    · exact free_ofExcept rules _

theorem free_verifyProblems : Free rules (verifyProblems rules) := by
  apply Free.bind rules (free_readEnv rules)
  rintro ⟨values, parseProblems⟩
  apply Free.bind rules (free_inspectProject rules)
  intro containers
  apply Free.bind rules (free_ofExcept rules _)
  intro inspected
  apply Free.bind rules (free_keyringCheck rules)
  intro keyring
  apply Free.bind rules (free_identityCheckProblems rules)
  intro identity
  trivial

theorem free_cmdVerify : Free rules (cmdVerify rules) :=
  Free.bind rules (free_verifyProblems rules) fun _ => trivial

theorem free_waitHealthy (service : Str) (rounds : ℕ) : Free rules (waitHealthy service rounds) := by
  induction rounds with
  | zero => trivial
  | succ rounds ih =>
    have hagain : Free rules ((Prog.perform .sleep).bind fun _ => waitHealthy service rounds) :=
      free_ask rules .sleep trivial fun _ => ih
    unfold waitHealthy
    apply free_ask rules .beforeDeadline trivial
    intro running
    split
    · trivial
    · apply Free.bind rules (free_compose rules (.psQuiet service) trivial)
      intro listing
      dsimp only
      split
      · exact hagain
      · apply Free.bind rules (free_docker rules (.inspectHealth _) trivial)
        intro proc
        split
        · trivial
        · exact hagain

theorem free_exportAttempts (attempts : ℕ) (last : Option ℤ) : Free rules (exportAttempts attempts last) := by
  induction attempts generalizing last with
  | zero => trivial
  | succ attempts ih =>
    unfold exportAttempts
    apply Free.bind rules (free_compose rules .copyRoot trivial)
    intro proc
    have hagain : Free rules ((Prog.perform .sleep).bind fun _ => exportAttempts attempts (some proc.returncode)) :=
      free_ask rules .sleep trivial fun _ => ih _
    dsimp only
    split
    · exact hagain
    · apply free_ask rules .rootCopied trivial
      intro copied
      split
      · exact hagain
      · apply free_ask rules .readRoot trivial
        intro content
        cases rootProblems content with
        | cons problem rest => exact free_ask rules .unlinkRoot trivial fun _ => trivial
        | nil =>
          apply Free.bind rules (free_ask rules .installRoot trivial (free_ofExcept rules))
          intro _
          exact free_ask rules .unlinkRoot trivial (free_ofExcept rules)

theorem free_exportRoot : Free rules exportRoot :=
  Free.bind rules (free_ask rules .ensureTrust trivial (free_ofExcept rules))
    fun _ => free_exportAttempts rules 30 none

theorem free_deployGateProblems : Free rules deployGateProblems := by
  apply free_ask rules .freshness trivial
  intro stale
  apply free_ask rules .manifest trivial
  intro reply
  cases reply <;> trivial

end Performs

/-! ## What a finished run did -/

section Finished
variable {rules} {t : List Event} {α : Type}

theorem runs_ask (o : Op) {f : Res o → Except Raised α} {a : α} :
    Runs ((Prog.perform o).bind fun r => (Prog.ofExcept (f r) : Code α)) t (some (.ok a)) ↔
      ∃ r, t = [⟨o, r⟩] ∧ f r = .ok a := by
  rw [runs_perform_bind]
  constructor
  · rintro ⟨r, t', rfl, h⟩
    obtain ⟨rfl, hr⟩ := runs_ofExcept.mp h
    exact ⟨r, rfl, (Option.some.inj hr).symm⟩
  · rintro ⟨r, rfl, hr⟩
    exact ⟨r, [], rfl, runs_ofExcept.mpr ⟨rfl, congrArg some hr.symm⟩⟩

theorem runs_compose {c : Compose} {proc : Proc} :
    Runs (compose c) t (some (.ok proc)) ↔ t = [⟨.compose c, .ok proc⟩] := by
  refine (runs_ask (.compose c)).trans ⟨?_, fun h => ⟨.ok proc, h, rfl⟩⟩
  rintro ⟨r, rfl, rfl⟩
  rfl

theorem runs_docker {d : Docker} {proc : Proc} :
    Runs (docker d) t (some (.ok proc)) ↔ t = [⟨.docker d, .ok proc⟩] := by
  refine (runs_ask (.docker d)).trans ⟨?_, fun h => ⟨.ok proc, h, rfl⟩⟩
  rintro ⟨r, rfl, rfl⟩
  rfl

theorem runs_readEnv {found : Values × List Str} :
    Runs readEnv t (some (.ok found)) ↔ t = [⟨.readEnv, .ok found⟩] := by
  refine (runs_ask .readEnv).trans ⟨?_, fun h => ⟨.ok found, h, rfl⟩⟩
  rintro ⟨r, rfl, rfl⟩
  rfl

theorem runs_readText {file : StackFile} {text : Str} :
    Runs (readText file) t (some (.ok text)) ↔ t = [⟨.readText file, .ok text⟩] := by
  refine (runs_ask (.readText file)).trans ⟨?_, fun h => ⟨.ok text, h, rfl⟩⟩
  rintro ⟨r, rfl, rfl⟩
  rfl

theorem runs_keeping {problems : List Str} {p : Code α} {a : α} :
    Runs (keeping problems p) t (some (.ok a)) ↔ Runs p t (some (.ok a)) := by
  unfold keeping
  rw [runs_bind_ok]
  constructor
  · rintro ⟨t₁, t₂, outcome, rfl, hp, hrest⟩
    obtain ⟨y, hy, heq⟩ := runs_attempt.mp hp
    cases heq
    cases outcome with
    | ok b =>
      obtain ⟨rfl, hb⟩ := runs_ret.mp hrest
      cases hb
      rwa [List.append_nil]
    | error e => cases (runs_raise.mp hrest).2
  · intro h
    exact ⟨t, [], .ok a, (List.append_nil t).symm, runs_attempt.mpr ⟨.ok a, h, rfl⟩, .ret a⟩

theorem runs_configJson {cfg : Json} (h : Runs (configJson rules) t (some (.ok cfg))) :
    ∃ proc, t = [⟨.compose .config, .ok proc⟩] ∧ proc.returncode = 0 ∧ rules.loads proc.stdout = .ok cfg := by
  obtain ⟨t₁, t₂, proc, rfl, hcall, hrest⟩ := runs_bind_ok.mp h
  obtain rfl := runs_compose.mp hcall
  split at hrest
  · cases (runs_raise.mp hrest).2
  · rename_i hcode
    obtain ⟨rfl, hloads⟩ := runs_ofExcept.mp hrest
    exact ⟨proc, rfl, not_not.mp hcode, (Option.some.inj hloads).symm⟩

theorem runs_caddyAdapt {image : Str} {values : Values} {adapted : Json}
    (h : Runs (caddyAdapt rules image values) t (some (.ok adapted))) :
    ∃ envFile proc, t = [⟨.caddyEnv values, .ok envFile⟩, ⟨.docker (.adapt envFile image), .ok proc⟩] ∧
      proc.returncode = 0 ∧ rules.loads proc.stdout = .ok adapted := by
  unfold caddyAdapt at h
  split at h
  · cases (runs_raise.mp h).2
  · replace h := runs_bind_ok.mp h
    obtain ⟨t₁, t₂, envFile, rfl, henv, h⟩ := h
    obtain ⟨r, rfl, rfl⟩ := (runs_ask (.caddyEnv values)).mp henv
    replace h := runs_bind_ok.mp h
    obtain ⟨t₃, t₄, proc, rfl, hcall, h⟩ := h
    obtain rfl := runs_docker.mp hcall
    split at h
    · cases (runs_raise.mp h).2
    · rename_i hcode
      obtain ⟨rfl, hloads⟩ := runs_ofExcept.mp h
      exact ⟨envFile, proc, rfl, not_not.mp hcode, (Option.some.inj hloads).symm⟩

/-- Docker checks that find nothing ran to their end. -/
theorem runs_dockerProblems (h : Runs (dockerProblems rules) t (some (.ok []))) : DockerPassed rules t := by
  replace h := runs_bind_ok.mp h
  obtain ⟨t₀, t₁, ⟨values, parseProblems⟩, rfl, henv, h⟩ := h
  obtain rfl := runs_readEnv.mp henv
  dsimp only at h
  split at h
  · cases (runs_ret.mp h).2
  rename_i hvalues
  rw [not_or, not_not, not_not] at hvalues
  obtain ⟨rfl, hvalues⟩ := hvalues
  replace h := runs_bind_ok.mp h
  obtain ⟨t₂, t₃, outcome, rfl, hchecks, h⟩ := h
  replace hchecks := runs_attempt.mp hchecks
  obtain ⟨y, hchecks, heq⟩ := hchecks
  cases heq
  cases outcome with
  | error e =>
    dsimp only at h
    split at h
    · have hnil := Except.ok.inj (Option.some.inj (runs_ret.mp h).2)
      exact absurd hnil.symm (List.append_ne_nil_of_right_ne_nil _ (List.cons_ne_nil _ _))
    · cases (runs_raise.mp h).2
  | ok problems =>
    obtain ⟨rfl, heq⟩ := runs_ret.mp h
    obtain rfl : [] = problems := Except.ok.inj (Option.some.inj heq)
    unfold dockerChecks at hchecks
    replace hchecks := runs_bind_ok.mp hchecks
    obtain ⟨s₁, r₁, scanRefs, rfl, hscan, hchecks⟩ := hchecks
    obtain ⟨_, rfl, rfl⟩ := (runs_ask .scanRefs).mp (runs_keeping.mp hscan)
    replace hchecks := runs_bind_ok.mp hchecks
    obtain ⟨s₂, r₂, releaseRefs, rfl, hrelease, hchecks⟩ := hchecks
    obtain ⟨_, rfl, rfl⟩ := (runs_ask .releaseRefs).mp (runs_keeping.mp hrelease)
    replace hchecks := runs_bind_ok.mp hchecks
    obtain ⟨s₃, r₃, cfg, rfl, hcfg, hchecks⟩ := hchecks
    obtain ⟨config, rfl, hcode, hloads⟩ := runs_configJson (runs_keeping.mp hcfg)
    replace hchecks := runs_bind_ok.mp hchecks
    obtain ⟨s₄, r₄, found, rfl, hconfig, hchecks⟩ := hchecks
    obtain ⟨rfl, hfound⟩ := runs_ofExcept.mp (runs_keeping.mp hconfig)
    replace hchecks := runs_bind_ok.mp hchecks
    obtain ⟨s₅, r₅, caddyText, rfl, hcaddy, hchecks⟩ := hchecks
    obtain rfl := runs_readText.mp (runs_keeping.mp hcaddy)
    replace hchecks := runs_bind_ok.mp hchecks
    obtain ⟨s₆, r₆, redisText, rfl, hredis, hchecks⟩ := hchecks
    obtain rfl := runs_readText.mp (runs_keeping.mp hredis)
    replace hchecks := runs_bind_ok.mp hchecks
    obtain ⟨s₇, r₇, image, rfl, himage, hchecks⟩ := hchecks
    obtain ⟨rfl, hcaddyImage⟩ := runs_ofExcept.mp (runs_keeping.mp himage)
    replace hchecks := runs_bind_ok.mp hchecks
    obtain ⟨s₈, r₈, adapted, rfl, hadapted, hchecks⟩ := hchecks
    obtain ⟨envFile, adaptation, rfl, hadaptation, hread⟩ := runs_caddyAdapt (runs_keeping.mp hadapted)
    replace hchecks := runs_bind_ok.mp hchecks
    obtain ⟨s₉, r₉, caddy, rfl, hrules, hchecks⟩ := hchecks
    obtain ⟨rfl, hcaddyRules⟩ := runs_ofExcept.mp (runs_keeping.mp hrules)
    obtain ⟨rfl, hnil⟩ := runs_ret.mp hchecks
    have hall := (Except.ok.inj (Option.some.inj hnil)).symm
    simp only [List.append_eq_nil_iff] at hall
    obtain ⟨⟨⟨rfl, htext⟩, hconf⟩, rfl⟩ := hall
    exact ⟨values, scanRefs, releaseRefs, config, cfg, caddyText, redisText, envFile, image, adaptation,
      adapted, rfl, hvalues, hcode, hloads, (Option.some.inj hfound).symm, htext, hconf,
      (Option.some.inj hcaddyImage).symm, hadaptation, hread, (Option.some.inj hcaddyRules).symm⟩

theorem runs_waitHealthy {service : Str} {rounds : ℕ}
    (h : Runs (waitHealthy service rounds) t (some (.ok true))) :
    ∃ container health, (⟨.docker (.inspectHealth container), .ok health⟩ : Event) ∈ t ∧
      strip health.stdout = "healthy".toList := by
  induction rounds generalizing t with
  | zero => cases (runs_ret.mp h).2
  | succ rounds ih =>
    unfold waitHealthy at h
    replace h := runs_perform_bind.mp h
    obtain ⟨running, t₁, rfl, h⟩ := h
    split at h
    · cases (runs_ret.mp h).2
    · replace h := runs_bind_ok.mp h
      obtain ⟨t₂, t₃, listing, rfl, hcall, h⟩ := h
      have hagain : ∀ s, Runs ((Prog.perform .sleep).bind fun _ => waitHealthy service rounds) s
          (some (.ok true)) → ∃ container health,
            (⟨.docker (.inspectHealth container), .ok health⟩ : Event) ∈ s ∧
              strip health.stdout = "healthy".toList := by
        intro s hs
        replace hs := runs_perform_bind.mp hs
        obtain ⟨_, s', rfl, hs⟩ := hs
        obtain ⟨container, health, hmem, hhealth⟩ := ih hs
        exact ⟨container, health, List.mem_cons_of_mem _ hmem, hhealth⟩
      dsimp only at h
      split at h
      · obtain ⟨container, health, hmem, hhealth⟩ := hagain _ h
        exact ⟨container, health, List.mem_cons_of_mem _ (List.mem_append_right _ hmem), hhealth⟩
      · replace h := runs_bind_ok.mp h
        obtain ⟨t₄, t₅, proc, rfl, hinspect, h⟩ := h
        obtain rfl := runs_docker.mp hinspect
        split at h
        · rename_i hhealth
          exact ⟨strip listing.stdout, proc, by simp, hhealth⟩
        · obtain ⟨container, health, hmem, hhealth⟩ := hagain _ h
          refine ⟨container, health, ?_, hhealth⟩
          exact List.mem_cons_of_mem _ (List.mem_append_right _ (List.mem_append_right _ hmem))

theorem runs_exportAttempts {attempts : ℕ} {last : Option ℤ}
    (h : Runs (exportAttempts attempts last) t (some (.ok ()))) :
    ∃ text, List.Sublist [⟨.readRoot, some text⟩, ⟨.installRoot, .ok ()⟩] t ∧ rootProblems (some text) = [] := by
  induction attempts generalizing t last with
  | zero => cases (runs_raise.mp h).2
  | succ attempts ih =>
    unfold exportAttempts at h
    replace h := runs_bind_ok.mp h
    obtain ⟨t₁, t₂, proc, rfl, hcall, h⟩ := h
    have hagain : ∀ s, Runs ((Prog.perform .sleep).bind fun _ =>
        exportAttempts attempts (some proc.returncode)) s (some (.ok ())) →
          ∃ text, List.Sublist [⟨.readRoot, some text⟩, ⟨.installRoot, .ok ()⟩] s ∧
            rootProblems (some text) = [] := by
      intro s hs
      replace hs := runs_perform_bind.mp hs
      obtain ⟨_, s', rfl, hs⟩ := hs
      obtain ⟨text, hsub, hproblems⟩ := ih hs
      exact ⟨text, hsub.cons _, hproblems⟩
    have hwiden : ∀ (s' : List Event) {s : List Event}, (∃ text, List.Sublist [⟨.readRoot, some text⟩,
        ⟨.installRoot, .ok ()⟩] s ∧ rootProblems (some text) = []) →
          ∃ text, List.Sublist [⟨.readRoot, some text⟩, ⟨.installRoot, .ok ()⟩] (s' ++ s) ∧
            rootProblems (some text) = [] := by
      rintro s' s ⟨text, hsub, hproblems⟩
      exact ⟨text, hsub.trans (List.sublist_append_right _ _), hproblems⟩
    apply hwiden t₁
    dsimp only at h
    split at h
    · exact hagain _ h
    · replace h := runs_perform_bind.mp h
      obtain ⟨copied, t₃, rfl, h⟩ := h
      apply hwiden [⟨.rootCopied, copied⟩]
      split at h
      · exact hagain _ h
      · replace h := runs_perform_bind.mp h
        obtain ⟨content, t₄, rfl, h⟩ := h
        cases content with
        | none =>
          replace h := runs_perform_bind.mp h
          obtain ⟨_, t₅, rfl, h⟩ := h
          cases (runs_raise.mp h).2
        | some text =>
          cases hproblems : rootProblems (some text) with
          | cons problem rest =>
            rw [hproblems] at h
            replace h := runs_perform_bind.mp h
            obtain ⟨_, t₅, rfl, h⟩ := h
            cases (runs_raise.mp h).2
          | nil =>
            rw [hproblems] at h
            replace h := runs_bind_ok.mp h
            obtain ⟨t₅, t₆, _, rfl, hinstall, h⟩ := h
            obtain ⟨_, rfl, rfl⟩ := (runs_ask .installRoot).mp hinstall
            exact ⟨text, List.Sublist.cons_cons _ (List.Sublist.cons_cons _ (List.nil_sublist _)), hproblems⟩

theorem runs_exportRoot (h : Runs exportRoot t (some (.ok ()))) :
    ∃ text, List.Sublist [⟨.readRoot, some text⟩, ⟨.installRoot, .ok ()⟩] t ∧ rootProblems (some text) = [] := by
  replace h := runs_bind_ok.mp h
  obtain ⟨t₁, t₂, _, rfl, -, h⟩ := h
  obtain ⟨text, hsub, hproblems⟩ := runs_exportAttempts h
  exact ⟨text, hsub.trans (List.sublist_append_right _ _), hproblems⟩

theorem runs_pinnedCaddyImage {image : Str} :
    Runs pinnedCaddyImage t (some (.ok image)) ↔ t = [⟨.pinnedCaddy, .ok image⟩] ∧ isPinned image = true := by
  unfold pinnedCaddyImage
  rw [runs_perform_bind]
  constructor
  · rintro ⟨reply, t₁, rfl, h⟩
    cases reply with
    | error e =>
      dsimp only at h
      split at h <;> cases (runs_raise.mp h).2
    | ok found =>
      dsimp only at h
      split at h
      · rename_i hpinned
        obtain ⟨rfl, heq⟩ := runs_ret.mp h
        obtain rfl : image = found := Except.ok.inj (Option.some.inj heq)
        exact ⟨rfl, hpinned⟩
      · cases (runs_raise.mp h).2
  · rintro ⟨rfl, hpinned⟩
    refine ⟨.ok image, [], rfl, ?_⟩
    dsimp only
    rw [if_pos hpinned]
    exact .ret image

theorem runs_keyringVolumeExists {there : Bool} (h : Runs keyringVolumeExists t (some (.ok there))) :
    ∃ proc, t = [⟨.docker .volumeInspect, .ok proc⟩] ∧ there = decide (proc.returncode = 0) := by
  replace h := runs_bind_ok.mp h
  obtain ⟨t₁, t₂, proc, rfl, hcall, h⟩ := h
  obtain rfl := runs_docker.mp hcall
  obtain ⟨rfl, heq⟩ := runs_ret.mp h
  exact ⟨proc, rfl, Except.ok.inj (Option.some.inj heq)⟩

theorem runs_oneshot {image : Str} {script : Script} {proc : Proc}
    (h : Runs (oneshot image script) t (some (.ok proc))) :
    t = [⟨.docker (.oneshot image script), .ok proc⟩] := by
  replace h := runs_bind_ok.mp h
  obtain ⟨t₁, t₂, _, rfl, hpinned, h⟩ := h
  obtain ⟨rfl, -⟩ := runs_ofExcept.mp hpinned
  exact runs_docker.mp h

theorem returncode_of_keyringOutcome {label : String} {proc : Proc} {outcome : Str}
    (h : keyringOutcome label proc = .ok outcome) : proc.returncode = 0 := by
  unfold keyringOutcome at h
  split at h
  · cases h
  · split at h
    · cases h
    · rename_i hcode
      exact not_not.mp hcode

theorem runs_keyringPrepare {createVolume : Bool} {outcome : Str}
    (h : Runs (keyringPrepare createVolume) t (some (.ok outcome))) : Prepared t := by
  replace h := runs_bind_ok.mp h
  obtain ⟨t₁, t₂, image, rfl, himage, h⟩ := h
  obtain ⟨rfl, hpinned⟩ := runs_pinnedCaddyImage.mp himage
  replace h := runs_bind_ok.mp h
  obtain ⟨t₃, t₄, _, rfl, -, h⟩ := h
  replace h := runs_bind_ok.mp h
  obtain ⟨t₅, t₆, proc, rfl, hcall, h⟩ := h
  obtain rfl := runs_oneshot hcall
  obtain ⟨rfl, houtcome⟩ := runs_ofExcept.mp h
  refine ⟨image, proc, by simp, hpinned, ?_⟩
  exact returncode_of_keyringOutcome (Option.some.inj houtcome).symm

theorem runs_deployGateProblems (h : Runs deployGateProblems t (some (.ok []))) : t = gate := by
  replace h := runs_perform_bind.mp h
  obtain ⟨stale, t₁, rfl, h⟩ := h
  replace h := runs_perform_bind.mp h
  obtain ⟨reply, t₂, rfl, h⟩ := h
  cases reply with
  | ok problems =>
    obtain ⟨rfl, heq⟩ := runs_ret.mp h
    have hnil := (Except.ok.inj (Option.some.inj heq)).symm
    obtain ⟨rfl, rfl⟩ := List.append_eq_nil_iff.mp hnil
    rfl
  | error cls =>
    obtain ⟨rfl, heq⟩ := runs_ret.mp h
    have hnil := (Except.ok.inj (Option.some.inj heq)).symm
    exact absurd hnil (List.append_ne_nil_of_right_ne_nil _ (List.cons_ne_nil _ _))

theorem runs_runIdentityCheck {facts : Facts} :
    Runs (runIdentityCheck rules) t (some (.ok (.ok facts))) ↔ Identified rules t facts := by
  unfold runIdentityCheck Identified
  rw [runs_perform_bind]
  constructor
  · rintro ⟨reply, t₁, rfl, h⟩
    cases reply with
    | error e =>
      dsimp only at h
      split at h
      · cases (runs_ret.mp h).2
      · cases (runs_raise.mp h).2
    | ok text =>
      cases hproblems : IdentitySql.identitySqlProblems rules.sqlTables text with
      | cons broken rest =>
        dsimp only at h
        rw [hproblems] at h
        cases (runs_ret.mp h).2
      | nil =>
        dsimp only at h
        rw [hproblems] at h
        replace h := runs_perform_bind.mp h
        obtain ⟨reply, t₂, rfl, h⟩ := h
        cases reply with
        | error e =>
          dsimp only at h
          split at h
          · cases (runs_ret.mp h).2
          · cases (runs_raise.mp h).2
        | ok proc =>
          dsimp only at h
          split at h
          · cases (runs_ret.mp h).2
          · rename_i hcode
            obtain ⟨rfl, heq⟩ := runs_ret.mp h
            exact ⟨text, proc, rfl, hproblems, not_not.mp hcode, (Except.ok.inj (Option.some.inj heq)).symm⟩
  · rintro ⟨text, proc, rfl, hproblems, hcode, hparsed⟩
    refine ⟨.ok text, _, rfl, ?_⟩
    dsimp only
    rw [hproblems]
    refine runs_perform_bind.mpr ⟨(.ok proc : Except Raised Proc), [], rfl, ?_⟩
    dsimp only
    rw [if_neg (not_not.mpr hcode), hparsed]
    exact .ret _

/-- How the size of the file is read. -/
def retiredOf : Except StatError ℕ → Bool
  | .ok size => decide (size = 0)
  | .error .missing => true
  | .error .other => false

theorem runs_bootstrapRetired {retired : Bool} :
    Runs bootstrapRetired t (some (.ok retired)) ↔ ∃ reply, t = [⟨.bootstrapSize, reply⟩] ∧ retired = retiredOf reply := by
  unfold bootstrapRetired
  rw [runs_perform_bind]
  constructor
  · rintro ⟨reply, t₁, rfl, h⟩
    cases reply with
    | ok size =>
      obtain ⟨rfl, heq⟩ := runs_ret.mp h
      exact ⟨_, rfl, Except.ok.inj (Option.some.inj heq)⟩
    | error e =>
      cases e <;>
      · obtain ⟨rfl, heq⟩ := runs_ret.mp h
        exact ⟨_, rfl, Except.ok.inj (Option.some.inj heq)⟩
  · rintro ⟨reply, rfl, rfl⟩
    refine ⟨reply, [], rfl, ?_⟩
    cases reply with
    | ok size => exact .ret _
    | error e => cases e <;> exact .ret _

theorem notRetired_of_runs (h : Runs bootstrapRetired t (some (.ok false))) : NotRetired t := by
  obtain ⟨reply, rfl, hretired⟩ := runs_bootstrapRetired.mp h
  refine ⟨reply, rfl, ?_, ?_⟩
  · rintro rfl
    cases hretired
  · rintro rfl
    cases hretired

end Finished

end Decisya.Deploy.Stack
