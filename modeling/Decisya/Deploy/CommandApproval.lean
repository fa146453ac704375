import Decisya.Deploy.CommandRuns

/-!
# Every operation of every command is approved

Each command is followed from its start, with what its finished parts are known to have done.
-/

namespace Decisya.Deploy.Stack

open Concurrency
open Python (Str strip)

set_option autoImplicit false

variable {rules : Rules} {cmd : Command} {past : List Event}

/-! ## Rules -/

theorem Checked.append (h : Checked rules past) (rest : List Event) : Checked rules (past ++ rest) := by
  obtain ⟨t, after, rfl, hpassed⟩ := h
  exact ⟨t, after ++ rest, by rw [List.append_assoc], hpassed⟩

theorem Exported.append (h : Exported past) (rest : List Event) : Exported (past ++ rest) := by
  obtain ⟨started, container, health, text, hsub, hcode, hhealth, hproblems⟩ := h
  exact ⟨started, container, health, text, hsub.trans (List.sublist_append_left past rest), hcode, hhealth,
    hproblems⟩

/-- The code does nothing that is not approved. -/
abbrev Obeys (rules : Rules) (cmd : Command) {α : Type} (past : List Event) (p : Code α) : Prop :=
  Safe (Approved rules cmd) past p fun _ _ => True

theorem obeys_free {α : Type} {p : Code α} (h : Free rules p) : Obeys rules cmd past p :=
  Safe.of_performs h fun _ ho past => approved_of_unguarded rules ho cmd past

theorem Obeys.bind {α β : Type} {p : Code α} {f : α → Code β} (hp : Obeys rules cmd past p)
    (hf : ∀ t a, Runs p t (some (.ok a)) → Obeys rules cmd (past ++ t) (f a)) :
    Obeys rules cmd past (p.bind f) :=
  Safe.bind hp hf fun _ _ _ => trivial

theorem obeys_ret {α : Type} (a : α) : Obeys rules cmd past (.ret a : Code α) := Safe.ret trivial

theorem obeys_raise {α : Type} (e : Raised) : Obeys rules cmd past (.raise e : Code α) := Safe.raise trivial

theorem obeys_ask {α : Type} {o : Op} {f : Res o → Code α} (ho : Approved rules cmd past o)
    (hf : ∀ r, Obeys rules cmd (past ++ [⟨o, r⟩]) (f r)) : Obeys rules cmd past ((Prog.perform o).bind f) :=
  Safe.call ho hf

/-- An operation that needs no approval. -/
theorem obeys_free_ask {α : Type} (o : Op) {f : Res o → Code α} (ho : o.unguarded rules)
    (hf : ∀ r, Obeys rules cmd (past ++ [⟨o, r⟩]) (f r)) : Obeys rules cmd past ((Prog.perform o).bind f) :=
  obeys_ask (approved_of_unguarded rules ho cmd past) hf

theorem obeys_ofExcept {α : Type} (x : Except Raised α) : Obeys rules cmd past (Prog.ofExcept x) :=
  obeys_free (free_ofExcept rules x)

theorem approved_up {service : Option Str} (h : StartApproved rules past (.compose (.up service)) cmd) :
    Approved rules cmd past (.compose (.up service)) :=
  ⟨fun _ => h, fun _ _ heq => (by cases heq), fun _ _ heq => (by cases heq)⟩

theorem approved_create {service : Str} (h : StartApproved rules past (.compose (.create service)) cmd) :
    Approved rules cmd past (.compose (.create service)) :=
  ⟨fun _ => h, fun _ _ heq => (by cases heq), fun _ _ heq => (by cases heq)⟩

theorem approved_psql {database sql : Str} (h : SqlApproved rules past database sql cmd) :
    Approved rules cmd past (.compose (.psql database sql)) := by
  refine ⟨fun hstarts => (by cases hstarts), fun database' sql' heq => ?_, fun _ _ heq => (by cases heq)⟩
  cases heq
  exact h

theorem approved_oneshot {image : Str} {script : Script} (hpinned : isPinned image = true)
    (h : OneshotApproved rules past script image cmd) :
    Approved rules cmd past (.docker (.oneshot image script)) := by
  refine ⟨fun hstarts => (by cases hstarts), fun _ _ heq => (by cases heq), fun image' script' heq => ?_⟩
  cases heq
  exact ⟨hpinned, h⟩

theorem obeys_compose {c : Compose} (h : Approved rules cmd past (.compose c)) :
    Obeys rules cmd past (compose c) :=
  obeys_ask h fun r => obeys_ofExcept r

theorem obeys_oneshot {image : Str} {script : Script} (hpinned : isPinned image = true)
    (h : OneshotApproved rules past script image cmd) : Obeys rules cmd past (oneshot image script) := by
  apply Obeys.bind (obeys_ofExcept _)
  intro t _ ht
  obtain ⟨rfl, -⟩ := runs_ofExcept.mp ht
  rw [List.append_nil]
  exact obeys_ask (approved_oneshot hpinned h) fun r => obeys_ofExcept r

/-! ## The key ring -/

theorem obeys_keyringPrepare {createVolume : Bool}
    (hcreate : createVolume = true → ∀ rest, StartApproved rules (past ++ rest) (.compose (.create "bff".toList)) cmd)
    (hprepare : ∀ rest image, OneshotApproved rules (past ++ rest) .prepare image cmd) :
    Obeys rules cmd past (keyringPrepare createVolume) := by
  unfold keyringPrepare
  apply Obeys.bind (obeys_free (free_pinnedCaddyImage rules))
  intro t₁ image himage
  have hpinned := (runs_pinnedCaddyImage.mp himage).2
  apply Obeys.bind
  · unfold ensureVolume
    apply Obeys.bind (obeys_free (free_keyringVolumeExists rules))
    intro t₂ there _
    split
    · exact obeys_ret ()
    · split
      · exact obeys_raise _
      · rename_i hallowed
        apply Obeys.bind
        · apply obeys_compose
          apply approved_create
          rw [List.append_assoc]
          exact hcreate (by simpa using hallowed) _
        · intro t₃ created _
          split
          · exact obeys_raise _
          · exact obeys_ret ()
  · intro t₂ _ _
    apply Obeys.bind
    · apply obeys_oneshot hpinned
      rw [List.append_assoc]
      exact hprepare _ image
    · intro t₃ proc _
      exact obeys_ofExcept _

theorem obeys_keyringReset (allKeys : Bool) :
    Obeys rules (.keyringReset true allKeys) [] (keyringReset allKeys) := by
  unfold keyringReset
  apply Obeys.bind (obeys_free (free_pinnedCaddyImage rules))
  intro t₁ image himage
  obtain ⟨rfl, hpinned⟩ := runs_pinnedCaddyImage.mp himage
  apply Obeys.bind (obeys_free (free_keyringVolumeExists rules))
  intro t₂ there hvolume
  obtain ⟨volume, rfl, rfl⟩ := runs_keyringVolumeExists hvolume
  split
  · exact obeys_raise _
  rename_i hthere
  apply Obeys.bind (obeys_free (free_compose rules (.stop "bff".toList) trivial))
  intro t₃ stopped hstop
  obtain rfl := runs_compose.mp hstop
  split
  · exact obeys_raise _
  rename_i hstopped
  have hresettable : Resettable ([] ++ [⟨.pinnedCaddy, .ok image⟩] ++ [⟨.docker .volumeInspect, .ok volume⟩] ++
      [⟨.compose (.stop "bff".toList), .ok stopped⟩]) image :=
    ⟨volume, stopped, rfl, by simpa using hthere, not_not.mp hstopped⟩
  apply Obeys.bind
  · apply obeys_oneshot hpinned
    exact ⟨rfl, .inl ⟨rfl, hresettable⟩⟩
  intro t₄ proc hproc
  obtain rfl := runs_oneshot hproc
  apply Obeys.bind (obeys_ofExcept _)
  intro t₅ outcome houtcome
  obtain ⟨rfl, hcode⟩ := runs_ofExcept.mp houtcome
  have hreturn := returncode_of_keyringOutcome (Option.some.inj hcode).symm
  apply Obeys.bind
  · apply obeys_keyringPrepare
    · intro h
      cases h
    · intro rest image'
      refine ⟨rfl, .inr ⟨rfl, _, image, proc, rest, hresettable, hreturn, ?_⟩⟩
      simp only [List.append_assoc, List.nil_append, List.append_nil, List.cons_append]
  · intro t₆ prepared _
    exact obeys_ret _

/-! ## The commands that start containers -/

theorem obeys_cmdKeyringPrepare : Obeys rules .keyringPrepare [] cmdKeyringPrepare := by
  unfold cmdKeyringPrepare
  apply Obeys.bind (obeys_free (free_deployGateProblems rules))
  intro t refused hgate
  split
  · exact obeys_raise _
  · rename_i hnone
    rw [not_not] at hnone
    subst hnone
    obtain rfl := runs_deployGateProblems hgate
    apply Obeys.bind
    · apply obeys_keyringPrepare
      · intro _ rest
        exact ⟨rfl, rest, rfl⟩
      · intro rest image
        exact ⟨rfl, rest, rfl⟩
    · intro t₂ _ _
      exact obeys_ret 0

theorem obeys_cmdUp : Obeys rules .up [] (cmdUp rules) := by
  unfold cmdUp
  apply obeys_free_ask .freshness trivial
  intro stale
  split
  · exact obeys_ret _
  rename_i hfresh
  rw [not_not] at hfresh
  subst hfresh
  apply Obeys.bind (obeys_free (free_ask rules .static trivial (free_ofExcept rules)))
  intro t₁ static hstatic
  obtain ⟨_, rfl, rfl⟩ := (runs_ask .static).mp hstatic
  apply Obeys.bind (obeys_free (free_dockerProblems rules))
  intro t₂ problems hdocker
  split
  · exact obeys_ret _
  rename_i hnone
  rw [not_not, List.append_eq_nil_iff] at hnone
  obtain ⟨rfl, rfl⟩ := hnone
  have hpassed := runs_dockerProblems hdocker
  have hchecked : Checked rules ([] ++ [⟨.freshness, []⟩] ++ [⟨.static, .ok []⟩] ++ t₂) :=
    ⟨t₂, [], by simp, hpassed⟩
  generalize ([] ++ [⟨.freshness, []⟩] ++ [⟨.static, .ok []⟩] ++ t₂ : List Event) = checked at hchecked ⊢
  apply Obeys.bind
  · apply obeys_compose
    apply approved_up
    exact ⟨hchecked, .inl rfl⟩
  intro t₃ caddy hcaddy
  obtain rfl := runs_compose.mp hcaddy
  split
  · exact obeys_raise _
  rename_i hcode
  apply Obeys.bind (obeys_free (free_waitHealthy rules _ _))
  intro t₄ healthy hhealthy
  split
  · exact obeys_raise _
  rename_i htrue
  rw [Bool.not_eq_false] at htrue
  subst htrue
  obtain ⟨container, health, hmem, hhealth⟩ := runs_waitHealthy hhealthy
  apply Obeys.bind (obeys_free (free_exportRoot rules))
  intro t₅ _ hexport
  obtain ⟨text, hroot, hproblems⟩ := runs_exportRoot hexport
  have hexported : Exported (checked ++ [⟨.compose (.up (some "caddy".toList)), .ok caddy⟩] ++ t₄ ++ t₅) := by
    refine ⟨caddy, container, health, text, ?_, not_not.mp hcode, hhealth, hproblems⟩
    have hstart : List.Sublist [(⟨.compose (.up (some "caddy".toList)), .ok caddy⟩ : Event)]
        (checked ++ [⟨.compose (.up (some "caddy".toList)), .ok caddy⟩]) := List.sublist_append_right _ _
    exact (hstart.append (List.singleton_sublist.mpr hmem)).append hroot
  have hchecked' : Checked rules (checked ++ [⟨.compose (.up (some "caddy".toList)), .ok caddy⟩] ++ t₄ ++ t₅) :=
    ((hchecked.append _).append _).append _
  generalize checked ++ [⟨.compose (.up (some "caddy".toList)), .ok caddy⟩] ++ t₄ ++ t₅ = exported at hexported hchecked' ⊢
  apply Obeys.bind
  · apply obeys_keyringPrepare
    · intro _ rest
      exact ⟨hchecked'.append rest, .inr ⟨hexported.append rest, .inl rfl⟩⟩
    · intro rest image
      exact ⟨rfl, hchecked'.append rest, hexported.append rest⟩
  intro t₆ outcome hprepare
  have hprepared : Prepared (exported ++ t₆) := by
    obtain ⟨image, proc, hproc, hrest⟩ := runs_keyringPrepare hprepare
    exact ⟨image, proc, List.mem_append_right _ hproc, hrest⟩
  apply Obeys.bind
  · apply obeys_compose
    apply approved_up
    exact ⟨hchecked'.append _, .inr ⟨hexported.append _, .inr ⟨rfl, hprepared⟩⟩⟩
  intro t₇ started _
  split
  · exact obeys_raise _
  · apply Obeys.bind (obeys_free (free_waitHealthy rules _ _))
    intro t₈ _ _
    exact obeys_free (free_cmdVerify rules)

theorem obeys_cmdRealmRebuild (confirm : Bool) :
    Obeys rules (.realmRebuild confirm) [] (cmdRealmRebuild rules confirm) := by
  unfold cmdRealmRebuild
  split
  · exact obeys_raise _
  rename_i hconfirm
  rw [Bool.not_eq_false] at hconfirm
  subst hconfirm
  apply obeys_free_ask .isDir trivial
  intro isDir
  split
  · exact obeys_raise _
  rename_i hdir
  rw [Bool.not_eq_false] at hdir
  subst hdir
  apply Obeys.bind (obeys_free (free_deployGateProblems rules))
  intro t₁ refused hgate
  split
  · exact obeys_raise _
  rename_i hnone
  rw [not_not] at hnone
  subst hnone
  obtain rfl := runs_deployGateProblems hgate
  apply Obeys.bind (obeys_free (free_runIdentityCheck rules))
  intro t₂ outcome hidentity
  cases outcome with
  | error reason => exact obeys_raise _
  | ok facts =>
    have hidentified := runs_runIdentityCheck.mp hidentity
    dsimp only
    split
    · exact obeys_raise _
    rename_i hsynthetic
    apply Obeys.bind (obeys_free (free_bootstrapRetired rules))
    intro t₃ retired hbootstrap
    split
    · exact obeys_raise _
    rename_i hretired
    rw [Bool.not_eq_true] at hretired
    subst hretired
    have hnot := notRetired_of_runs hbootstrap
    apply Obeys.bind
    · unfold rebuildSteps runSteps
      apply obeys_free_ask (.compose (.stop "keycloak".toList)) trivial
      intro stopped
      cases stopped with
      | error e =>
        dsimp only
        split <;> exact obeys_raise _
      | ok stopped =>
        dsimp only
        split
        · exact obeys_raise _
        rename_i hstopped
        have hrebuildable : Rebuildable rules ([] ++ [⟨.isDir, true⟩] ++ gate ++ t₂ ++ t₃ ++
            [⟨.compose (.stop "keycloak".toList), .ok stopped⟩]) := by
          refine ⟨t₂, t₃, stopped, facts, rfl, hidentified, by omega, hnot, not_not.mp hstopped⟩
        unfold runSteps
        apply obeys_ask
        · apply approved_psql
          exact .inr ⟨rfl, rfl, rfl, hrebuildable⟩
        intro dropped
        cases dropped with
        | error e =>
          dsimp only
          split <;> exact obeys_raise _
        | ok dropped =>
          dsimp only
          split
          · exact obeys_raise _
          rename_i hdropped
          unfold runSteps
          apply obeys_ask
          · apply approved_up
            exact ⟨rfl, rfl, _, dropped, rfl, hrebuildable, not_not.mp hdropped⟩
          intro started
          cases started with
          | error e =>
            dsimp only
            split <;> exact obeys_raise _
          | ok started =>
            dsimp only
            split
            · exact obeys_raise _
            · exact obeys_ret ()
    · intro t₄ _ _
      exact obeys_ret 0

/-! ## All commands -/

theorem free_cmdCheck (staticOnly : Bool) : Free rules (cmdCheck rules staticOnly) := by
  unfold cmdCheck
  apply free_ask rules .freshness trivial
  intro stale
  apply Free.bind rules (free_ask rules .static trivial (free_ofExcept rules))
  intro static
  apply free_ask rules .isDir trivial
  intro isDir
  split
  · exact Free.bind rules (free_dockerProblems rules) fun _ => trivial
  · trivial

theorem obeys_run (cmd : Command) : Obeys rules cmd [] (cmd.run rules) := by
  cases cmd with
  | check staticOnly => exact obeys_free (free_cmdCheck staticOnly)
  | exportRoot => exact obeys_free (Free.bind rules (free_exportRoot rules) fun _ => trivial)
  | up => exact obeys_cmdUp
  | verify => exact obeys_free (free_cmdVerify rules)
  | keyringPrepare => exact obeys_cmdKeyringPrepare
  | keyringReset confirm allKeys =>
    change Obeys rules _ [] (cmdKeyringReset confirm allKeys)
    unfold cmdKeyringReset
    cases confirm with
    | false => exact obeys_raise _
    | true => exact Obeys.bind (obeys_keyringReset allKeys) fun _ _ _ => obeys_ret 0
  | realmRebuild confirm => exact obeys_cmdRealmRebuild confirm

/-! ## What holds of every run -/

/-- All that a verification without problems did. -/
def VerifyPassed (rules : Rules) (t : List Event) : Prop :=
  ∃ values parseProblems listing inspection containers image ring ringFacts identity facts reply,
    t = [⟨.readEnv, .ok (values, parseProblems)⟩, ⟨.compose .psAll, .ok listing⟩,
        ⟨.docker (.inspect (idsOf listing.stdout)), .ok inspection⟩, ⟨.pinnedCaddy, .ok image⟩,
        ⟨.docker (.verifyRing image), .ok ring⟩] ++ identity ++ [⟨.bootstrapSize, reply⟩] ∧
      (listing.returncode = 0 ∧ idsOf listing.stdout ≠ [] ∧ inspection.returncode = 0 ∧
        rules.loads inspection.stdout = .ok containers ∧
        rules.inspectProblems containers (valueOf values "DECISYA_BIND_ADDRESS")
          (valueOf values "DECISYA_HTTPS_PORT") (valueOf values "DECISYA_ADMIN_PORT") = .ok []) ∧
      (isPinned image = true ∧ ring.returncode = 0 ∧ parseKeyringReport ring.stdout = .ok ringFacts ∧
        keyringProblems ringFacts = []) ∧
      Identified rules identity facts ∧ identityProblems facts (retiredOf reply) = []

theorem runs_inspectProject {t : List Event} {containers : Json} :
    Runs (inspectProject rules) t (some (.ok containers)) ↔
      ∃ listing inspection, t = [⟨.compose .psAll, .ok listing⟩,
          ⟨.docker (.inspect (idsOf listing.stdout)), .ok inspection⟩] ∧
        listing.returncode = 0 ∧ idsOf listing.stdout ≠ [] ∧ inspection.returncode = 0 ∧
        rules.loads inspection.stdout = .ok containers := by
  unfold inspectProject
  rw [runs_bind_ok]
  constructor
  · rintro ⟨t₁, t₂, listing, rfl, hcall, h⟩
    obtain rfl := runs_compose.mp hcall
    split at h
    · cases (runs_raise.mp h).2
    rename_i hlisting
    rw [not_or, not_not] at hlisting
    replace h := runs_bind_ok.mp h
    obtain ⟨t₃, t₄, inspection, rfl, hcall, h⟩ := h
    obtain rfl := runs_docker.mp hcall
    split at h
    · cases (runs_raise.mp h).2
    rename_i hinspection
    obtain ⟨rfl, hloads⟩ := runs_ofExcept.mp h
    exact ⟨listing, inspection, rfl, hlisting.1, hlisting.2, not_not.mp hinspection,
      (Option.some.inj hloads).symm⟩
  · rintro ⟨listing, inspection, rfl, hlisting, hids, hinspection, hloads⟩
    refine ⟨[_], _, listing, rfl, runs_compose.mpr rfl, ?_⟩
    rw [if_neg (not_or.mpr ⟨not_not.mpr hlisting, hids⟩), runs_bind_ok]
    refine ⟨[_], [], inspection, rfl, runs_docker.mpr rfl, ?_⟩
    rw [if_neg (not_not.mpr hinspection), hloads]
    exact .ret containers

theorem runs_keyringCheck {t : List Event} :
    Runs keyringCheck t (some (.ok [])) ↔
      ∃ image ring facts, t = [⟨.pinnedCaddy, .ok image⟩, ⟨.docker (.verifyRing image), .ok ring⟩] ∧
        isPinned image = true ∧ ring.returncode = 0 ∧ parseKeyringReport ring.stdout = .ok facts ∧
        keyringProblems facts = [] := by
  unfold keyringCheck
  rw [runs_bind_ok]
  constructor
  · rintro ⟨t₁, t₂, pinned, rfl, hpinned, h⟩
    obtain ⟨y, himage, heq⟩ := runs_attempt.mp hpinned
    cases heq
    cases pinned with
    | error e =>
      dsimp only at h
      split at h
      · cases (runs_ret.mp h).2
      · cases (runs_raise.mp h).2
    | ok image =>
      obtain ⟨rfl, hpin⟩ := runs_pinnedCaddyImage.mp himage
      replace h := runs_perform_bind.mp h
      obtain ⟨reply, t₃, rfl, h⟩ := h
      cases reply with
      | error e =>
        dsimp only at h
        split at h
        · cases (runs_ret.mp h).2
        · cases (runs_raise.mp h).2
      | ok ring =>
        dsimp only at h
        split at h
        · cases (runs_ret.mp h).2
        rename_i hcode
        cases hparsed : parseKeyringReport ring.stdout with
        | error reason =>
          rw [hparsed] at h
          cases (runs_ret.mp h).2
        | ok facts =>
          rw [hparsed] at h
          obtain ⟨rfl, hnil⟩ := runs_ret.mp h
          exact ⟨image, ring, facts, rfl, hpin, not_not.mp hcode, hparsed,
            (Except.ok.inj (Option.some.inj hnil)).symm⟩
  · rintro ⟨image, ring, facts, rfl, hpin, hcode, hparsed, hnil⟩
    refine ⟨[_], [_], .ok image, rfl, runs_attempt.mpr ⟨.ok image, runs_pinnedCaddyImage.mpr ⟨rfl, hpin⟩, rfl⟩, ?_⟩
    refine runs_perform_bind.mpr ⟨(.ok ring : Except Raised Proc), [], rfl, ?_⟩
    dsimp only
    rw [if_neg (not_not.mpr hcode), hparsed, ← hnil]
    exact .ret _

theorem runs_identityCheckProblems {t : List Event} :
    Runs (identityCheckProblems rules) t (some (.ok [])) ↔
      ∃ identity facts reply, t = identity ++ [⟨.bootstrapSize, reply⟩] ∧ Identified rules identity facts ∧
        identityProblems facts (retiredOf reply) = [] := by
  unfold identityCheckProblems
  rw [runs_bind_ok]
  constructor
  · rintro ⟨t₁, t₂, outcome, rfl, hidentity, h⟩
    cases outcome with
    | error reason => cases (runs_ret.mp h).2
    | ok facts =>
      replace h := runs_bind_ok.mp h
      obtain ⟨t₃, t₄, retired, rfl, hretired, h⟩ := h
      obtain ⟨reply, rfl, rfl⟩ := runs_bootstrapRetired.mp hretired
      obtain ⟨rfl, hnil⟩ := runs_ret.mp h
      exact ⟨t₁, facts, reply, by rw [List.append_nil], runs_runIdentityCheck.mp hidentity,
        (Except.ok.inj (Option.some.inj hnil)).symm⟩
  · rintro ⟨identity, facts, reply, rfl, hidentity, hnil⟩
    refine ⟨identity, _, .ok facts, rfl, runs_runIdentityCheck.mpr hidentity, ?_⟩
    dsimp only
    rw [runs_bind_ok]
    refine ⟨[_], [], retiredOf reply, rfl, runs_bootstrapRetired.mpr ⟨reply, rfl, rfl⟩, ?_⟩
    rw [hnil]
    exact .ret []

theorem runs_verifyProblems {t : List Event} :
    Runs (verifyProblems rules) t (some (.ok [])) ↔ VerifyPassed rules t := by
  unfold verifyProblems VerifyPassed
  rw [runs_bind_ok]
  constructor
  · rintro ⟨t₁, t₂, ⟨values, parseProblems⟩, rfl, henv, h⟩
    obtain rfl := runs_readEnv.mp henv
    replace h := runs_bind_ok.mp h
    obtain ⟨t₃, t₄, containers, rfl, hinspect, h⟩ := h
    obtain ⟨listing, inspection, rfl, hlisting, hids, hinspection, hloads⟩ := runs_inspectProject.mp hinspect
    replace h := runs_bind_ok.mp h
    obtain ⟨t₅, t₆, inspected, rfl, hproblems, h⟩ := h
    obtain ⟨rfl, hinspected⟩ := runs_ofExcept.mp hproblems
    replace h := runs_bind_ok.mp h
    obtain ⟨t₇, t₈, keyring, rfl, hring, h⟩ := h
    replace h := runs_bind_ok.mp h
    obtain ⟨t₉, t₀, identity, rfl, hidentity, h⟩ := h
    obtain ⟨rfl, hnil⟩ := runs_ret.mp h
    have hall := (Except.ok.inj (Option.some.inj hnil)).symm
    rw [List.append_eq_nil_iff, List.append_eq_nil_iff] at hall
    obtain ⟨⟨rfl, rfl⟩, rfl⟩ := hall
    obtain ⟨image, ring, ringFacts, rfl, hpin, hcode, hparsed, hkeyring⟩ := runs_keyringCheck.mp hring
    obtain ⟨check, facts, reply, rfl, hidentified, hrealm⟩ := runs_identityCheckProblems.mp hidentity
    exact ⟨values, parseProblems, listing, inspection, containers, image, ring, ringFacts, check, facts, reply,
      by simp, ⟨hlisting, hids, hinspection, hloads, (Option.some.inj hinspected).symm⟩,
      ⟨hpin, hcode, hparsed, hkeyring⟩, hidentified, hrealm⟩
  · rintro ⟨values, parseProblems, listing, inspection, containers, image, ring, ringFacts, check, facts, reply,
      rfl, ⟨hlisting, hids, hinspection, hloads, hproblems⟩, ⟨hpin, hcode, hparsed, hkeyring⟩, hidentified, hrealm⟩
    refine ⟨[_], _, (values, parseProblems), rfl, runs_readEnv.mpr rfl, ?_⟩
    dsimp only
    rw [runs_bind_ok]
    refine ⟨[_, _], _, containers, rfl, runs_inspectProject.mpr
      ⟨listing, inspection, rfl, hlisting, hids, hinspection, hloads⟩, ?_⟩
    rw [hproblems, runs_bind_ok]
    refine ⟨[], _, [], rfl, runs_ofExcept.mpr ⟨rfl, rfl⟩, ?_⟩
    rw [runs_bind_ok]
    refine ⟨[_, _], _, [], rfl, runs_keyringCheck.mpr ⟨image, ring, ringFacts, rfl, hpin, hcode, hparsed, hkeyring⟩, ?_⟩
    rw [runs_bind_ok]
    refine ⟨check ++ [_], [], [], by simp, runs_identityCheckProblems.mpr
      ⟨check, facts, reply, rfl, hidentified, hrealm⟩, ?_⟩
    exact .ret []

theorem runs_cmdVerify {t : List Event} :
    Runs (cmdVerify rules) t (some (.ok 0)) ↔ VerifyPassed rules t := by
  rw [← runs_verifyProblems]
  unfold cmdVerify
  rw [runs_bind_ok]
  constructor
  · rintro ⟨t₁, t₂, problems, rfl, hproblems, h⟩
    obtain ⟨rfl, hreport⟩ := runs_ret.mp h
    have hzero := Except.ok.inj (Option.some.inj hreport)
    unfold report at hzero
    split at hzero
    · rename_i hnil
      subst hnil
      rwa [List.append_nil]
    · cases hzero
  · intro h
    exact ⟨t, [], [], (List.append_nil t).symm, h, .ret 0⟩

/-- `verify` exits with 0 exactly where it read the containers, the key ring and the realm to the end
and found nothing in them. -/
theorem verify_succeeds_iff (rules : Rules) (t : List Event) :
    Runs (Command.verify.run rules) t (some (.ok 0)) ↔ VerifyPassed rules t := runs_cmdVerify

/-! ## A start that finds nothing -/

/-- The run was checked, Caddy's root and the key ring were made ready, the stack was started, and its
verification found nothing. -/
def UpPassed (rules : Rules) (t : List Event) : Prop :=
  ∃ before started waited verification,
    t = before ++ ⟨.compose (.up none), .ok started⟩ :: waited ++ verification ∧
      (Checked rules before ∧ Exported before ∧ Prepared before) ∧ started.returncode = 0 ∧
      VerifyPassed rules verification

theorem eq_nil_of_report {problems : List Str} (h : report problems = 0) : problems = [] := by
  unfold report at h
  split at h
  · assumption
  · cases h

theorem runs_cmdUp {t : List Event} (h : Runs (cmdUp rules) t (some (.ok 0))) : UpPassed rules t := by
  unfold cmdUp at h
  replace h := runs_perform_bind.mp h
  obtain ⟨stale, t, rfl, h⟩ := h
  split at h
  · rename_i hstale
    have hreport := Except.ok.inj (Option.some.inj (runs_ret.mp h).2)
    exact absurd (eq_nil_of_report hreport.symm) hstale
  rename_i hfresh
  rw [not_not] at hfresh
  subst hfresh
  replace h := runs_bind_ok.mp h
  obtain ⟨t₁, t, static, rfl, hstatic, h⟩ := h
  obtain ⟨_, rfl, rfl⟩ := (runs_ask .static).mp hstatic
  replace h := runs_bind_ok.mp h
  obtain ⟨t₂, t, problems, rfl, hdocker, h⟩ := h
  split at h
  · rename_i hproblems
    have hreport := Except.ok.inj (Option.some.inj (runs_ret.mp h).2)
    exact absurd (eq_nil_of_report hreport.symm) hproblems
  rename_i hnone
  rw [not_not, List.append_eq_nil_iff] at hnone
  obtain ⟨rfl, rfl⟩ := hnone
  have hpassed := runs_dockerProblems hdocker
  replace h := runs_bind_ok.mp h
  obtain ⟨t₃, t, caddy, rfl, hcaddy, h⟩ := h
  obtain rfl := runs_compose.mp hcaddy
  split at h
  · cases (runs_raise.mp h).2
  rename_i hcode
  replace h := runs_bind_ok.mp h
  obtain ⟨t₄, t, healthy, rfl, hhealthy, h⟩ := h
  split at h
  · cases (runs_raise.mp h).2
  rename_i htrue
  rw [Bool.not_eq_false] at htrue
  subst htrue
  obtain ⟨container, health, hmem, hhealth⟩ := runs_waitHealthy hhealthy
  replace h := runs_bind_ok.mp h
  obtain ⟨t₅, t, _, rfl, hexport, h⟩ := h
  obtain ⟨text, hroot, hproblems⟩ := runs_exportRoot hexport
  replace h := runs_bind_ok.mp h
  obtain ⟨t₆, t, _, rfl, hprepare, h⟩ := h
  obtain ⟨image, proc, hproc, hpinned⟩ := runs_keyringPrepare hprepare
  replace h := runs_bind_ok.mp h
  obtain ⟨t₇, t, started, rfl, hup, h⟩ := h
  obtain rfl := runs_compose.mp hup
  split at h
  · cases (runs_raise.mp h).2
  rename_i hstarted
  replace h := runs_bind_ok.mp h
  obtain ⟨t₈, t₉, _, rfl, -, hverify⟩ := h
  refine ⟨⟨.freshness, []⟩ :: ⟨.static, .ok []⟩ :: t₂ ++
      (⟨.compose (.up (some "caddy".toList)), .ok caddy⟩ :: t₄ ++ t₅ ++ t₆), started, t₈, t₉, by simp,
    ⟨⟨t₂, _, rfl, hpassed⟩, ?_, image, proc, ?_, hpinned⟩, not_not.mp hstarted, runs_cmdVerify.mp hverify⟩
  · refine ⟨caddy, container, health, text, ?_, not_not.mp hcode, hhealth, hproblems⟩
    have hready := (List.singleton_sublist.mpr hmem).append hroot
    have hlong := (hready.trans (List.sublist_append_left _ t₆)).cons_cons
      (⟨.compose (.up (some "caddy".toList)), .ok caddy⟩ : Event)
    exact hlong.trans (List.sublist_append_right _ _)
  · exact List.mem_append_right _ (List.mem_append_right _ hproc)

end Decisya.Deploy.Stack
