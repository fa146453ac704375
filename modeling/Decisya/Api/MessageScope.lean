import Decisya.Api.EnvelopeTenant

/-!
# A sequence of messages in one scope

The caller of a scope is set by the request it belongs to or by its first accepted message,
and never again. A later message is accepted only for the same tenant and the same caller.
-/

namespace Decisya.Api

open Text Tenancy

set_option autoImplicit false

section Scope
variable (digest : Utf16 → Utf16)

/-- A scope before its first message: nobody set its caller, or a request did. -/
inductive InitialScope (scope : Scope) : Prop where
  | unset (log : Option Values) : scope = Scope.start log → InitialScope scope
  | request (principal : ClaimsPrincipal) (log : Option Values) :
      callerContext digest (some principal) (Scope.start log) = .next scope → InitialScope scope

/-- Between two messages a caller that is set has a resolution, and no enrichment is held. -/
structure Scope.Idle (scope : Scope) : Prop where
  resolved : scope.caller.isSet = true → scope.caller.resolution ≠ .invalid
  released : scope.enrichmentScope = none

theorem InitialScope.idle {scope : Scope} (h : InitialScope digest scope) : scope.Idle := by
  cases h with
  | unset log hscope =>
    subst hscope
    exact ⟨fun hset => absurd hset Bool.false_ne_true, rfl⟩
  | request principal log hnext =>
    obtain ⟨_, identity, -, -, hvalid, -, hcaller, hreleased⟩ := callerContext_next digest hnext
    refine ⟨fun _ => ?_, hreleased⟩
    rw [hcaller]
    exact hvalid

/-- The caller a message runs under: the tenant and the caller id of the envelope, no more. -/
structure RunsAs (caller : RequestCaller) (tenant : TenantId) (callerId : Utf16) : Prop where
  resolution : caller.resolution.tenantId? = some tenant
  userId : caller.userId = some callerId
  not_admin : caller.isPlatformAdmin = false
  no_mfa : caller.hasMfaLevel = false

/-- What one message can do to an idle scope. -/
theorem before_cases {scope : Scope} (hidle : scope.Idle) (envelope : Envelope) :
    (∃ reason, before digest scope envelope = .ok (.stop reason, scope)) ∨
    (∃ tenant callerId caller,
      before digest scope envelope = .ok (.continues, handlingScope digest scope caller tenant callerId) ∧
      envelope.tenantId = some tenant.toText ∧
      EnvelopeFacts.tryReadCaller envelope = some callerId ∧ RunsAs caller tenant callerId ∧
      caller.isSet = true ∧ (scope.caller.isSet = true → caller = scope.caller)) := by
  cases htenant : EnvelopeFacts.tryReadTenant envelope.tenantId with
  | error reason => exact .inl ⟨reason, by simp only [before, htenant]⟩
  | ok tenant =>
    obtain ⟨hinit, htext⟩ := EnvelopeFacts.tryReadTenant_eq_ok.mp htenant
    cases hcaller : EnvelopeFacts.tryReadCaller envelope with
    | none => exact .inl ⟨.noCaller, by simp only [before, htenant, hcaller]⟩
    | some callerId =>
      obtain ⟨_, -, -, hcarries⟩ := EnvelopeFacts.tryReadCaller_eq_some.mp hcaller
      by_cases hinvalid : scope.caller.resolution = .invalid
      · -- Nobody set this caller yet.
        have hunset : scope.caller.isSet = false := by
          rw [Bool.eq_false_iff]
          exact fun hset => hidle.resolved hset hinvalid
        have hset := RequestCaller.set_eq_ok.mpr ⟨hcarries.not_blank, hunset,
          (rfl : RequestCaller.populated (.tenant ⟨tenant, hinit⟩) callerId false false = _)⟩
        refine .inr ⟨tenant, callerId, .populated (.tenant ⟨tenant, hinit⟩) callerId false false, ?_,
          htext, rfl, ⟨rfl, rfl, rfl, rfl⟩, rfl, ?_⟩
        · simp only [before, htenant, hcaller, dif_pos hinit, if_pos hinvalid, hset]
        · intro hset'
          rw [hunset] at hset'
          exact absurd hset' Bool.false_ne_true
      · by_cases hother : scope.caller.resolution ≠ .tenant ⟨tenant, hinit⟩ ∨
            scope.caller.userId ≠ some callerId ∨ scope.caller.isPlatformAdmin = true ∨
            scope.caller.hasMfaLevel = true
        · refine .inl ⟨.malformed, ?_⟩
          simp only [before, htenant, hcaller, dif_pos hinit, if_neg hinvalid, if_pos hother]
        · have hsame := hother
          simp only [not_or, not_not, Bool.not_eq_true] at hsame
          obtain ⟨hres, huser, hadmin, hmfa⟩ := hsame
          refine .inr ⟨tenant, callerId, scope.caller, ?_, htext, rfl, ⟨?_, huser, hadmin, hmfa⟩,
            ?_, fun _ => rfl⟩
          · simp only [before, htenant, hcaller, dif_pos hinit, if_neg hinvalid, if_neg hother]
          · rw [hres]
            rfl
          · by_contra hunset
            exact hinvalid (scope.caller.unset (Bool.eq_false_iff.mpr hunset)).1

/-! ## One message -/

/-- What holds of one message in a scope, whatever came before it. -/
structure Pass.Sound (p : Pass) : Prop where
  continues : p.continuation = .continues → ∃ tenant callerId,
    p.envelope.tenantId = some tenant.toText ∧
    EnvelopeFacts.tryReadCaller p.envelope = some callerId ∧
    RunsAs p.handling.caller tenant callerId ∧
    p.handling.enrichment = some ⟨some tenant.toText, hashUserId digest (some callerId)⟩
  stops : p.continuation ≠ .continues → p.handling = p.start
  restored : p.finish.enrichment = p.start.enrichment
  caller_kept : p.finish.caller = p.handling.caller
  set_once : p.start.caller.isSet = true → p.handling.caller = p.start.caller
  set_or_same : p.handling.caller = p.start.caller ∨ p.handling.caller.isSet = true

theorem pass_sound {scope : Scope} (hidle : scope.Idle) (envelope : Envelope) :
    ∃ p, pass digest scope envelope = .ok p ∧ p.start = scope ∧ p.envelope = envelope ∧
      p.Sound digest ∧ p.finish.Idle := by
  rcases before_cases digest hidle envelope with ⟨reason, hbefore⟩ |
    ⟨tenant, callerId, caller, hbefore, htext, hcallerId, hruns, hset, hsame⟩
  · have hfinish : disposeFinally scope = scope := by simp only [disposeFinally, hidle.released]
    refine ⟨⟨scope, envelope, .stop reason, scope, scope⟩, ?_, rfl, rfl, ?_, hidle⟩
    · simp only [pass, hbefore, hfinish]
    · exact ⟨fun h => absurd h HandlerContinuation.noConfusion, fun _ => rfl, rfl, rfl, fun _ => rfl,
        .inl rfl⟩
  · let handling := handlingScope digest scope caller tenant callerId
    refine ⟨⟨scope, envelope, .continues, handling, disposeFinally handling⟩, ?_, rfl, rfl, ?_, ?_⟩
    · simp only [pass, hbefore]
      rfl
    · exact ⟨fun _ => ⟨tenant, callerId, htext, hcallerId, hruns, rfl⟩, fun h => absurd rfl h, rfl,
        rfl, hsame, .inr hset⟩
    · refine ⟨fun _ hinvalid => ?_, rfl⟩
      have hres := hruns.resolution
      change caller.resolution = .invalid at hinvalid
      rw [hinvalid] at hres
      cases hres

/-! ## A sequence of messages -/

/-- The messages at which the scope's caller changed. -/
def callerChanges (passes : List Pass) : List Pass :=
  passes.filter fun p => p.handling.caller != p.start.caller

/-- Each message starts in the scope the one before it left. -/
inductive Chained : Scope → List Pass → Prop where
  | nil (scope : Scope) : Chained scope []
  | cons (p : Pass) (ps : List Pass) : Chained p.finish ps → Chained p.start (p :: ps)

theorem passAll_sound {scope : Scope} (hidle : scope.Idle) (envelopes : List Envelope) :
    ∃ passes, passAll digest scope envelopes = .ok passes ∧ Chained scope passes ∧
      passes.map Pass.envelope = envelopes ∧ ∀ p ∈ passes, p.Sound digest := by
  induction envelopes generalizing scope with
  | nil => exact ⟨[], rfl, .nil scope, rfl, fun _ h => absurd h List.not_mem_nil⟩
  | cons envelope envelopes ih =>
    obtain ⟨p, hpass, hstart, henvelope, hsound, hfinish⟩ := pass_sound digest hidle envelope
    obtain ⟨passes, hpasses, hchained, hmap, hall⟩ := ih hfinish
    refine ⟨p :: passes, ?_, ?_, ?_, ?_⟩
    · simp only [passAll, hpass, hpasses]
    · rw [← hstart]
      exact .cons p passes hchained
    · rw [List.map_cons, henvelope, hmap]
    · intro q hq
      rcases List.mem_cons.mp hq with rfl | hq
      · exact hsound
      · exact hall q hq

/-- Once a caller is set, no message changes it. -/
theorem Chained.no_change {scope : Scope} {passes : List Pass} (h : Chained scope passes)
    (hall : ∀ p ∈ passes, p.Sound digest) (hset : scope.caller.isSet = true) :
    callerChanges passes = [] := by
  induction h with
  | nil _ => rfl
  | cons p ps _ ih =>
    have hp := hall p List.mem_cons_self
    have hsame := hp.set_once hset
    have hfinish : p.finish.caller.isSet = true := by
      rw [hp.caller_kept, hsame]
      exact hset
    have hrest := ih (fun q hq => hall q (List.mem_cons_of_mem p hq)) hfinish
    unfold callerChanges at hrest ⊢
    rw [List.filter_cons_of_neg (by simp [hsame]), hrest]

theorem Chained.changes_le_one {scope : Scope} {passes : List Pass} (h : Chained scope passes)
    (hall : ∀ p ∈ passes, p.Sound digest) : (callerChanges passes).length ≤ 1 := by
  induction h with
  | nil _ => exact Nat.zero_le 1
  | cons p ps hps ih =>
    have hp := hall p List.mem_cons_self
    have hrest : ∀ q ∈ ps, q.Sound digest := fun q hq => hall q (List.mem_cons_of_mem p hq)
    rcases hp.set_or_same with hsame | hset
    · have hle := ih hrest
      unfold callerChanges at hle ⊢
      rwa [List.filter_cons_of_neg (by simp [hsame])]
    · have hnone := hps.no_change digest hrest (by rw [hp.caller_kept]; exact hset)
      unfold callerChanges at hnone ⊢
      have hle := List.length_filter_le (fun q : Pass => q.handling.caller != q.start.caller) [p]
      rw [← List.singleton_append, List.filter_append, hnone, List.append_nil]
      exact hle

/-- Whatever messages pass through a scope, none runs under another identity. -/
theorem messages_run_as_sender {scope : Scope} (h : InitialScope digest scope)
    (envelopes : List Envelope) :
    ∃ passes, passAll digest scope envelopes = .ok passes ∧
      passes.map Pass.envelope = envelopes ∧ Chained scope passes ∧
      (∀ p ∈ passes, p.continuation = .continues → ∃ tenant callerId,
        p.envelope.tenantId = some tenant.toText ∧
        EnvelopeFacts.tryReadCaller p.envelope = some callerId ∧
        RunsAs p.handling.caller tenant callerId ∧
        p.handling.enrichment = some ⟨some tenant.toText, hashUserId digest (some callerId)⟩) ∧
      (∀ p ∈ passes, p.continuation ≠ .continues →
        p.handling.caller = p.start.caller ∧ p.handling.enrichment = p.start.enrichment) ∧
      (callerChanges passes).length ≤ 1 ∧ (scope.caller.isSet = true → callerChanges passes = []) ∧
      ∀ p ∈ passes, p.finish.enrichment = p.start.enrichment ∧ p.finish.caller = p.handling.caller := by
  obtain ⟨passes, hpasses, hchained, hmap, hall⟩ := passAll_sound digest h.idle envelopes
  refine ⟨passes, hpasses, hmap, hchained, fun p hp => (hall p hp).continues, ?_,
    hchained.changes_le_one digest hall, hchained.no_change digest hall, ?_⟩
  · intro p hp hstop
    rw [(hall p hp).stops hstop]
    exact ⟨rfl, rfl⟩
  · intro p hp
    exact ⟨(hall p hp).restored, (hall p hp).caller_kept⟩

end Scope

/-- A request by one user, then a message of that user and a message of another. -/
theorem messages_run_as_sender_after_request : ∃ scope passes,
    callerContext id (some (samplePrincipal "user-1")) (Scope.start none) = .next scope ∧
    passAll id scope [sampleEnvelope "user-1", sampleEnvelope "user-2"] = .ok passes ∧
    passes.map Pass.envelope = [sampleEnvelope "user-1", sampleEnvelope "user-2"] ∧
    (callerChanges passes).length ≤ 1 := by
  obtain ⟨t, ht⟩ := sample_fromClaim
  have hid : CallerIdentity.fromPrincipal (samplePrincipal "user-1") =
      some (sampleIdentity "user-1") := by decide +kernel
  have hnext := callerContext_tenant id hid ht none
  obtain ⟨passes, hpasses, hmap, -, -, -, hle, -⟩ := messages_run_as_sender id
    (.request _ _ hnext) [sampleEnvelope "user-1", sampleEnvelope "user-2"]
  exact ⟨_, passes, hnext, hpasses, hmap, hle⟩

end Decisya.Api
