import Decisya.Api.CallerContext

/-!
# The tenant and the caller of a message

The sender stamps its ambient tenant and caller into an envelope, and the receiver reads
them back before a handler runs. The two ends agree on the tenant text; on the caller id
they agree only where the reader's conditions hold of the sender's subject.
-/

namespace Decisya.Api

open Text Tenancy

set_option autoImplicit false

/-! ## Envelopes -/

abbrev Headers := List (Utf16 × Option Utf16)

namespace Headers

def tryGetValue (headers : Headers) (key : Utf16) : Option (Option Utf16) := headers.lookup key

def insert (headers : Headers) (key : Utf16) (value : Option Utf16) : Headers :=
  (key, value) :: headers.filter fun h => h.1 != key

theorem tryGetValue_insert (headers : Headers) (key : Utf16) (value : Option Utf16) :
    (headers.insert key value).tryGetValue key = some value := by
  simp [tryGetValue, insert]

end Headers

structure Envelope where
  tenantId : Option Utf16
  headers : Option Headers
  deriving DecidableEq

/-- The options of a send; an envelope takes its tenant and headers from them. -/
structure DeliveryOptions where
  tenantId : Option Utf16
  headers : Headers
  deriving DecidableEq

def DeliveryOptions.envelope (options : DeliveryOptions) : Envelope :=
  ⟨options.tenantId, some options.headers⟩

/-! ## Reading -/

inductive EnvelopeRefusalReason where
  | missing
  | malformed
  | noCaller
  deriving DecidableEq

namespace EnvelopeFacts

def callerIdHeader : Utf16 := ascii "decisya-caller-id"

def maxCallerIdLength : Nat := 128

def tryReadTenant (text : Option Utf16) : Except EnvelopeRefusalReason TenantId :=
  match text with
  | none => .error .missing
  | some [] => .error .missing
  | some (c :: cs) =>
    match TenantId.tryParse (c :: cs) with
    | none => .error .malformed
    | some parsed => if parsed.toText = c :: cs then .ok parsed else .error .malformed

def isAcceptableCallerId (callerId : Option Utf16) : Bool :=
  match callerId with
  | none => false
  | some [] => false
  | some (c :: cs) =>
    if maxCallerIdLength < (c :: cs).length then false
    else if isWhiteSpaceUnit c || isWhiteSpaceUnit ((c :: cs).getLast (List.cons_ne_nil c cs)) then
      false
    else (c :: cs).all fun x => !isControlUnit x

def tryReadCaller (envelope : Envelope) : Option Utf16 :=
  match envelope.headers with
  | none => none
  | some headers =>
    match headers.tryGetValue callerIdHeader with
    | some (some value) => if isAcceptableCallerId (some value) then some value else none
    | _ => none

end EnvelopeFacts

/-! ## Stamping -/

inductive StampException where
  | noAmbient
  | callerNotSet
  deriving DecidableEq

/-- `EnvelopeTenantStamp.Stamp`, with the caller's options or none. -/
def stamp (caller : RequestCaller) (options : Option DeliveryOptions) :
    Except StampException DeliveryOptions :=
  match caller.resolution with
  | .tenant t =>
    let options := options.getD ⟨none, []⟩
    match caller.userId with
    | none => .error .callerNotSet
    | some userId =>
      .ok ⟨some t.val.toText, options.headers.insert EnvelopeFacts.callerIdHeader (some userId)⟩
  | _ => .error .noAmbient

/-! ## The receiving middleware -/

/-- A refusal stops the message and logs its reason. -/
inductive HandlerContinuation where
  | continues
  | stop (reason : EnvelopeRefusalReason)
  deriving DecidableEq

inductive BeforeException where
  | uninitializedTenant
  | set (e : SetException)
  deriving DecidableEq

section Middleware
variable (digest : Utf16 → Utf16)

/-- The scope while the handler runs. -/
def handlingScope (scope : Scope) (caller : RequestCaller) (tenant : TenantId) (callerId : Utf16) :
    Scope :=
  let enrichment := begin digest scope.enrichment (some tenant.toText) (some callerId)
  ⟨caller, enrichment.1, some enrichment.2⟩

/-- `EnvelopeTenantMiddleware.Before`. -/
def before (scope : Scope) (envelope : Envelope) :
    Except BeforeException (HandlerContinuation × Scope) :=
  match EnvelopeFacts.tryReadTenant envelope.tenantId with
  | .error reason => .ok (.stop reason, scope)
  | .ok tenant =>
    match EnvelopeFacts.tryReadCaller envelope with
    | none => .ok (.stop .noCaller, scope)
    | some callerId =>
      if h : tenant.isInitialized = true then
        let resolution := TenantResolution.tenant ⟨tenant, h⟩
        if scope.caller.resolution = .invalid then
          match scope.caller.set resolution callerId false false with
          | .error e => .error (.set e)
          | .ok caller => .ok (.continues, handlingScope digest scope caller tenant callerId)
        else if scope.caller.resolution ≠ resolution ∨ scope.caller.userId ≠ some callerId ∨
            scope.caller.isPlatformAdmin = true ∨ scope.caller.hasMfaLevel = true then
          .ok (.stop .malformed, scope)
        else .ok (.continues, handlingScope digest scope scope.caller tenant callerId)
      else .error .uninitializedTenant

/-- `EnvelopeTenantMiddleware.Finally`. -/
def disposeFinally (scope : Scope) : Scope :=
  match scope.enrichmentScope with
  | none => scope
  | some handle =>
    { scope with enrichment := handle.dispose scope.enrichment, enrichmentScope := none }

/-- One envelope in a scope: before it, while it is handled, and after it. -/
structure Pass where
  start : Scope
  envelope : Envelope
  continuation : HandlerContinuation
  handling : Scope
  finish : Scope
  deriving DecidableEq

def pass (scope : Scope) (envelope : Envelope) : Except BeforeException Pass :=
  match before digest scope envelope with
  | .error e => .error e
  | .ok (continuation, handling) =>
    .ok ⟨scope, envelope, continuation, handling, disposeFinally handling⟩

def passAll (scope : Scope) : List Envelope → Except BeforeException (List Pass)
  | [] => .ok []
  | envelope :: envelopes =>
    match pass digest scope envelope with
    | .error e => .error e
    | .ok p =>
      match passAll p.finish envelopes with
      | .error e => .error e
      | .ok passes => .ok (p :: passes)

end Middleware

/-! ## What the reader accepts -/

theorem EnvelopeFacts.tryReadTenant_eq_ok {text : Option Utf16} {tenant : TenantId} :
    tryReadTenant text = .ok tenant ↔ tenant.isInitialized = true ∧ text = some tenant.toText := by
  constructor
  · intro h
    unfold tryReadTenant at h
    split at h
    · cases h
    · cases h
    · split at h
      · cases h
      · rename_i parsed hparse
        split at h
        · rename_i htext
          cases h
          exact ⟨TenantId.isInitialized_of_tryParse hparse, congrArg some htext.symm⟩
        · cases h
  · intro h
    obtain ⟨hinit, rfl⟩ := h
    have hparse := TenantId.tryParse_toText hinit
    have hlen : tenant.toText.length = TenantId.canonicalLength := by
      rw [TenantId.toText, if_pos hinit, Guid.length_toText]
    cases htext : tenant.toText with
    | nil =>
      rw [htext] at hlen
      exact absurd hlen (by decide)
    | cons c cs =>
      rw [htext] at hparse
      simp [tryReadTenant, hparse, htext]

/-- What a caller id must look like to be read back. -/
structure CarriesAsCallerId (subject : Utf16) : Prop where
  nonempty : subject ≠ []
  length_le : subject.length ≤ EnvelopeFacts.maxCallerIdLength
  head_visible : ∀ c ∈ subject.head?, isWhiteSpaceUnit c = false
  last_visible : ∀ c ∈ subject.getLast?, isWhiteSpaceUnit c = false
  no_control : ∀ c ∈ subject, isControlUnit c = false

theorem EnvelopeFacts.isAcceptableCallerId_iff {subject : Utf16} :
    isAcceptableCallerId (some subject) = true ↔ CarriesAsCallerId subject := by
  cases subject with
  | nil =>
    constructor
    · intro h
      exact absurd h Bool.false_ne_true
    · intro h
      exact absurd rfl h.nonempty
  | cons c cs =>
    have hlast : (c :: cs).getLast? = some ((c :: cs).getLast (List.cons_ne_nil c cs)) :=
      List.getLast?_eq_some_getLast _
    simp only [isAcceptableCallerId]
    constructor
    · intro h
      split at h
      · exact absurd h Bool.false_ne_true
      · rename_i hlen
        split at h
        · exact absurd h Bool.false_ne_true
        · rename_i hends
          rw [Bool.or_eq_true, not_or] at hends
          refine ⟨List.cons_ne_nil c cs, by omega, ?_, ?_, ?_⟩
          · intro x hx
            cases hx
            exact Bool.eq_false_iff.mpr hends.1
          · intro x hx
            rw [hlast] at hx
            cases hx
            exact Bool.eq_false_iff.mpr hends.2
          · intro x hx
            simpa using List.all_eq_true.mp h x hx
    · intro h
      have hhead := h.head_visible c rfl
      have hend := h.last_visible _ hlast
      rw [if_neg (Nat.not_lt.mpr h.length_le), hhead, hend, if_neg (by simp), List.all_eq_true]
      intro x hx
      simpa using h.no_control x hx

theorem EnvelopeFacts.tryReadCaller_eq_some {envelope : Envelope} {callerId : Utf16} :
    tryReadCaller envelope = some callerId ↔ ∃ headers, envelope.headers = some headers ∧
      headers.tryGetValue callerIdHeader = some (some callerId) ∧ CarriesAsCallerId callerId := by
  unfold tryReadCaller
  constructor
  · intro h
    split at h
    · cases h
    · rename_i headers hheaders
      split at h
      · rename_i value hvalue
        split at h
        · rename_i hok
          cases h
          exact ⟨headers, hheaders, hvalue, isAcceptableCallerId_iff.mp hok⟩
        · cases h
      · cases h
  · intro h
    obtain ⟨headers, hheaders, hvalue, hok⟩ := h
    rw [hheaders]
    simp only [hvalue, if_pos (isAcceptableCallerId_iff.mpr hok)]

theorem CarriesAsCallerId.not_blank {subject : Utf16} (h : CarriesAsCallerId subject) :
    isBlank subject = false := by
  cases subject with
  | nil => exact absurd rfl h.nonempty
  | cons c cs => exact not_isBlank_of_head (h.head_visible c rfl)

/-! ## The send side and the receive side -/

section Stamp
variable (digest : Utf16 → Utf16)

/-- A message sent from the scope of a request reads back, in a fresh message scope, as the
sender's tenant and caller. -/
def ReadsBack (principal : ClaimsPrincipal) (tenant : TenantId) (userId : Utf16)
    (options : Option DeliveryOptions) (requestLog messageLog : Option Values) : Prop :=
  ∃ scope stamped handling,
    callerContext digest (some principal) (Scope.start requestLog) = .next scope ∧
    stamp scope.caller options = .ok stamped ∧
    EnvelopeFacts.tryReadTenant stamped.tenantId = .ok tenant ∧
    EnvelopeFacts.tryReadCaller stamped.envelope = some userId ∧
    before digest (Scope.start messageLog) stamped.envelope = .ok (.continues, handling)

theorem stamp_populated (t : {t : TenantId // t.isInitialized = true}) (userId : Utf16)
    (isPlatformAdmin hasMfaLevel : Bool) (options : Option DeliveryOptions) :
    stamp (.populated (.tenant t) userId isPlatformAdmin hasMfaLevel) options =
      .ok ⟨some t.val.toText,
        (options.getD ⟨none, []⟩).headers.insert EnvelopeFacts.callerIdHeader (some userId)⟩ := rfl

/-- A fresh message scope takes up the tenant and the caller of an envelope it can read. -/
theorem before_fresh {envelope : Envelope} {tenant : TenantId} {callerId : Utf16}
    (htenant : EnvelopeFacts.tryReadTenant envelope.tenantId = .ok tenant)
    (hcaller : EnvelopeFacts.tryReadCaller envelope = some callerId) (log : Option Values) :
    ∃ handling, before digest (Scope.start log) envelope = .ok (.continues, handling) := by
  have hinit := (EnvelopeFacts.tryReadTenant_eq_ok.mp htenant).1
  obtain ⟨_, -, -, hcarries⟩ := EnvelopeFacts.tryReadCaller_eq_some.mp hcaller
  have hset := RequestCaller.set_eq_ok.mpr ⟨hcarries.not_blank, (rfl : RequestCaller.fresh.isSet = false),
    (rfl : RequestCaller.populated (.tenant ⟨tenant, hinit⟩) callerId false false = _)⟩
  refine ⟨handlingScope digest (Scope.start log) (.populated (.tenant ⟨tenant, hinit⟩) callerId false false)
    tenant callerId, ?_⟩
  simp only [before, htenant, hcaller, dif_pos hinit]
  rw [if_pos (show (Scope.start log).caller.resolution = .invalid from rfl),
    show (Scope.start log).caller = .fresh from rfl, hset]

/-- The two ends agree exactly on the subjects that look like a caller id. -/
theorem sent_message_reads_back_iff {principal : ClaimsPrincipal} {identity : CallerIdentity}
    {t : {t : TenantId // t.isInitialized = true}}
    (hid : CallerIdentity.fromPrincipal principal = some identity)
    (ht : TenantResolution.fromClaim identity.tenantId = .tenant t)
    (options : Option DeliveryOptions) (requestLog messageLog : Option Values) :
    ReadsBack digest principal t.val identity.userId options requestLog messageLog ↔
      CarriesAsCallerId identity.userId := by
  have hnext := callerContext_tenant digest hid ht requestLog
  have hstamp := stamp_populated t identity.userId (identity.hasPlatformAdminRole && false)
    identity.hasMfaLevel options
  constructor
  · intro h
    obtain ⟨scope, stamped, _, hscope, -, -, hcaller, -⟩ := h
    obtain ⟨_, -, -, hcarries⟩ := EnvelopeFacts.tryReadCaller_eq_some.mp hcaller
    exact hcarries
  · intro h
    let stamped : DeliveryOptions := ⟨some t.val.toText,
      (options.getD ⟨none, []⟩).headers.insert EnvelopeFacts.callerIdHeader (some identity.userId)⟩
    have htenant : EnvelopeFacts.tryReadTenant stamped.envelope.tenantId = .ok t.val :=
      EnvelopeFacts.tryReadTenant_eq_ok.mpr ⟨t.property, rfl⟩
    have hcaller : EnvelopeFacts.tryReadCaller stamped.envelope = some identity.userId :=
      EnvelopeFacts.tryReadCaller_eq_some.mpr ⟨_, rfl, Headers.tryGetValue_insert _ _ _, h⟩
    obtain ⟨handling, hbefore⟩ := before_fresh digest htenant hcaller messageLog
    exact ⟨_, stamped, handling, hnext, hstamp, htenant, hcaller, hbefore⟩

/-! ### One subject that reads back and one that does not -/

def sampleTenant : Utf16 := ascii "0192f0c1-7e5a-7b3c-8d4e-5f6a7b8c9d0e"

def samplePrincipal (subject : String) : ClaimsPrincipal :=
  [⟨ascii "sub", ascii subject, stringValueType⟩, ⟨ascii "tenant_id", sampleTenant, stringValueType⟩]

/-- The identity the claims give, with the tenant they resolve to. -/
def sampleIdentity (subject : String) : CallerIdentity :=
  ⟨ascii subject, some sampleTenant, false, false⟩

def sampleEnvelope (callerId : String) : Envelope :=
  ⟨some sampleTenant, some [(EnvelopeFacts.callerIdHeader, some (ascii callerId))]⟩

theorem sample_fromClaim : ∃ t, TenantResolution.fromClaim (some sampleTenant) = .tenant t := by
  cases h : TenantResolution.fromClaim (some sampleTenant) with
  | tenant t => exact ⟨t, rfl⟩
  | invalid => exact absurd h (by decide +kernel)
  | none => exact absurd h (by decide +kernel)

theorem padded_subject_refused :
    ∃ t, CallerIdentity.fromPrincipal (samplePrincipal " user-1") = some (sampleIdentity " user-1") ∧
      TenantResolution.fromClaim (sampleIdentity " user-1").tenantId = .tenant t ∧
      ¬ ReadsBack id (samplePrincipal " user-1") t.val (ascii " user-1") none none none := by
  obtain ⟨t, ht⟩ := sample_fromClaim
  refine ⟨t, by decide +kernel, ht, ?_⟩
  intro h
  obtain ⟨scope, stamped, _, hscope, hstamp, -, hcaller, -⟩ := h
  obtain ⟨_, -, -, hcarries⟩ := EnvelopeFacts.tryReadCaller_eq_some.mp hcaller
  exact absurd (hcarries.head_visible 0x20 rfl) (by decide)

theorem plain_subject_reads_back :
    ∃ t, TenantResolution.fromClaim (sampleIdentity "user-1").tenantId = .tenant t ∧
      ReadsBack id (samplePrincipal "user-1") t.val (ascii "user-1") none none none := by
  obtain ⟨t, ht⟩ := sample_fromClaim
  refine ⟨t, ht, ?_⟩
  have hid : CallerIdentity.fromPrincipal (samplePrincipal "user-1") =
      some (sampleIdentity "user-1") := by decide +kernel
  apply (sent_message_reads_back_iff id hid ht none none none).mpr
  exact EnvelopeFacts.isAcceptableCallerId_iff.mp (by decide +kernel)

end Stamp

end Decisya.Api
