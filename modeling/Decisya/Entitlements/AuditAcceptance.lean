import Decisya.Entitlements.Columns

/-!
# Commands that can be audited

A handler and the audit writer check the same things with different code: the feature key by a
loop and by a regular expression, the actor with a bound on the length and without.
-/

namespace Decisya.Entitlements

open Text Tenancy Concurrency

set_option autoImplicit false

/-! ## Feature keys -/

abbrev dot : UInt16 := 0x2E

theorem isTail_of_isLower {c : UInt16} (h : FeatureKey.isLower c = true) :
    FeatureKey.isTail c = true := by
  unfold FeatureKey.isTail
  rw [h]
  rfl

theorem ne_dot_of_isTail {c : UInt16} (h : FeatureKey.isTail c = true) : c ≠ dot := by
  rintro rfl
  exact absurd h (by decide)

/-- After the dot and a first letter. -/
theorem shapeFrom_tail (s : Utf16) : FeatureKey.shapeFrom 1 false s = s.all FeatureKey.isTail := by
  induction s with
  | nil => rfl
  | cons c s ih =>
    rw [FeatureKey.shapeFrom, List.all_cons, ih]
    split
    · rename_i hdot
      rw [hdot]
      rfl
    · rw [if_neg Bool.false_ne_true]
      split
      · rename_i htail
        rw [htail, Bool.true_and]
      · rename_i htail
        rw [Bool.not_eq_true] at htail
        rw [htail, Bool.false_and]

/-- After the dot. -/
theorem shapeFrom_second (s : Utf16) : FeatureKey.shapeFrom 1 true s = segmentShape s := by
  cases s with
  | nil => rfl
  | cons c s =>
    rw [FeatureKey.shapeFrom, segmentShape, shapeFrom_tail]
    split
    · rename_i hdot
      rw [hdot]
      rfl
    · rw [if_pos rfl]
      split
      · rename_i hlower
        rw [hlower, Bool.true_and]
      · rename_i hlower
        rw [Bool.not_eq_true] at hlower
        rw [hlower, Bool.false_and]

/-- Inside the first segment. -/
theorem shapeFrom_first (s : Utf16) : FeatureKey.shapeFrom 0 false s = true ↔
    ∃ a b, s = a ++ dot :: b ∧ a.all FeatureKey.isTail = true ∧ segmentShape b = true := by
  induction s with
  | nil =>
    refine iff_of_false (by decide) ?_
    rintro ⟨a, b, hnil, -⟩
    exact List.append_ne_nil_of_right_ne_nil a (List.cons_ne_nil dot b) hnil.symm
  | cons c s ih =>
    rw [FeatureKey.shapeFrom]
    split
    · rename_i hdot
      change FeatureKey.shapeFrom 1 true s = true ↔ _
      rw [shapeFrom_second]
      constructor
      · exact fun h => ⟨[], s, by rw [hdot]; rfl, rfl, h⟩
      · rintro ⟨a, b, heq, htail, hsegment⟩
        cases a with
        | nil =>
          rw [(List.cons.inj heq).2]
          exact hsegment
        | cons d a =>
          rw [List.all_cons, Bool.and_eq_true] at htail
          rw [(List.cons.inj heq).1] at hdot
          exact absurd hdot (ne_dot_of_isTail htail.1)
    · rename_i hdot
      rw [if_neg Bool.false_ne_true]
      split
      · rename_i htail
        rw [ih]
        constructor
        · rintro ⟨a, b, rfl, hall, hsegment⟩
          exact ⟨c :: a, b, rfl, by rw [List.all_cons, htail, hall]; rfl, hsegment⟩
        · rintro ⟨a, b, heq, hall, hsegment⟩
          cases a with
          | nil => exact absurd (List.cons.inj heq).1 hdot
          | cons d a =>
            rw [List.all_cons, Bool.and_eq_true] at hall
            exact ⟨a, b, (List.cons.inj heq).2, hall.2, hsegment⟩
      · rename_i htail
        refine iff_of_false Bool.false_ne_true ?_
        rintro ⟨a, b, heq, hall, -⟩
        cases a with
        | nil => exact hdot (List.cons.inj heq).1
        | cons d a =>
          rw [List.all_cons, Bool.and_eq_true] at hall
          rw [(List.cons.inj heq).1] at htail
          exact htail hall.1

theorem segment_of_shape {s : Utf16} (h : segmentShape s = true) : ∀ c ∈ s, (c == dot) = false := by
  cases s with
  | nil => simp
  | cons c s =>
    rw [segmentShape, Bool.and_eq_true] at h
    intro d hd
    rw [beq_eq_false_iff_ne]
    rcases List.mem_cons.mp hd with rfl | hd
    · exact ne_dot_of_isTail (isTail_of_isLower h.1)
    · exact ne_dot_of_isTail (List.all_eq_true.mp h.2 d hd)

/-- The regular expression: two segments with a dot between. -/
theorem featureKeyShape_iff (s : Utf16) : featureKeyShape s = true ↔
    ∃ a b, s = a ++ dot :: b ∧ segmentShape a = true ∧ segmentShape b = true := by
  constructor
  · intro h
    have hjoin : [dot].intercalate (s.splitOnP (· == 0x2E)) = s := List.intercalate_splitOn dot
    unfold featureKeyShape at h
    cases hpieces : s.splitOnP (· == 0x2E) with
    | nil =>
      rw [hpieces] at h
      cases h
    | cons a rest =>
      rw [hpieces] at h hjoin
      cases rest with
      | nil => cases h
      | cons b more =>
        cases more with
        | nil =>
          have hboth := (Bool.and_eq_true _ _).mp h
          refine ⟨a, b, ?_, hboth.1, hboth.2⟩
          rw [← hjoin]
          simp [List.intercalate]
        | cons c more => cases h
  · rintro ⟨a, b, rfl, ha, hb⟩
    have hsplit : (a ++ dot :: b).splitOnP (· == 0x2E) = [a, b] := by
      rw [List.splitOnP_append_cons_of_forall_mem (segment_of_shape ha) dot rfl,
        List.splitOnP_eq_singleton (segment_of_shape hb)]
    unfold featureKeyShape
    rw [hsplit]
    change (segmentShape a && segmentShape b) = true
    rw [ha, hb]
    rfl

/-- The loop and the regular expression, with its bound, accept the same strings. -/
theorem tryCreate_iff (s : Utf16) : (FeatureKey.tryCreate (some s)).isSome = true ↔
    s.length ≤ maxFeatureKeyLength ∧ featureKeyShape s = true := by
  have hcreate : (FeatureKey.tryCreate (some s)).isSome = true ↔
      FeatureKey.hasValidShape s = true := by
    unfold FeatureKey.tryCreate
    dsimp only
    split
    · rename_i hshape
      exact iff_of_true rfl hshape
    · rename_i hshape
      exact iff_of_false Bool.false_ne_true hshape
  rw [hcreate, featureKeyShape_iff]
  unfold FeatureKey.hasValidShape
  have hbound : FeatureKey.maxLength = maxFeatureKeyLength := rfl
  split
  · rename_i hlen
    refine iff_of_false Bool.false_ne_true ?_
    rintro ⟨hle, a, b, rfl, -, -⟩
    rw [List.length_append, List.length_cons] at hlen hle
    omega
  · rename_i hlen
    rw [and_iff_right (by omega)]
    cases s with
    | nil => exact absurd (Or.inl rfl) hlen
    | cons c s =>
      rw [FeatureKey.shapeFrom]
      split
      · rename_i hdot
        refine iff_of_false Bool.false_ne_true ?_
        rintro ⟨a, b, heq, ha, -⟩
        cases a with
        | nil => cases ha
        | cons d a =>
          have hd := segment_of_shape ha d List.mem_cons_self
          rw [← (List.cons.inj heq).1, hdot] at hd
          cases hd
      · rw [if_pos rfl]
        split
        · rename_i hlower
          rw [shapeFrom_first]
          constructor
          · rintro ⟨a, b, rfl, hall, hb⟩
            refine ⟨c :: a, b, rfl, ?_, hb⟩
            rw [segmentShape, hlower, hall]
            rfl
          · rintro ⟨a, b, heq, ha, hb⟩
            cases a with
            | nil => cases ha
            | cons d a =>
              rw [segmentShape, Bool.and_eq_true] at ha
              exact ⟨a, b, (List.cons.inj heq).2, ha.2, hb⟩
        · rename_i hlower
          refine iff_of_false Bool.false_ne_true ?_
          rintro ⟨a, b, heq, ha, -⟩
          cases a with
          | nil => cases ha
          | cons d a =>
            rw [segmentShape, Bool.and_eq_true] at ha
            rw [(List.cons.inj heq).1] at hlower
            exact hlower ha.1

/-! ## The audit writer -/

/-- What `handle` asks of the caller. -/
structure Admitted (caller : Api.RequestCaller) : Prop where
  tenantless : caller.resolution = .none
  admin : caller.isPlatformAdmin = true
  known : caller.userId.all isBlank = false

/-- The handler's own validation, at an instant of the clock. -/
def Command.passes (catalog : PlanCatalog) (t : Instant) : Command → Bool
  | .startTrial c => c.tenantId.isInitialized
  | .grantOverride c => (validated catalog c t).isSome
  | .revokeOverride c => c.tenantId.isInitialized && c.feature.isInitialized

/-- `AppendAsync` gets to its insert, of a record that the table takes. -/
def Appends (caller : Api.RequestCaller) (entry : AuditEntry) : Prop :=
  ∃ actor, caller.userId = some actor ∧ appendAudit caller entry = (do
      let occurredAt ← now
      let id ← newGuid
      saveChanges (.insert (.auditRecord ⟨id, entry, actor, occurredAt.stored⟩))) ∧
    ∀ id occurredAt, satisfies (.auditRecord ⟨id, entry, actor, occurredAt⟩) = true

/-- An actor with an identifier that the audit's column takes. -/
def Auditable (caller : Api.RequestCaller) : Prop :=
  ∃ actor, caller.userId = some actor ∧ actor.length ≤ maxActorLength ∧ Storable actor

section Audit
variable {catalog : PlanCatalog} {caller : Api.RequestCaller} {command : Command} {t : Instant}

/-- Who is admitted runs the command. -/
theorem handle_of_admitted (h : Admitted caller) :
    handle catalog caller command = executeCommand catalog caller command := by
  have hcaller : ¬ (caller.resolution ≠ .none ∨ caller.isPlatformAdmin = false) := by
    rintro (hne | hfalse)
    · exact hne h.tenantless
    · rw [h.admin] at hfalse
      cases hfalse
  unfold handle
  rw [if_neg hcaller, if_neg (by rw [h.known]; exact Bool.false_ne_true)]

theorem key_accepted {feature : FeatureKey} (h : feature.isInitialized = true) :
    feature.value.isNone = false ∧
      (feature.value.all fun key => decide (key.length ≤ maxFeatureKeyLength) && featureKeyShape key)
        = true ∧ feature.value.all (takesText maxFeatureKeyLength) = true := by
  unfold FeatureKey.isInitialized at h
  cases hvalue : feature.value with
  | none =>
    rw [hvalue] at h
    cases h
  | some key =>
    have hshape := feature.shaped key hvalue
    have hcreate : (FeatureKey.tryCreate (some key)).isSome = true := by
      unfold FeatureKey.tryCreate
      dsimp only
      rw [dif_pos hshape]
      rfl
    obtain ⟨hlen, hregex⟩ := (tryCreate_iff key).mp hcreate
    refine ⟨rfl, ?_, ?_⟩
    · rw [Option.all_some, decide_eq_true hlen, hregex]
      rfl
    · exact (takesText_iff hlen).mpr (storable_of_shape hshape).2

/-- The entry of a command that passes its handler's checks. -/
theorem entry_accepted (h : command.passes catalog t = true) :
    validateEntry command.auditEntry = true ∧
      command.auditEntry.featureKey.all (takesText maxFeatureKeyLength) = true ∧
      (decide (command.auditEntry.action = .trialStart) == command.auditEntry.featureKey.isNone)
        = true := by
  unfold validateEntry
  cases command with
  | startTrial c =>
    change c.tenantId.isInitialized = true at h
    refine ⟨?_, rfl, rfl⟩
    change (c.tenantId.isInitialized && _ && _) = true
    rw [h]
    rfl
  | grantOverride c =>
    obtain ⟨reason, hreason⟩ := Option.isSome_iff_exists.mp h
    have hvalid := validated_spec hreason
    obtain ⟨hsome, hshape, htext⟩ := key_accepted hvalid.feature
    change (c.tenantId.isInitialized && (false == c.feature.value.isNone) && _) = true ∧ _ ∧
      (false == c.feature.value.isNone) = true
    rw [hvalid.tenant, hsome]
    exact ⟨hshape, htext, rfl⟩
  | revokeOverride c =>
    change (c.tenantId.isInitialized && c.feature.isInitialized) = true at h
    rw [Bool.and_eq_true] at h
    obtain ⟨hsome, hshape, htext⟩ := key_accepted h.2
    change (c.tenantId.isInitialized && (false == c.feature.value.isNone) && _) = true ∧ _ ∧
      (false == c.feature.value.isNone) = true
    rw [h.1, hsome]
    exact ⟨hshape, htext, rfl⟩

/-- The column takes an actor that is not too long, and an actor that is not blank passes the check. -/
theorem record_satisfies_iff (h : command.passes catalog t = true) {actor : Utf16}
    (hblank : isBlank actor = false) (hlen : actor.length ≤ maxActorLength) :
    (∀ id occurredAt, satisfies (.auditRecord ⟨id, command.auditEntry, actor, occurredAt⟩) = true) ↔
      Storable actor := by
  obtain ⟨-, htext, hcheck⟩ := entry_accepted h
  have hspace : (actor.any fun c => c != 0x20) = true := by
    unfold isBlank at hblank
    rw [List.all_eq_false] at hblank
    obtain ⟨c, hc, hnot⟩ := hblank
    refine List.any_eq_true.mpr ⟨c, hc, bne_iff_ne.mpr ?_⟩
    rintro rfl
    exact hnot rfl
  have hrow : ∀ id occurredAt,
      satisfies (.auditRecord ⟨id, command.auditEntry, actor, occurredAt⟩) =
        takesText maxActorLength actor := by
    intro id occurredAt
    change (command.auditEntry.featureKey.all (takesText maxFeatureKeyLength) &&
      takesText maxActorLength actor && ((_ == command.auditEntry.featureKey.isNone) && _)) = _
    rw [htext, hcheck, hspace, Bool.true_and, Bool.true_and, Bool.and_true]
  rw [← takesText_iff hlen]
  constructor
  · intro hall
    rw [← hrow Guid.empty 0]
    exact hall _ _
  · intro htakes id occurredAt
    rw [hrow]
    exact htakes

/-- An admitted caller's command can be audited exactly if the audit takes the caller's name. -/
theorem appends_iff (hcaller : Admitted caller) (h : command.passes catalog t = true) :
    Appends caller command.auditEntry ↔ Auditable caller := by
  have hentry := (entry_accepted h).1
  have hambient : ambientAllows caller.resolution command.auditEntry.tenantId = true := by
    rw [hcaller.tenantless]
    rfl
  have hknown := hcaller.known
  cases huser : caller.userId with
  | none =>
    rw [huser] at hknown
    cases hknown
  | some actor =>
    rw [huser] at hknown
    have hblank : isBlank actor = false := hknown
    have hcode : appendAudit caller command.auditEntry =
        if maxActorLength < actor.length then .raise .other
        else (do
          let occurredAt ← now
          let id ← newGuid
          saveChanges (.insert (.auditRecord
            ⟨id, command.auditEntry, actor, occurredAt.stored⟩))) := by
      have hvalid : ¬ validateEntry command.auditEntry = false := by
        rw [hentry]
        exact fun hfalse => by cases hfalse
      have hallowed : ¬ ambientAllows caller.resolution command.auditEntry.tenantId = false := by
        rw [hambient]
        exact fun hfalse => by cases hfalse
      unfold appendAudit
      rw [if_neg hvalid, if_neg hallowed, huser]
      dsimp only
      rw [hblank, Bool.false_or]
      by_cases hlong : maxActorLength < actor.length
      · rw [if_pos hlong, if_pos (decide_eq_true hlong)]
      · rw [if_neg hlong, if_neg (by rw [decide_eq_false hlong]; exact Bool.false_ne_true)]
    constructor
    · rintro ⟨writer, hwriter, hinsert, hrow⟩
      rw [huser] at hwriter
      obtain rfl := Option.some.inj hwriter
      rw [hcode] at hinsert
      split at hinsert
      · cases hinsert
      · rename_i hshort
        have hlen := Nat.le_of_not_lt hshort
        exact ⟨actor, huser, hlen, (record_satisfies_iff h hblank hlen).mp hrow⟩
    · rintro ⟨writer, hwriter, hlen, hstorable⟩
      rw [huser] at hwriter
      obtain rfl := Option.some.inj hwriter
      refine ⟨actor, huser, ?_, (record_satisfies_iff h hblank hlen).mpr hstorable⟩
      rw [hcode, if_neg (Nat.not_lt_of_le hlen)]

end Audit

/-- Admitted commands that pass their checks can be audited exactly for the callers whose name
the audit takes, and the two checks of a feature key agree. -/
theorem command_audited_iff {catalog : PlanCatalog} {caller : Api.RequestCaller} {command : Command}
    {t : Instant} (hcaller : Admitted caller) (h : command.passes catalog t = true) :
    (Appends caller command.auditEntry ↔ Auditable caller) ∧
      ∀ s, (FeatureKey.tryCreate (some s)).isSome = true ↔
        s.length ≤ maxFeatureKeyLength ∧ featureKeyShape s = true :=
  ⟨appends_iff hcaller h, tryCreate_iff⟩

/-! ## A caller that no audit takes -/

/-- An administrator of this user id. -/
def adminSample (userId : Utf16) : Api.RequestCaller where
  isSet := true
  resolution := .none
  userId := some userId
  isPlatformAdmin := true
  hasMfaLevel := true
  unset h := by cases h
  admin_tenantless _ := rfl

def trialSample : Command := .startTrial ⟨tenantSample⟩

/-- 256 letters. -/
def longUserIdSample : Utf16 := List.replicate 256 0x61

theorem command_not_audited : ¬ ∀ (catalog : PlanCatalog) (caller : Api.RequestCaller)
    (command : Command) (t : Instant), Admitted caller → command.passes catalog t = true →
      Appends caller command.auditEntry := by
  intro hall
  have hadmitted : Admitted (adminSample longUserIdSample) := ⟨rfl, rfl, by decide⟩
  have happends := hall PlanCatalog.default _ trialSample 0 hadmitted (by decide)
  have haccepted := @appends_iff PlanCatalog.default _ trialSample 0 hadmitted (by decide)
  obtain ⟨actor, hactor, hlen, -⟩ := haccepted.mp happends
  have hlength : longUserIdSample.length = 256 := List.length_replicate
  rw [← Option.some.inj hactor, hlength] at hlen
  unfold maxActorLength at hlen
  omega

theorem command_audited_iff_sample :
    Appends (adminSample (ascii "admin")) trialSample.auditEntry ↔
      Auditable (adminSample (ascii "admin")) :=
  (@command_audited_iff PlanCatalog.default (adminSample (ascii "admin")) trialSample 0
    ⟨rfl, rfl, by decide⟩ (by decide)).1

end Decisya.Entitlements
