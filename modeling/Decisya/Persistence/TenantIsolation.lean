import Decisya.Persistence.TenantDbContext

/-!
# Isolation of a tenant-scoped context

The guard decides who may write a row, and the concurrency token confines each statement to
the rows of the tenant the guard compared with. A row written only through an entry of an
owned type is confined to the original tenant its owner claims, which nothing compared.
-/

namespace Decisya.Persistence

open Tenancy

set_option autoImplicit false

/-! ## Models that build -/

theorem configured_of_mapped {model : TenantModel} {type : MappedType} (h : type ∈ model.mapped) :
    ∃ entityType ∈ model.entityTypes, type = configure entityType ∧
      (entityType.isOwned = false → entityType.isTenantScoped = true) := by
  have hbuilt := model.built
  unfold onModelCreating at hbuilt
  split at hbuilt
  · cases hbuilt
  · rename_i hunscoped
    split at hbuilt
    · cases hbuilt
    · injection hbuilt with hmapped
      rw [← hmapped] at h
      obtain ⟨entityType, hmem, rfl⟩ := List.mem_map.mp h
      refine ⟨entityType, hmem, rfl, fun howned => ?_⟩
      by_contra hscoped
      apply hunscoped
      apply List.ne_nil_of_mem (a := entityType)
      simp [unscopedTypes, hmem, howned, Bool.eq_false_iff.mpr hscoped]

theorem configure_isOwned (entityType : EntityType) :
    (configure entityType).entityType = entityType := by
  unfold configure
  split <;> rfl

/-- Every type that is not owned carries the tenant in its statements. -/
theorem token_eq {model : TenantModel} {type : MappedType} (h : type ∈ model.mapped)
    (howned : type.entityType.isOwned = false) (tenant : TenantValues) :
    type.token tenant = some tenant.original := by
  obtain ⟨entityType, -, rfl, -⟩ := configured_of_mapped h
  rw [configure_isOwned] at howned
  simp [MappedType.token, configure, howned]

theorem hasTenantFilter_eq {model : TenantModel} {type : MappedType} (h : type ∈ model.mapped)
    (howned : type.entityType.isOwned = false) (hroot : type.entityType.isRoot = true) :
    type.hasTenantFilter = true := by
  obtain ⟨entityType, -, rfl, -⟩ := configured_of_mapped h
  rw [configure_isOwned] at howned hroot
  simp [configure, howned, hroot]

/-! ## What the guard lets through -/

/-- The table of the guard, read for one entry. -/
structure EntityEntry.Allowed (resolution : TenantResolution) (entry : EntityEntry) : Prop where
  added : ∀ values ∈ entry.tenant, entry.state = .added → resolution.tenantId? = some values.current
  existing : ∀ values ∈ entry.tenant, entry.state = .modified ∨ entry.state = .deleted →
    resolution.tenantId? = some values.original
  unmoved : ∀ values ∈ entry.tenant, entry.state = .modified → values.current = values.original

theorem checkEntry_eq_ok {resolution : TenantResolution} (hvalid : resolution ≠ .invalid)
    {entry : EntityEntry} : checkEntry resolution entry = .ok () ↔ entry.Allowed resolution := by
  obtain ⟨typeName, state, tenant, dataChanged⟩ := entry
  cases tenant with
  | none =>
    refine ⟨fun _ => ⟨?_, ?_, ?_⟩, fun _ => rfl⟩ <;> intro values hvalues <;> cases hvalues
  | some values =>
    cases resolution with
    | invalid => exact absurd rfl hvalid
    | none =>
      constructor
      · intro h
        cases state with
        | unchanged =>
          refine ⟨?_, ?_, ?_⟩ <;> intro _ _ hstate <;> simp at hstate
        | added | modified | deleted => cases h
      · intro h
        cases state with
        | unchanged => rfl
        | added => cases h.added values rfl rfl
        | modified => cases h.existing values rfl (.inl rfl)
        | deleted => cases h.existing values rfl (.inr rfl)
    | tenant t =>
      have hres : (TenantResolution.tenant t).tenantId? = some t.val := rfl
      cases state with
      | unchanged =>
        refine ⟨fun _ => ⟨?_, ?_, ?_⟩, fun _ => rfl⟩ <;> intro _ _ hstate <;> simp at hstate
      | added =>
        constructor
        · intro h
          refine ⟨?_, ?_, ?_⟩ <;> intro v hv hstate
          · cases hv
            by_contra hne
            have hne' : values.current ≠ t.val := fun heq => hne (congrArg some heq.symm)
            by_cases hinit : values.current.isInitialized = false
            · simp [checkEntry, EntityState.isWritten, hinit] at h
            · simp [checkEntry, EntityState.isWritten, hne'] at h
              split at h <;> cases h
          · simp at hstate
          · cases hstate
        · intro h
          have hcurrent : t.val = values.current := Option.some.inj (h.added values rfl rfl)
          simp [checkEntry, EntityState.isWritten, ← hcurrent, t.property]
      | modified =>
        constructor
        · intro h
          refine ⟨?_, ?_, ?_⟩ <;> intro v hv hstate
          · cases hstate
          · cases hv
            by_contra hne
            have hne' : values.original ≠ t.val := fun heq => hne (congrArg some heq.symm)
            simp [checkEntry, EntityState.isWritten, hne'] at h
          · cases hv
            by_contra hne
            by_cases horig : values.original = t.val
            · have hne' : values.current ≠ t.val := by rwa [horig] at hne
              simp [checkEntry, EntityState.isWritten, horig, hne'] at h
            · simp [checkEntry, EntityState.isWritten, horig] at h
        · intro h
          have horig : t.val = values.original := Option.some.inj (h.existing values rfl (.inl rfl))
          have hcurrent := h.unmoved values rfl rfl
          simp [checkEntry, EntityState.isWritten, hcurrent, ← horig]
      | deleted =>
        constructor
        · intro h
          refine ⟨?_, ?_, ?_⟩ <;> intro v hv hstate
          · cases hstate
          · cases hv
            by_contra hne
            have hne' : values.original ≠ t.val := fun heq => hne (congrArg some heq.symm)
            simp [checkEntry, EntityState.isWritten, hne'] at h
          · cases hstate
        · intro h
          have horig : t.val = values.original := Option.some.inj (h.existing values rfl (.inr rfl))
          simp [checkEntry, EntityState.isWritten, ← horig]

theorem checkEntries_eq_ok {resolution : TenantResolution} (hvalid : resolution ≠ .invalid)
    {entries : List EntityEntry} :
    checkEntries resolution entries = .ok () ↔ ∀ e ∈ entries, e.Allowed resolution := by
  induction entries with
  | nil => simp [checkEntries]
  | cons entry entries ih =>
    rw [List.forall_mem_cons, ← checkEntry_eq_ok hvalid, ← ih, checkEntries]
    cases checkEntry resolution entry with
    | ok => simp
    | error e => simp

section Tracker
variable {κ ν : Type}

theorem enforce_eq_ok {resolution : TenantResolution} {model : TenantModel}
    {tracker : ChangeTracker model κ ν} :
    enforceTenantIsolation resolution tracker = .ok () ↔
      resolution ≠ .invalid ∧ ∀ e ∈ tracker.entries, e.Allowed resolution := by
  unfold enforceTenantIsolation
  by_cases hvalid : resolution = .invalid
  · simp [hvalid]
  · rw [if_neg hvalid, checkEntries_eq_ok hvalid]
    simp [hvalid]

/-! ## Statements confined to one tenant -/

/-- The row, if there is one, is the tenant's. -/
def BelongsTo (tenant : Option TenantId) (row : Option (Row ν)) : Prop :=
  ∀ r ∈ row, tenant = some r.tenant

def Statement.key : Statement κ ν → κ
  | .insert key _ => key
  | .update key _ _ _ => key
  | .delete key _ => key

/-- A statement that reaches no row of another tenant and leaves none to another tenant. -/
def Statement.Confined (ambient : Option TenantId) : Statement κ ν → Prop
  | .insert _ row => ambient = some row.tenant
  | .update _ tenant newTenant _ =>
    (∃ t, tenant = some t ∧ ambient = some t) ∧ ∀ t ∈ newTenant, ambient = some t
  | .delete _ tenant => ∃ t, tenant = some t ∧ ambient = some t

theorem TrackedRow.statement_key {row : TrackedRow κ ν} {statement : Statement κ ν}
    (h : row.statement = some statement) : statement.key = row.key := by
  unfold TrackedRow.statement at h
  split at h
  · split at h <;> cases h <;> rfl
  · cases h
    rfl
  · cases h
    rfl
  · split at h
    · cases h
      rfl
    · cases h

/-- A row whose owner is not written while one of its owned entries is. -/
def TrackedRow.WrittenByOwnedOnly (row : TrackedRow κ ν) : Prop :=
  row.ownerEntry.state = .unchanged ∧ ∃ e ∈ row.ownedEntries, e.state ≠ .unchanged

theorem TrackedRow.ownerEntry_tenant (row : TrackedRow κ ν) :
    row.ownerEntry.tenant = some row.tenant := by
  unfold ownerEntry EntityEntry.detectChanges
  split <;> rfl

section Tracked
variable {resolution : TenantResolution} {model : TenantModel} {tracker : ChangeTracker model κ ν}
  {row : TrackedRow κ ν}

theorem TrackedRow.confined (hrow : row ∈ tracker.rows)
    (hallowed : ∀ e ∈ row.entries, e.Allowed resolution)
    (howned : row.WrittenByOwnedOnly → resolution.tenantId? = some row.tenant.original)
    {statement : Statement κ ν} (h : row.statement = some statement) :
    statement.Confined resolution.tenantId? := by
  have hmapped := tracker.mapped row hrow
  have htoken : ∀ tenant, row.type.token tenant = some tenant.original := token_eq hmapped.1 hmapped.2
  have howner : row.ownerEntry.Allowed resolution := hallowed _ (by simp [TrackedRow.entries])
  have htenant := row.ownerEntry_tenant
  unfold TrackedRow.statement at h
  split at h
  · rename_i hstate
    have hcurrent := howner.added row.tenant htenant hstate
    split at h
    · cases h
      exact hcurrent
    · -- The added entry takes the row of a deleted one.
      rename_i replaced hreplaced
      cases h
      have hdeleted : EntityEntry.Allowed resolution
          ⟨row.type.entityType.name, .deleted, some replaced, false⟩ :=
        hallowed _ (by simp [TrackedRow.entries, TrackedRow.replacedEntry, hreplaced])
      refine ⟨⟨replaced.original, htoken replaced, hdeleted.existing replaced rfl (.inr rfl)⟩, ?_⟩
      intro t ht
      cases ht
      exact hcurrent
  · rename_i hstate
    cases h
    exact ⟨_, htoken row.tenant, howner.existing row.tenant htenant (.inr hstate)⟩
  · rename_i hstate
    cases h
    have horiginal := howner.existing row.tenant htenant (.inl hstate)
    refine ⟨⟨_, htoken row.tenant, horiginal⟩, ?_⟩
    intro t ht
    cases ht
    rw [howner.unmoved row.tenant htenant hstate]
    exact horiginal
  · rename_i hstate
    split at h
    · rename_i hany
      cases h
      obtain ⟨e, he, hwritten⟩ := List.any_eq_true.mp hany
      have hne : e.state ≠ .unchanged := by simpa [EntityState.isWritten] using hwritten
      refine ⟨⟨_, htoken row.tenant, howned ⟨hstate, e, he, hne⟩⟩, ?_⟩
      intro t ht
      cases ht
    · cases h

end Tracked

section Run
variable [DecidableEq κ] {ambient : Option TenantId}

theorem Statement.run_ne {statement : Statement κ ν} {db db' : Database κ ν}
    (h : statement.run db = .ok db') {key : κ} (hne : key ≠ statement.key) : db' key = db key := by
  cases statement with
  | insert k row =>
    simp only [Statement.run] at h
    split at h
    · cases h
    · cases h
      exact Function.update_of_ne hne _ _
  | update k tenant newTenant assign =>
    simp only [Statement.run] at h
    split at h
    · cases h
    · split at h
      · cases h
        exact Function.update_of_ne hne _ _
      · cases h
  | delete k tenant =>
    simp only [Statement.run] at h
    split at h
    · cases h
    · split at h
      · cases h
        exact Function.update_of_ne hne _ _
      · cases h

theorem Row.tenant_of_matches {row : Row ν} {t : TenantId}
    (h : row.matchesTenant (some t) = true) : row.tenant = t := by
  simpa [Row.matchesTenant] using h

/-- The row a confined statement writes is the tenant's before and after. -/
theorem Statement.run_key {statement : Statement κ ν} {db db' : Database κ ν}
    (h : statement.run db = .ok db') (hconfined : statement.Confined ambient) :
    BelongsTo ambient (db statement.key) ∧ BelongsTo ambient (db' statement.key) := by
  cases statement with
  | insert k row =>
    simp only [Statement.run] at h
    split at h
    · cases h
    · rename_i hnone
      cases h
      refine ⟨?_, ?_⟩
      · intro r hr
        simp [Statement.key, hnone] at hr
      · intro r hr
        simp only [Statement.key, Function.update_self, Option.mem_def, Option.some.injEq] at hr
        rw [← hr]
        exact hconfined
  | update k tenant newTenant assign =>
    obtain ⟨⟨t, rfl, ht⟩, hnew⟩ := hconfined
    simp only [Statement.run] at h
    split at h
    · cases h
    · rename_i row hrow
      split at h
      · rename_i hmatch
        cases h
        have htenant := Row.tenant_of_matches hmatch
        refine ⟨?_, ?_⟩
        · intro r hr
          simp only [Statement.key, hrow, Option.mem_def, Option.some.injEq] at hr
          rw [← hr, htenant]
          exact ht
        · intro r hr
          simp only [Statement.key, Function.update_self, Option.mem_def, Option.some.injEq] at hr
          rw [← hr]
          cases newTenant with
          | none =>
            simp only [Option.getD_none, htenant]
            exact ht
          | some t' => exact hnew t' rfl
      · cases h
  | delete k tenant =>
    obtain ⟨t, rfl, ht⟩ := hconfined
    simp only [Statement.run] at h
    split at h
    · cases h
    · rename_i row hrow
      split at h
      · rename_i hmatch
        cases h
        have htenant := Row.tenant_of_matches hmatch
        refine ⟨?_, ?_⟩
        · intro r hr
          simp only [Statement.key, hrow, Option.mem_def, Option.some.injEq] at hr
          rw [← hr, htenant]
          exact ht
        · intro r hr
          simp [Statement.key] at hr
      · cases h

theorem runStatements_ne {statements : List (Statement κ ν)} {db db' : Database κ ν}
    (h : runStatements db statements = .ok db') {key : κ}
    (hkey : key ∉ statements.map Statement.key) : db' key = db key := by
  induction statements generalizing db with
  | nil =>
    cases h
    rfl
  | cons statement statements ih =>
    simp only [List.map_cons, List.mem_cons, not_or] at hkey
    simp only [runStatements] at h
    split at h
    · cases h
    · rename_i mid hmid
      rw [ih h hkey.2, Statement.run_ne hmid hkey.1]

theorem runStatements_key {statements : List (Statement κ ν)} {db db' : Database κ ν}
    (h : runStatements db statements = .ok db')
    (hconfined : ∀ s ∈ statements, s.Confined ambient) {key : κ}
    (hkey : key ∈ statements.map Statement.key) :
    BelongsTo ambient (db key) ∧ BelongsTo ambient (db' key) := by
  induction statements generalizing db with
  | nil => cases hkey
  | cons statement statements ih =>
    simp only [runStatements] at h
    split at h
    · cases h
    · rename_i mid hmid
      have hhead := Statement.run_key hmid (hconfined statement List.mem_cons_self)
      have htail : ∀ s ∈ statements, s.Confined ambient :=
        fun s hs => hconfined s (List.mem_cons_of_mem statement hs)
      by_cases hin : key ∈ statements.map Statement.key
      · have hrest := ih h htail hin
        by_cases heq : key = statement.key
        · subst heq
          exact ⟨hhead.1, hrest.2⟩
        · rw [Statement.run_ne hmid heq] at hrest
          exact hrest
      · have heq : key = statement.key := by
          rw [List.map_cons, List.mem_cons] at hkey
          exact hkey.resolve_right hin
        subst heq
        rw [runStatements_ne h hin]
        exact hhead

/-! ## A database the tracked statements fit -/

/-- The statement finds what it needs at its key. -/
def Statement.Applies (statement : Statement κ ν) (row : Option (Row ν)) : Prop :=
  match statement with
  | .insert _ _ => row = none
  | .update _ tenant _ _ => ∃ r, row = some r ∧ r.matchesTenant tenant = true
  | .delete _ tenant => ∃ r, row = some r ∧ r.matchesTenant tenant = true

theorem Statement.run_of_applies {statement : Statement κ ν} {db : Database κ ν}
    (h : statement.Applies (db statement.key)) : ∃ db', statement.run db = .ok db' := by
  cases statement with
  | insert k row =>
    simp only [Statement.Applies, Statement.key] at h
    exact ⟨_, by simp only [Statement.run, h]; rfl⟩
  | update k tenant newTenant assign =>
    obtain ⟨r, hr, hmatch⟩ := h
    simp only [Statement.key] at hr
    exact ⟨_, by simp only [Statement.run, hr, hmatch, if_true]; rfl⟩
  | delete k tenant =>
    obtain ⟨r, hr, hmatch⟩ := h
    simp only [Statement.key] at hr
    exact ⟨_, by simp only [Statement.run, hr, hmatch, if_true]; rfl⟩

theorem runStatements_of_applies {statements : List (Statement κ ν)} {db : Database κ ν}
    (hkeys : (statements.map Statement.key).Nodup)
    (h : ∀ s ∈ statements, s.Applies (db s.key)) : ∃ db', runStatements db statements = .ok db' := by
  induction statements generalizing db with
  | nil => exact ⟨db, rfl⟩
  | cons statement statements ih =>
    rw [List.map_cons, List.nodup_cons] at hkeys
    obtain ⟨mid, hmid⟩ := Statement.run_of_applies (h statement List.mem_cons_self)
    have hrest : ∀ s ∈ statements, s.Applies (mid s.key) := by
      intro s hs
      have hne : s.key ≠ statement.key :=
        fun heq => hkeys.1 (heq ▸ List.mem_map_of_mem hs)
      rw [Statement.run_ne hmid hne]
      exact h s (List.mem_cons_of_mem statement hs)
    obtain ⟨db', hdb'⟩ := ih hkeys.2 hrest
    exact ⟨db', by simp only [runStatements, hmid, hdb']⟩

/-- The row a statement fits, with some data. -/
def Statement.fitting (statement : Statement κ ν) (fallback : TenantId) (data : ν) : Option (Row ν) :=
  match statement with
  | .insert _ _ => none
  | .update _ tenant _ _ => some ⟨tenant.getD fallback, data⟩
  | .delete _ tenant => some ⟨tenant.getD fallback, data⟩

omit [DecidableEq κ] in
theorem Statement.applies_fitting (statement : Statement κ ν) (fallback : TenantId) (data : ν) :
    statement.Applies (statement.fitting fallback data) := by
  cases statement with
  | insert k row => rfl
  | update k tenant newTenant assign =>
    refine ⟨_, rfl, ?_⟩
    cases tenant <;> simp [Row.matchesTenant]
  | delete k tenant =>
    refine ⟨_, rfl, ?_⟩
    cases tenant <;> simp [Row.matchesTenant]

/-- Distinct keys can be given any values at once. -/
theorem exists_values {α β γ : Type} [DecidableEq β] [Inhabited γ] (key : α → β) (value : α → γ)
    {l : List α} (h : (l.map key).Nodup) : ∃ f : β → γ, ∀ x ∈ l, f (key x) = value x := by
  induction l with
  | nil => exact ⟨fun _ => default, fun _ hx => absurd hx List.not_mem_nil⟩
  | cons a l ih =>
    rw [List.map_cons, List.nodup_cons] at h
    obtain ⟨f, hf⟩ := ih h.2
    refine ⟨Function.update f (key a) (value a), fun x hx => ?_⟩
    rcases List.mem_cons.mp hx with rfl | hx
    · exact Function.update_self _ _ _
    · have hne : key x ≠ key a := fun heq => h.1 (heq ▸ List.mem_map_of_mem hx)
      rw [Function.update_of_ne hne]
      exact hf x hx

end Run

/-! ## Isolation -/

section Isolation
variable [DecidableEq κ] {resolution : TenantResolution} {model : TenantModel}

/-- The keys of the rows a save writes. -/
def ChangeTracker.writtenKeys (tracker : ChangeTracker model κ ν) : List κ :=
  (tracker.rows.filter fun row => row.statement.isSome).map TrackedRow.key

/-- What a save, a refusal and a query owe the ambient tenant, whatever the database. -/
structure IsolatesTenants (resolution : TenantResolution) (tracker : ChangeTracker model κ ν) :
    Prop where
  written : ∀ order, order.Perm tracker.rows → ∀ db : Database κ ν,
    (saveChanges resolution tracker order db).result = .ok () → ∀ key ∈ tracker.writtenKeys,
      BelongsTo resolution.tenantId? (db key) ∧
      BelongsTo resolution.tenantId? ((saveChanges resolution tracker order db).database key)
  untouched : ∀ order, order.Perm tracker.rows → ∀ db : Database κ ν, ∀ key ∉ tracker.writtenKeys,
    (saveChanges resolution tracker order db).database key = db key
  refused : ∀ order (db : Database κ ν) e, enforceTenantIsolation resolution tracker = .error e →
    saveChanges resolution tracker order db = ⟨.error (.isolation e), db⟩
  failed : ∀ order (db : Database κ ν) e, (saveChanges resolution tracker order db).result = .error e →
    (saveChanges resolution tracker order db).database = db
  queried : ∀ type ∈ model.mapped, type.entityType.isOwned = false → type.entityType.isRoot = true →
    ∀ db : Database κ ν,
      match resolution with
      | .tenant t => ∃ rows, query resolution model type db = .ok rows ∧
          ∀ key row, rows key = some row ↔ db key = some row ∧ row.tenant = t.val
      | .none => query resolution model type db = .ok fun _ => none
      | .invalid => ∃ e, query resolution model type db = .error e

theorem saveChanges_of_refused {tracker : ChangeTracker model κ ν} {e : TenantIsolationException}
    (h : enforceTenantIsolation resolution tracker = .error e) (order : List (TrackedRow κ ν))
    (db : Database κ ν) : saveChanges resolution tracker order db = ⟨.error (.isolation e), db⟩ := by
  simp only [saveChanges, h]

theorem saveChanges_of_failed {tracker : ChangeTracker model κ ν} {order : List (TrackedRow κ ν)}
    {db : Database κ ν} {e : SaveException}
    (h : (saveChanges resolution tracker order db).result = .error e) :
    (saveChanges resolution tracker order db).database = db := by
  unfold saveChanges at h ⊢
  split
  · rfl
  · rename_i henforce
    simp only [henforce] at h
    split
    · rfl
    · rename_i hrun
      simp only [hrun] at h
      cases h

/-- A save that succeeds passed the guard and ran its statements. -/
theorem saveChanges_ok {tracker : ChangeTracker model κ ν} {order : List (TrackedRow κ ν)}
    {db : Database κ ν} (h : (saveChanges resolution tracker order db).result = .ok ()) :
    enforceTenantIsolation resolution tracker = .ok () ∧
      runStatements db (order.filterMap TrackedRow.statement) =
        .ok (saveChanges resolution tracker order db).database := by
  unfold saveChanges at h ⊢
  split at h
  · cases h
  · rename_i henforce
    split at h
    · cases h
    · rename_i db' hrun
      simp only [henforce, hrun]
      exact ⟨trivial, trivial⟩

theorem statement_keys (rows : List (TrackedRow κ ν)) :
    (rows.filterMap TrackedRow.statement).map Statement.key =
      (rows.filter fun row => row.statement.isSome).map TrackedRow.key := by
  induction rows with
  | nil => rfl
  | cons row rows ih =>
    cases h : row.statement with
    | none => simp [h, ih]
    | some statement => simp [h, ih, TrackedRow.statement_key h]

theorem mem_writtenKeys {tracker : ChangeTracker model κ ν} {order : List (TrackedRow κ ν)}
    (h : order.Perm tracker.rows) {key : κ} :
    key ∈ (order.filterMap TrackedRow.statement).map Statement.key ↔ key ∈ tracker.writtenKeys := by
  rw [statement_keys, ChangeTracker.writtenKeys]
  exact ((h.filter _).map _).mem_iff

theorem query_isolated {type : MappedType} (hmapped : type ∈ model.mapped)
    (howned : type.entityType.isOwned = false) (hroot : type.entityType.isRoot = true)
    (db : Database κ ν) :
    match resolution with
    | .tenant t => ∃ rows, query resolution model type db = .ok rows ∧
        ∀ key row, rows key = some row ↔ db key = some row ∧ row.tenant = t.val
    | .none => query resolution model type db = .ok fun _ => none
    | .invalid => ∃ e, query resolution model type db = .error e := by
  have hfilter := hasTenantFilter_eq hmapped howned hroot
  cases resolution with
  | tenant t =>
    refine ⟨_, by simp only [query, hfilter, if_true, currentTenantFilter]; rfl, fun key row => ?_⟩
    rw [Option.filter_eq_some_iff, beq_iff_eq, Option.some.injEq, @eq_comm _ row.tenant]
  | none => simp [query, hfilter, currentTenantFilter]
  | invalid => exact ⟨_, by simp only [query, hfilter, if_true, currentTenantFilter]; rfl⟩

theorem entries_of_row {tracker : ChangeTracker model κ ν} {row : TrackedRow κ ν}
    (hrow : row ∈ tracker.rows) {e : EntityEntry} (he : e ∈ row.entries) : e ∈ tracker.entries :=
  List.mem_flatMap.mpr ⟨row, hrow, he⟩

/-- A row written through owned entries alone is updated where its owner's original tenant is. -/
theorem TrackedRow.statement_of_ownedOnly {tracker : ChangeTracker model κ ν}
    {row : TrackedRow κ ν} (hrow : row ∈ tracker.rows) (h : row.WrittenByOwnedOnly) :
    row.statement = some (.update row.key (some row.tenant.original) none row.assign) := by
  obtain ⟨hstate, e, he, hwritten⟩ := h
  have hmapped := tracker.mapped row hrow
  have hany : (row.ownedEntries.any fun e => e.state.isWritten) = true :=
    List.any_eq_true.mpr ⟨e, he, by simpa [EntityState.isWritten] using hwritten⟩
  simp only [TrackedRow.statement, hstate, hany, token_eq hmapped.1 hmapped.2, if_true]

theorem written_of_guarded {tracker : ChangeTracker model κ ν}
    (howned : ∀ row ∈ tracker.rows, row.WrittenByOwnedOnly →
      resolution.tenantId? = some row.tenant.original)
    {order : List (TrackedRow κ ν)} (horder : order.Perm tracker.rows) {db : Database κ ν}
    (hok : (saveChanges resolution tracker order db).result = .ok ()) {key : κ}
    (hkey : key ∈ tracker.writtenKeys) :
    BelongsTo resolution.tenantId? (db key) ∧
      BelongsTo resolution.tenantId? ((saveChanges resolution tracker order db).database key) := by
  obtain ⟨henforce, hrun⟩ := saveChanges_ok hok
  have hallowed := (enforce_eq_ok.mp henforce).2
  refine runStatements_key hrun (fun statement hstatement => ?_) ((mem_writtenKeys horder).mpr hkey)
  obtain ⟨row, hrow, heq⟩ := List.mem_filterMap.mp hstatement
  have hin := horder.mem_iff.mp hrow
  exact TrackedRow.confined hin (fun e he => hallowed e (entries_of_row hin he)) (howned row hin) heq

/-- Where the guard lets a save through, some database takes all its statements. -/
theorem exists_saved {tracker : ChangeTracker model κ ν}
    (h : enforceTenantIsolation resolution tracker = .ok ()) :
    ∃ db : Database κ ν, (saveChanges resolution tracker tracker.rows db).result = .ok () ∧
      ∀ row ∈ tracker.rows, ∀ statement ∈ row.statement,
        db row.key = statement.fitting TenantId.uninitialized row.values := by
  obtain ⟨db, hdb⟩ := exists_values TrackedRow.key
    (fun row : TrackedRow κ ν => row.statement.bind fun statement =>
      statement.fitting TenantId.uninitialized row.values) tracker.keys_nodup
  have hfits : ∀ row ∈ tracker.rows, ∀ statement ∈ row.statement,
      db row.key = statement.fitting TenantId.uninitialized row.values := by
    intro row hrow statement hstatement
    rw [hdb row hrow, Option.mem_def.mp hstatement]
    rfl
  have hkeys : ((tracker.rows.filterMap TrackedRow.statement).map Statement.key).Nodup := by
    rw [statement_keys]
    exact tracker.keys_nodup.sublist (List.filter_sublist.map _)
  have happly : ∀ s ∈ tracker.rows.filterMap TrackedRow.statement, s.Applies (db s.key) := by
    intro statement hstatement
    obtain ⟨row, hrow, heq⟩ := List.mem_filterMap.mp hstatement
    rw [TrackedRow.statement_key heq, hfits row hrow statement heq]
    exact statement.applies_fitting _ _
  obtain ⟨db', hrun⟩ := runStatements_of_applies hkeys happly
  exact ⟨db, by simp only [saveChanges, h, hrun], hfits⟩

/-- Isolation holds exactly where the guard's table rejects the save or no row is written
through an owned entry alone under an owner that claims another tenant. -/
theorem isolatesTenants_iff (resolution : TenantResolution) (tracker : ChangeTracker model κ ν) :
    IsolatesTenants resolution tracker ↔
      (resolution = .invalid ∨ ∃ e ∈ tracker.entries, ¬ e.Allowed resolution) ∨
      ∀ row ∈ tracker.rows, row.WrittenByOwnedOnly →
        resolution.tenantId? = some row.tenant.original := by
  constructor
  · intro h
    by_contra hnot
    simp only [not_or, not_exists, not_and, not_not] at hnot
    obtain ⟨⟨hvalid, hallowed⟩, hforeign⟩ := hnot
    apply hforeign
    intro row hrow howned
    have henforce : enforceTenantIsolation resolution tracker = .ok () :=
      enforce_eq_ok.mpr ⟨hvalid, hallowed⟩
    obtain ⟨db, hok, hfits⟩ := exists_saved henforce
    have hstatement := TrackedRow.statement_of_ownedOnly hrow howned
    have hkey : row.key ∈ tracker.writtenKeys :=
      List.mem_map.mpr ⟨row, List.mem_filter.mpr ⟨hrow, by rw [hstatement]; rfl⟩, rfl⟩
    have hbefore := (h.written tracker.rows (List.Perm.refl _) db hok row.key hkey).1
    exact hbefore ⟨row.tenant.original, row.values⟩ (hfits row hrow _ hstatement)
  · intro h
    refine ⟨fun order horder db hok key hkey => ?_, fun order horder db key hkey => ?_,
      fun order db e he => saveChanges_of_refused he order db,
      fun order db e he => saveChanges_of_failed he,
      fun type hmapped howned hroot db => query_isolated hmapped howned hroot db⟩
    · rcases h with h | h
      · have hallowed := enforce_eq_ok.mp (saveChanges_ok hok).1
        rcases h with hinvalid | ⟨e, he, hrejected⟩
        · exact absurd hinvalid hallowed.1
        · exact absurd (hallowed.2 e he) hrejected
      · exact written_of_guarded h horder hok hkey
    · cases hresult : (saveChanges resolution tracker order db).result with
      | error e => rw [saveChanges_of_failed hresult]
      | ok =>
        refine runStatements_ne (saveChanges_ok hresult).2 ?_
        rwa [mem_writtenKeys horder]

end Isolation

end Tracker

/-! ### An attached owner that claims another tenant -/

def tenantOf (d : Fin 16) (h : d.val ≠ 0) : {t : TenantId // t.isInitialized = true} :=
  ⟨⟨⟨List.replicate 32 d, by simp⟩⟩, by
    have hne : (⟨List.replicate 32 d, by simp⟩ : Guid) ≠ Guid.empty := by
      intro heq
      have hdigits := congrArg Guid.digits heq
      exact h (congrArg Fin.val (List.cons.inj hdigits).1)
    simpa [TenantId.isInitialized] using hne⟩

def splitOwner : EntityType :=
  ⟨"TableSplitOwner", false, true, false, true, ⟨some "owners", none⟩, none⟩

def ownedDetail : EntityType :=
  ⟨"OwnedDetail", true, false, false, true, ⟨some "owners", none⟩, some ⟨some "owners", none⟩⟩

def tableSplitModel : TenantModel where
  contextName := "TableSplitDbContext"
  entityTypes := [splitOwner, ownedDetail]
  mapped := [configure splitOwner, configure ownedDetail]
  built := rfl

/-- An owner attached with the second tenant, and a change to its owned part. -/
def attachedOwner : TrackedRow Nat String where
  key := 7
  type := configure splitOwner
  state := .unchanged
  tenant := ⟨tenantOf ⟨2, by decide⟩ (by decide), tenantOf ⟨2, by decide⟩ (by decide)⟩
  dataChanged := false
  replaced := none
  owned := [⟨"OwnedDetail", .modified, none, true⟩]
  values := "changed"
  assign := fun _ => "changed"

def attachedTracker : ChangeTracker tableSplitModel Nat String where
  rows := [attachedOwner]
  mapped := by
    intro row hrow
    rw [List.mem_singleton.mp hrow]
    exact ⟨List.mem_cons_self, rfl⟩
  keys_nodup := List.nodup_singleton _
  replaced_by_added := by
    intro row hrow hreplaced
    rw [List.mem_singleton.mp hrow] at hreplaced
    cases hreplaced

/-- The row of the second tenant is changed under the first. -/
theorem attachedOwner_not_isolated :
    ¬ IsolatesTenants (.tenant (tenantOf ⟨1, by decide⟩ (by decide))) attachedTracker := by
  intro h
  let db : Database Nat String :=
    fun key => if key = 7 then some ⟨tenantOf ⟨2, by decide⟩ (by decide), "stored"⟩ else none
  have hsaved := h.written [attachedOwner] (List.Perm.refl _) db (by decide +kernel) 7 (by decide +kernel)
  have hforeign := hsaved.1 ⟨tenantOf ⟨2, by decide⟩ (by decide), "stored"⟩ rfl
  revert hforeign
  decide +kernel

end Decisya.Persistence
