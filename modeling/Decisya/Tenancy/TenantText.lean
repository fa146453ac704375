import Decisya.Api.EnvelopeTenant

/-!
# One text for a tenant

What each entry point accepts, and that they agree: the parser of all of them, the JSON
converter, the reader of an envelope and the claim.
-/

namespace Decisya.Tenancy

open Text

set_option autoImplicit false

/-! ## The converter -/

/-- A JSON token as the converter sees it: for a string the size of its raw text in bytes and
what `GetString` makes of it. -/
inductive JsonToken where
  | string (rawLength : ℕ) (text : Utf16)
  | other
  deriving DecidableEq

structure JsonException where
  message : String
  deriving DecidableEq

namespace TenantIdJsonConverter

def maxRawTokenLength : ℕ := 128

def invalidTokenMessage : String :=
  "A tenant identifier must be a JSON string in the canonical GUID form."

def read : JsonToken → Except JsonException TenantId
  | .other => .error ⟨invalidTokenMessage⟩
  | .string rawLength text =>
    if maxRawTokenLength < rawLength then .error ⟨invalidTokenMessage⟩
    else
      match TenantId.tryParse text with
      | none => .error ⟨invalidTokenMessage⟩
      | some tenantId => .ok tenantId

/-- A Guid is written in its `D` form: ASCII, and nothing in it is escaped. -/
def writeStringValue (value : Guid) : JsonToken := .string value.toText.length value.toText

def write (value : TenantId) : Except JsonException JsonToken :=
  if value.isInitialized = false then
    .error ⟨"An uninitialized TenantId cannot be serialized."⟩
  else .ok (writeStringValue value.value)

end TenantIdJsonConverter

/-- `TenantId.Parse`; `none` is the `TenantIdFormatException`. A missing text reads as the
empty one. -/
def TenantId.parse (value : Option Utf16) : Option TenantId := tryParse (value.getD [])

/-! ## The form of a tenant's text -/

/-- The lower case of an ASCII letter. -/
def asciiLower (c : UInt16) : UInt16 := if 0x41 ≤ c ∧ c ≤ 0x5A then c + 0x20 else c

/-- Hexadecimal digits in groups of 8, 4, 4, 4 and 12, not all of them zero. -/
def IsTenantText (s : Utf16) : Prop :=
  ∃ a b c d e : Utf16, a.length = 8 ∧ b.length = 4 ∧ c.length = 4 ∧ d.length = 4 ∧ e.length = 12 ∧
    (∀ u ∈ a ++ (b ++ (c ++ (d ++ e))), isHexUnit u = true) ∧
    (∃ u ∈ a ++ (b ++ (c ++ (d ++ e))), u ≠ 0x30) ∧
    s = a ++ Guid.hyphen :: (b ++ Guid.hyphen :: (c ++ Guid.hyphen :: (d ++ Guid.hyphen :: e)))

theorem hexUnit_of_hexValue {u : UInt16} {d : Fin 16} (h : hexValue u = some d) :
    hexUnit d = asciiLower u := by
  unfold hexValue at h
  simp only [UInt16.le_iff_toNat_le, UInt16.reduceToNat] at h
  split at h
  · cases h
    unfold hexUnit asciiLower
    simp only [UInt16.le_iff_toNat_le, UInt16.reduceToNat, Fin.ofNat]
    rw [if_pos (by omega), if_neg (by omega)]
    apply UInt16.toNat_inj.mp
    simp
    omega
  · split at h
    · cases h
      unfold hexUnit asciiLower
      simp only [UInt16.le_iff_toNat_le, UInt16.reduceToNat, Fin.ofNat]
      rw [if_neg (by omega), if_neg (by omega)]
      apply UInt16.toNat_inj.mp
      simp
      omega
    · split at h
      · cases h
        unfold hexUnit asciiLower
        simp only [UInt16.le_iff_toNat_le, UInt16.reduceToNat, Fin.ofNat]
        rw [if_neg (by omega), if_pos (by omega)]
        apply UInt16.toNat_inj.mp
        simp
        omega
      · cases h

theorem hexValue_eq_zero {u : UInt16} : hexValue u = some 0 ↔ u = 0x30 := by
  constructor
  · intro h
    have hlower := hexUnit_of_hexValue h
    have hzero : hexUnit 0 = 0x30 := by decide
    rw [hzero] at hlower
    unfold asciiLower at hlower
    split at hlower
    · rename_i hupper
      simp only [UInt16.le_iff_toNat_le, UInt16.reduceToNat] at hupper
      rw [← UInt16.toNat_inj, UInt16.toNat_add] at hlower
      simp only [UInt16.reduceToNat] at hlower
      omega
    · exact hlower.symm
  · rintro rfl
    decide

/-- Hexadecimal units read as digits whose own text is theirs in lower case. -/
theorem mapM_hexValue {units : Utf16} (h : ∀ u ∈ units, isHexUnit u = true) :
    ∃ digits, units.mapM hexValue = some digits ∧ digits.map hexUnit = units.map asciiLower ∧
      (digits = List.replicate units.length 0 ↔ ∀ u ∈ units, u = 0x30) := by
  induction units with
  | nil => exact ⟨[], rfl, rfl, by simp⟩
  | cons u units ih =>
    obtain ⟨digits, hdigits, hlower, hzero⟩ := ih fun v hv => h v (List.mem_cons_of_mem u hv)
    obtain ⟨d, hd⟩ := Option.isSome_iff_exists.mp (h u List.mem_cons_self)
    refine ⟨d :: digits, ?_, ?_, ?_⟩
    · rw [List.mapM_cons, hd, hdigits]
      rfl
    · rw [List.map_cons, List.map_cons, hexUnit_of_hexValue hd, hlower]
    · rw [List.length_cons, List.replicate_succ, List.cons.injEq, hzero, List.forall_mem_cons]
      apply and_congr_left'
      rw [← hexValue_eq_zero, hd, Option.some.injEq]

theorem mapM_hexValue_isHexUnit {units : Utf16} {digits : List (Fin 16)}
    (h : units.mapM hexValue = some digits) : digits.length = units.length := by
  induction units generalizing digits with
  | nil =>
    cases h
    rfl
  | cons u units ih =>
    rw [List.mapM_cons] at h
    obtain ⟨d, -, h⟩ := Option.bind_eq_some_iff.mp h
    obtain ⟨rest, hrest, h⟩ := Option.bind_eq_some_iff.mp h
    cases h
    rw [List.length_cons, List.length_cons, ih hrest]

section Form
variable {s : Utf16}

/-- The shape the parser checks is the grouping of the form. -/
theorem hasCanonicalShape_iff (hlen : s.length = TenantId.canonicalLength) :
    TenantId.hasCanonicalShape s = true ↔
      ∃ a b c d e : Utf16, a.length = 8 ∧ b.length = 4 ∧ c.length = 4 ∧ d.length = 4 ∧
        e.length = 12 ∧ (∀ u ∈ a ++ (b ++ (c ++ (d ++ e))), isHexUnit u = true) ∧
        s = a ++ Guid.hyphen :: (b ++ Guid.hyphen :: (c ++ Guid.hyphen :: (d ++ Guid.hyphen :: e))) := by
  constructor
  · intro h
    have hsplit : ∀ (t : Utf16) (n : ℕ), n < t.length →
        ∃ (part : Utf16) (x : UInt16) (rest : Utf16), part.length = n ∧
          rest.length = t.length - (n + 1) ∧ t = part ++ x :: rest := by
      intro t n hn
      refine ⟨t.take n, t.get ⟨n, hn⟩, t.drop (n + 1), ?_, ?_, ?_⟩
      · rw [List.length_take]
        omega
      · rw [List.length_drop]
      · rw [List.get_eq_getElem, List.getElem_cons_drop, List.take_append_drop]
    rw [TenantId.canonicalLength] at hlen
    obtain ⟨a, x, r, ha, hr, rfl⟩ := hsplit s 8 (by omega)
    obtain ⟨b, y, r', hb, hr', rfl⟩ := hsplit r 4 (by omega)
    obtain ⟨c, z, r'', hc, hr'', rfl⟩ := hsplit r' 4 (by omega)
    obtain ⟨d, v, e, hd, he, rfl⟩ := hsplit r'' 4 (by omega)
    have he' : e.length = 12 := by omega
    rw [TenantId.hasCanonicalShape, TenantId.hasShapeFrom_group (by decide) ha (by decide),
      TenantId.hasShapeFrom_group (by decide) hb (by decide),
      TenantId.hasShapeFrom_group (by decide) hc (by decide),
      TenantId.hasShapeFrom_group (by decide) hd (by decide),
      TenantId.hasShapeFrom_part (by decide) he'] at h
    simp only [Bool.and_eq_true, List.all_eq_true, beq_iff_eq] at h
    obtain ⟨hxa, rfl, hxb, rfl, hxc, rfl, hxd, rfl, hxe⟩ := h
    refine ⟨a, b, c, d, e, ha, hb, hc, hd, he', ?_, rfl⟩
    intro u hu
    simp only [List.mem_append] at hu
    rcases hu with hu | hu | hu | hu | hu
    · exact hxa u hu
    · exact hxb u hu
    · exact hxc u hu
    · exact hxd u hu
    · exact hxe u hu
  · rintro ⟨a, b, c, d, e, ha, hb, hc, hd, he, hhex, rfl⟩
    simp only [List.forall_mem_append] at hhex
    obtain ⟨hxa, hxb, hxc, hxd, hxe⟩ := hhex
    rw [TenantId.hasCanonicalShape, TenantId.hasShapeFrom_group (by decide) ha (by decide),
      TenantId.hasShapeFrom_group (by decide) hb (by decide),
      TenantId.hasShapeFrom_group (by decide) hc (by decide),
      TenantId.hasShapeFrom_group (by decide) hd (by decide),
      TenantId.hasShapeFrom_part (by decide) he]
    simp only [Bool.and_eq_true, List.all_eq_true, beq_iff_eq]
    exact ⟨hxa, trivial, hxb, trivial, hxc, trivial, hxd, trivial, hxe⟩

/-- A text in the form, all zero or not, is one Guid, whose text is its lower case. -/
theorem parseExact_of_groups {a b c d e : Utf16} (ha : a.length = 8) (hb : b.length = 4)
    (hc : c.length = 4) (hd : d.length = 4) (he : e.length = 12)
    (hhex : ∀ u ∈ a ++ (b ++ (c ++ (d ++ e))), isHexUnit u = true)
    (hs : s = a ++ Guid.hyphen :: (b ++ Guid.hyphen :: (c ++ Guid.hyphen ::
      (d ++ Guid.hyphen :: e)))) :
    ∃ g, Guid.parseExact s = some g ∧ g.toText = s.map asciiLower ∧
      (g = Guid.empty ↔ ∀ u ∈ a ++ (b ++ (c ++ (d ++ e))), u = 0x30) := by
  obtain ⟨digits, hdigits, hlower, hzero⟩ := mapM_hexValue hhex
  have hlength : digits.length = 32 := by
    rw [mapM_hexValue_isHexUnit hdigits]
    simp only [List.length_append, ha, hb, hc, hd, he]
  have hunits : Guid.digitUnits s 0 = a ++ (b ++ (c ++ (d ++ e))) := by
    rw [hs, Guid.digitUnits_group (by decide) ha (by decide),
      Guid.digitUnits_group (by decide) hb (by decide),
      Guid.digitUnits_group (by decide) hc (by decide),
      Guid.digitUnits_group (by decide) hd (by decide), Guid.digitUnits_part (by decide) he]
  refine ⟨⟨digits, hlength⟩, ?_, ?_, ?_⟩
  · rw [Guid.parseExact, hunits, hdigits]
    exact dif_pos hlength
  · unfold Guid.toText
    dsimp only
    have hhyphen : asciiLower Guid.hyphen = Guid.hyphen := by decide
    rw [hlower, hs]
    simp only [List.map_append, List.map_cons, hhyphen]
    rw [← List.length_map asciiLower] at ha hb hc hd he
    have htake : ∀ {x : Utf16} {n : ℕ} (y : Utf16), x.length = n → (x ++ y).take n = x :=
      fun y hx => List.take_left' hx
    have hdrop : ∀ (x y : Utf16), (x ++ y).drop x.length = y := fun x y => List.drop_left
    have h₁ := hdrop (a.map asciiLower)
    have h₂ := hdrop (a.map asciiLower ++ b.map asciiLower)
    have h₃ := hdrop (a.map asciiLower ++ (b.map asciiLower ++ c.map asciiLower))
    have h₄ := hdrop
      (a.map asciiLower ++ (b.map asciiLower ++ (c.map asciiLower ++ d.map asciiLower)))
    simp only [List.length_append, ha, hb, hc, hd, List.append_assoc] at h₁ h₂ h₃ h₄
    rw [h₁, h₂, h₃, h₄, htake _ ha, htake _ hb, htake _ hc, htake _ hd]
    simp only [List.append_assoc, List.cons_append]
  · rw [← hzero, Guid.empty]
    have hcount : (a ++ (b ++ (c ++ (d ++ e)))).length = 32 := by
      simp only [List.length_append, ha, hb, hc, hd, he]
    rw [hcount, Guid.mk.injEq]
    rfl

end Form

/-! ## What the parser accepts -/

namespace TenantId
variable {s s' : Utf16} {t t' : TenantId}

theorem tryParse_eq_some (h : tryParse s = some t) :
    s.length ≤ maxTextLength ∧ IsTenantText (Text.trim isAsciiWhitespace s) ∧
      t.value.toText = (Text.trim isAsciiWhitespace s).map asciiLower := by
  unfold tryParse at h
  split at h
  · cases h
  · rename_i hlen
    dsimp only at h
    split at h
    · cases h
    · rename_i hshape
      rw [not_or, not_not, Bool.not_eq_false] at hshape
      obtain ⟨hlength, hshape⟩ := hshape
      obtain ⟨a, b, c, d, e, ha, hb, hc, hd, he, hhex, hs⟩ := (hasCanonicalShape_iff hlength).mp hshape
      obtain ⟨g, hparse, htext, hzero⟩ := parseExact_of_groups ha hb hc hd he hhex hs
      rw [hparse] at h
      dsimp only at h
      split at h
      · cases h
      · rename_i hne
        cases h
        refine ⟨Nat.le_of_not_lt hlen, ⟨a, b, c, d, e, ha, hb, hc, hd, he, hhex, ?_, hs⟩, htext⟩
        by_contra hall
        apply hne
        rw [hzero]
        intro u hu
        by_contra hu'
        exact hall ⟨u, hu, hu'⟩

/-- The texts that parse. -/
theorem tryParse_isSome_iff : (tryParse s).isSome = true ↔
    s.length ≤ maxTextLength ∧ IsTenantText (Text.trim isAsciiWhitespace s) := by
  constructor
  · intro h
    obtain ⟨t, ht⟩ := Option.isSome_iff_exists.mp h
    obtain ⟨hlen, htext, -⟩ := tryParse_eq_some ht
    exact ⟨hlen, htext⟩
  · rintro ⟨hlen, a, b, c, d, e, ha, hb, hc, hd, he, hhex, ⟨u, hu, hne⟩, hs⟩
    obtain ⟨g, hparse, -, hzero⟩ := parseExact_of_groups ha hb hc hd he hhex hs
    have hlength : (Text.trim isAsciiWhitespace s).length = canonicalLength := by
      rw [hs]
      simp only [List.length_append, List.length_cons, ha, hb, hc, hd, he]
      rfl
    have hshape := (hasCanonicalShape_iff hlength).mpr ⟨a, b, c, d, e, ha, hb, hc, hd, he, hhex, hs⟩
    have hg : g ≠ Guid.empty := fun heq => hne (hzero.mp heq u hu)
    unfold tryParse
    rw [if_neg (Nat.not_lt.mpr hlen)]
    dsimp only
    rw [if_neg (by simp [hlength, hshape]), hparse]
    dsimp only
    rw [if_neg hg]
    rfl

theorem value_toText_injective (h : t.value.toText = t'.value.toText) : t = t' := by
  have hparse := Guid.parseExact_toText t.value
  rw [h, Guid.parseExact_toText] at hparse
  have hvalue : t'.value = t.value := Option.some.inj hparse
  cases t
  cases t'
  cases hvalue
  rfl

/-- Two texts name one tenant exactly when they differ in white space and case only. -/
theorem eq_iff_lower_eq (h : tryParse s = some t) (h' : tryParse s' = some t') :
    t = t' ↔ (Text.trim isAsciiWhitespace s).map asciiLower =
      (Text.trim isAsciiWhitespace s').map asciiLower := by
  obtain ⟨-, -, htext⟩ := tryParse_eq_some h
  obtain ⟨-, -, htext'⟩ := tryParse_eq_some h'
  rw [← htext, ← htext']
  constructor
  · rintro rfl
    rfl
  · exact value_toText_injective

end TenantId

/-- What is written for an identifier reads back as it. -/
theorem TenantIdJsonConverter.read_write {t : TenantId} (h : t.isInitialized = true) :
    ∃ token, write t = .ok token ∧ read token = .ok t := by
  refine ⟨writeStringValue t.value, ?_, ?_⟩
  · rw [write, if_neg (by simp [h])]
  · have hparse := TenantId.tryParse_toText h
    rw [TenantId.toText, if_pos h] at hparse
    rw [writeStringValue, read, Guid.length_toText, if_neg (by decide), hparse]

theorem TenantResolution.fromClaim_eq_none {claimValue : Option Utf16} :
    fromClaim claimValue = none ↔ claimValue = Option.none := by
  unfold fromClaim
  constructor
  · intro h
    split at h
    · rfl
    · split at h
      · split at h
        · cases h
        · cases h
      · cases h
  · rintro rfl
    rfl

/-- One text for a tenant, at every entry point. -/
theorem tenant_texts_agree :
    (∀ s, (TenantId.tryParse s).isSome = true ↔
      s.length ≤ 64 ∧ IsTenantText (Text.trim TenantId.isAsciiWhitespace s)) ∧
    (∀ s s' t t', TenantId.tryParse s = some t → TenantId.tryParse s' = some t' →
      (t = t' ↔ (Text.trim TenantId.isAsciiWhitespace s).map asciiLower =
        (Text.trim TenantId.isAsciiWhitespace s').map asciiLower)) ∧
    (∀ t : TenantId, t.isInitialized = true → TenantId.parse (some t.toText) = some t ∧
      ∃ token, TenantIdJsonConverter.write t = .ok token ∧
        TenantIdJsonConverter.read token = .ok t) ∧
    (∀ text t, Api.EnvelopeFacts.tryReadTenant text = .ok t ↔
      t.isInitialized = true ∧ text = some t.toText) ∧
    (∀ claimValue, TenantResolution.fromClaim claimValue = .none ↔ claimValue = none) ∧
    ∀ text t, TenantResolution.fromClaim (some text) = .tenant t ↔
      TenantId.tryParse text = some t.val := by
  refine ⟨fun s => TenantId.tryParse_isSome_iff, fun s s' t t' h h' => TenantId.eq_iff_lower_eq h h',
    fun t h => ⟨TenantId.tryParse_toText h, TenantIdJsonConverter.read_write h⟩,
    fun text t => Api.EnvelopeFacts.tryReadTenant_eq_ok,
    fun claimValue => TenantResolution.fromClaim_eq_none, ?_⟩
  intro text t
  rw [TenantResolution.fromClaim_eq_tenant]
  constructor
  · rintro ⟨text', heq, hparse⟩
    cases heq
    exact hparse
  · intro hparse
    exact ⟨text, rfl, hparse⟩

end Decisya.Tenancy
