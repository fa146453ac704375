import Decisya.Tenancy.TenantId

/-!
# Cache and object keys of a tenant

A key starts with the tenant's text, which has one length for all tenants, and goes on with
segments that hold neither separator. So the two keys can be taken apart again, and no key of
one tenant leads to another's.
-/

namespace Decisya.Tenancy

open Text

set_option autoImplicit false

namespace TenantKey

def maxSegmentLength : ℕ := 128

def maxKeyLength : ℕ := 512

def tenantTextLength : ℕ := 36

/-- The longest `string` .NET can hold. -/
def maxStringLength : ℕ := 0x3FFFFFDF

inductive KeyError where
  | argument (message : String) (paramName : String)
  | argumentNull (paramName : String)
  | outOfMemory
  deriving DecidableEq

def colon : UInt16 := 0x3A
def slash : UInt16 := 0x2F
def dot : UInt16 := 0x2E

def isSegmentUnit (c : UInt16) : Bool :=
  (0x61 ≤ c && c ≤ 0x7A) || (0x30 ≤ c && c ≤ 0x39) || c == dot || c == 0x5F || c == 0x2D

def validateSegment (segment : Utf16) : Except KeyError Unit :=
  if segment.length = 0 ∨ maxSegmentLength < segment.length then
    .error (.argument "A tenant key segment is 1 to 128 characters long." "segment")
  else if segment = [dot] ∨ segment = [dot, dot] then
    .error (.argument "A tenant key segment is never '.' or '..'." "segment")
  else if segment.all isSegmentUnit = false then
    .error (.argument
      "A tenant key segment holds only the characters a-z, 0-9, '.', '_' and '-'." "segment")
  else .ok ()

/-- The sum of an `int`, which wraps around. -/
def addInt (a : ℤ) (b : ℕ) : ℤ := (a + b).bmod (2 ^ 32)

/-- The loop of `For`: the copied segments and the length of the key so far. -/
def copySegments (length : ℤ) : List (Option Utf16) → Except KeyError (List Utf16 × ℤ)
  | [] => .ok ([], length)
  | none :: _ => .error (.argumentNull "segments")
  | some segment :: rest => do
    validateSegment segment
    let (copy, total) ← copySegments (addInt length (1 + segment.length)) rest
    .ok (segment :: copy, total)

def keyText (separator : UInt16) (tenant : TenantId) (segments : List Utf16) : Utf16 :=
  tenant.value.toText ++ separator :: [separator].intercalate segments

end TenantKey

open TenantKey in
structure TenantKey where
  tenant : TenantId
  segments : List Utf16
  isInitialized : tenant.isInitialized = true
  segments_ne_nil : segments ≠ []
  segments_valid : ∀ s ∈ segments, validateSegment s = .ok ()
  length_le : (keyText colon tenant segments).length ≤ maxKeyLength

namespace TenantKey

def toCacheKey (key : TenantKey) : Utf16 := keyText colon key.tenant key.segments

def toObjectKey (key : TenantKey) : Utf16 := keyText slash key.tenant key.segments

/-- `Equals` compares the cache keys. -/
def equals (key other : TenantKey) : Bool := key.toCacheKey = other.toCacheKey

/-! ## Segments -/

theorem validateSegment_eq_ok {segment : Utf16} :
    validateSegment segment = .ok () ↔
      (segment ≠ [] ∧ segment.length ≤ maxSegmentLength) ∧
        (segment ≠ [dot] ∧ segment ≠ [dot, dot]) ∧ ∀ c ∈ segment, isSegmentUnit c = true := by
  unfold validateSegment
  split
  · rename_i hlen
    constructor
    · intro h
      cases h
    · rintro ⟨⟨hne, hle⟩, -⟩
      rcases hlen with hzero | hlong
      · exact absurd (List.length_eq_zero_iff.mp hzero) hne
      · omega
  · rename_i hlen
    rw [not_or, List.length_eq_zero_iff, not_lt] at hlen
    split
    · rename_i hdots
      constructor
      · intro h
        cases h
      · rintro ⟨-, hno, -⟩
        exact absurd hdots (not_or.mpr hno)
    · rename_i hdots
      rw [not_or] at hdots
      split
      · rename_i hall
        constructor
        · intro h
          cases h
        · rintro ⟨-, -, hunits⟩
          rw [List.all_eq_true.mpr hunits] at hall
          cases hall
      · rename_i hall
        refine iff_of_true rfl ⟨hlen, hdots, ?_⟩
        exact List.all_eq_true.mp (Bool.not_eq_false _ |>.mp hall)

theorem separator_not_mem {separator : UInt16} (hsep : isSegmentUnit separator = false)
    {segment : Utf16} (h : validateSegment segment = .ok ()) : separator ∉ segment := by
  intro hmem
  have hunit := (validateSegment_eq_ok.mp h).2.2 separator hmem
  rw [hsep] at hunit
  cases hunit

/-- The copy holds the segments as given, and the count is their length as an `int`. -/
theorem copySegments_spec {given : List (Option Utf16)} {length total : ℤ} {copy : List Utf16}
    (hlength : length.bmod (2 ^ 32) = length)
    (h : copySegments length given = .ok (copy, total)) :
    given = copy.map some ∧ (∀ s ∈ copy, validateSegment s = .ok ()) ∧
      total = (length + ((copy.map fun s => 1 + s.length).sum : ℕ)).bmod (2 ^ 32) := by
  induction given generalizing length copy with
  | nil =>
    cases h
    refine ⟨rfl, fun s hs => absurd hs List.not_mem_nil, ?_⟩
    rw [List.map_nil, List.sum_nil, Int.natCast_zero, Int.add_zero, hlength]
  | cons first rest ih =>
    cases first with
    | none => cases h
    | some segment =>
      unfold copySegments at h
      cases hvalid : validateSegment segment with
      | error e =>
        rw [hvalid] at h
        cases h
      | ok u =>
        rw [hvalid] at h
        cases hrest : copySegments (addInt length (1 + segment.length)) rest with
        | error e =>
          simp only [bind, Except.bind, hrest] at h
          cases h
        | ok result =>
          obtain ⟨tail, sum⟩ := result
          simp only [bind, Except.bind, hrest] at h
          cases h
          obtain ⟨rfl, hall, hsum⟩ := ih Int.bmod_bmod hrest
          refine ⟨rfl, ?_, ?_⟩
          · intro s hs
            rcases List.mem_cons.mp hs with rfl | hmem
            · exact hvalid
            · exact hall s hmem
          · rw [hsum, Int.bmod_add_bmod, List.map_cons, List.sum_cons]
            congr 1
            push_cast
            omega

/-! ## Keys -/

theorem length_keyText (separator : UInt16) (tenant : TenantId) {segments : List Utf16}
    (hne : segments ≠ []) : (keyText separator tenant segments).length =
      tenantTextLength + (segments.map fun s => 1 + s.length).sum := by
  have hjoin : ([separator].intercalate segments).length + 1
      = (segments.map fun s => 1 + s.length).sum := length_intercalate hne
  have htext : tenant.value.toText.length = 36 := tenant.value.length_toText
  unfold keyText tenantTextLength
  rw [List.length_append, List.length_cons]
  omega

/-- A key that .NET can build did not make the count wrap. -/
theorem length_eq_total {tenant : TenantId} {segments : List Utf16} {total : ℤ} (hne : segments ≠ [])
    (htotal : total =
      ((tenantTextLength : ℤ) + ((segments.map fun s => 1 + s.length).sum : ℕ)).bmod (2 ^ 32))
    (hmemory : (keyText colon tenant segments).length ≤ maxStringLength) :
    total = (keyText colon tenant segments).length := by
  rw [length_keyText colon tenant hne] at hmemory ⊢
  rw [htotal]
  unfold maxStringLength at hmemory
  generalize (segments.map fun s => 1 + s.length).sum = written at *
  rw [Int.natCast_add]
  apply Int.bmod_eq_of_le
  · omega
  · omega

/-- `For` -/
def forTenant (tenant : TenantId) (segments : List (Option Utf16)) : Except KeyError TenantKey :=
  if hinit : tenant.isInitialized = true then
    if hne : segments = [] then
      .error (.argument "A tenant key needs at least one resource segment." "segments")
    else
      match hcopy : copySegments tenantTextLength segments with
      | .error e => .error e
      | .ok (copy, total) =>
        if htotal : total ≤ maxKeyLength then
          -- the constructor joins the segments into one string
          if hmemory : (keyText colon tenant copy).length ≤ maxStringLength then
            have hspec := copySegments_spec (by decide) hcopy
            have hcopyNe : copy ≠ [] := by
              rintro rfl
              exact hne hspec.1
            .ok
              { tenant := tenant
                segments := copy
                isInitialized := hinit
                segments_ne_nil := hcopyNe
                segments_valid := hspec.2.1
                length_le := by
                  have hlen := length_eq_total hcopyNe hspec.2.2 hmemory
                  rw [hlen] at htotal
                  exact Int.ofNat_le.mp htotal }
          else .error .outOfMemory
        else .error (.argument "A tenant key is at most 512 characters long." "segments")
  else
    .error (.argument "A tenant key needs an initialized TenantId, never default(TenantId)."
      "tenant")

theorem forTenant_eq_ok {tenant : TenantId} {segments : List (Option Utf16)} {key : TenantKey}
    (h : forTenant tenant segments = .ok key) :
    key.tenant = tenant ∧ segments = key.segments.map some := by
  unfold forTenant at h
  split at h
  · split at h
    · cases h
    · split at h
      · cases h
      · rename_i copy total hcopy
        split at h
        · split at h
          · cases h
            exact ⟨rfl, (copySegments_spec (by decide) hcopy).1⟩
          · cases h
        · cases h
  · cases h

variable {k l : TenantKey}

theorem tenant_eq_of_key_start {t u : TenantId} {x y : Utf16}
    (h : (t.value.toText ++ x) <+: (u.value.toText ++ y)) : t = u := by
  have hlen : t.value.toText.length = u.value.toText.length := by
    rw [Guid.length_toText, Guid.length_toText]
  have htext := eq_of_prefix_of_length hlen h
  have hvalue := Guid.parseExact_toText t.value
  rw [htext, Guid.parseExact_toText] at hvalue
  obtain ⟨value⟩ := t
  obtain ⟨value'⟩ := u
  cases Option.some.inj hvalue
  rfl

theorem keyText_eq_iff {separator : UInt16} (hsep : isSegmentUnit separator = false) :
    keyText separator k.tenant k.segments = keyText separator l.tenant l.segments ↔
      k.tenant = l.tenant ∧ k.segments = l.segments := by
  constructor
  · intro h
    have hprefix : keyText separator k.tenant k.segments <+:
        keyText separator l.tenant l.segments := h ▸ List.prefix_rfl
    have htenant : k.tenant = l.tenant := tenant_eq_of_key_start hprefix
    refine ⟨htenant, ?_⟩
    unfold keyText at h
    rw [htenant] at h
    have hjoin := List.cons_injective (List.append_cancel_left h)
    apply intercalate_injective _ _ k.segments_ne_nil l.segments_ne_nil hjoin
    · exact fun s hs => separator_not_mem hsep (k.segments_valid s hs)
    · exact fun s hs => separator_not_mem hsep (l.segments_valid s hs)
  · rintro ⟨htenant, hsegments⟩
    rw [htenant, hsegments]

theorem slash_not_mem_toText (g : Guid) : slash ∉ g.toText := by
  have hunit : ∀ d : Fin 16, slash ≠ hexUnit d := by decide
  intro hmem
  rcases Guid.mem_toText hmem with h | ⟨d, h⟩
  · cases h
  · exact hunit d h

theorem splitOn_toObjectKey (k : TenantKey) :
    k.toObjectKey.splitOn slash = k.tenant.value.toText :: k.segments := by
  have hjoin : k.toObjectKey = [slash].intercalate (k.tenant.value.toText :: k.segments) := by
    obtain ⟨first, rest, hsegments⟩ := List.exists_cons_of_ne_nil k.segments_ne_nil
    unfold toObjectKey keyText
    rw [hsegments]
    simp [List.intercalate]
  rw [hjoin]
  apply List.splitOn_intercalate
  · intro s hs
    rcases List.mem_cons.mp hs with rfl | hmem
    · exact slash_not_mem_toText _
    · exact separator_not_mem (by decide) (k.segments_valid s hmem)
  · exact List.cons_ne_nil _ _

theorem resolve_toObjectKey (k : TenantKey) :
    resolveDots dot (k.toObjectKey.splitOn slash) = k.tenant.value.toText :: k.segments := by
  rw [splitOn_toObjectKey]
  apply resolveDots_eq_self
  intro s hs
  rcases List.mem_cons.mp hs with rfl | hmem
  · have hlen := Guid.length_toText k.tenant.value
    refine ⟨?_, ?_, ?_⟩ <;>
    · intro hshort
      rw [hshort] at hlen
      cases hlen
  · have hvalid := validateSegment_eq_ok.mp (k.segments_valid s hmem)
    exact ⟨hvalid.1.1, hvalid.2.1.1, hvalid.2.1.2⟩

theorem length_toObjectKey (k : TenantKey) : k.toObjectKey.length = k.toCacheKey.length := by
  unfold toObjectKey toCacheKey
  rw [length_keyText _ _ k.segments_ne_nil, length_keyText _ _ k.segments_ne_nil]

/-- A key of the tenant, or its prefix with a separator after it. -/
inductive Reaches (k : TenantKey) : Utf16 → Prop where
  | cacheKey : Reaches k k.toCacheKey
  | objectKey : Reaches k k.toObjectKey
  | cachePrefix : Reaches k (k.tenant.value.toText ++ [colon])
  | objectPrefix : Reaches k (k.tenant.value.toText ++ [slash])

theorem Reaches.eq_append {start : Utf16} (h : Reaches k start) :
    ∃ rest, start = k.tenant.value.toText ++ rest := by
  cases h with
  | cacheKey => exact ⟨_, rfl⟩
  | objectKey => exact ⟨_, rfl⟩
  | cachePrefix => exact ⟨_, rfl⟩
  | objectPrefix => exact ⟨_, rfl⟩

theorem Reaches.not_prefix {start : Utf16} (h : Reaches k start) (hne : k.tenant ≠ l.tenant) :
    ¬ start <+: l.toCacheKey ∧ ¬ start <+: l.toObjectKey := by
  obtain ⟨rest, rfl⟩ := h.eq_append
  exact ⟨fun hprefix => hne (tenant_eq_of_key_start hprefix),
    fun hprefix => hne (tenant_eq_of_key_start hprefix)⟩

/-- Keys are told apart by tenant and segments, lead to no other tenant, and name, as a path,
what they were built from. -/
theorem keys_injective_and_isolated {t u : TenantId} {a b : List (Option Utf16)}
    (hk : forTenant t a = .ok k) (hl : forTenant u b = .ok l) :
    (k.toCacheKey = l.toCacheKey ↔ t = u ∧ a = b) ∧
    (k.toObjectKey = l.toObjectKey ↔ t = u ∧ a = b) ∧
    (k.equals l = true ↔ t = u ∧ a = b) ∧
    (t ≠ u → ∀ start, Reaches k start → ¬ start <+: l.toCacheKey ∧ ¬ start <+: l.toObjectKey) ∧
    (resolveDots dot (k.toObjectKey.splitOn slash)).map some = some t.value.toText :: a ∧
    k.toCacheKey.length ≤ maxKeyLength ∧ k.toObjectKey.length ≤ maxKeyLength := by
  obtain ⟨htk, rfl⟩ := forTenant_eq_ok hk
  obtain ⟨hul, rfl⟩ := forTenant_eq_ok hl
  rw [← htk, ← hul]
  have hsegments : k.segments.map some = l.segments.map some ↔ k.segments = l.segments :=
    (List.map_injective_iff.mpr (Option.some_injective _)).eq_iff
  have hcache : k.toCacheKey = l.toCacheKey ↔ k.tenant = l.tenant ∧ k.segments = l.segments :=
    keyText_eq_iff (by decide)
  have hobject : k.toObjectKey = l.toObjectKey ↔ k.tenant = l.tenant ∧ k.segments = l.segments :=
    keyText_eq_iff (by decide)
  rw [hsegments]
  refine ⟨hcache, hobject, ?_, ?_, ?_, k.length_le, ?_⟩
  · rw [equals, decide_eq_true_iff]
    exact hcache
  · intro hne start hstart
    exact hstart.not_prefix hne
  · rw [resolve_toObjectKey]
    rfl
  · rw [length_toObjectKey]
    exact k.length_le

def sampleTenant (n : ℕ) : TenantId := ⟨Guid.ofDigit n⟩

def sampleKey : TenantKey :=
  ⟨sampleTenant 1, [[0x61], [0x62]], by decide, by decide, by decide, by decide⟩

def otherSampleKey : TenantKey :=
  ⟨sampleTenant 2, [[0x61]], by decide, by decide, by decide, by decide⟩

theorem keys_injective_and_isolated_sample :
    (sampleKey.toCacheKey = otherSampleKey.toCacheKey ↔ sampleTenant 1 = sampleTenant 2 ∧
      [some [0x61], some [0x62]] = [some ([0x61] : Utf16)]) ∧
    ∀ start, Reaches sampleKey start →
      ¬ start <+: otherSampleKey.toCacheKey ∧ ¬ start <+: otherSampleKey.toObjectKey := by
  have hk : forTenant (sampleTenant 1) [some [0x61], some [0x62]] = .ok sampleKey := rfl
  have hl : forTenant (sampleTenant 2) [some [0x61]] = .ok otherSampleKey := rfl
  have hall := keys_injective_and_isolated hk hl
  exact ⟨hall.1, hall.2.2.2.1 (by decide)⟩

end TenantKey
end Decisya.Tenancy
