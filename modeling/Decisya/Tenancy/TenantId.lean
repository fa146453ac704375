import Decisya.Text.Utf16
import Mathlib.Tactic.FinCases

/-!
# Tenant identifiers and tenant resolutions

A `Guid` is its 32 hexadecimal digits, in the order of its text. The default `TenantId` is
the empty Guid, a placeholder; a resolution holds an identifier that is not the placeholder.
-/

namespace Decisya.Tenancy

open Text

set_option autoImplicit false

structure Guid where
  digits : List (Fin 16)
  length_digits : digits.length = 32
  deriving DecidableEq

namespace Guid

def empty : Guid := ⟨List.replicate 32 ⟨0, by decide⟩, by rfl⟩

/-- One digit, 32 times. -/
def ofDigit (n : Nat) : Guid :=
  ⟨List.replicate 32 ⟨n % 16, Nat.mod_lt n (by decide)⟩, List.length_replicate⟩

def hyphen : UInt16 := 0x2D

/-- The indexes of the hyphens in the `D` form. -/
def hyphenIndexes : List Nat := [8, 13, 18, 23]

/-- `Guid.ToString("D")`: lower case, groups of 8, 4, 4, 4 and 12 digits. -/
def toText (g : Guid) : Utf16 :=
  let digits := g.digits.map hexUnit
  digits.take 8 ++ hyphen :: (digits.drop 8).take 4 ++ hyphen :: (digits.drop 12).take 4 ++
    hyphen :: (digits.drop 16).take 4 ++ hyphen :: digits.drop 20

/-- What of a text that starts at index `k` stands at no hyphen's index. -/
def digitUnits (text : Utf16) (k : Nat) : Utf16 :=
  ((text.zipIdx k).filter fun c => c.2 ∉ hyphenIndexes).map Prod.fst

/-- The digits of a text in the `D` form, in either case. -/
def parseExact (text : Utf16) : Option Guid :=
  match (digitUnits text 0).mapM hexValue with
  | none => none
  | some digits => if h : digits.length = 32 then some ⟨digits, h⟩ else none

end Guid

structure TenantId where
  value : Guid
  deriving DecidableEq

namespace TenantId

def uninitialized : TenantId := ⟨Guid.empty⟩

instance : Inhabited TenantId := ⟨uninitialized⟩

def isInitialized (tenantId : TenantId) : Bool := tenantId.value != Guid.empty

def maxTextLength : Nat := 64

def canonicalLength : Nat := 36

def isAsciiWhitespace (c : UInt16) : Bool :=
  c == 0x20 || c == 0x09 || c == 0x0A || c == 0x0D || c == 0x0C || c == 0x0B

def hasShapeFrom (k : Nat) (value : Utf16) : Bool :=
  (value.zipIdx k).all fun c =>
    if c.2 ∈ Guid.hyphenIndexes then c.1 == Guid.hyphen else isHexUnit c.1

def hasCanonicalShape (value : Utf16) : Bool := hasShapeFrom 0 value

def tryParse (value : Utf16) : Option TenantId :=
  if maxTextLength < value.length then none
  else
    let trimmed := Text.trim isAsciiWhitespace value
    if trimmed.length ≠ canonicalLength ∨ hasCanonicalShape trimmed = false then none
    else
      match Guid.parseExact trimmed with
      | none => none
      | some parsed => if parsed = Guid.empty then none else some ⟨parsed⟩

/-- `ToString`: the empty text for the placeholder. -/
def toText (tenantId : TenantId) : Utf16 :=
  if tenantId.isInitialized then tenantId.value.toText else []

end TenantId

/-- A resolved tenant is never the placeholder; the default resolution is `invalid`. -/
inductive TenantResolution where
  | invalid
  | none
  | tenant (tenantId : {t : TenantId // t.isInitialized = true})
  deriving DecidableEq

namespace TenantResolution

instance : Inhabited TenantResolution := ⟨invalid⟩

def tenantId? : TenantResolution → Option TenantId
  | tenant t => some t.val
  | _ => Option.none

def fromClaim (claimValue : Option Utf16) : TenantResolution :=
  match claimValue with
  | .none => none
  | some text =>
    match TenantId.tryParse text with
    | some t => if h : t.isInitialized = true then tenant ⟨t, h⟩ else invalid
    | .none => invalid

end TenantResolution

/-! ## The text of an identifier reads back as the identifier -/

section Groups
variable {part : Utf16} {k n : Nat} (h : ∀ i < n, k + i ∉ Guid.hyphenIndexes)
  (hlen : part.length = n)
include h hlen

theorem Guid.not_hyphenIndex {c : UInt16 × Nat} (hc : c ∈ part.zipIdx k) :
    c.2 ∉ hyphenIndexes := by
  have hle := List.le_snd_of_mem_zipIdx hc
  have hlt := List.snd_lt_add_of_mem_zipIdx hc
  rw [hlen] at hlt
  have hnot := h (c.2 - k) (by omega)
  rwa [Nat.add_sub_cancel' hle] at hnot

theorem Guid.digitUnits_part : digitUnits part k = part := by
  have hall : ∀ c ∈ part.zipIdx k, decide (c.2 ∉ hyphenIndexes) = true :=
    fun c hc => decide_eq_true (not_hyphenIndex h hlen hc)
  rw [digitUnits, List.filter_eq_self.mpr hall]
  exact List.zipIdx_map_fst k _

theorem TenantId.hasShapeFrom_part : hasShapeFrom k part = part.all isHexUnit := by
  have hall : hasShapeFrom k part = (part.zipIdx k).all fun c => isHexUnit c.1 := by
    unfold hasShapeFrom
    rw [Bool.eq_iff_iff, List.all_eq_true, List.all_eq_true]
    apply forall₂_congr
    intro c hc
    rw [if_neg (Guid.not_hyphenIndex h hlen hc)]
  have hfst := List.zipIdx_map_fst k part
  rw [hall, ← hfst, List.all_map, hfst]
  rfl

variable (hn : k + n ∈ Guid.hyphenIndexes) (rest : Utf16)
include hn

/-- A group of digits and the hyphen after it. -/
theorem Guid.digitUnits_group :
    digitUnits (part ++ hyphen :: rest) k = part ++ digitUnits rest (k + n + 1) := by
  have hpart := digitUnits_part h hlen
  unfold digitUnits at hpart ⊢
  rw [List.zipIdx_append, List.filter_append, List.map_append, hpart, List.zipIdx_cons, hlen,
    List.filter_cons_of_neg (by simp [hn])]

theorem TenantId.hasShapeFrom_group (c : UInt16) :
    hasShapeFrom k (part ++ c :: rest) =
      (part.all isHexUnit && (c == Guid.hyphen && hasShapeFrom (k + n + 1) rest)) := by
  have hpart := hasShapeFrom_part h hlen
  unfold hasShapeFrom at hpart ⊢
  rw [List.zipIdx_append, List.all_append, hpart, List.zipIdx_cons, hlen, List.all_cons, if_pos hn]

end Groups

theorem all_isHexUnit_map (digits : List (Fin 16)) : (digits.map hexUnit).all isHexUnit = true := by
  rw [List.all_map, List.all_eq_true]
  exact fun d _ => isHexUnit_hexUnit d

/-- The `D` form of five groups of digits. -/
theorem Guid.toText_eq (g : Guid) : ∃ a b c d e : List (Fin 16), g.digits = a ++ (b ++ (c ++ (d ++ e))) ∧
    a.length = 8 ∧ b.length = 4 ∧ c.length = 4 ∧ d.length = 4 ∧ e.length = 12 ∧
    g.toText = a.map hexUnit ++ hyphen :: (b.map hexUnit ++ hyphen :: (c.map hexUnit ++
      hyphen :: (d.map hexUnit ++ hyphen :: e.map hexUnit))) := by
  have hlen := g.length_digits
  refine ⟨g.digits.take 8, (g.digits.drop 8).take 4, (g.digits.drop 12).take 4,
    (g.digits.drop 16).take 4, g.digits.drop 20, ?_, ?_, ?_, ?_, ?_, ?_, ?_⟩
  · have h₁ := List.take_append_drop 8 g.digits
    have h₂ := List.take_append_drop 4 (g.digits.drop 8)
    have h₃ := List.take_append_drop 4 (g.digits.drop 12)
    have h₄ := List.take_append_drop 4 (g.digits.drop 16)
    rw [List.drop_drop] at h₂ h₃ h₄
    rw [h₄, h₃, h₂, h₁]
  all_goals simp [hlen, Guid.toText, List.map_take, List.map_drop]

theorem Guid.parseExact_toText (g : Guid) : parseExact g.toText = some g := by
  obtain ⟨a, b, c, d, e, hdigits, ha, hb, hc, hd, he, htext⟩ := g.toText_eq
  have hunits : digitUnits g.toText 0 = g.digits.map hexUnit := by
    rw [← List.length_map hexUnit] at ha hb hc hd he
    rw [htext, digitUnits_group (by decide) ha (by decide),
      digitUnits_group (by decide) hb (by decide), digitUnits_group (by decide) hc (by decide),
      digitUnits_group (by decide) hd (by decide), digitUnits_part (by decide) he, hdigits]
    simp only [List.map_append]
  have hvalues : (g.digits.map hexUnit).mapM hexValue = some g.digits := by
    have hsome : hexValue ∘ hexUnit = fun d => pure d := funext hexValue_hexUnit
    rw [List.mapM_map, hsome, List.mapM_pure, List.map_id']
    rfl
  rw [parseExact, hunits, hvalues]
  simp [g.length_digits]

theorem TenantId.hasCanonicalShape_toText (g : Guid) : hasCanonicalShape g.toText = true := by
  obtain ⟨a, b, c, d, e, -, ha, hb, hc, hd, he, htext⟩ := g.toText_eq
  rw [← List.length_map hexUnit] at ha hb hc hd he
  rw [htext, hasCanonicalShape, hasShapeFrom_group (by decide) ha (by decide),
    hasShapeFrom_group (by decide) hb (by decide), hasShapeFrom_group (by decide) hc (by decide),
    hasShapeFrom_group (by decide) hd (by decide), hasShapeFrom_part (by decide) he]
  simp only [all_isHexUnit_map, Bool.and_true, beq_self_eq_true]

theorem Guid.length_toText (g : Guid) : g.toText.length = TenantId.canonicalLength := by
  simp [Guid.toText, g.length_digits, TenantId.canonicalLength]

theorem Guid.mem_toText {g : Guid} {c : UInt16} (hc : c ∈ g.toText) :
    c = hyphen ∨ ∃ d, c = hexUnit d := by
  obtain ⟨_, _, _, _, _, -, -, -, -, -, -, htext⟩ := g.toText_eq
  rw [htext] at hc
  simp only [List.mem_append, List.mem_cons, List.mem_map] at hc
  rcases hc with ⟨d, -, rfl⟩ | rfl | ⟨d, -, rfl⟩ | rfl | ⟨d, -, rfl⟩ | rfl | ⟨d, -, rfl⟩ | rfl |
    ⟨d, -, rfl⟩
  all_goals first | exact Or.inr ⟨d, rfl⟩ | exact Or.inl rfl

theorem Guid.not_whitespace_of_mem_toText {g : Guid} {c : UInt16} (hc : c ∈ g.toText) :
    TenantId.isAsciiWhitespace c = false := by
  have hunit : ∀ d : Fin 16, TenantId.isAsciiWhitespace (hexUnit d) = false := by decide
  rcases mem_toText hc with rfl | ⟨d, rfl⟩
  · rfl
  · exact hunit d

theorem TenantId.tryParse_toText {tenantId : TenantId} (h : tenantId.isInitialized = true) :
    tryParse tenantId.toText = some tenantId := by
  have htext : tenantId.toText = tenantId.value.toText := if_pos h
  have hlen := tenantId.value.length_toText
  have htrim : Text.trim isAsciiWhitespace tenantId.value.toText = tenantId.value.toText :=
    Text.trim_eq_self fun c hc => Guid.not_whitespace_of_mem_toText hc
  have hne : tenantId.value ≠ Guid.empty := by simpa [isInitialized] using h
  rw [htext, tryParse, if_neg (by rw [hlen]; decide)]
  simp only [htrim, hlen, hasCanonicalShape_toText, Guid.parseExact_toText, if_neg hne]
  rfl

theorem TenantId.isInitialized_of_tryParse {text : Utf16} {tenantId : TenantId}
    (h : tryParse text = some tenantId) : tenantId.isInitialized = true := by
  unfold tryParse at h
  split at h
  · cases h
  · dsimp only at h
    split at h
    · cases h
    · split at h
      · cases h
      · split at h
        · cases h
        · rename_i hne
          cases h
          simpa [isInitialized] using hne

/-- A claim resolves to a tenant exactly when its text parses. -/
theorem TenantResolution.fromClaim_eq_tenant {claimValue : Option Utf16}
    {t : {t : TenantId // t.isInitialized = true}} :
    fromClaim claimValue = tenant t ↔
      ∃ text, claimValue = some text ∧ TenantId.tryParse text = some t.val := by
  unfold fromClaim
  constructor
  · intro h
    split at h
    · cases h
    · rename_i text
      split at h
      · rename_i parsed hparse
        split at h
        · cases h
          exact ⟨text, rfl, hparse⟩
        · cases h
      · cases h
  · intro h
    obtain ⟨text, rfl, hparse⟩ := h
    simp only [hparse]
    exact dif_pos t.property

end Decisya.Tenancy
