import Decisya.Text.Json
import Mathlib
import Decisya.Text.Python
import Decisya.Time.Calendar

/-!
# The policy of the image scan

`evaluate` reads the scanner's JSON of one image and the list of exceptions. `none` is an
exception of Python that leaves the function, as on a document of the wrong shape.
-/

namespace Decisya.ImageScan

open Calendar Python

set_option autoImplicit false

/-- A valid entry of `exceptions.json`. -/
structure Entry where
  id : Str
  image : Str
  package : Str
  added : Date
  expires : Date
  deriving DecidableEq

def Entry.key (e : Entry) : Str × Str × Str := (e.image, e.package, e.id)

def aliases : List Str :=
  ["postgres".toList, "keycloak".toList, "redis".toList, "caddy".toList, "otelcollector".toList]

/-- The images this repository builds itself, with the place each is valid for. -/
def ownBuildAliases : List (Str × Str) := [("caddy".toList, "ghcr.io/mpcs2013/decisya-caddy".toList)]

def osPackageTypes : List Str := ["apk".toList, "deb".toList, "rpm".toList]

def maxFixedExceptionDays : ℕ := 30

inductive TagState where
  | unchanged
  | moved
  | unknown
  deriving DecidableEq

/-! ## References -/

/-- `REF_RE`, whose `$` also lets one line feed at the end through. -/
def splitRef (ref : Str) : Option (Str × Str × Str × Str) :=
  let registry := ref.takeWhile (· ≠ '/')
  let rest := (ref.dropWhile (· ≠ '/')).drop 1
  let image := rest.takeWhile (· ≠ ':')
  let tagged := (rest.dropWhile (· ≠ ':')).drop 1
  let tag := tagged.takeWhile (· ≠ '@')
  let pinned := tagged.dropWhile (· ≠ '@')
  let digest := pinned.drop 8
  let hex := digest.take 64
  if registry ≠ [] ∧ registry.all (fun c => c.isLower || c.isDigit || c == '.' || c == '-') ∧
      ref ≠ registry ∧
      image ≠ [] ∧ image.all (fun c => c.isLower || c.isDigit || c ∈ ['.', '_', '/', '-']) ∧
      rest ≠ image ∧ tag ≠ [] ∧ tag.all (fun c => c.isAlphanum || c ∈ ['.', '_', '-']) ∧
      pinned.take 8 = "@sha256:".toList ∧
      hex.length = 64 ∧ hex.all (fun c => c.isDigit || ('a' ≤ c && c ≤ 'f')) ∧
      (digest = hex ∨ digest = hex ++ ['\n']) then
    some (registry, image, tag, digest)
  else none

def isOwnBuild (name ref : Str) : Bool :=
  match ownBuildAliases.lookup name, splitRef ref with
  | some want, some (registry, image, _, _) => registry ++ '/' :: image = want
  | _, _ => false

/-! ## One match -/

structure Item where
  image : Str
  package : Json
  version : Json
  id : Json
  type : Json
  severity : Str
  fix : Json
  note : Option Str

/-- What `evaluate` reads of a match that blocks unless an exception covers it. -/
structure Blocking where
  item : Item
  ids : List Json
  fixed : Bool
  artifact : Json

/-- `str(vuln.get("severity", "")).strip().lower()`: no text of a value that is not a string
is one of the words it is compared with. -/
def severityOf : Option Json → Option Str
  | none => some []
  | some (.str s) => some (lower (strip s))
  | some _ => none

section Scores

-- `float(score) >= ELEVATE_CVSS`: `some false` where `float` raises what `_scores` catches
variable (elevates : Json → Option Bool)

def elevatedBy (vulns : List Json) : Option Bool := do
  let cvss ← vulns.mapM fun v => v.getList "cvss"
  let above ← cvss.flatten.mapM fun c => do
    elevates ((← (← c.getDict "metrics").get "baseScore").getD .null)
  some (above.any id)

/-- The severity that is reported, with whether the match counts as High by its score only;
`some none` when the match is passed over. -/
def blockingSeverity (vuln related : Json) : Option (Option Str) := do
  match severityOf (← vuln.get "severity") with
  | none => some none
  | some sev =>
    if sev ∈ ["high".toList, "critical".toList] then some (some (capitalize sev))
    else if sev ∈ ["unknown".toList, "negligible".toList, []] then do
      if ← elevatedBy elevates (vuln :: (← related.iterate)) then
        some (some ("Elevated(".toList ++ (if sev = [] then "unknown".toList else sev) ++ [')']))
      else some none
    else some none

def idsOf (vuln related : Json) : Option (List Json) := do
  let own ← vuln.get "id"
  let others ← (← related.iterate).mapM fun r => r.get "id"
  let ids := (own :: others).map fun x => x.getD .null
  if ids.all Json.hashable then some (ids.filter fun x => !x matches .null) else none

def fixText (fix : Json) (fixed : Bool) : Option Json := do
  if fixed then
    let versions ← (← fix.getList "versions").mapM Json.asStr
    some (.str (join ", ".toList versions))
  else some (Json.orElse (← fix.get "state") (.str "unknown".toList))

def blocking (name : Str) (m : Json) : Option (Option Blocking) := do
  let vuln ← m.getDict "vulnerability"
  let related := Json.orElse (← m.get "relatedVulnerabilities") (.arr [])
  let artifact ← m.getDict "artifact"
  match ← blockingSeverity elevates vuln related with
  | none => some none
  | some severity => do
    let ids ← idsOf vuln related
    let fix ← vuln.getDict "fix"
    let package ← artifact.get "name"
    let version ← artifact.get "version"
    let id ← vuln.get "id"
    let type ← artifact.get "type"
    let state ← fix.get "state"
    let fixed := (state.getD .null).isStr "fixed".toList
    let text ← fixText fix fixed
    some (some
      { item :=
          { image := name
            package := package.getD (.str [])
            version := version.getD (.str [])
            id := id.getD (.str [])
            type := type.getD (.str [])
            severity := severity
            fix := text
            note := none }
        ids := ids
        fixed := fixed
        artifact := artifact })

end Scores

/-! ## The exceptions -/

def inOsPackageTypes (artifact : Json) : Option Bool := do
  let type := (← artifact.get "type").getD .null
  if type.hashable then some (osPackageTypes.any fun t => type.isStr t) else none

def keepsFixedException (hit : Entry) (name : Str) (artifact : Json) (tagState : Option TagState) :
    Option Bool := do
  if tagState = some .unchanged ∧ name ∈ aliases then
    some ((← inOsPackageTypes artifact) &&
      decide (hit.expires.toordinal ≤ hit.added.toordinal + maxFixedExceptionDays))
  else some false

inductive Judged where
  | finding (item : Item)
  | excepted (item : Item) (hit : Entry)

def Entry.covers (e : Entry) (name : Str) (b : Blocking) : Bool :=
  e.image = name && b.item.package.isStr e.package && b.ids.any fun x => x.isStr e.id

/-- The first active entry in the order of the list. -/
def hitOf (exceptions : List Entry) (today : Date) (name : Str) (b : Blocking) : Option Entry :=
  (exceptions.filter fun e => today ≤ e.expires).find? fun e => e.covers name b

def noteNotApplied (eligible : Bool) (tagState : Option TagState) (tagLabel : Str) : Str :=
  "exception not applied: a fix is ".toList ++ "now available, bump the image".toList ++
    if eligible = true ∧ tagState = some .moved then
      " (tag moved: rescan and bump".toList ++
        (if tagLabel = [] then [] else ": ".toList ++ tagLabel) ++ [')']
    else if eligible = true ∧ tagState = some .unknown then
      " (tag resolution failed: D-2 applied)".toList
    else []

/-- What the entry found does for the match. A fix ends it, but for the narrow rule. -/
def settle (name : Str) (tagState : Option TagState) (tagLabel : Str) (b : Blocking) :
    Option Entry → Option Judged
  | none => some (.finding b.item)
  | some hit =>
    if b.fixed then do
      if ← keepsFixedException hit name b.artifact tagState then
        some (.excepted { b.item with
          note := some ("excepted (no rebuilt image: ".toList ++
            (if tagLabel = [] then "tag".toList else tagLabel) ++
            " still at the pinned digest)".toList) } hit)
      else
        let eligible ← if name ∈ aliases then inOsPackageTypes b.artifact else some false
        some (.finding { b.item with note := some (noteNotApplied eligible tagState tagLabel) })
    else some (.excepted b.item hit)

/-! ## One image -/

structure Evaluation where
  findings : List Item
  excepted : List Item
  used : List (Str × Str × Str)

def Judged.finding? : Judged → Option Item
  | finding item => some item
  | excepted _ _ => none

def Judged.excepted? : Judged → Option Item
  | finding _ => none
  | excepted item _ => some item

def Judged.used? : Judged → Option (Str × Str × Str)
  | finding _ => none
  | excepted _ hit => some hit.key

section Evaluate
variable (elevates : Json → Option Bool)

def judge (name : Str) (exceptions : List Entry) (today : Date) (tagState : Option TagState)
    (tagLabel : Str) (m : Json) : Option (Option Judged) := do
  match ← blocking elevates name m with
  | none => some none
  | some b => (settle name tagState tagLabel b (hitOf exceptions today name b)).map some

/-- The judgements in the order of the matches. -/
def judgements (doc : Json) (name : Str) (exceptions : List Entry) (today : Date)
    (tagState : Option TagState) (tagLabel : Str) : Option (List Judged) := do
  let found ← (← (← doc.get "matches")).iterate
  let judged ← found.mapM (judge elevates name exceptions today tagState tagLabel)
  some (judged.filterMap id)

def evaluate (doc : Json) (name : Str) (exceptions : List Entry) (today : Date)
    (tagState : Option TagState) (tagLabel : Str) : Option Evaluation := do
  let judged ← judgements elevates doc name exceptions today tagState tagLabel
  some
    { findings := judged.filterMap Judged.finding?
      excepted := judged.filterMap Judged.excepted?
      used := judged.filterMap Judged.used? }

variable {elevates} {name : Str} {exceptions : List Entry} {today : Date}
  {tagState : Option TagState} {tagLabel : Str}

/-- What becomes of a match: it is found unless the entry leaves it out. -/
theorem settle_cases {b : Blocking} {found : Option Entry} {judged : Judged}
    (h : settle name tagState tagLabel b found = some judged) :
    (∃ note, judged = .finding { b.item with note := note } ∧
        ∀ hit, found = some hit →
          b.fixed = true ∧ keepsFixedException hit name b.artifact tagState = some false) ∨
      ∃ hit note, found = some hit ∧ judged = .excepted { b.item with note := note } hit ∧
        (b.fixed = false ∨
          b.fixed = true ∧ keepsFixedException hit name b.artifact tagState = some true) := by
  cases found with
  | none =>
    cases h
    exact Or.inl ⟨b.item.note, rfl, fun _ hnone => nomatch hnone⟩
  | some hit =>
    unfold settle at h
    dsimp only at h
    cases hfixed : b.fixed with
    | false =>
      rw [hfixed, if_neg Bool.false_ne_true] at h
      cases h
      exact Or.inr ⟨hit, b.item.note, rfl, rfl, Or.inl rfl⟩
    | true =>
      rw [hfixed, if_pos rfl] at h
      obtain ⟨kept, hkept, h⟩ := Option.bind_eq_some_iff.mp h
      cases kept with
      | true =>
        cases h
        exact Or.inr ⟨hit, _, rfl, rfl, Or.inr ⟨rfl, hkept⟩⟩
      | false =>
        simp only [Bool.false_eq_true, if_false] at h
        have hnote : ∃ note, judged = .finding { b.item with note := note } := by
          split at h
          · obtain ⟨eligible, -, h⟩ := Option.bind_eq_some_iff.mp h
            cases h
            exact ⟨_, rfl⟩
          · cases h
            exact ⟨_, rfl⟩
        obtain ⟨note, hnote⟩ := hnote
        refine Or.inl ⟨note, hnote, fun other hother => ?_⟩
        cases hother
        exact ⟨rfl, hkept⟩

theorem judge_cases {m : Json} {found : Option Judged}
    (h : judge elevates name exceptions today tagState tagLabel m = some found) :
    (blocking elevates name m = some none ∧ found = none) ∨
      ∃ b judged, blocking elevates name m = some (some b) ∧ found = some judged ∧
        settle name tagState tagLabel b (hitOf exceptions today name b) = some judged := by
  unfold judge at h
  obtain ⟨blocked, hblocking, h⟩ := Option.bind_eq_some_iff.mp h
  cases blocked with
  | none =>
    cases h
    exact Or.inl ⟨hblocking, rfl⟩
  | some b =>
    obtain ⟨judged, hsettle, hfound⟩ := Option.map_eq_some_iff.mp h
    exact Or.inr ⟨b, judged, hblocking, hfound.symm, hsettle⟩

end Evaluate
end Decisya.ImageScan
