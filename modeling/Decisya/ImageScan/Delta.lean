import Decisya.ImageScan.ExceptionOrder
import Decisya.ImageScan.Record

/-!
# The delta of a pull request

`compare_alias` scans one image at the head and, where that can be compared, at the base. A
finding of the head is at the base when the base scan had one of the same key and of no lower
rank. `none` is an exception of Python that leaves the function. The log is left out.
-/

namespace Decisya.ImageScan

open Calendar Python

set_option autoImplicit false

inductive Mode where
  | full
  | gateChange
  | delta
  | validator
  deriving DecidableEq

/-! ## Keys and ranks -/

/-- Image, package, type and id. -/
abbrev Key := Str × Str × Str × Str

/-- `x.get(key)` of a value that may be no dictionary. -/
def fieldOf (x : Json) (key : String) : Json :=
  match x with
  | .obj fields => (Json.lookup fields key.toList).getD .null
  | _ => .null

/-- `_s` -/
def strOf (x : Json) : Str := x.asStr.getD []

def findingKey (name : Str) (m : Json) : Key :=
  let artifact := fieldOf m "artifact"
  let vuln := fieldOf m "vulnerability"
  (name, strOf (fieldOf artifact "name"), strOf (fieldOf artifact "type"), strOf (fieldOf vuln "id"))

def itemKey (item : Item) : Key := (item.image, strOf item.package, strOf item.type, strOf item.id)

def rankOf (severity : Str) : Option ℕ :=
  if severity = "Critical".toList then some 2
  else if severity = "High".toList ∨ startsWith severity "Elevated(".toList = true then some 1
  else none

/-- The rank of a label that another module wrote. -/
def rankOfLabel (severity : Json) : Option ℕ := severity.asStr.bind rankOf

abbrev Ranks := List (Key × ℕ)

def raise (ranks : Ranks) (key : Key) (rank : ℕ) : Ranks :=
  (key, max ((ranks.lookup key).getD 0) rank) :: ranks

/-- One match of the base. -/
def rankLabels (key : Key) : List Json → Ranks → Ranks
  | [], ranks => ranks
  | label :: labels, ranks =>
    rankLabels key labels (match rankOfLabel label with
      | none => ranks
      | some rank => raise ranks key rank)

/-- `severities` are those of the findings of the base module's own `evaluate` on one match,
without exceptions; `none` when it raises. -/
def baseRanks (severities : Json → Option (List Json)) (name : Str) :
    List Json → Ranks → Option Ranks
  | [], ranks => some ranks
  | m :: ms, ranks => do
    let labels ← severities m
    baseRanks severities name ms (rankLabels (findingKey name m) labels ranks)

def isNew (ranks : Ranks) (item : Item) : Bool :=
  match ranks.lookup (itemKey item), rankOf item.severity with
  | some atBase, some rank => atBase < rank
  | _, _ => true

/-- The findings, each with its place, which stands for the identity of the row. -/
def newFindings (findings : List (Item × ℕ)) : Option Ranks → List (Item × ℕ)
  | none => findings
  | some ranks => findings.filter fun f => isNew ranks f.1

def isDict : Json → Bool
  | .obj _ => true
  | _ => false

def rawKeys (name : Str) (doc : Json) : Option (List Key) := do
  let ms ← doc.getList "matches"
  some ((ms.filter isDict).map (findingKey name)).dedup

def sameRepository (baseRef : Option Str) (headRef : Str) : Bool :=
  match baseRef.bind splitRef, splitRef headRef with
  | some (registry, image, _, _), some (registry', image', _, _) =>
    registry == registry' && image == image'
  | _, _ => false

/-! ## One alias -/

/-- What the base module's own `evaluate` says of one match of an alias on a day. -/
structure BaseModule where
  severities : Str → Date → Json → Option (List Json)

/-- The arguments of `compare_alias`, and the scans and the registry as it meets them. -/
structure Comparison where
  name : Str
  ref : Str
  mode : Mode
  scanner : Str
  base : Option BaseModule
  baseRefs : Option Refs
  baseScanner : Option Str
  entries : List Entry
  today : Date
  scanHead : Attempt
  scanBase : Str → Str → Attempt
  resolveTagState : Str → Str → Str → Str → TagState
  movedDigest : Str → Str → Str → Option Str

inductive RowStatus where
  | fail
  | atBase
  | excepted
  deriving DecidableEq

structure DeltaRow where
  item : Item
  status : RowStatus

structure Outcome where
  rows : List DeltaRow
  failed : List Str
  used : List (Str × Str × Str)

namespace Comparison

def baseRef (c : Comparison) : Option Str := (c.baseRefs.getD []).lookup c.name

def unchanged (c : Comparison) : Bool :=
  c.baseScanner == some c.scanner && c.baseRef == some c.ref

/-- The tag state and label for `evaluate`. -/
def tag (c : Comparison) : Option (Option TagState × Str) :=
  if isOwnBuild c.name c.ref then some (none, [])
  else do
    let (registry, image, tag, sha) ← splitRef c.ref
    let state := c.resolveTagState registry image tag sha
    let moved := if state = .moved then c.movedDigest registry image tag else none
    some (some state, image ++ ':' :: tag ++
      (moved.map fun digest => " now at ".toList ++ digest).getD [])

end Comparison

section Compare

-- which values count as High by their score, and `==` of the two builds
variable (elevates : Json → Option Bool) (pyEq : Option Json → Option Json → Bool)

/-- The base document and its ranks, where the base can be compared. -/
def baseSide (c : Comparison) (doc : Json) : Option (Option (Json × Ranks)) :=
  match c.base, c.baseRefs, c.baseScanner, c.baseRef with
  | some base, some _, some baseScanner, some baseRef =>
    if sameRepository (some baseRef) c.ref then
      match c.scanBase baseScanner baseRef with
      | .failed _ => some none
      | .trusted baseDoc => do
        let built ← dbBuilt baseDoc
        let headBuilt ← dbBuilt doc
        if pyEq built headBuilt then
          some (do
            let ms ← (← (← baseDoc.get "matches")).iterate
            let ranks ← baseRanks (base.severities c.name c.today) c.name ms []
            some (baseDoc, ranks))
        else some none
    else some none
  | _, _, _, _ => some none

def missingMessage (name : Str) (n : ℕ) : Str :=
  name ++ ": R-1: ".toList ++ digits n ++
    " raw base match(es) are missing at the head with the same scanner and reference".toList

def anomalyMessage (name : Str) : Str :=
  name ++ (": the base side is unavailable for an unchanged scanner and reference; ".toList ++
    "R-1 cannot be evaluated".toList)

def rowsOf (findings : List Item) (ranks : Option Ranks) : List DeltaRow :=
  let places := findings.zipIdx
  let newPlaces := (newFindings places ranks).map Prod.snd
  places.map fun f => ⟨f.1, if f.2 ∈ newPlaces then .fail else .atBase⟩

def missingFailures (c : Comparison) (doc : Json) : Option (Json × Ranks) → Option (List Str)
  | none => some []
  | some (baseDoc, _) => do
    let headRaw ← rawKeys c.name doc
    let baseRaw ← rawKeys c.name baseDoc
    let missing := baseRaw.filter fun key => key ∉ headRaw
    some (if c.unchanged && !missing.isEmpty then [missingMessage c.name missing.length] else [])

def compareAlias (c : Comparison) : Option Outcome :=
  match c.scanHead with
  | .failed problems => some ⟨[], problems.map fun p => c.name ++ ": ".toList ++ p, []⟩
  | .trusted doc => do
    let (tagState, tagLabel) ← c.tag
    let result ← evaluate elevates doc c.name c.entries c.today tagState tagLabel
    let side ← baseSide pyEq c doc
    let missing ← missingFailures c doc side
    let anomaly := if c.mode = .gateChange ∧ side.isNone = true ∧ c.unchanged = true then
      [anomalyMessage c.name] else []
    some
      { rows := rowsOf result.findings (side.map Prod.snd) ++
          result.excepted.map fun f => ⟨f, .excepted⟩
        failed := anomaly ++ missing
        used := result.used }

end Compare

/-! ## Ranks of the base -/

theorem lookup_raise (ranks : Ranks) (key other : Key) (rank : ℕ) :
    (raise ranks key rank).lookup other =
      if other = key then some (max ((ranks.lookup key).getD 0) rank) else ranks.lookup other := by
  rw [raise, List.lookup_cons]
  cases h : other == key with
  | true => rw [if_pos (beq_iff_eq.mp h)]
  | false => rw [if_neg (beq_eq_false_iff_ne.mp h)]

/-- Every rank is that of a match with the key. -/
def FromMatches (severities : Json → Option (List Json)) (name : Str) (ms : List Json)
    (ranks : Ranks) : Prop :=
  ∀ key rank, ranks.lookup key = some rank → ∃ m ∈ ms, findingKey name m = key ∧
    ∃ labels label, severities m = some labels ∧ label ∈ labels ∧ rankOfLabel label = some rank

section Ranks

variable {severities : Json → Option (List Json)} {name : Str} {ms : List Json} {ranks : Ranks}

theorem fromMatches_raise {m : Json} (hm : m ∈ ms) {labels : List Json} {label : Json}
    (hlabels : severities m = some labels) (hlabel : label ∈ labels) {rank : ℕ}
    (hrank : rankOfLabel label = some rank) (h : FromMatches severities name ms ranks) :
    FromMatches severities name ms (raise ranks (findingKey name m) rank) := by
  intro key top htop
  rw [lookup_raise] at htop
  split at htop
  · rename_i hkey
    rw [hkey]
    cases hold : ranks.lookup (findingKey name m) with
    | none =>
      rw [hold, Option.getD_none, Nat.zero_max, Option.some.injEq] at htop
      rw [← htop]
      exact ⟨m, hm, rfl, labels, label, hlabels, hlabel, hrank⟩
    | some old =>
      rw [hold, Option.getD_some, Option.some.injEq] at htop
      rcases Nat.le_total old rank with hle | hle
      · rw [Nat.max_eq_right hle] at htop
        rw [← htop]
        exact ⟨m, hm, rfl, labels, label, hlabels, hlabel, hrank⟩
      · rw [Nat.max_eq_left hle] at htop
        rw [← htop]
        exact h _ old hold
  · exact h key top htop

theorem fromMatches_rankLabels {m : Json} (hm : m ∈ ms) {all labels : List Json}
    (hall : severities m = some all) (hsub : ∀ label ∈ labels, label ∈ all)
    (h : FromMatches severities name ms ranks) :
    FromMatches severities name ms (rankLabels (findingKey name m) labels ranks) := by
  induction labels generalizing ranks with
  | nil => exact h
  | cons label labels ih =>
    have hrest : ∀ l ∈ labels, l ∈ all := fun l hl => hsub l (List.mem_cons_of_mem label hl)
    rw [rankLabels]
    apply ih hrest
    cases hrank : rankOfLabel label with
    | none => exact h
    | some rank => exact fromMatches_raise hm hall (hsub label List.mem_cons_self) hrank h

theorem fromMatches_baseRanks {seen rest : List Json} {result : Ranks}
    (h : FromMatches severities name (seen ++ rest) ranks)
    (hresult : baseRanks severities name rest ranks = some result) :
    FromMatches severities name (seen ++ rest) result := by
  induction rest generalizing seen ranks with
  | nil =>
    cases hresult
    exact h
  | cons m rest ih =>
    rw [baseRanks] at hresult
    obtain ⟨labels, hlabels, hresult⟩ := Option.bind_eq_some_iff.mp hresult
    have hm : m ∈ seen ++ m :: rest := List.mem_append_right _ List.mem_cons_self
    have hstep := fromMatches_rankLabels hm hlabels (fun _ hl => hl) h
    rw [List.append_cons] at hstep ⊢
    exact ih hstep hresult

end Ranks

/-! ## Rows -/

/-- The place of a finding tells it from the others. -/
theorem rowsOf_eq (findings : List Item) (ranks : Option Ranks) :
    rowsOf findings ranks = findings.map fun f =>
      ⟨f, if (ranks.map fun r => isNew r f).getD true then .fail else .atBase⟩ := by
  have hplace : ∀ f ∈ findings.zipIdx,
      (f.2 ∈ (newFindings findings.zipIdx ranks).map Prod.snd ↔
        (ranks.map fun r => isNew r f.1).getD true = true) := by
    intro f hf
    cases ranks with
    | none =>
      simp only [newFindings, Option.map_none, Option.getD_none, iff_true]
      exact List.mem_map_of_mem hf
    | some r =>
      simp only [newFindings, Option.map_some, Option.getD_some, List.mem_map, List.mem_filter]
      constructor
      · rintro ⟨g, ⟨hg, hnew⟩, hsame⟩
        have hf' := List.mem_zipIdx_iff_getElem?.mp hf
        have hg' := List.mem_zipIdx_iff_getElem?.mp hg
        rw [hsame, hf'] at hg'
        rw [Option.some.inj hg']
        exact hnew
      · intro hnew
        exact ⟨f, ⟨hf, hnew⟩, rfl⟩
  have hrow : ∀ f ∈ findings.zipIdx,
      (⟨f.1, if f.2 ∈ (newFindings findings.zipIdx ranks).map Prod.snd then .fail else .atBase⟩ :
        DeltaRow)
        = ⟨f.1, if (ranks.map fun r => isNew r f.1).getD true then .fail else .atBase⟩ := by
    intro f hf
    rw [if_congr (hplace f hf) rfl rfl]
  calc rowsOf findings ranks
      = findings.zipIdx.map ((fun f =>
          ⟨f, if (ranks.map fun r => isNew r f).getD true then .fail else .atBase⟩) ∘ Prod.fst) :=
        List.map_congr_left hrow
    _ = _ := by rw [← List.map_map, List.zipIdx_map_fst]

/-! ## One match and its row -/

section Compare

variable (elevates : Json → Option Bool) (pyEq : Option Json → Option Json → Bool)

/-- The severity of a match that `evaluate` reports: High, Critical or elevated by its score. -/
def severityOfMatch (m : Json) : Option (Option Str) := do
  let vuln ← m.getDict "vulnerability"
  blockingSeverity elevates vuln (Json.orElse (← m.get "relatedVulnerabilities") (.arr []))

def isReported (m : Json) : Bool := (severityOfMatch elevates m).join.isSome

/-- An active entry for the image, the package and one of the ids of the match leaves it out. -/
def Excused (c : Comparison) (b : Blocking) : Prop :=
  ∃ e ∈ c.entries, c.today ≤ e.expires ∧ e.covers c.name b = true ∧
    (b.fixed = false ∨ ∃ state label, c.tag = some (state, label) ∧
      keepsFixedException e c.name b.artifact state = some true)

/-- The base scan is of the same repository and the same database, and it has a match with the
key that the base module ranks no lower. -/
def AtBase (c : Comparison) (doc m : Json) (b : Blocking) : Prop :=
  ∃ base baseScanner baseRef baseDoc ms built headBuilt,
    c.base = some base ∧ c.baseScanner = some baseScanner ∧ c.baseRef = some baseRef ∧
    sameRepository (some baseRef) c.ref = true ∧
    c.scanBase baseScanner baseRef = .trusted baseDoc ∧
    dbBuilt baseDoc = some built ∧ dbBuilt doc = some headBuilt ∧ pyEq built headBuilt = true ∧
    (baseDoc.get "matches").join.bind Json.iterate = some ms ∧
    ∃ m' ∈ ms, findingKey c.name m' = findingKey c.name m ∧
      ∃ labels label atBase atHead, base.severities c.name c.today m' = some labels ∧
        label ∈ labels ∧ rankOfLabel label = some atBase ∧
        rankOf b.item.severity = some atHead ∧ atHead ≤ atBase

/-- What a row says of the match it stands for. -/
def RowOf (c : Comparison) (doc m : Json) (row : DeltaRow) : Prop :=
  ∃ b, blocking elevates c.name m = some (some b) ∧
    row.item = { b.item with note := row.item.note } ∧
    (row.status = .excepted → Excused c b) ∧ (row.status = .atBase → AtBase pyEq c doc m b)

variable {elevates pyEq} {c : Comparison} {doc m : Json} {b : Blocking}

theorem severityOfMatch_of_blocking {found : Option Blocking}
    (h : blocking elevates c.name m = some found) :
    severityOfMatch elevates m = some (found.map fun b => b.item.severity) := by
  unfold blocking at h
  obtain ⟨vuln, hvuln, h⟩ := Option.bind_eq_some_iff.mp h
  obtain ⟨related, hrelated, h⟩ := Option.bind_eq_some_iff.mp h
  obtain ⟨artifact, -, h⟩ := Option.bind_eq_some_iff.mp h
  obtain ⟨severity, hseverity, h⟩ := Option.bind_eq_some_iff.mp h
  have hmatch : severityOfMatch elevates m = some severity := by
    unfold severityOfMatch
    rw [hvuln, hrelated]
    exact hseverity
  rw [hmatch]
  cases severity with
  | none =>
    cases h
    rfl
  | some severity =>
    simp only [Option.bind_eq_bind, Option.bind_eq_some_iff, Option.some.injEq] at h
    obtain ⟨_, _, _, _, _, _, _, _, _, _, _, _, _, _, _, _, hfound⟩ := h
    rw [← hfound]
    rfl

/-- A field that `evaluate` reads from a dictionary of the match is the one the key reads. -/
theorem strOf_get {outer inner : String} {dict : Json} {value : Option Json}
    (hdict : m.getDict outer = some dict) (hvalue : dict.get inner = some value) :
    strOf (value.getD (.str [])) = strOf (fieldOf (fieldOf m outer) inner) := by
  obtain ⟨field, hfield, rfl⟩ := Option.map_eq_some_iff.mp hdict
  have houter : fieldOf m outer = field.getD .null := by
    cases m with
    | obj fields =>
      cases hfield
      rfl
    | null => cases hfield
    | bool _ => cases hfield
    | num _ => cases hfield
    | str _ => cases hfield
    | arr _ => cases hfield
  rw [houter]
  have hempty : ∀ j : Json, j.truthy = false → fieldOf j inner = .null := by
    intro j hj
    cases j with
    | obj fields =>
      cases fields with
      | nil => rfl
      | cons _ _ => cases hj
    | null => rfl
    | bool _ => rfl
    | num _ => rfl
    | str _ => rfl
    | arr _ => rfl
  cases field with
  | none =>
    cases hvalue
    rfl
  | some j =>
    unfold Json.orElse at hvalue
    dsimp only at hvalue
    cases hj : j.truthy with
    | false =>
      rw [hj, if_neg Bool.false_ne_true] at hvalue
      cases hvalue
      rw [Option.getD_some, hempty j hj]
      rfl
    | true =>
      rw [hj, if_pos rfl] at hvalue
      cases j with
      | obj fields =>
        cases hvalue
        rw [Option.getD_some]
        unfold fieldOf
        dsimp only
        cases Json.lookup fields inner.toList with
        | none => rfl
        | some _ => rfl
      | null => cases hvalue
      | bool _ => cases hvalue
      | num _ => cases hvalue
      | str _ => cases hvalue
      | arr _ => cases hvalue

/-- The key of a row is the key of the match it was made from. -/
theorem itemKey_of_blocking (h : blocking elevates c.name m = some (some b)) :
    itemKey b.item = findingKey c.name m := by
  unfold blocking at h
  obtain ⟨vuln, hvuln, h⟩ := Option.bind_eq_some_iff.mp h
  obtain ⟨related, -, h⟩ := Option.bind_eq_some_iff.mp h
  obtain ⟨artifact, hartifact, h⟩ := Option.bind_eq_some_iff.mp h
  obtain ⟨severity, -, h⟩ := Option.bind_eq_some_iff.mp h
  cases severity with
  | none => cases h
  | some severity =>
    simp only [Option.bind_eq_bind, Option.bind_eq_some_iff, Option.some.injEq] at h
    obtain ⟨_, _, _, _, package, hpackage, _, _, id, hid, type, htype, _, _, _, _, hfound⟩ := h
    rw [← hfound]
    unfold itemKey findingKey
    dsimp only
    rw [strOf_get hartifact hpackage, strOf_get hartifact htype, strOf_get hvuln hid]

/-! ## All matches -/

/-- The row of a judgement. -/
def rowOf (ranks : Option Ranks) : Judged → DeltaRow
  | .finding item =>
    ⟨item, if (ranks.map fun r => isNew r item).getD true then .fail else .atBase⟩
  | .excepted item _ => ⟨item, .excepted⟩

/-- The rows are those of the judgements, the findings first. -/
theorem perm_rows (ranks : Option Ranks) (judged : List Judged) :
    (judged.map (rowOf ranks)).Perm
      (rowsOf (judged.filterMap Judged.finding?) ranks ++
        (judged.filterMap Judged.excepted?).map fun f => ⟨f, .excepted⟩) := by
  rw [rowsOf_eq]
  induction judged with
  | nil => exact List.Perm.nil
  | cons j judged ih =>
    cases j with
    | finding item => exact ih.cons _
    | excepted item hit => exact (ih.cons _).trans List.perm_middle.symm

/-- One judgement for each match that is reported, in their order. -/
theorem forall₂_judge {entries : List Entry} {today : Date} {state : Option TagState}
    {label : Str} {ms : List Json} {found : List (Option Judged)}
    (h : ms.mapM (judge elevates c.name entries today state label) = some found) :
    List.Forall₂ (fun m j => ∃ b, blocking elevates c.name m = some (some b) ∧
        settle c.name state label b (hitOf entries today c.name b) = some j)
      (ms.filter (isReported elevates)) (found.filterMap id) := by
  induction ms generalizing found with
  | nil =>
    cases h
    exact List.Forall₂.nil
  | cons m ms ih =>
    simp only [List.mapM_cons, Option.bind_eq_bind, Option.bind_eq_some_iff, Option.pure_def,
      Option.some.injEq] at h
    obtain ⟨first, hfirst, rest, hrest, rfl⟩ := h
    have htail := ih hrest
    rcases judge_cases hfirst with ⟨hb, rfl⟩ | ⟨b, j, hb, rfl, hsettle⟩
    · have hskip : isReported elevates m = false := by
        rw [isReported, severityOfMatch_of_blocking hb]
        rfl
      rw [List.filter_cons_of_neg (by rw [hskip]; exact Bool.false_ne_true)]
      exact htail
    · have hkeep : isReported elevates m = true := by
        rw [isReported, severityOfMatch_of_blocking hb]
        rfl
      rw [List.filter_cons_of_pos hkeep]
      exact List.Forall₂.cons ⟨b, hb, hsettle⟩ htail

/-- A base side was compared by its ranks. -/
theorem baseSide_eq_some {baseDoc : Json} {ranks : Ranks}
    (h : baseSide pyEq c doc = some (some (baseDoc, ranks))) :
    ∃ base baseScanner baseRef ms built headBuilt,
      c.base = some base ∧ c.baseScanner = some baseScanner ∧ c.baseRef = some baseRef ∧
      sameRepository (some baseRef) c.ref = true ∧
      c.scanBase baseScanner baseRef = .trusted baseDoc ∧
      dbBuilt baseDoc = some built ∧ dbBuilt doc = some headBuilt ∧ pyEq built headBuilt = true ∧
      (baseDoc.get "matches").join.bind Json.iterate = some ms ∧
      baseRanks (base.severities c.name c.today) c.name ms [] = some ranks := by
  unfold baseSide at h
  split at h
  · rename_i base baseRefs baseScanner baseRef hbase _ hscanner href
    split at h
    · rename_i hsame
      cases hscan : c.scanBase baseScanner baseRef with
      | failed problems =>
        rw [hscan] at h
        cases h
      | trusted other =>
        rw [hscan] at h
        dsimp only at h
        obtain ⟨built, hbuilt, h⟩ := Option.bind_eq_some_iff.mp h
        obtain ⟨headBuilt, hheadBuilt, h⟩ := Option.bind_eq_some_iff.mp h
        split at h
        · rename_i heq
          simp only [Option.bind_eq_bind, Option.bind_eq_some_iff, Option.some.injEq,
            Prod.mk.injEq] at h
          obtain ⟨field, hfield, value, hvalue, ms, hms, found, hranks, rfl, rfl⟩ := h
          refine ⟨base, baseScanner, baseRef, ms, built, headBuilt, hbase, hscanner, href, hsame,
            hscan, hbuilt, hheadBuilt, heq, ?_, hranks⟩
          rw [hfield, Option.join_some, hvalue]
          exact hms
        · cases h
    · cases h
  · cases h

theorem isNew_eq_false {ranks : Ranks} {item : Item} (h : isNew ranks item = false) :
    ∃ atBase atHead, ranks.lookup (itemKey item) = some atBase ∧
      rankOf item.severity = some atHead ∧ atHead ≤ atBase := by
  unfold isNew at h
  split at h
  · rename_i atBase atHead hbase hhead
    have hle := of_decide_eq_false h
    exact ⟨atBase, atHead, hbase, hhead, by omega⟩
  · cases h

/-- A finding that the ranks of the base cover is at the base. -/
theorem atBase_of_ranks (hb : blocking elevates c.name m = some (some b)) {baseDoc : Json}
    {ranks : Ranks} (hside : baseSide pyEq c doc = some (some (baseDoc, ranks))) {item : Item}
    (hkey : itemKey item = itemKey b.item) (hseverity : item.severity = b.item.severity)
    (hold : isNew ranks item = false) : AtBase pyEq c doc m b := by
  obtain ⟨base, baseScanner, baseRef, ms, built, headBuilt, hbase, hscanner, href, hsame, hscan,
    hbuilt, hheadBuilt, heq, hms, hranks⟩ := baseSide_eq_some hside
  obtain ⟨atBase, atHead, hlookup, hhead, hle⟩ := isNew_eq_false hold
  have hempty : FromMatches (base.severities c.name c.today) c.name ([] ++ ms) [] := by
    intro key rank hnone
    cases hnone
  have hfrom := fromMatches_baseRanks hempty hranks
  obtain ⟨m', hm', hkey', labels, label, hlabels, hlabel, hrank⟩ := hfrom _ _ hlookup
  rw [hkey, itemKey_of_blocking hb] at hkey'
  rw [hseverity] at hhead
  exact ⟨base, baseScanner, baseRef, baseDoc, ms, built, headBuilt, hbase, hscanner, href, hsame,
    hscan, hbuilt, hheadBuilt, heq, hms, m', hm', hkey', labels, label, atBase, atHead, hlabels,
    hlabel, hrank, hhead, hle⟩

theorem rowOf_rowOf {side : Option (Json × Ranks)} (hside : baseSide pyEq c doc = some side)
    {state : Option TagState} {label : Str} (htag : c.tag = some (state, label))
    (hb : blocking elevates c.name m = some (some b)) {j : Judged}
    (hsettle : settle c.name state label b (hitOf c.entries c.today c.name b) = some j) :
    RowOf elevates pyEq c doc m (rowOf (side.map Prod.snd) j) := by
  refine ⟨b, hb, ?_⟩
  rcases settle_cases hsettle with ⟨note, rfl, -⟩ | ⟨hit, note, hfound, rfl, hcase⟩
  · refine ⟨rfl, ?_, ?_⟩
    · intro hexcepted
      dsimp only [rowOf] at hexcepted
      split at hexcepted
      · cases hexcepted
      · cases hexcepted
    · intro hatBase
      dsimp only [rowOf] at hatBase
      split at hatBase
      · cases hatBase
      · rename_i hold
        cases side with
        | none => exact absurd rfl hold
        | some pair =>
          obtain ⟨baseDoc, ranks⟩ := pair
          exact atBase_of_ranks hb hside rfl rfl (Bool.eq_false_iff.mpr hold)
  · refine ⟨rfl, ?_, ?_⟩
    · intro _
      obtain ⟨hmem, hactive, hcovers⟩ := mem_covering.mp (mem_covering_of_hitOf hfound)
      refine ⟨hit, hmem, hactive, hcovers, ?_⟩
      rcases hcase with hopen | ⟨-, hkept⟩
      · exact Or.inl hopen
      · exact Or.inr ⟨state, label, htag, hkept⟩
    · intro hatBase
      cases hatBase

/-- Each reported match of the head has one row, and the rows are those: a row is excepted by an
active entry only, and at the base only by what the base scan has. -/
theorem rows_of_matches {out : Outcome} (hhead : c.scanHead = .trusted doc)
    (h : compareAlias elevates pyEq c = some out) :
    ∃ rows, rows.Perm out.rows ∧
      List.Forall₂ (RowOf elevates pyEq c doc) ((matchesOf doc).filter (isReported elevates)) rows := by
  unfold compareAlias at h
  rw [hhead] at h
  dsimp only at h
  obtain ⟨⟨state, label⟩, htag, h⟩ := Option.bind_eq_some_iff.mp h
  obtain ⟨result, hresult, h⟩ := Option.bind_eq_some_iff.mp h
  obtain ⟨side, hside, h⟩ := Option.bind_eq_some_iff.mp h
  obtain ⟨missing, -, h⟩ := Option.bind_eq_some_iff.mp h
  obtain ⟨judged, hjudged, hevaluate⟩ := Option.bind_eq_some_iff.mp hresult
  rw [Option.some.injEq] at h hevaluate
  obtain ⟨ms, found, hms, hfound, rfl⟩ := judgements_eq_some hjudged
  rw [hms]
  refine ⟨(found.filterMap id).map (rowOf (side.map Prod.snd)), ?_, ?_⟩
  · rw [← h, ← hevaluate]
    exact perm_rows _ _
  · rw [List.forall₂_map_right_iff]
    refine (forall₂_judge hfound).imp fun m j hm => ?_
    obtain ⟨b, hb, hsettle⟩ := hm
    exact rowOf_rowOf hside htag hb hsettle

/-! A redis image whose head has one match more than its base, and one match excepted. -/

def redisMatch (package id severity : String) : Json :=
  .obj [("vulnerability".toList,
      .obj [("id".toList, .str id.toList), ("severity".toList, .str severity.toList)]),
    ("artifact".toList,
      .obj [("name".toList, .str package.toList), ("type".toList, .str "apk".toList)])]

def redisDoc (ms : List Json) : Json :=
  .obj [("matches".toList, .arr ms),
    ("descriptor".toList, .obj [("db".toList, .obj [("built".toList, .str "day".toList)])])]

def redisRef : Str :=
  "docker.io/redis:7@sha256:".toList ++ List.replicate 64 '0'

def redisHead : Json :=
  redisDoc [redisMatch "zlib" "CVE-2026-0001" "High", redisMatch "musl" "CVE-2026-0002" "Critical",
    redisMatch "perl" "CVE-2026-0003" "High", redisMatch "curl" "CVE-2026-0004" "Low"]

def redisBase : Json := redisDoc [redisMatch "musl" "CVE-2026-0002" "Critical"]

theorem redisDay_isSome : (Date.of? 2026 1 1).isSome = true := by decide

def redisDay : Date := (Date.of? 2026 1 1).get redisDay_isSome

def redisDelta : Comparison :=
  { name := "redis".toList
    ref := redisRef
    mode := .delta
    scanner := "grype".toList
    base := some ⟨fun _ _ m => some [fieldOf (fieldOf m "vulnerability") "severity"]⟩
    baseRefs := some [("redis".toList, redisRef)]
    baseScanner := some "grype".toList
    entries := [⟨"CVE-2026-0003".toList, "redis".toList, "perl".toList, redisDay, redisDay⟩]
    today := redisDay
    scanHead := .trusted redisHead
    scanBase := fun _ _ => .trusted redisBase
    resolveTagState := fun _ _ _ _ => .unchanged
    movedDigest := fun _ _ _ => none }

def noScore (_ : Json) : Option Bool := some false

def sameText (a b : Option Json) : Bool := a.bind Json.asStr == b.bind Json.asStr

theorem rows_of_redis : ∃ out, compareAlias noScore sameText redisDelta = some out ∧
    out.rows.map DeltaRow.status = [.fail, .atBase, .excepted] ∧
    ∃ rows, rows.Perm out.rows ∧ List.Forall₂ (RowOf noScore sameText redisDelta redisHead)
      ((matchesOf redisHead).filter (isReported noScore)) rows := by
  have hout : (compareAlias noScore sameText redisDelta).map (fun o => o.rows.map DeltaRow.status)
      = some [.fail, .atBase, .excepted] := by decide +kernel
  obtain ⟨out, hsome, hrows⟩ := Option.map_eq_some_iff.mp hout
  exact ⟨out, hsome, hrows, rows_of_matches (c := redisDelta) rfl hsome⟩

end Compare

end Decisya.ImageScan
