import Decisya.ImageScan.Policy

/-!
# The record of a scan and the gate that reads it

`stackctl scan` applies the policy to every image the stack would start and writes one
record. `scan_result_problems` later decides from that record alone whether a start is
allowed.
-/

namespace Decisya.ImageScan

open Calendar Python

set_option autoImplicit false

/-! ## What a run meets -/

/-- `failed` holds what is said of the name when the scan of its image cannot be trusted. -/
inductive Attempt where
  | failed (problems : List Str)
  | trusted (doc : Json)

/-- The clock, the scanner and the registries as one run of `scan` meets them. -/
structure Run where
  updateExit : ℤ
  updated : Instant
  evaluated : Instant
  attempt : Str → Str → Attempt
  resolveTagState : Str → Str → Str → Str → TagState
  movedDigest : Str → Str → Str → Option Str

abbrev Refs := List (Str × Str)

structure Bindings where
  refs : Refs
  refs_nodup : (refs.map Prod.fst).Nodup
  scanner : Str
  exceptionsSha256 : Str
  imageScanSha256 : Str

def scanStrict : List Str := ["api".toList, "bff".toList, "migrator".toList]

/-! ## Scanning -/

structure ScanResult where
  docs : List (Str × Json)
  findings : List Item
  excepted : List Item
  failed : List Str
  used : List (Str × Str × Str)

section Scan

-- what `float` makes of a score, and `str` of a value
variable (elevates : Json → Option Bool) (pyStr : Json → Str)

/-- The tag state and label `evaluate` gets for a name; `none` where the reference of an image
that is not evaluated strictly cannot be split. -/
def tagOf (run : Run) (name ref : Str) : Option (Option TagState × Str) :=
  if name ∈ scanStrict ∨ isOwnBuild name ref = true then some (none, [])
  else do
    let (registry, image, tag, sha) ← splitRef ref
    let state := run.resolveTagState registry image tag sha
    let label := image ++ ':' :: tag
    let moved := if state = .moved then run.movedDigest registry image tag else none
    some (some state, label ++ (moved.map fun digest => " now at ".toList ++ digest).getD [])

def judgeTarget (run : Run) (entries : List Entry) (today : Date) (name ref : Str) (doc : Json) :
    Option (List Judged) := do
  let (state, label) ← tagOf run name ref
  judgements elevates doc name entries today state label

def evaluateTarget (run : Run) (entries : List Entry) (today : Date) (name ref : Str)
    (doc : Json) : Option Evaluation := do
  let (state, label) ← tagOf run name ref
  evaluate elevates doc name entries today state label

def scanTargets (run : Run) (entries : List Entry) (today : Date) : Refs → Option ScanResult
  | [] => some ⟨[], [], [], [], []⟩
  | (name, ref) :: rest =>
    match run.attempt name ref with
    | .failed problems => do
      let r ← scanTargets run entries today rest
      some { r with failed := problems.map (fun p => name ++ ": ".toList ++ p) ++ r.failed }
    | .trusted doc => do
      let e ← evaluateTarget elevates run entries today name ref doc
      let r ← scanTargets run entries today rest
      some
        { docs := (name, doc) :: r.docs
          findings := e.findings ++ r.findings
          excepted := e.excepted ++ r.excepted
          failed := r.failed
          used := e.used ++ r.used }

/-! ## The record -/

structure FindingRow where
  image : Str
  package : Json
  type : Json
  id : Json
  severity : Str
  fix : Json

structure ExceptedRow where
  image : Str
  package : Json
  type : Json
  id : Json
  validThrough : Str

inductive Verdict where
  | green
  | red
  deriving DecidableEq

/-- Its schema number and its keys are as `scan` writes them. -/
structure Record where
  scannedAt : Str
  scanner : Str
  dbBuilt : Str
  exceptionsSha256 : Str
  imageScanSha256 : Str
  refs : Refs
  untrusted : List Str
  findings : List FindingRow
  excepted : List ExceptedRow
  verdict : Verdict

/-- `%Y-%m-%dT%H:%M:%SZ` -/
def strftime (t : Instant) : Str := t.date.isoformat ++ 'T' :: (t.clock ++ ['Z'])

/-- The earliest `expires` of the used entries for the row's image and package. -/
def validThrough (row : Item) (entries : List Entry) (used : List (Str × Str × Str)) :
    Option Str :=
  let behind := entries.filter fun e =>
    e.image = row.image ∧ row.package.isStr e.package = true ∧ e.key ∈ used
  (Date.earliest (behind.map Entry.expires)).map Date.isoformat

def dbBuilt (doc : Json) : Option (Option Json) := do
  let descriptor ← doc.getDict "descriptor"
  match ← descriptor.get "db" with
  | some (.obj db) =>
    let built := (Json.lookup db "built".toList).getD .null
    if built.truthy then some (some built)
    else
      match Json.lookup db "status".toList with
      | some (.obj status) =>
        let built := (Json.lookup status "built".toList).getD .null
        some (if built.truthy then some built else none)
      | _ => some none
  | _ => some none

def stampOf (doc : Json) : Option Str := do
  pyStr ((← dbBuilt doc).getD .null)

def digits (n : ℕ) : Str := Nat.toDigits 10 n

def exitDigits : ℤ → Str
  | .ofNat n => digits n
  | .negSucc n => '-' :: digits (n + 1)

def findingRow (item : Item) : FindingRow :=
  ⟨item.image, item.package, item.type, item.id, item.severity, item.fix⟩

def exceptedRow (item : Item) (through : Str) : ExceptedRow :=
  ⟨item.image, item.package, item.type, item.id, through⟩

def unbacked (entries : List Entry) (used : List (Str × Str × Str)) (item : Item) : Option Str :=
  match validThrough item entries used with
  | none => some (item.image ++ ": an excepted finding has no matching exception entry".toList)
  | some _ => none

/-- The result of the scan with the stamps looked at: `built` and the documents that count. -/
def stamped (r : ScanResult) : Option (Str × List (Str × Json) × List Str) := do
  let stamps := (← r.docs.mapM fun d => stampOf pyStr d.2).dedup
  match stamps with
  | [] => some ([], r.docs, [])
  | [built] => some (built, r.docs, [])
  | _ => some ([], [], ["the scans report different database build times".toList])

/-- What is untrusted, with the names added for which nothing has been said so far. -/
def notScanned (docs : List (Str × Json)) : Refs → List Str → List Str
  | [], untrusted => untrusted
  | (name, _) :: rest, untrusted =>
    if name ∉ docs.map Prod.fst ∧ (untrusted.any fun u => startsWith u (name ++ [':'])) = false then
      notScanned docs rest (untrusted ++ [name ++ ": not scanned".toList])
    else notScanned docs rest untrusted

def recordOf (bindings : Bindings) (run : Run) (built : Str) (untrusted : List Str)
    (findings : List FindingRow) (excepted : List ExceptedRow) : Record where
  scannedAt := strftime run.updated
  scanner := bindings.scanner
  dbBuilt := built
  exceptionsSha256 := bindings.exceptionsSha256
  imageScanSha256 := bindings.imageScanSha256
  refs := bindings.refs
  untrusted := untrusted
  findings := findings
  excepted := excepted
  verdict := if untrusted = [] ∧ findings.isEmpty = true then .green else .red

/-- The record `scan` writes; the date of the policy is read after `scanned_at` is. -/
def cmdScan (bindings : Bindings) (entries : List Entry) (run : Run) : Option Record :=
  if run.updateExit ≠ 0 then
    some (recordOf bindings run []
      ["db update failed (exit ".toList ++ exitDigits run.updateExit ++ [')']] [] [])
  else do
    let r ← scanTargets elevates run entries run.evaluated.date bindings.refs
    let (built, docs, mixed) ← stamped pyStr r
    let untrusted := notScanned docs bindings.refs (r.failed ++ mixed)
    let untrusted := untrusted ++ r.excepted.filterMap (unbacked entries r.used)
    let excepted := r.excepted.filterMap fun item =>
      (validThrough item entries r.used).map (exceptedRow item)
    some (recordOf bindings run built untrusted (r.findings.map findingRow) excepted)

end Scan

/-! ## Timestamps -/

def isDigit (c : Char) : Bool := '0' ≤ c && c ≤ '9'

def isDay : Str → Bool
  | [y1, y2, y3, y4, '-', m1, m2, '-', d1, d2] => [y1, y2, y3, y4, m1, m2, d1, d2].all isDigit
  | _ => false

def isClock : Str → Bool
  | [h1, h2, ':', m1, m2, ':', s1, s2] => [h1, h2, m1, m2, s1, s2].all isDigit
  | _ => false

def isOffset : Str → Bool
  | [sign, h1, h2, ':', m1, m2] => (sign == '+' || sign == '-') && [h1, h2, m1, m2].all isDigit
  | _ => false

/-- `_SCANNED_AT_RE` -/
def isScannedAt (text : Str) : Bool :=
  isDay (text.take 10) && (text.drop 10).take 1 == ['T'] && isClock ((text.drop 11).take 8) &&
    text.drop 19 == ['Z']

/-- `_ISO_RE`, with the fraction and the zone it captures. -/
def isoRe (text : Str) : Option (Str × Str) :=
  if isDay (text.take 10) = true ∧ (text.drop 10).take 1 ∈ [['T'], [' ']] ∧
      isClock ((text.drop 11).take 8) = true then
    let (fraction, zone) :=
      match text.drop 19 with
      | '.' :: rest => (rest.takeWhile isDigit, rest.dropWhile isDigit)
      | rest => (['0'], rest)
    if fraction ≠ [] ∧ (zone = ['Z'] ∨ isOffset zone = true) then some (fraction, zone) else none
  else none

/-- Seconds east of UTC. -/
def offsetOf : Str → Option ℤ
  | ['Z'] => some 0
  | [sign, h1, h2, _, m1, m2] => do
    let seconds := (← number [h1, h2]) * 3600 + (← number [m1, m2]) * 60
    if seconds < 86400 then some (if sign = '-' then -(seconds : ℤ) else seconds) else none
  | _ => none

/-- The local time of a text of the right shape and its offset. -/
def readStamp (text fraction zone : Str) : Option (Instant × ℤ) := do
  let date ← Date.fromisoformat? (text.take 10)
  let clock := (text.drop 11).take 8
  let hour ← number (clock.take 2)
  let minute ← number ((clock.drop 3).take 2)
  let second ← number ((clock.drop 6).take 2)
  let micro ← number ((fraction ++ "000000".toList).take 6)
  let stamp ← Instant.of? date hour minute second micro
  some (stamp, ← offsetOf zone)

/-- The outer `none` is the overflow that `astimezone` raises at either end of the calendar. -/
def parseUtc (text : Str) : Option (Option Instant) :=
  match isoRe text with
  | none => some none
  | some (fraction, zone) =>
    match readStamp text fraction zone with
    | none => some none
    | some (stamp, offset) => (stamp.shift? (-(offset * 1000000))).map some

def readScannedAt (text : Str) : Option (Option Instant) :=
  if isScannedAt text = true then parseUtc text else some none

/-! ## The gate -/

section Gate

-- whether `unicodedata.category` starts with C
variable (isOther : Char → Bool) (pyStr : Json → Str)

def hexDigits (width n : ℕ) : Str := (Nat.toDigits 16 n).leftpad width '0'

def neutralize (text : Str) : Str :=
  text.flatMap fun c =>
    if isOther c then
      if c.toNat < 256 then "\\x".toList ++ hexDigits 2 c.toNat
      else "\\u".toList ++ hexDigits 4 c.toNat
    else [c]

def listedFindings : ℕ := 20

def listed {α : Type} (items : List α) (describe : α → Str) : List Str :=
  (items.take listedFindings).map (fun item => neutralize isOther (describe item)) ++
    if listedFindings < items.length then
      ["and ".toList ++ digits (items.length - listedFindings) ++ " more".toList]
    else []

def field (x : Json) : Str := neutralize isOther (pyStr x)

/-- `recorded == refs` of two dictionaries. -/
def sameRefs (recorded refs : Refs) : Bool :=
  (refs.map Prod.fst ++ recorded.map Prod.fst).all fun name =>
    recorded.lookup name == refs.lookup name

def refProblem (recorded refs : Refs) (name : Str) : Option Str :=
  match recorded.lookup name, refs.lookup name with
  | none, _ => some ("the scan did not cover ".toList ++ neutralize isOther name)
  | some _, none =>
    some ("the scan covered an image the stack does not run: ".toList ++ neutralize isOther name)
  | some r, some s =>
    if r ≠ s then
      some ("the scanned reference of ".toList ++ neutralize isOther name ++
        " differs from the one the stack would start".toList)
    else none

def refProblems (recorded refs : Refs) : List Str :=
  if sameRefs recorded refs = true then []
  else
    (((refs.map Prod.fst ++ recorded.map Prod.fst).dedup).insertionSort (· ≤ ·)).filterMap
      (refProblem isOther recorded refs)

def maxScanAge : ℤ := 24 * 3600 * 1000000

def timeProblems (scannedAt built : Option Instant) (now : Instant) : List Str :=
  (if scannedAt = none then ["scanned_at is not YYYY-MM-DDTHH:MM:SSZ".toList] else []) ++
  (if built = none then ["db_built is not a timestamp".toList] else []) ++
  (match scannedAt with
    | none => []
    | some s =>
      if now < s then ["the scan time is in the future; check the host clock".toList]
      else if maxScanAge < now.since s then
        ["the scan is older than 24 hours; scan again".toList]
      else []) ++
  (match built with
    | none => []
    | some b =>
      (match scannedAt with
        | none => []
        | some s =>
          if s < b then
            ["the scan time is before the database build time; scan again".toList]
          else []) ++
      if now < b then
        ["the host clock is before the database build time; ".toList ++
          "check the host clock".toList]
      else [])

def exceptedProblem (today : Date) (item : ExceptedRow) : Option Str :=
  match Date.fromisoformat? item.validThrough with
  | none =>
    some ("an exception the scan relied on ".toList ++
      "has no valid_through date; scan again".toList)
  | some through =>
    if through < today then
      some ("an exception the scan relied on has expired since (".toList ++
        neutralize isOther item.image ++ ' ' :: (field isOther pyStr item.package ++
          ' ' :: (field isOther pyStr item.id ++ "); scan again".toList)))
    else none

def isSha256 (s : Str) : Bool := s.length == 64 && s.all fun c => isDigit c || ('a' ≤ c && c ≤ 'f')

def describeFinding (f : FindingRow) : Str :=
  neutralize isOther f.image ++ ' ' :: (field isOther pyStr f.package ++
    ' ' :: (field isOther pyStr f.id ++ ' ' :: neutralize isOther f.severity))

/-- `scan_result_problems` of a record that `scan` wrote: its keys and types are right. -/
def scanResultProblems (record : Record) (deployed : Bindings) (now : Instant) :
    Option (List Str) := do
  let scannedAt ← readScannedAt record.scannedAt
  let built ← parseUtc record.dbBuilt
  some (
    (if record.scanner ≠ deployed.scanner then
      ["the scan used another scanner than the clone pins; scan again".toList] else []) ++
    (if record.exceptionsSha256 ≠ deployed.exceptionsSha256 then
      ["exceptions.json changed since the scan; scan again".toList] else []) ++
    (if record.imageScanSha256 ≠ deployed.imageScanSha256 then
      ["image_scan.py changed since the scan; scan again".toList] else []) ++
    refProblems isOther record.refs deployed.refs ++
    timeProblems scannedAt built now ++
    (if record.untrusted ≠ [] then
      [digits record.untrusted.length ++ " scan(s) cannot be trusted: ".toList ++
        join "; ".toList (listed isOther record.untrusted fun u => u)] else []) ++
    (if record.findings.isEmpty = false then
      [digits record.findings.length ++
        " High or Critical finding(s) without an exception: ".toList ++
        join "; ".toList (listed isOther record.findings (describeFinding isOther pyStr))]
      else []) ++
    record.excepted.filterMap (exceptedProblem isOther pyStr now.date) ++
    (if record.verdict ≠ .green then ["the scan verdict is not green".toList] else []) ++
    (if isSha256 record.exceptionsSha256 = false then
      ["exceptions_sha256 is not a sha256".toList] else []) ++
    (if isSha256 record.imageScanSha256 = false then
      ["image_scan_sha256 is not a sha256".toList] else []))

end Gate
end Decisya.ImageScan
