import Decisya.Computation.Folds
import Decisya.Text.Json
import Decisya.Time.Calendar
import Decisya.Zap.Origin

/-!
# The verdict on a scan

`exceptionErrors` checks the file of exceptions, `evaluate` applies the policy to the scanner's
report, and `run` is the exit code. Python's `str` and `repr`, and which characters are decimal
digits, are parameters.
-/

namespace Decisya.Zap

open Calendar Python

set_option autoImplicit false

def maxExceptionDays : ℕ := 90

def medium : ℕ := 2

def high : ℕ := 3

def requiredPaths : List Str := ["/".toList, "/bff/me".toList]

def okZapExitCodes : List ℤ := [0, 1, 2]

structure PythonText where
  str : Json → Str
  repr : List Str → Str
  /-- `unicodedata.decimal` -/
  decimal : Char → Option ℕ

section Text
variable (python : PythonText)

/-- Digits with single underscores between them. -/
def intDigits : Bool → ℕ → Str → Option ℕ
  | afterDigit, n, [] => if afterDigit = true then some n else none
  | afterDigit, n, c :: rest =>
    if c = '_' then if afterDigit = true then intDigits false n rest else none
    else match python.decimal c with
      | some d => intDigits true (10 * n + d) rest
      | none => none

/-- `int(text)`; `none` is the `ValueError`. -/
def int? (text : Str) : Option ℤ :=
  match strip text with
  | '-' :: rest => (intDigits python false 0 rest).map fun n => -(n : ℤ)
  | '+' :: rest => (intDigits python false 0 rest).map fun n => (n : ℤ)
  | rest => (intDigits python false 0 rest).map fun n => (n : ℤ)

def isBool : Option Json → Bool
  | some (.bool _) => true
  | _ => false

/-- `str(value)` of a value that may be missing. -/
def strOf (value : Option Json) : Str := python.str (value.getD .null)

/-- A risk code that is missing, cannot be read or is out of range counts as High. -/
def parseRisk (value : Option Json) : ℕ :=
  if isBool value = true then high
  else match int? python (strip (strOf python value)) with
    | some code => if 0 ≤ code ∧ code ≤ high then code.toNat else high
    | none => high

/-- Only confidence 0 is dropped. -/
def isFalsePositive (value : Option Json) : Bool :=
  !isBool value && decide (int? python (strip (strOf python value)) = some 0)

end Text

/-! ## The exceptions -/

structure Entry where
  pluginId : Str
  path : Str
  justification : Str
  issue : Str
  added : Str
  expires : Str
  addedDate : Date
  expiresDate : Date

def entryKeys : List Str :=
  ["added".toList, "expires".toList, "issue".toList, "justification".toList, "path".toList,
    "pluginId".toList]

/-- What `$` lets a pattern end at: the end, or one line feed before it. -/
def atEnd (s : Str) : List Str := if s.getLast? = some '\n' then [s, s.dropLast] else [s]

section Exceptions
variable (python : PythonText) (today : Date)

def isDecimal (c : Char) : Bool := (python.decimal c).isSome

def isDigits (s : Str) : Bool := !s.isEmpty && s.all (isDecimal python)

def pluginRe (s : Str) : Bool := (atEnd s).any (isDigits python)

def issueRe (s : Str) : Bool :=
  (atEnd s).any fun t => startsWith t ['#'] && isDigits python (t.drop 1)

def dateRe (s : Str) : Bool :=
  (atEnd s).any fun t => decide (t.length = 10) && isDigits python (t.take 4) &&
    decide ((t.drop 4).take 1 = ['-']) && isDigits python ((t.drop 5).take 2) &&
    decide ((t.drop 7).take 1 = ['-']) && isDigits python (t.drop 8)

def badPathChar (c : Char) : Bool := c == '?' || c == '#' || c == '*' || decide (c.toNat < 0x21)

def badPath (path : Str) : Bool :=
  !startsWith path ['/'] || decide (path = ['/']) || path.any badPathChar

def isObject : Json → Bool
  | .obj _ => true
  | _ => false

def fieldsOf : Json → List (Str × Json)
  | .obj fields => fields
  | _ => []

def keysOf (x : Json) : List Str := (fieldsOf x).map Prod.fst

def fieldText (x : Json) (key : String) : Str :=
  match Json.lookup (fieldsOf x) key.toList with
  | some (.str s) => s
  | _ => []

def isText (x : Json) (key : Str) : Bool :=
  match Json.lookup (fieldsOf x) key with
  | some (.str _) => true
  | _ => false

/-- The elements of the first list that are not in the second, sorted and without repetition. -/
def sortedDiff (xs ys : List Str) : List Str :=
  ((xs.filter fun x => !ys.contains x).dedup).mergeSort fun a b => decide (a ≤ b)

/-- The day, or what is wrong with its text. -/
def dateField (place : Str) (name : String) (text : Str) : Except Str Date :=
  if dateRe python text = true then
    match Date.fromisoformat? text with
    | some d => .ok d
    | none => .error (place ++ ": ".toList ++ name.toList ++ " is not a real date".toList)
  else .error (place ++ ": ".toList ++ name.toList ++ " must be YYYY-MM-DD".toList)

def errorOf : Except Str Date → List Str
  | .ok _ => []
  | .error message => [message]

def dateOf : Except Str Date → Option Date
  | .ok d => some d
  | .error _ => none

def when (bad : Bool) (message : Str) : List Str := if bad = true then [message] else []

/-- What is wrong with the days of an entry. -/
def windowErrors (place : Str) (added expires : Option Date) : List Str :=
  (match added with
    | some a => when (decide (today < a)) (place ++ ": added is in the future".toList)
    | none => []) ++
  match added, expires with
  | some a, some e =>
    if e < a then [place ++ ": expires is before added".toList]
    else when (decide (a.toordinal + maxExceptionDays < e.toordinal))
      (place ++ ": expires is more than 90 days after added".toList)
  | _, _ => []

/-- What is wrong with an entry whose keys are right and whose values are texts. -/
def entryErrors (place : Str) (e : Json) (seen : List (Str × Str)) : List Str :=
  let added := dateField python place "added" (fieldText e "added")
  let expires := dateField python place "expires" (fieldText e "expires")
  when (!pluginRe python (fieldText e "pluginId")) (place ++ ": pluginId must be a digit string".toList) ++
  when (badPath (fieldText e "path"))
    (place ++ ": path must be an exact path or a prefix ending in '/', never '/' alone, ".toList ++
      "with no query, glob or whitespace".toList) ++
  when (decide ((strip (fieldText e "justification")).length < 20))
    (place ++ ": justification must be at least 20 characters".toList) ++
  when (!issueRe python (fieldText e "issue")) (place ++ ": issue must look like #123".toList) ++
  errorOf added ++ errorOf expires ++ windowErrors today place (dateOf added) (dateOf expires) ++
  when (decide ((fieldText e "pluginId", fieldText e "path") ∈ seen))
    (place ++ ": duplicates another entry (same pluginId and path)".toList)

def entryOf (e : Json) (added expires : Date) : Entry where
  pluginId := fieldText e "pluginId"
  path := fieldText e "path"
  justification := fieldText e "justification"
  issue := fieldText e "issue"
  added := fieldText e "added"
  expires := fieldText e "expires"
  addedDate := added
  expiresDate := expires

structure Checked where
  errors : List Str
  entries : List Entry
  seen : List (Str × Str)
  index : ℕ

def checkEntry (s : Checked) (e : Json) : Checked :=
  let place := "exceptions[".toList ++ Nat.toDigits 10 s.index ++ [']']
  let next := { s with index := s.index + 1 }
  if isObject e = false then
    { next with errors := s.errors ++ [place ++ ": must be an object".toList] }
  else if sortedDiff (keysOf e) entryKeys ≠ [] ∨ sortedDiff entryKeys (keysOf e) ≠ [] then
    { next with
      errors := s.errors ++ [place ++ ": keys must be exactly ".toList ++ python.repr entryKeys ++
        " (missing ".toList ++ python.repr (sortedDiff entryKeys (keysOf e)) ++ ", unknown ".toList ++
        python.repr (sortedDiff (keysOf e) entryKeys) ++ [')']] }
  else if entryKeys.all (isText e) = false then
    { next with errors := s.errors ++ [place ++ ": every value must be a string".toList] }
  else
    let found := entryErrors python today place e s.seen
    let seen := (fieldText e "pluginId", fieldText e "path") :: s.seen
    match found, dateOf (dateField python place "added" (fieldText e "added")),
      dateOf (dateField python place "expires" (fieldText e "expires")) with
    | [], some added, some expires =>
      { next with seen := seen, entries := s.entries ++ [entryOf e added expires] }
    | _, _, _ => { next with seen := seen, errors := s.errors ++ found }

def topLevelErrors (data : Json) : List Str :=
  let extra := sortedDiff (keysOf data) ["$comment".toList, "exceptions".toList]
  when (decide (extra ≠ [])) ("unknown top-level keys: ".toList ++ python.repr extra) ++
    when ((keysOf data).contains "$comment".toList && !isText data "$comment".toList)
      "'$comment' must be a string".toList

/-- The list under `exceptions`. -/
def exceptionList (data : Json) : Option (List Json) :=
  match Json.lookup (fieldsOf data) "exceptions".toList with
  | some (.arr items) => some items
  | _ => none

def exceptionErrors (data : Json) : List Str × List Entry :=
  match exceptionList data with
  | none => (["top level must be an object with an 'exceptions' list".toList], [])
  | some items =>
    let s := items.foldl (checkEntry python today) ⟨topLevelErrors python data, [], [], 0⟩
    (s.errors, s.entries)

end Exceptions

/-! ## The report -/

/-- An exact path, or a prefix that ends in a slash. -/
def pathCovered (rulePath uriPath : Str) : Bool :=
  if rulePath.getLast? = some '/' then startsWith uriPath rulePath else decide (uriPath = rulePath)

structure Row where
  pluginId : Str
  name : Str
  risk : ℕ
  path : Str
  deriving DecidableEq

abbrev ReportedKey := Str × Str × ℕ

structure Verdict where
  problems : List Str
  findings : List Row
  excepted : List (Row × Str)
  reported : List (ReportedKey × ℕ)
  used : List (Str × Str)

section Evaluate
variable (python : PythonText) (tables : UrlTables) (today : Date)

def isBffOriginValue : Option Json → Bool
  | some (.str url) => isBffOrigin tables url
  | _ => false

def pathOf (url : Str) : Str := (urlPath tables url).getD ['/']

def active (exceptions : List Entry) : List Entry :=
  exceptions.filter fun e => decide (today ≤ e.expiresDate)

/-- The first active entry that covers the path. -/
def hitOf (exceptions : List Entry) (plugin path : Str) : Option Entry :=
  (active today exceptions).find? fun e => decide (e.pluginId = plugin) && pathCovered e.path path

def exitProblems (zapExit : ℤ) : List Str :=
  when (!okZapExitCodes.contains zapExit)
    ("ZAP exit code ".toList ++ python.str (.num zapExit) ++ " is not 0, 1 or 2".toList)

def urlProblems : Option (List Str) → List Str
  | none => ["the URL list ZAP wrote is missing or empty: coverage cannot be proven".toList]
  | some [] => ["the URL list ZAP wrote is missing or empty: coverage cannot be proven".toList]
  | some (u :: us) =>
    let bad := (u :: us).filter fun url => !isBffOrigin tables url
    let paths := ((u :: us).filter (isBffOrigin tables)).map (pathOf tables)
    when (decide (bad ≠ [])) (Nat.toDigits 10 bad.length ++
      " URL(s) in the URL list are not on https://localhost:7200".toList) ++
    requiredPaths.flatMap fun path => when (!paths.contains path)
      ("the URL list does not include ".toList ++ path)

/-- What an alert is about. -/
structure Alert where
  plugin : Str
  name : Str
  risk : ℕ

def alertOf (alert : Json) : Alert :=
  let get := fun key : String => Json.lookup (fieldsOf alert) key.toList
  { plugin := strip (python.str (((get "pluginid").orElse fun _ => get "pluginId").getD (.str [])))
    name := python.str (Json.orElse (get "name") (Json.orElse (get "alert") (.str "(unnamed)".toList)))
    risk := parseRisk python (get "riskcode") }

def uriOf (inst : Json) : Option Json := Json.lookup (fieldsOf inst) "uri".toList

def addInstance (exceptions : List Entry) (a : Alert) (v : Verdict) (inst : Json) : Verdict :=
  match uriOf inst with
  | some (.str uri) =>
    if isBffOrigin tables uri = true then
      let row : Row := ⟨a.plugin, a.name, a.risk, pathOf tables uri⟩
      if a.risk < medium then
        { v with reported := Folds.bump v.reported (a.plugin, a.name, a.risk) }
      else match hitOf today exceptions a.plugin row.path with
        | some hit =>
          { v with used := v.used ++ [(hit.pluginId, hit.path)], excepted := v.excepted ++ [(row, hit.issue)] }
        | none => { v with findings := v.findings ++ [row] }
    else
      { v with problems := v.problems ++ ["an alert instance of plugin ".toList ++
        (if a.plugin = [] then ['?'] else a.plugin) ++ " is not on https://localhost:7200".toList] }
  | _ =>
    { v with problems := v.problems ++ ["an alert instance of plugin ".toList ++
      (if a.plugin = [] then ['?'] else a.plugin) ++ " is not on https://localhost:7200".toList] }

/-- Where there is no instance, one without a URI stands for it. -/
def instancesOf (alert : Json) : List Json :=
  match Json.lookup (fieldsOf alert) "instances".toList with
  | some (.arr (inst :: rest)) => inst :: rest
  | _ => [.obj [("uri".toList, .null)]]

def addAlert (exceptions : List Entry) (v : Verdict) (alert : Json) : Verdict :=
  if isObject alert = false then
    { v with problems := v.problems ++ ["a report alert is not an object".toList] }
  else if isFalsePositive python (Json.lookup (fieldsOf alert) "confidence".toList) = true then v
  else (instancesOf alert).foldl (addInstance tables today exceptions (alertOf python alert)) v

def addSite (exceptions : List Entry) (v : Verdict) (site : Json) : Verdict :=
  if isObject site = false then
    { v with problems := v.problems ++ ["a report site entry is not an object".toList] }
  else
    let foreign := !isBffOriginValue tables (Json.lookup (fieldsOf site) "@name".toList)
    let named :=
      { v with problems := v.problems ++ when foreign "a report site is not https://localhost:7200".toList }
    match Json.lookup (fieldsOf site) "alerts".toList with
    | some (.arr alerts) => alerts.foldl (addAlert python tables today exceptions) named
    | _ => { named with problems := named.problems ++ ["a report site has no 'alerts' list".toList] }

/-- The list under `site`, or the problem that there is none. -/
def sitesOf (report : Json) : List Json × List Str :=
  match Json.lookup (fieldsOf report) "site".toList with
  | some (.arr sites) => (sites, [])
  | _ => ([], ["report has no 'site' list".toList])

/-- Sorted by the risk, the highest first, and then by the plugin. -/
def reportedLe (a b : ReportedKey × ℕ) : Bool :=
  decide (b.1.2.2 < a.1.2.2) || (decide (a.1.2.2 = b.1.2.2) && decide (a.1.1 ≤ b.1.1))

def evaluate (report : Json) (urls : Option (List Str)) (zapExit : ℤ) (exceptions : List Entry) :
    Verdict :=
  let start : Verdict := ⟨exitProblems python zapExit ++ urlProblems tables urls ++ (sitesOf report).2,
    [], [], [], []⟩
  let v := (sitesOf report).1.foldl (addSite python tables today exceptions) start
  { v with reported := v.reported.mergeSort reportedLe }

/-- The exit code. The documents are `none` where they cannot be read. -/
def run (exceptions report : Option Json) (urls : Option (List Str)) (zapExit : ℤ) : ℕ :=
  match exceptions with
  | none => 2
  | some data =>
    let checked := exceptionErrors python today data
    if checked.1 ≠ [] then 2
    else
      let early := when report.isNone "the ZAP JSON report is missing or unparsable".toList ++
        when urls.isNone "the URL list cannot be read".toList
      let v := evaluate python tables today (report.getD .null) urls zapExit checked.2
      if early ++ v.problems ≠ [] ∨ v.findings ≠ [] then 1 else 0

end Evaluate

end Decisya.Zap
