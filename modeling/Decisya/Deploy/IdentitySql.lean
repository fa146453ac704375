import Decisya.KeyRing.TextRule
import Decisya.Text.Lowercase
import Decisya.Deploy.SqlLexis

/-!
# The static rules of the identity check

`identity_sql_problems` reads the script line by line: it cuts each line at the first `--`, takes
out the literals that are then left, and looks at the rest. The script is sent as it stands.
-/

namespace Decisya.Deploy.IdentitySql

set_option autoImplicit false

open Text.Pattern (Item matchAt)
open Python (CaseTable isSpace strip join)
open Decisya.KeyRing (foldCase)
open SqlLexis (Str)

/-- What ends a line for `str.splitlines`. -/
def isBreak (c : Char) : Bool :=
  let n := c.toNat
  (10 ≤ n && n ≤ 13) || (28 ≤ n && n ≤ 30) || n == 0x85 || n == 0x2028 || n == 0x2029

/-- Unicode's tables as far as the patterns use them. -/
structure Tables where
  cases : CaseTable
  upper : Str → Str
  upper_ascii : ∀ s, (∀ c ∈ s, c.toNat < 128) → upper s = s.map Char.toUpper
  /-- `\w` -/
  isWord : Char → Bool
  isWord_ascii : ∀ c, c.toNat < 128 → isWord c = (c.isAlphanum || c == '_')
  isWord_of_foldCase : ∀ c, (foldCase c).isAlpha = true → isWord c = true
  isWord_break : ∀ c, isBreak c = true → isWord c = false
  /-- `\d` -/
  isDecimal : Char → Bool
  isDecimal_ascii : ∀ c, c.toNat < 128 → isDecimal c = c.isDigit

/-! ## Comments and literals -/

/-- The lines of a text that starts with one more character on its first line. -/
def ontoFirst (c : Char) : List Str → List Str
  | [] => [[c]]
  | line :: lines => (c :: line) :: lines

def splitLines : Str → List Str
  | [] => []
  | '\r' :: '\n' :: rest => [] :: splitLines rest
  | c :: rest =>
    if isBreak c then [] :: splitLines rest
    else ontoFirst c (splitLines rest)

/-- `re.sub(r"--.*$", "", line)` -/
def stripComment : Str → Str
  | [] => []
  | '-' :: '-' :: _ => []
  | c :: rest => c :: stripComment rest

def noComments (text : Str) : Str := join ['\n'] ((splitLines text).map stripComment)

/-- What follows the literal whose quote was just read: the longest run of characters and
doubled quotes that a quote closes. -/
def closeLiteral : Str → Option Str
  | [] => none
  | '\'' :: '\'' :: rest => (closeLiteral rest).or (some ('\'' :: rest))
  | '\'' :: rest => some rest
  | _ :: rest => closeLiteral rest

/-- `re.sub(r"'(?:[^']|'')*'", "''", text)` -/
def stripLiterals : ℕ → Str → Str
  | _, [] => []
  | 0, c :: rest => c :: rest
  | n + 1, c :: rest =>
    match if c = '\'' then closeLiteral rest else none with
    | some after => '\'' :: '\'' :: stripLiterals n after
    | none => c :: stripLiterals n rest

def codeOf (text : Str) : Str := stripLiterals (noComments text).length (noComments text)

/-! ## The rules -/

def identityKeys : List Str :=
  ["realm_present", "ssl_required_all", "events_enabled", "admin_events_enabled",
    "admin_events_details_off", "events_expiration_ok", "admin_events_expiration_ok",
    "jboss_logging_listener", "browser_flow_ok", "level_2_admin_conditional",
    "level_2_tenant_conditional", "password_policy_ok", "breached_list_in_policy", "users_total",
    "users_without_synthetic", "master_users_without_otp", "bff_secret_unresolved",
    "bff_secret_short", "bff_redirect_unresolved", "bff_logout_uris_unresolved",
    "master_brute_force_ok"].map String.toList

def exactly (c : Char) : Item Char Bool := .one (· == c) false

/-- `[a-z0-9_]` -/
def isKeyChar (c : Char) : Bool := c.isLower || c.isDigit || c == '_'

section Rules
variable (tables : Tables)

/-- `_SQL_KEY_RE`; the characters of the group are labelled. -/
def sqlKeyPattern : List (Item Char Bool) :=
  [exactly '(', .many isSpace 0 false, .many tables.isDecimal 1 false, .many isSpace 0 false,
    exactly ',', .many isSpace 0 false, exactly '\'', .many isKeyChar 1 true, exactly '=',
    exactly '\'']

/-- `_SQL_KEY_RE.findall(text)`, after so many characters of the last match. -/
def findKeys : ℕ → Str → List Str
  | _, [] => []
  | skip + 1, _ :: rest => findKeys skip rest
  | 0, c :: rest =>
    match matchAt (sqlKeyPattern tables) (c :: rest) with
    | some labels =>
      ((labels.zip (c :: rest)).filterMap fun e => if e.1 then some e.2 else none) ::
        findKeys (labels.length - 1) rest
    | none => findKeys 0 rest

/-- `re.sub(r"\s+", " ", s)`, in a run of white space or not. -/
def squeeze : Bool → Str → Str
  | _, [] => []
  | inSpace, c :: rest =>
    if isSpace c then if inSpace then squeeze true rest else ' ' :: squeeze true rest
    else c :: squeeze false rest

def collapse (s : Str) : Str := strip (squeeze false s)

def statementsOf (code : Str) : List Str :=
  ((code.splitOnP (· == ';')).filter fun s => !s.all isSpace).map collapse

/-- What follows a text that the pattern matches without regard to case. -/
def dropFolded : Str → Str → Option Str
  | [], s => some s
  | _ :: _, [] => none
  | p :: pattern, c :: s => if foldCase c = p then dropFolded pattern s else none

/-- `VALUES\b` -/
def atValues (s : Str) : Bool :=
  match dropFolded "values".toList s with
  | some rest => !rest.head?.any tables.isWord
  | none => false

/-- `re.match(r"(?i)SELECT t\.line FROM \( ?VALUES\b", s)` -/
def isSelect (s : Str) : Bool :=
  match dropFolded "select t.line from (".toList s with
  | some rest => atValues tables rest || (rest.head? == some ' ' && atValues tables rest.tail)
  | none => false

def shapeOk (code : Str) : Bool :=
  match statementsOf code with
  | [first, second, third] =>
    tables.upper first == "BEGIN TRANSACTION READ ONLY".toList &&
      tables.upper third == "ROLLBACK".toList && isSelect tables second
  | _ => false

def forbiddenWords : List Str :=
  ["copy", "program", "set_config", "pg_stat_file", "insert", "update", "delete", "drop", "alter",
    "create", "grant", "revoke", "truncate", "vacuum", "call", "do", "execute", "listen", "notify",
    "lock", "load", "set", "reset", "username", "email", "first_name", "last_name"].map
    String.toList

/-- The words that only their beginning is given of. -/
def forbiddenStarts : List Str :=
  ["lo_", "pg_read", "pg_write", "pg_terminate", "pg_reload", "pg_ls", "pg_cancel", "pg_sleep",
    "dblink"].map String.toList

/-- A word, folded, that one of the alternatives of `_SQL_FORBIDDEN_RE` matches. -/
def isForbidden (word : Str) : Bool :=
  forbiddenWords.contains word || forbiddenStarts.any fun start => start.isPrefixOf word

/-- `_SQL_FORBIDDEN_RE.finditer(code)`: a match starts and ends at the boundaries of a word. -/
def forbiddenIn (code : Str) : List Str :=
  (code.splitOnP fun c => !tables.isWord c).filter fun word => isForbidden (word.map foldCase)

def problemIf (broken : Bool) (text : String) : List Str :=
  if broken then ["identity-check.sql: ".toList ++ text.toList] else []

def identitySqlProblems (text : Str) : List Str :=
  let code := codeOf text
  let words := ((forbiddenIn tables code).map tables.cases.lower).dedup.insertionSort (· ≤ ·)
  problemIf ((noComments text).tails.any fun s => ['/', '*'].isPrefixOf s)
      "block comments are not allowed" ++
    problemIf (findKeys tables 0 (noComments text) != identityKeys)
      "the printed keys differ from the parser's list" ++
    problemIf (code.contains '\\') "a backslash (a psql meta-command) is not allowed" ++
    problemIf (!shapeOk tables code)
      "must be BEGIN TRANSACTION READ ONLY, one SELECT of t.line over VALUES, then ROLLBACK" ++
    words.map fun word =>
      "identity-check.sql: the word ".toList ++ word ++ " is not allowed".toList

end Rules
end Decisya.Deploy.IdentitySql
