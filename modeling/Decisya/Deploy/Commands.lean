import Decisya.Concurrency.Trace
import Decisya.Deploy.Report
import Decisya.Text.Json

/-!
# The commands on a stack

What `stackctl` does to a stack, as the operations it performs: the checks it reads, the calls to
Docker, and the two files it writes. Nothing is known of a reply. The loop that waits for a service
sleeps two seconds a round, so its deadline bounds the rounds.
-/

namespace Decisya.Deploy.Stack

open Concurrency
open Python (Str strip before after)

set_option autoImplicit false

/-! ## Operations -/

/-- `load` is what a module that cannot be loaded raises. -/
inductive ErrorClass where
  | stack
  | os
  | value
  | key
  | load
  | subprocess
  | other
  deriving DecidableEq

/-- An exception and its text. -/
structure Raised where
  cls : ErrorClass
  text : Str

def stackError (text : Str) : Raised := ⟨.stack, text⟩

structure Proc where
  returncode : ℤ
  stdout : Str

abbrev Values := List (Str × Str)

inductive StackFile where
  | caddyfile
  | redisConf
  | identitySql

/-- Why the size of a file is not known. -/
inductive StatError where
  | missing
  | other

/-- The scripts of the one-shot containers. -/
inductive Script where
  | prepare
  | reset
  | resetAll
  deriving DecidableEq

inductive Compose where
  | config
  | up (service : Option Str)
  | create (service : Str)
  | stop (service : Str)
  | copyRoot
  | psQuiet (service : Str)
  | psAll
  | psql (database sql : Str)

inductive Docker where
  | inspectHealth (container : Str)
  | inspect (ids : List Str)
  | volumeInspect
  | oneshot (image : Str) (script : Script)
  | verifyRing (image : Str)
  | adapt (envFile image : Str)

/-- `beforeDeadline` is the loop's look at the clock; `caddyEnv` writes the temporary file of Caddy's
environment. -/
inductive Op where
  | freshness
  | manifest
  | static
  | isDir
  | readEnv
  | pinnedCaddy
  | scanRefs
  | releaseRefs
  | readText (file : StackFile)
  | bootstrapSize
  | compose (c : Compose)
  | docker (d : Docker)
  | caddyEnv (values : Values)
  | ensureTrust
  | rootCopied
  | readRoot
  | installRoot
  | unlinkRoot
  | beforeDeadline
  | sleep

abbrev Res : Op → Type
  | .freshness => List Str
  | .manifest => Except Str (List Str)
  | .static => Except Raised (List Str)
  | .isDir => Bool
  | .readEnv => Except Raised (Values × List Str)
  | .pinnedCaddy => Except Raised Str
  | .scanRefs => Except Raised Values
  | .releaseRefs => Except Raised Values
  | .readText _ => Except Raised Str
  | .bootstrapSize => Except StatError ℕ
  | .compose _ => Except Raised Proc
  | .docker _ => Except Raised Proc
  | .caddyEnv _ => Except Raised Str
  | .ensureTrust => Except Raised Unit
  | .rootCopied => Bool
  | .readRoot => Option Str
  | .installRoot => Except Raised Unit
  | .unlinkRoot => Except Raised Unit
  | .beforeDeadline => Bool
  | .sleep => Unit

abbrev Code (α : Type) := Prog Op Res Raised α

abbrev Event := Concurrency.Event Op Res

/-! ## Arguments -/

def words (ws : List String) : List Str := ws.map String.toList

/-- `PSQL_BASE` -/
def psqlBase : List Str :=
  words ["exec", "-T", "postgres", "psql", "-q", "-At", "-U", "postgres", "-v", "ON_ERROR_STOP=1"]

/-- The arguments after those that name the project; `temporary` is the path of the exported root. -/
def Compose.args (temporary : Str) : Compose → List Str
  | config => words ["config", "--no-path-resolution", "--format", "json"]
  | up none => words ["up", "-d"]
  | up (some service) => words ["up", "-d"] ++ [service]
  | create service => words ["create"] ++ [service]
  | stop service => words ["stop"] ++ [service]
  | copyRoot => words ["cp", "caddy:/data/caddy/pki/authorities/local/root.crt"] ++ [temporary]
  | psQuiet service => words ["ps", "-q"] ++ [service]
  | psAll => words ["ps", "-aq"]
  | psql database _ => psqlBase ++ words ["-d"] ++ [database]

def Compose.input : Compose → Option Str
  | psql _ sql => some sql
  | _ => none

def keyringVolumeName : Str := "decisya_bff-keyring".toList

def keyringOwner : Str := "1654:1654".toList

/-- An argument; the text of a script is told by its name. -/
inductive Arg where
  | word (s : Str)
  | script (s : Script)
  | verifyScript

def argWords (ws : List String) : List Arg := (words ws).map .word

def oneshotArgv (image : Str) (script : Script) : List Arg :=
  argWords ["docker", "run", "--rm", "--network", "none", "--read-only", "--security-opt",
    "no-new-privileges", "--cap-drop", "ALL", "--cap-add", "CHOWN", "--cap-add", "DAC_OVERRIDE",
    "--cap-add", "FOWNER", "--user", "0:0", "--pids-limit", "64", "--memory", "64m", "--mount"] ++
  [.word ("type=volume,source=".toList ++ keyringVolumeName ++ ",target=/keyring".toList)] ++
  argWords ["--entrypoint", "sh"] ++ [.word image] ++ argWords ["-c"] ++ [.script script]

def verifyRingArgv (image : Str) : List Arg :=
  argWords ["docker", "run", "--rm", "--network", "none", "--read-only", "--security-opt",
    "no-new-privileges", "--cap-drop", "ALL", "--user"] ++ [.word keyringOwner] ++
  argWords ["--pids-limit", "64", "--memory", "64m", "--mount"] ++
  [.word ("type=volume,source=".toList ++ keyringVolumeName ++ ",target=/keyring,readonly".toList)] ++
  argWords ["--entrypoint", "sh"] ++ [.word image] ++ argWords ["-c"] ++ [.verifyScript]

def adaptArgv (caddyfile envFile image : Str) : List Arg :=
  argWords ["docker", "run", "--rm", "--network", "none", "--read-only", "--env-file"] ++
  [.word envFile] ++ argWords ["--mount"] ++
  [.word ("type=bind,source=".toList ++ caddyfile ++ ",target=/etc/caddy/Caddyfile,readonly".toList)] ++
  [.word image] ++
  argWords ["caddy", "adapt", "--config", "/etc/caddy/Caddyfile", "--adapter", "caddyfile"]

/-- The command line; `caddyfile` is the path of the Caddyfile. -/
def Docker.argv (caddyfile : Str) : Docker → List Arg
  | inspectHealth container =>
    argWords ["docker", "inspect", "--format", "\x7b\x7b.State.Health.Status\x7d\x7d"] ++ [.word container]
  | inspect ids => argWords ["docker", "inspect"] ++ ids.map .word
  | volumeInspect => argWords ["docker", "volume", "inspect"] ++ [.word keyringVolumeName]
  | oneshot image script => oneshotArgv image script
  | verifyRing image => verifyRingArgv image
  | adapt envFile image => adaptArgv caddyfile envFile image

/-! ## Calls -/

def compose (c : Compose) : Code Proc := (Prog.perform (.compose c)).bind Prog.ofExcept

def docker (d : Docker) : Code Proc := (Prog.perform (.docker d)).bind Prog.ofExcept

def readEnv : Code (Values × List Str) := (Prog.perform .readEnv).bind Prog.ofExcept

def readText (file : StackFile) : Code Str := (Prog.perform (.readText file)).bind Prog.ofExcept

def exitText (n : ℤ) : Str := " (exit ".toList ++ (toString n).toList ++ ")".toList

/-- The functions of `stackguards` and of Python's libraries that the commands call. -/
structure Rules where
  loads : Str → Except Raised Json
  envProblems : Values → List Str
  configProblems : Json → Values → Values → Values → Except Raised (List Str)
  caddyTextProblems : Str → List Str
  redisConfProblems : Str → List Str
  caddyProblems : Json → Values → Except Raised (List Str)
  /-- The image of the service `caddy`. -/
  caddyImage : Json → Except Raised Str
  inspectProblems : Json → Option Str → Option Str → Option Str → Except Raised (List Str)
  sqlTables : IdentitySql.Tables
  /-- `str(caddyfile)` -/
  caddyfilePath : Str

/-- A call whose exception is told with the problems found so far. -/
def keeping {α : Type} (problems : List Str) (p : Code α) : Prog Op Res (List Str × Raised) α :=
  p.attempt.bind fun outcome =>
    match outcome with
    | .ok a => .ret a
    | .error e => .raise (problems, e)

section Commands
variable (rules : Rules)

/-! ## The Docker checks -/

def configJson : Code Json :=
  (compose .config).bind fun proc =>
    if proc.returncode ≠ 0 then .raise (stackError "docker compose config failed".toList)
    else Prog.ofExcept (rules.loads proc.stdout)

def caddyAdapt (image : Str) (values : Values) : Code Json :=
  if rules.caddyfilePath.contains ',' = true then
    .raise (stackError "the stack path must not contain a comma".toList)
  else
    ((Prog.perform (.caddyEnv values)).bind Prog.ofExcept).bind fun envFile =>
      (docker (.adapt envFile image)).bind fun proc =>
        if proc.returncode ≠ 0 then
          .raise (stackError ("caddy adapt failed".toList ++ exitText proc.returncode ++
            "; run it by hand to read the message".toList))
        else Prog.ofExcept (rules.loads proc.stdout)

/-- The body of the `try`. -/
def dockerChecks (values : Values) : Prog Op Res (List Str × Raised) (List Str) :=
  (keeping [] ((Prog.perform .scanRefs).bind Prog.ofExcept)).bind fun scanRefs =>
  (keeping [] ((Prog.perform .releaseRefs).bind Prog.ofExcept)).bind fun releaseRefs =>
  (keeping [] (configJson rules)).bind fun cfg =>
  (keeping [] (Prog.ofExcept (rules.configProblems cfg values scanRefs releaseRefs))).bind fun config =>
  (keeping config (readText .caddyfile)).bind fun caddyText =>
  (keeping (config ++ rules.caddyTextProblems caddyText) (readText .redisConf)).bind fun redisText =>
  let texts := config ++ rules.caddyTextProblems caddyText ++ rules.redisConfProblems redisText
  (keeping texts (Prog.ofExcept (rules.caddyImage cfg))).bind fun image =>
  (keeping texts (caddyAdapt rules image values)).bind fun adapted =>
  (keeping texts (Prog.ofExcept (rules.caddyProblems adapted values))).bind fun caddy =>
  .ret (texts ++ caddy)

/-- `except (StackError, OSError, ValueError, KeyError)` -/
def isCaught : ErrorClass → Bool
  | .stack | .os | .value | .key => true
  | .load | .subprocess | .other => false

def dockerProblems : Code (List Str) :=
  readEnv.bind fun (values, parseProblems) =>
    if parseProblems ≠ [] ∨ rules.envProblems values ≠ [] then
      .ret ["Docker checks skipped: fix the environment file first".toList]
    else
      (dockerChecks rules values).attempt.bind fun outcome =>
        match outcome with
        | .ok problems => .ret problems
        | .error (problems, e) =>
          if isCaught e.cls = true then
            .ret (problems ++ ["Docker checks could not complete: ".toList ++ e.text])
          else .raise e

/-! ## The key ring -/

def isLowerAlnum (c : Char) : Bool := (decide (97 ≤ c.toNat) && decide (c.toNat ≤ 122)) || Numeral.isDigit c

def isUpper (c : Char) : Bool := decide (65 ≤ c.toNat) && decide (c.toNat ≤ 90)

def isHex (c : Char) : Bool := Numeral.isDigit c || (decide (97 ≤ c.toNat) && decide (c.toNat ≤ 102))

def isTagChar (c : Char) : Bool := isLowerAlnum c || isUpper c || c == '.' || c == '_' || c == '-'

def isNameChar (c : Char) : Bool := isLowerAlnum c || c == '.' || c == '/' || c == '_' || c == '-'

/-- `PINNED_IMAGE_RE.fullmatch(image)` -/
def isPinned (image : Str) : Bool :=
  let name := before '@' image
  let digest := after '@' image
  let repository := before ':' name
  let tag := after ':' name
  image.contains '@' && repository.head?.any isLowerAlnum && repository.all isNameChar &&
    (!name.contains ':' || (!tag.isEmpty && tag.all isTagChar)) &&
    Python.startsWith digest "sha256:".toList && decide ((digest.drop 7).length = 64) && (digest.drop 7).all isHex

/-- What cannot be read of the clone is a `StackError`. -/
def isUnreadable : ErrorClass → Bool
  | .os | .value | .key | .load => true
  | .stack | .subprocess | .other => false

def pinnedCaddyImage : Code Str :=
  (Prog.perform .pinnedCaddy).bind fun (reply : Except Raised Str) =>
    match reply with
    | .error e =>
      if isUnreadable e.cls = false then .raise e
      else .raise (stackError ("could not read the pinned Caddy image from " ++
        "src/Decisya.AppHost/ContainerImages.cs").toList)
    | .ok image =>
      if isPinned image = true then .ret image
      else .raise (stackError "the pinned Caddy image is not a digest reference".toList)

def requirePinnedImage (image : Str) : Except Raised Unit :=
  if isPinned image = true then .ok ()
  else .error (stackError "the image reference is not pinned by digest".toList)

def oneshot (image : Str) (script : Script) : Code Proc :=
  (Prog.ofExcept (requirePinnedImage image)).bind fun _ => docker (.oneshot image script)

def keyringVolumeExists : Code Bool :=
  (docker .volumeInspect).bind fun proc => .ret (decide (proc.returncode = 0))

/-- `( [a-z]+=[0-9]{1,9})+` after the word. -/
def isOutcomeGroup (group : Str) : Bool :=
  let key := before '=' group
  let value := after '=' group
  group.contains '=' && !key.isEmpty && key.all (fun c => decide (97 ≤ c.toNat) && decide (c.toNat ≤ 122)) &&
    !value.isEmpty && decide (value.length ≤ 9) && value.all Numeral.isDigit

def isOutcomeLine (line : Str) : Bool :=
  match line.splitOn ' ' with
  | first :: groups =>
    (first == "prepared".toList || first == "reset".toList) && !groups.isEmpty && groups.all isOutcomeGroup
  | [] => false

def keyringOutcome (label : String) (proc : Proc) : Except Raised Str :=
  if proc.returncode = 3 then
    .error (stackError ("keyring ".toList ++ label.toList ++
      (" refused: the volume holds an entry that is neither a file nor a folder (a link, pipe, socket or " ++
        "device); nothing was changed; inspect the volume by hand").toList))
  else if proc.returncode ≠ 0 then
    .error (stackError ("keyring ".toList ++ label.toList ++ " failed".toList ++ exitText proc.returncode ++
      "; nothing is printed from the volume".toList))
  else
    .ok ((((IdentitySql.splitLines proc.stdout).map strip).find? isOutcomeLine).getD
      (label.toList ++ " done".toList))

/-- The volume is there, or Compose makes it where that is allowed. -/
def ensureVolume (createVolume : Bool) : Code Unit :=
  keyringVolumeExists.bind fun there =>
    if there = true then .ret ()
    else if createVolume = false then
      .raise (stackError ("the key-ring volume vanished while the reset ran; nothing was created. Run " ++
        "`stackctl scan`, then `up`, which creates the volume").toList)
    else
      (compose (.create "bff".toList)).bind fun created =>
        if created.returncode ≠ 0 then
          .raise (stackError ("could not create the key-ring volume through Compose".toList ++
            exitText created.returncode ++ ("; on a first start run `up`, which exports Caddy's root and " ++
              "then prepares the volume").toList))
        else .ret ()

def keyringPrepare (createVolume : Bool) : Code Str :=
  pinnedCaddyImage.bind fun image =>
    (ensureVolume createVolume).bind fun _ =>
      (oneshot image .prepare).bind fun proc => Prog.ofExcept (keyringOutcome "prepare" proc)

def keyringReset (allKeys : Bool) : Code Str :=
  pinnedCaddyImage.bind fun image =>
    keyringVolumeExists.bind fun there =>
      if there = false then
        .raise (stackError "the key-ring volume does not exist: there is nothing to reset".toList)
      else
        (compose (.stop "bff".toList)).bind fun stopped =>
          if stopped.returncode ≠ 0 then
            .raise (stackError ("could not stop the bff".toList ++ exitText stopped.returncode ++
              "; nothing was changed".toList))
          else
            (oneshot image (if allKeys = true then .resetAll else .reset)).bind fun proc =>
              (Prog.ofExcept (keyringOutcome "reset" proc)).bind fun outcome =>
                (keyringPrepare false).bind fun prepared => .ret (outcome ++ "; ".toList ++ prepared)

/-- The key-ring step of `verify`. -/
def keyringCheck : Code (List Str) :=
  (pinnedCaddyImage.attempt : Code (Except Raised Str)).bind fun pinned =>
    match pinned with
    | .error e => if e.cls = .stack then .ret ["key ring check: ".toList ++ e.text] else .raise e
    | .ok image =>
      (Prog.perform (.docker (.verifyRing image))).bind fun (reply : Except Raised Proc) =>
        match reply with
        | .error e =>
          if e.cls = .subprocess ∨ e.cls = .os then
            .ret ["key ring check: did not complete (timeout or Docker error)".toList]
          else .raise e
        | .ok proc =>
          if proc.returncode ≠ 0 then
            .ret ["key ring check: could not run".toList ++ exitText proc.returncode ++
              "; is Docker up and the Caddy image present?".toList]
          else
            match parseKeyringReport proc.stdout with
            | .error reason => .ret ["key ring check: ".toList ++ reason]
            | .ok facts => .ret (keyringProblems facts)

/-! ## The identity check -/

/-- An empty or a missing file is retired. -/
def bootstrapRetired : Code Bool :=
  (Prog.perform .bootstrapSize).bind fun (reply : Except StatError ℕ) =>
    match reply with
    | .ok size => .ret (decide (size = 0))
    | .error .missing => .ret true
    | .error .other => .ret false

def runIdentityCheck : Code (Except Str Facts) :=
  (Prog.perform (.readText .identitySql)).bind fun (reply : Except Raised Str) =>
    match reply with
    | .error e =>
      if e.cls = .os then
        .ret (.error "identity-check.sql is missing from the stack folder (run `assemble`)".toList)
      else .raise e
    | .ok text =>
      match IdentitySql.identitySqlProblems rules.sqlTables text with
      | broken :: _ => .ret (.error broken)
      | [] =>
        (Prog.perform (.compose (.psql "keycloak".toList text))).bind fun (reply : Except Raised Proc) =>
          match reply with
          | .error e =>
            if e.cls = .subprocess ∨ e.cls = .os then
              .ret (.error "the identity check did not complete (timeout or Docker error)".toList)
            else .raise e
          | .ok proc =>
            if proc.returncode ≠ 0 then
              .ret (.error ("the identity check could not run".toList ++ exitText proc.returncode ++
                "; is postgres up and the keycloak database present?".toList))
            else .ret (parseIdentityOutput proc.stdout)

def identityCheckProblems : Code (List Str) :=
  (runIdentityCheck rules).bind fun outcome =>
    match outcome with
    | .error reason => .ret ["identity check: ".toList ++ reason]
    | .ok facts => bootstrapRetired.bind fun retired => .ret (identityProblems facts retired)

/-! ## Verification -/

/-- `stdout.split()` -/
def idsOf (stdout : Str) : List Str := (stdout.splitOnP Python.isSpace).filter fun id => !id.isEmpty

def inspectProject : Code Json :=
  (compose .psAll).bind fun listing =>
    if listing.returncode ≠ 0 ∨ idsOf listing.stdout = [] then
      .raise (stackError "no containers found for the project".toList)
    else
      (docker (.inspect (idsOf listing.stdout))).bind fun proc =>
        if proc.returncode ≠ 0 then .raise (stackError "docker inspect failed".toList)
        else Prog.ofExcept (rules.loads proc.stdout)

def valueOf (values : Values) (key : String) : Option Str :=
  (values.find? fun entry => decide (entry.1 = key.toList)).map Prod.snd

def verifyProblems : Code (List Str) :=
  readEnv.bind fun (values, _) =>
    (inspectProject rules).bind fun containers =>
      (Prog.ofExcept (rules.inspectProblems containers (valueOf values "DECISYA_BIND_ADDRESS")
        (valueOf values "DECISYA_HTTPS_PORT") (valueOf values "DECISYA_ADMIN_PORT"))).bind fun inspected =>
        keyringCheck.bind fun keyring =>
          (identityCheckProblems rules).bind fun identity => .ret (inspected ++ keyring ++ identity)

/-- The exit code for a list of problems. -/
def report (problems : List Str) : ℕ := if problems = [] then 0 else 1

def cmdVerify : Code ℕ := (verifyProblems rules).bind fun problems => .ret (report problems)

/-! ## Waiting and exporting -/

/-- `rounds` is half the seconds: every round but the last sleeps two of them. -/
def waitHealthy (service : Str) : ℕ → Code Bool
  | 0 => .ret false
  | rounds + 1 =>
    (Prog.perform .beforeDeadline).bind fun running =>
      if running = false then .ret false
      else
        (compose (.psQuiet service)).bind fun listing =>
          let container := strip listing.stdout
          let again := (Prog.perform .sleep).bind fun _ => waitHealthy service rounds
          if container = [] then again
          else
            (docker (.inspectHealth container)).bind fun proc =>
              if strip proc.stdout = "healthy".toList then .ret true else again

/-- `text.count(part)`: `skip` characters still belong to the last occurrence. -/
def countFrom (part : Str) : ℕ → Str → ℕ
  | _, [] => 0
  | skip + 1, _ :: rest => countFrom part skip rest
  | 0, c :: rest =>
    if part.isPrefixOf (c :: rest) = true then countFrom part (part.length - 1) rest + 1
    else countFrom part 0 rest

def rootProblems (content : Option Str) : List Str :=
  match content with
  | none => ["trust/caddy-root.crt is not readable ASCII PEM".toList]
  | some text =>
    problemWhen (countFrom "-----BEGIN CERTIFICATE-----".toList 0 text != 1 ||
        countFrom "-----END CERTIFICATE-----".toList 0 text != 1)
      "trust/caddy-root.crt must hold exactly one certificate".toList ++
    problemWhen (countFrom "PRIVATE KEY".toList 0 text != 0) "trust/caddy-root.crt holds a private key".toList

/-- The attempts that are left, and the last exit code. -/
def exportAttempts : ℕ → Option ℤ → Code Unit
  | 0, last =>
    .raise (stackError ("Caddy's root certificate did not appear (last exit ".toList ++
      (match last with
        | some n => (toString n).toList
        | none => "None".toList) ++ "); is caddy running?".toList))
  | attempts + 1, _ =>
    (compose .copyRoot).bind fun proc =>
      let again := (Prog.perform .sleep).bind fun _ => exportAttempts attempts (some proc.returncode)
      if proc.returncode ≠ 0 then again
      else
        (Prog.perform .rootCopied).bind fun copied =>
          if copied = false then again
          else
            (Prog.perform .readRoot).bind fun content =>
              match rootProblems content with
              | problem :: _ => (Prog.perform .unlinkRoot).bind fun _ => .raise (stackError problem)
              | [] =>
                ((Prog.perform .installRoot).bind Prog.ofExcept).bind fun _ =>
                  (Prog.perform .unlinkRoot).bind Prog.ofExcept

def exportRoot : Code Unit :=
  ((Prog.perform .ensureTrust).bind Prog.ofExcept).bind fun _ => exportAttempts 30 none

/-! ## The commands -/

def cmdCheck (staticOnly : Bool) : Code ℕ :=
  (Prog.perform .freshness).bind fun stale =>
    ((Prog.perform .static).bind Prog.ofExcept).bind fun static =>
      (Prog.perform .isDir).bind fun isDir =>
        if staticOnly = false ∧ isDir = true then
          (dockerProblems rules).bind fun problems => .ret (report (stale ++ static ++ problems))
        else .ret (report (stale ++ static))

def cmdExportRoot : Code ℕ := exportRoot.bind fun _ => .ret 0

def startFailed (step : String) (code : ℤ) : Raised :=
  stackError (step.toList ++ " failed".toList ++ exitText code)

def keycloakWaitSeconds : ℕ := 420

def cmdUp : Code ℕ :=
  (Prog.perform .freshness).bind fun stale =>
    if stale ≠ [] then .ret (report stale)
    else
      ((Prog.perform .static).bind Prog.ofExcept).bind fun static =>
      (dockerProblems rules).bind fun problems =>
        if static ++ problems ≠ [] then .ret (report (static ++ problems))
        else
          (compose (.up (some "caddy".toList))).bind fun caddy =>
            if caddy.returncode ≠ 0 then .raise (startFailed "start caddy" caddy.returncode)
            else
              (waitHealthy "caddy".toList (120 / 2)).bind fun healthy =>
                if healthy = false then
                  .raise (stackError "caddy did not become healthy within 120 seconds".toList)
                else
                  exportRoot.bind fun _ =>
                  (keyringPrepare true).bind fun _ =>
                  (compose (.up none)).bind fun started =>
                    if started.returncode ≠ 0 then .raise (startFailed "start" started.returncode)
                    else
                      (waitHealthy "keycloak".toList (keycloakWaitSeconds / 2)).bind fun _ => cmdVerify rules

/-- The gate of the commands that do not run the static checks. -/
def deployGateProblems : Code (List Str) :=
  (Prog.perform .freshness).bind fun stale =>
    (Prog.perform .manifest).bind fun (reply : Except Str (List Str)) =>
      match reply with
      | .ok problems => .ret (stale ++ problems)
      | .error cls =>
        .ret (stale ++ ["the assembled files could not be compared with the clone (".toList ++ cls ++ [')']])

def refusal (what : String) (problems : List Str) : Raised :=
  stackError (what.toList ++ (Python.join "; ".toList problems).take 600)

def cmdKeyringPrepare : Code ℕ :=
  deployGateProblems.bind fun refused =>
    if refused ≠ [] then .raise (refusal "refusing to prepare the key ring: " refused)
    else (keyringPrepare true).bind fun _ => .ret 0

def cmdKeyringReset (confirm allKeys : Bool) : Code ℕ :=
  if confirm = false then
    .raise (stackError ("keyring reset deletes the key files that are not wrapped by the certificate and " ++
      "ends every session: pass --confirm").toList)
  else (keyringReset allKeys).bind fun _ => .ret 0

/-- `REBUILD_SQL` -/
def rebuildSql : Str :=
  ("DROP DATABASE IF EXISTS keycloak WITH (FORCE);\n" ++ "CREATE DATABASE keycloak OWNER keycloak;\n" ++
    "REVOKE ALL ON DATABASE keycloak FROM PUBLIC;\n").toList

def rebuildSteps : List (String × Compose) :=
  [("stop keycloak", .stop "keycloak".toList),
    ("drop and recreate the keycloak database", .psql "postgres".toList rebuildSql),
    ("start keycloak", .up (some "keycloak".toList))]

def runSteps : List (String × Compose) → Code Unit
  | [] => .ret ()
  | (label, step) :: rest =>
    (Prog.perform (.compose step)).bind fun (reply : Except Raised Proc) =>
      match reply with
      | .error e =>
        if e.cls = .subprocess ∨ e.cls = .os then
          .raise (stackError (label.toList ++
            " did not complete (timeout or Docker error); check `ps` before you retry".toList))
        else .raise e
      | .ok proc =>
        if proc.returncode ≠ 0 then
          .raise (stackError (label.toList ++ " failed".toList ++ exitText proc.returncode ++
            "; check `ps` before you retry".toList))
        else runSteps rest

def cmdRealmRebuild (confirm : Bool) : Code ℕ :=
  if confirm = false then
    .raise (stackError ("realm rebuild drops the identity database: pass --confirm (allowed only while " ++
      "every user is synthetic)").toList)
  else
    (Prog.perform .isDir).bind fun isDir =>
      if isDir = false then .raise (stackError "the stack folder does not exist".toList)
      else
        deployGateProblems.bind fun refused =>
          if refused ≠ [] then .raise (refusal "refusing to rebuild: " refused)
          else
            (runIdentityCheck rules).bind fun outcome =>
              match outcome with
              | .error reason => .raise (stackError ("refusing to rebuild: ".toList ++ reason))
              | .ok facts =>
                if 0 < countOf facts "users_without_synthetic" then
                  .raise (stackError ("refusing to rebuild: ".toList ++
                    Nat.toDigits 10 (countOf facts "users_without_synthetic") ++
                    (" user(s) without synthetic=true exist and a rebuild would destroy them (go-live gate " ++
                      "item C-03b replaces this command)").toList))
                else
                  bootstrapRetired.bind fun retired =>
                    if retired = true then
                      .raise (stackError ("refusing to rebuild: the bootstrap administrator secret is " ++
                        "retired (empty), so the rebuilt Keycloak would have no administrator; run " ++
                        "`secrets rotate keycloak_bootstrap` first").toList)
                    else (runSteps rebuildSteps).bind fun _ => .ret 0

/-- The commands that may call Docker on the stack. -/
inductive Command where
  | check (staticOnly : Bool)
  | exportRoot
  | up
  | verify
  | keyringPrepare
  | keyringReset (confirm allKeys : Bool)
  | realmRebuild (confirm : Bool)

def Command.run : Command → Code ℕ
  | check staticOnly => cmdCheck rules staticOnly
  | exportRoot => cmdExportRoot
  | up => cmdUp rules
  | verify => cmdVerify rules
  | keyringPrepare => cmdKeyringPrepare
  | keyringReset confirm allKeys => cmdKeyringReset confirm allKeys
  | realmRebuild confirm => cmdRealmRebuild rules confirm

end Commands

/-- The exit code of the process: 2 for a `StackError`, 1 for an exception nobody catches. -/
def exitCode : Except Raised ℕ → ℕ
  | .ok code => code
  | .error e => if e.cls = .stack then 2 else 1

end Decisya.Deploy.Stack
