import Mathlib.Data.List.Infix
import Mathlib.Data.Nat.Notation

/-!
# The secrets folder of a stack

The files, the rules `secret_problems` checks them by, and the commands that write them. Each
file is written in one step, by a rename; a command writes its files one after another.
-/

namespace Decisya.Deploy

set_option autoImplicit false

abbrev Text := List Char

/-! ## Files -/

inductive SecretName where
  | dpCert
  | dpCertPassword
  | dpPrevious
  | dpPreviousPassword
  | bffClientSecret
  | connectionDecisya
  | connectionEntitlements
  | connectionRedis
  | connectionTenancy
  | userIdHashKey
  | entitlementsRolePassword
  | tenancyRolePassword
  | keycloakBootstrapAdminPassword
  | keycloakDbPassword
  | migratorDbPassword
  | postgresSuperuserPassword
  | redisAcl
  deriving DecidableEq

/-- The names in sorted order. -/
def secretFileNames : List SecretName :=
  [.dpCert, .dpCertPassword, .dpPrevious, .dpPreviousPassword, .bffClientSecret,
    .connectionDecisya, .connectionEntitlements, .connectionRedis, .connectionTenancy,
    .userIdHashKey, .entitlementsRolePassword, .tenancyRolePassword,
    .keycloakBootstrapAdminPassword, .keycloakDbPassword, .migratorDbPassword,
    .postgresSuperuserPassword, .redisAcl]

theorem mem_secretFileNames (name : SecretName) : name ∈ secretFileNames := by
  cases name <;> decide

def SecretName.file : SecretName → String
  | dpCert => "Bff__DataProtection__Certificate"
  | dpCertPassword => "Bff__DataProtection__CertificatePassword"
  | dpPrevious => "Bff__DataProtection__PreviousCertificate"
  | dpPreviousPassword => "Bff__DataProtection__PreviousCertificatePassword"
  | bffClientSecret => "Bff__Oidc__ClientSecret"
  | connectionDecisya => "ConnectionStrings__decisya"
  | connectionEntitlements => "ConnectionStrings__entitlements"
  | connectionRedis => "ConnectionStrings__redis"
  | connectionTenancy => "ConnectionStrings__tenancy"
  | userIdHashKey => "Decisya__Observability__UserIdHashKey"
  | entitlementsRolePassword => "Migrator__EntitlementsRolePassword"
  | tenancyRolePassword => "Migrator__TenancyRolePassword"
  | keycloakBootstrapAdminPassword => "keycloak_bootstrap_admin_password"
  | keycloakDbPassword => "keycloak_db_password"
  | migratorDbPassword => "migrator_db_password"
  | postgresSuperuserPassword => "postgres_superuser_password"
  | redisAcl => "redis_acl"

def dpSecrets : List SecretName := [.dpCert, .dpCertPassword, .dpPrevious, .dpPreviousPassword]

/-- Bytes that are the UTF-8 form of a text are that text. -/
inductive Content where
  | text (t : Text)
  | undecodable (raw : List UInt8)
  deriving DecidableEq

/-- `mine` says that the file belongs to the account that runs the command. -/
structure File where
  content : Content
  mode : ℕ
  mine : Bool
  deriving DecidableEq

/-- `files` are the regular files of the known names, `others` the entries of other names. -/
structure Folder where
  isDir : Bool
  mode : ℕ
  mine : Bool
  others : List String
  files : SecretName → Option File

def Folder.content (folder : Folder) (name : SecretName) : Option Content :=
  (folder.files name).map File.content

def secretFileMode : ℕ := 0o444

structure Write where
  name : SecretName
  text : Text
  deriving DecidableEq

def Folder.write (folder : Folder) (w : Write) : Folder :=
  { folder with
    files := fun name => if name = w.name then some ⟨.text w.text, secretFileMode, true⟩
      else folder.files name }

def Folder.writeAll (folder : Folder) (writes : List Write) : Folder := writes.foldl Folder.write folder

theorem Folder.content_write (folder : Folder) (w : Write) (name : SecretName) :
    (folder.write w).content name =
      if name = w.name then some (.text w.text) else folder.content name := by
  unfold content write
  by_cases h : name = w.name <;> simp [h]

/-! ## Shapes -/

def isDigit (c : Char) : Bool := decide ('0' ≤ c) && decide (c ≤ '9')

def isAlnum (c : Char) : Bool :=
  (decide ('A' ≤ c) && decide (c ≤ 'Z')) || (decide ('a' ≤ c) && decide (c ≤ 'z')) || isDigit c

def isHex (c : Char) : Bool := isDigit c || (decide ('a' ≤ c) && decide (c ≤ 'f'))

def isBase64 (c : Char) : Bool := isAlnum c || decide (c = '+') || decide (c = '/')

def isPadding (c : Char) : Bool := decide (c = '=')

/-- The length of what `b64decode(text, validate=True)` gives; `none` where it raises. -/
def b64decodeLength (text : Text) : Option ℕ :=
  let data := text.takeWhile isBase64
  let padding := text.dropWhile isBase64
  if padding.all isPadding = true ∧ padding.length ≤ 2 ∧ (data.length + padding.length) % 4 = 0 then
    some (data.length * 3 / 4)
  else none

def dpPfxMaxBytes : ℕ := 16 * 1024

def pfxShapeProblem (text : Text) : Option String :=
  let data := text.takeWhile isBase64
  let padding := text.dropWhile isBase64
  if data = [] ∨ ¬ padding.all isPadding = true ∨ 2 < padding.length then
    some "must be base64 on one line, with no line break"
  else match b64decodeLength text with
    | none => some "must be base64 on one line, with no line break"
    | some n =>
      if 1 ≤ n ∧ n ≤ dpPfxMaxBytes then none else some "must decode to 1 byte up to 16 KiB"

def isPassword (text : Text) : Bool := decide (32 ≤ text.length) && text.all isAlnum

def isCertificatePassword (text : Text) : Bool := isPassword text && decide (text.length ≤ 256)

/-- A fixed start and a password after it. -/
def carriesPassword (start text : Text) : Bool :=
  start.isPrefixOf text && isPassword (text.drop start.length)

def connectionStart (user : String) : Text :=
  "Host=postgres;Port=5432;".toList ++ "Database=decisya;Username=".toList ++ user.toList ++
    ";Password=".toList

def connectionString (user : String) (password : Text) : Text := connectionStart user ++ password

def redisConnectionStart : Text := "redis:6379,user=decisya-bff,password=".toList

def redisConnectionString (password : Text) : Text := redisConnectionStart ++ password

/-- A line of the policy; where a hash stands in it, what comes after the hash. -/
structure AclLine where
  head : Text
  tail : Option Text

def aclDefault : AclLine :=
  ⟨"user default off resetpass".toList ++ " resetkeys resetchannels -@all".toList, none⟩

def aclHealth : AclLine := ⟨"user health on nopass -@all +ping".toList, none⟩

def aclBffTail : Text :=
  " ~decisya:bff:* -@all +get".toList ++ " +set +del +expire +pexpire".toList ++
    " +exists +sadd +srem +smembers".toList ++ " +multi +exec +discard +watch".toList ++
    " +unwatch +ping +echo +client".toList ++ " +info +hello".toList

def aclBff : AclLine := ⟨"user decisya-bff on #".toList, some aclBffTail⟩

def redisAclPolicy : List AclLine := [aclDefault, aclHealth, aclBff]

def AclLine.matches (line : AclLine) (text : Text) : Bool :=
  match line.tail with
  | none => decide (text = line.head)
  | some tail =>
    line.head.isPrefixOf text && ((text.drop line.head.length).take 64).all isHex &&
      decide ((text.drop line.head.length).length = 64 + tail.length) &&
      decide ((text.drop line.head.length).drop 64 = tail)

/-- The hexadecimal form of a SHA-256 hash. -/
structure Digest where
  hex : Text
  length_eq : hex.length = 64
  isHex : hex.all isHex = true

def AclLine.format (line : AclLine) (hash : Digest) : Text :=
  match line.tail with
  | none => line.head
  | some tail => line.head ++ hash.hex ++ tail

def newline : Char := Char.ofNat 10

def carriageReturn : Char := Char.ofNat 13

def aclMatches (text : Text) : Bool :=
  let lines := text.splitOn newline
  decide (lines.length = redisAclPolicy.length) &&
    (redisAclPolicy.zip lines).all fun x => x.1.matches x.2

def orProblem (ok : Bool) (problem : String) : Option String := if ok then none else some problem

def shapeProblem (name : SecretName) (text : Text) : Option String :=
  match name with
  | .dpCert => pfxShapeProblem text
  | .dpPrevious => if text = [] then none else pfxShapeProblem text
  | .dpCertPassword =>
    orProblem (isCertificatePassword text) "must be 32 to 256 letters and digits"
  | .dpPreviousPassword =>
    orProblem (decide (text = []) || isCertificatePassword text)
      "must be empty or 32 to 256 letters and digits"
  | .postgresSuperuserPassword => orProblem (isPassword text) "must be at least 32 letters and digits"
  | .migratorDbPassword => orProblem (isPassword text) "must be at least 32 letters and digits"
  | .keycloakDbPassword => orProblem (isPassword text) "must be at least 32 letters and digits"
  | .tenancyRolePassword => orProblem (isPassword text) "must be at least 32 letters and digits"
  | .entitlementsRolePassword => orProblem (isPassword text) "must be at least 32 letters and digits"
  | .bffClientSecret => orProblem (isPassword text) "must be at least 32 letters and digits"
  | .keycloakBootstrapAdminPassword =>
    orProblem (decide (text = []) || isPassword text)
      "must be empty (retired) or at least 32 letters and digits"
  | .userIdHashKey =>
    match b64decodeLength text with
    | none => some "must be base64"
    | some n => orProblem (decide (32 ≤ n)) "must decode to at least 32 bytes"
  | .connectionDecisya =>
    orProblem (carriesPassword (connectionStart "decisya_migrator") text)
      "must be the generated connection string form"
  | .connectionTenancy =>
    orProblem (carriesPassword (connectionStart "decisya_tenancy") text)
      "must be the generated connection string form"
  | .connectionEntitlements =>
    orProblem (carriesPassword (connectionStart "decisya_entitlements") text)
      "must be the generated connection string form"
  | .connectionRedis =>
    orProblem (carriesPassword redisConnectionStart text)
      "must be the generated Redis connection string form"
  | .redisAcl => orProblem (aclMatches text) "must be the ACL policy generated by stackctl"

/-! ## The rules -/

/-- What follows the first `password=` after which there are only letters and digits. No text
that is looked at ends in a line break. -/
def passwordOf : Text → Option Text
  | [] => none
  | c :: rest =>
    let after := (c :: rest).drop 9
    if ("Password=".toList.isPrefixOf (c :: rest) || "password=".toList.isPrefixOf (c :: rest)) = true ∧
        after ≠ [] ∧ after.all isAlnum = true then some after
    else passwordOf rest

abbrev Contents := SecretName → Option Text

def pairProblem (contents : Contents) (derived source : SecretName) : List String :=
  match contents derived, contents source with
  | some d, some s =>
    if shapeProblem derived d = none ∧ passwordOf d ≠ some s then
      ["secret " ++ derived.file ++ " does not carry the credential in " ++ source.file ++
        " (half-rotated?)"]
    else []
  | _, _ => []

def emptyTogetherProblem (contents : Contents) : List String :=
  match contents .dpPrevious, contents .dpPreviousPassword with
  | some previous, some password =>
    if decide (previous = []) ≠ decide (password = []) then
      ["secrets " ++ SecretName.dpPrevious.file ++ " and " ++ SecretName.dpPreviousPassword.file ++
        " must be empty together (half-finished rotation or retirement?)"]
    else []
  | _, _ => []

def sameCertificateProblem (contents : Contents) : List String :=
  match contents .dpPrevious with
  | some previous =>
    if previous ≠ [] ∧ contents .dpCert = some previous then
      ["secret " ++ SecretName.dpPrevious.file ++
        " holds the current certificate (half-finished rotation?)"]
    else []
  | none => []

section Rules
variable (sha256 : Text → Digest)

def redisProblem (contents : Contents) : List String :=
  match contents .connectionRedis, contents .redisAcl with
  | some redis, some acl =>
    if redis ≠ [] ∧ acl ≠ [] ∧ shapeProblem .connectionRedis redis = none ∧
        shapeProblem .redisAcl acl = none ∧
        ¬ ('#' :: (sha256 ((passwordOf redis).getD [])).hex) <:+: acl then
      ["secret redis_acl does not carry the hash of the password in ConnectionStrings__redis " ++
        "(half-rotated?)"]
    else []
  | _, _ => []

def derivedProblems (contents : Contents) : List String :=
  pairProblem contents .connectionDecisya .migratorDbPassword ++
    pairProblem contents .connectionTenancy .tenancyRolePassword ++
    pairProblem contents .connectionEntitlements .entitlementsRolePassword ++
    emptyTogetherProblem contents ++ sameCertificateProblem contents ++ redisProblem sha256 contents

def endsWithNewline (text : Text) : Bool :=
  decide (text.getLast? = some newline) || decide (text.getLast? = some carriageReturn)

def contentProblem (name : SecretName) : Content → Option String
  | .text t =>
    if endsWithNewline t then some "ends with a newline" else shapeProblem name t
  | .undecodable raw =>
    if raw.getLast? = some 10 ∨ raw.getLast? = some 13 then some "ends with a newline"
    else some "not valid UTF-8"

def fileProblems (posix : Bool) (name : SecretName) : Option File → List String
  | none => ["secret " ++ name.file ++ ": missing"]
  | some f =>
    (if posix = true ∧ f.mode &&& 0o022 ≠ 0 then
        ["secret " ++ name.file ++ ": writable by group or others"] else []) ++
      (if posix = true ∧ f.mine = false then
        ["secret " ++ name.file ++ ": owned by another account"] else []) ++
      match contentProblem name f.content with
      | none => []
      | some reason => ["secret " ++ name.file ++ ": " ++ reason]

/-- The texts of the files that are as they should be. -/
def Folder.contents (folder : Folder) : Contents := fun name =>
  match folder.content name with
  | some (.text t) => if contentProblem name (.text t) = none then some t else none
  | _ => none

def folderProblems (posix : Bool) (folder : Folder) : List String :=
  (if posix = true ∧ folder.mode &&& 0o077 ≠ 0 then
      ["secrets folder must be mode 0700 (it is readable or writable by others)"] else []) ++
    (if posix = true ∧ folder.mine = false then
      ["secrets folder is owned by another account"] else [])

def secretProblems (posix : Bool) (folder : Folder) : List String :=
  if folder.isDir = false then ["secrets folder is missing (run `secrets init`)"]
  else
    folderProblems posix folder ++
      folder.others.map (fun extra => "unexpected entry " ++ extra ++ " in the secrets folder") ++
      secretFileNames.flatMap (fun name => fileProblems posix name (folder.files name)) ++
      derivedProblems sha256 folder.contents

end Rules

/-! ## The commands -/

inductive Logical where
  | postgresSuperuser
  | migratorDb
  | tenancyDb
  | entitlementsDb
  | keycloakDb
  | keycloakBootstrap
  | redis
  | bffClient
  | userIdHashKey
  deriving DecidableEq

def logicalSecrets : List Logical :=
  [.postgresSuperuser, .migratorDb, .tenancyDb, .entitlementsDb, .keycloakDb, .keycloakBootstrap,
    .redis, .bffClient, .userIdHashKey]

/-- The credentials that belong to a role of the stack's Postgres. -/
def Logical.rotatesRole : Logical → Bool
  | postgresSuperuser => true
  | migratorDb => true
  | keycloakDb => true
  | _ => false

inductive RotateName where
  | logical (l : Logical)
  | dataprotectionCert
  deriving DecidableEq

inductive RetireName where
  | keycloakBootstrap
  | dataprotectionPrevious
  deriving DecidableEq

inductive Command where
  | init
  | add
  | rotate (name : RotateName) (applyDb filesOnly dropPrevious : Bool)
  | retire (name : RetireName)
  deriving DecidableEq

/-- What the command finds outside the folder: what is wrong with the BFF image of the
environment file, if anything, and the exit code of the statement that alters a role. -/
structure Host where
  posix : Bool
  stackIsDir : Bool
  insideGit : Bool
  bffImageProblem : Option String
  alterRoleExit : ℕ

/-- `certificate` is what the generator printed, or why it did not. -/
structure Generated where
  credential : Logical → Text
  certificate : Except String Text
  certificatePassword : Text

def certificateFiles (certificate password : Text) : List Write :=
  [⟨.dpCert, certificate⟩, ⟨.dpCertPassword, password⟩, ⟨.dpPrevious, []⟩, ⟨.dpPreviousPassword, []⟩]

/-- What is written, or the text of the error. -/
abbrev Plan := Except String (List Write)

def generateCertificatePair (host : Host) (generated : Generated) : Except String (Text × Text) :=
  match host.bffImageProblem with
  | some problem => .error problem
  | none =>
    match generated.certificate with
    | .error problem => .error problem
    | .ok certificate =>
      match pfxShapeProblem certificate with
      | some reason => .error ("the certificate generator's output " ++ reason)
      | none => .ok (certificate, generated.certificatePassword)

def Folder.existing (folder : Folder) (names : List SecretName) : List SecretName :=
  names.filter fun name => (folder.files name).isSome

def refusingToOverwrite (existing : List SecretName) : String :=
  "refusing to overwrite " ++ toString existing.length ++ " existing secret file(s): " ++
    ", ".intercalate (existing.map SecretName.file)

/-- Text mode reads every line break as a line feed. -/
def universalNewlines : Text → Text
  | [] => []
  | [c] => if c = carriageReturn then [newline] else [c]
  | c :: d :: rest =>
    if c ≠ carriageReturn then c :: universalNewlines (d :: rest)
    else if d = newline then newline :: universalNewlines rest
    else newline :: universalNewlines (d :: rest)

def readSecret (folder : Folder) (name : SecretName) : Except String Text :=
  match folder.content name with
  | none => .error ("secret " ++ name.file ++ " does not exist")
  | some (.undecodable _) => .error "UnicodeDecodeError"
  | some (.text t) => .ok (universalNewlines t)

def checkShape (name : SecretName) (text : Text) : Except String Unit :=
  match shapeProblem name text with
  | none => .ok ()
  | some reason => .error ("secret " ++ name.file ++ ": " ++ reason ++ "; repair it before a rotation")

def rotateCertificate (host : Host) (generated : Generated) (folder : Folder) (dropPrevious : Bool) :
    Plan := do
  let current ← readSecret folder .dpCert
  let currentPassword ← readSecret folder .dpCertPassword
  let previous ← readSecret folder .dpPrevious
  let previousPassword ← readSecret folder .dpPreviousPassword
  checkShape .dpCert current
  checkShape .dpCertPassword currentPassword
  checkShape .dpPrevious previous
  checkShape .dpPreviousPassword previousPassword
  if decide (previous = []) ≠ decide (previousPassword = []) then
    .error "the previous certificate pair is half empty; repair it before a rotation"
  else if previous ≠ [] ∧ dropPrevious = false then
    .error ("the previous certificate pair is not empty: a rotation would drop it. Run " ++
      "`secrets retire dataprotection_previous` once no live key needs it, or pass " ++
      "--drop-previous (the bff then refuses to start if a live key was wrapped by " ++
      "the dropped certificate)")
  else do
    let fresh ← generateCertificatePair host generated
    return [⟨.dpPrevious, current⟩, ⟨.dpPreviousPassword, currentPassword⟩,
      ⟨.dpCert, fresh.1⟩, ⟨.dpCertPassword, fresh.2⟩]

def retirePreviousCertificate (folder : Folder) : Plan := do
  let previous ← readSecret folder .dpPrevious
  let previousPassword ← readSecret folder .dpPreviousPassword
  if previous = [] ∧ previousPassword = [] then return []
  else return [⟨.dpPrevious, []⟩, ⟨.dpPreviousPassword, []⟩]

section Commands
variable (sha256 : Text → Digest)

def redisAclText (password : Text) : Text :=
  [newline].intercalate (redisAclPolicy.map fun line => line.format (sha256 password))

/-- Every file derived from one credential. -/
def filesFor (logical : Logical) (value : Text) : List Write :=
  match logical with
  | .postgresSuperuser => [⟨.postgresSuperuserPassword, value⟩]
  | .migratorDb =>
    [⟨.migratorDbPassword, value⟩, ⟨.connectionDecisya, connectionString "decisya_migrator" value⟩]
  | .tenancyDb =>
    [⟨.tenancyRolePassword, value⟩, ⟨.connectionTenancy, connectionString "decisya_tenancy" value⟩]
  | .entitlementsDb =>
    [⟨.entitlementsRolePassword, value⟩,
      ⟨.connectionEntitlements, connectionString "decisya_entitlements" value⟩]
  | .keycloakDb => [⟨.keycloakDbPassword, value⟩]
  | .keycloakBootstrap => [⟨.keycloakBootstrapAdminPassword, value⟩]
  | .redis =>
    [⟨.redisAcl, redisAclText sha256 value⟩, ⟨.connectionRedis, redisConnectionString value⟩]
  | .bffClient => [⟨.bffClientSecret, value⟩]
  | .userIdHashKey => [⟨.userIdHashKey, value⟩]

def secretsInit (host : Host) (generated : Generated) (folder : Folder) : Plan :=
  if host.stackIsDir = false then .error "the stack folder does not exist (run `assemble` first)"
  else if host.insideGit = true then
    .error "the stack folder is inside a Git working tree; use a folder outside every clone"
  else if folder.existing secretFileNames ≠ [] then
    .error (refusingToOverwrite (folder.existing secretFileNames))
  else if folder.isDir = true ∧ host.posix = true ∧ folder.mode &&& 0o077 ≠ 0 then
    .error "the secrets folder must be mode 0700"
  else do
    let certificate ← generateCertificatePair host generated
    return logicalSecrets.flatMap (fun l => filesFor sha256 l (generated.credential l)) ++
      certificateFiles certificate.1 certificate.2

def secretsAdd (host : Host) (generated : Generated) (folder : Folder) : Plan :=
  if folder.isDir = false then
    .error "the secrets folder does not exist (run `secrets init` on a new stack)"
  else if host.posix = true ∧ folder.mode &&& 0o077 ≠ 0 then
    .error "the secrets folder must be mode 0700"
  else if folder.existing dpSecrets ≠ [] then
    .error (refusingToOverwrite (folder.existing dpSecrets))
  else do
    let certificate ← generateCertificatePair host generated
    return certificateFiles certificate.1 certificate.2

def rotateLogical (host : Host) (generated : Generated) (folder : Folder) (logical : Logical)
    (applyDb filesOnly : Bool) : Plan :=
  if logical.rotatesRole = true ∧ applyDb = false ∧ filesOnly = false then
    .error ("this credential belongs to a database role: pass --apply-db (alter the role, " ++
      "then the files) or --files-only")
  else if applyDb = true ∧ logical.rotatesRole = false then
    .error "--apply-db only applies to postgres_superuser, migrator_db and keycloak_db"
  else
    let files := filesFor sha256 logical (generated.credential logical)
    match files.find? fun w => (folder.files w.name).isNone with
    | some w =>
      .error ("secret " ++ w.name.file ++
        " does not exist: rotate only replaces, `secrets init` creates")
    | none =>
      if applyDb = true ∧ host.alterRoleExit ≠ 0 then
        .error ("ALTER ROLE failed (exit " ++ toString host.alterRoleExit ++
          "); no file was changed")
      else .ok files

def secretsRotate (host : Host) (generated : Generated) (folder : Folder) (name : RotateName)
    (applyDb filesOnly dropPrevious : Bool) : Plan :=
  if folder.isDir = false then .error "the secrets folder does not exist"
  else if dropPrevious = true ∧ name ≠ .dataprotectionCert then
    .error "--drop-previous only applies to dataprotection_cert"
  else match name with
    | .dataprotectionCert =>
      if applyDb = true ∨ filesOnly = true then
        .error "--apply-db and --files-only only apply to database credentials"
      else rotateCertificate host generated folder dropPrevious
    | .logical l => rotateLogical sha256 host generated folder l applyDb filesOnly

def secretsRetire (folder : Folder) : RetireName → Plan
  | .dataprotectionPrevious => retirePreviousCertificate folder
  | .keycloakBootstrap =>
    if (folder.files .keycloakBootstrapAdminPassword).isNone then
      .error "secret keycloak_bootstrap_admin_password does not exist"
    else .ok [⟨.keycloakBootstrapAdminPassword, []⟩]

def Command.plan (host : Host) (generated : Generated) (folder : Folder) : Command → Plan
  | init => secretsInit sha256 host generated folder
  | add => secretsAdd host generated folder
  | rotate name applyDb filesOnly dropPrevious =>
    secretsRotate sha256 host generated folder name applyDb filesOnly dropPrevious
  | retire name => secretsRetire folder name

/-- The files a command writes, in order; none where it stops with an error first. -/
def Command.writes (host : Host) (generated : Generated) (folder : Folder) (command : Command) :
    List Write :=
  match command.plan sha256 host generated folder with
  | .ok writes => writes
  | .error _ => []

end Commands

end Decisya.Deploy
