import Decisya.Deploy.InterruptedChange
import Mathlib.Logic.Relation

/-!
# Runs of secret commands

A stack's secrets begin with `secrets init` and change by the other commands, each of which may
be killed between two of its writes. What a certificate's password is good for is outside the
folder: `opens` is the relation of a certificate to the password that opens it.
-/

namespace Decisya.Deploy

set_option autoImplicit false

/-! ## Commands as they run -/

/-- `_ensure_dir`, where there is no folder yet. -/
def Folder.ensureDir (folder : Folder) : Folder :=
  if folder.isDir = true then folder else { folder with isDir := true, mode := 0o700, mine := true }

/-- The folder a command writes to. -/
def Command.prepared (folder : Folder) : Command → Folder
  | init => folder.ensureDir
  | _ => folder

section Run
variable (sha256 : Text → Digest)

def Command.run (host : Host) (generated : Generated) (folder : Folder) (command : Command) :
    Folder :=
  match command.plan sha256 host generated folder with
  | .ok writes => (command.prepared folder).writeAll writes
  | .error _ => folder

/-- The folder a command leaves when it is killed after `k` of its writes. -/
def Command.killed (host : Host) (generated : Generated) (folder : Folder) (command : Command)
    (k : ℕ) : Folder :=
  match command.plan sha256 host generated folder with
  | .ok writes => (command.prepared folder).writeAll (writes.take k)
  | .error _ => folder

end Run

def passwordLength : ℕ := 48

/-- What `generate_password` gives. -/
def IsGeneratedPassword (text : Text) : Prop :=
  text.length = passwordLength ∧ text.all isAlnum = true

/-- What `generate_hash_key` gives: 32 bytes are 43 letters of base64 and one padding. -/
def IsGeneratedHashKey (text : Text) : Prop :=
  ∃ data : Text, data.length = 43 ∧ data.all isBase64 = true ∧ text = data ++ ['=']

/-- The values come from the generators. -/
structure Generated.Sound (opens : Text → Text → Prop) (generated : Generated) : Prop where
  credential : ∀ l, l ≠ .userIdHashKey → IsGeneratedPassword (generated.credential l)
  hashKey : IsGeneratedHashKey (generated.credential .userIdHashKey)
  password : IsGeneratedPassword generated.certificatePassword
  opens : ∀ certificate, generated.certificate = .ok certificate →
    opens certificate generated.certificatePassword

/-- The certificate is not the one that the folder holds. -/
def NewCertificate (generated : Generated) (folder : Folder) : Prop :=
  ∀ t, folder.content .dpCert = some (.text t) → generated.certificate ≠ .ok t

/-- Nothing outside the folder stops a command. -/
structure Working (host : Host) (generated : Generated) : Prop where
  stack : host.stackIsDir = true
  noGit : host.insideGit = false
  image : host.bffImageProblem = none
  altered : host.alterRoleExit = 0
  certificate : ∃ c, generated.certificate = .ok c ∧ pfxShapeProblem c = none

/-- No secret is there yet, nor anything else. -/
structure Virgin (folder : Folder) : Prop where
  noFiles : ∀ name, folder.files name = none
  noOthers : folder.others = []
  mine : folder.isDir = true → folder.mine = true

/-- Each certificate stands beside the password that opens it. -/
def PairsOpen (opens : Text → Text → Prop) (folder : Folder) : Prop :=
  (∃ c p, folder.content .dpCert = some (.text c) ∧ folder.content .dpCertPassword = some (.text p) ∧
    opens c p) ∧
  (folder.content .dpPrevious = some (.text []) ∨
    ∃ c p, folder.content .dpPrevious = some (.text c) ∧
      folder.content .dpPreviousPassword = some (.text p) ∧ opens c p)

/-- The certificate is one of the two that the folder holds with a password that opens it. -/
def Keeps (opens : Text → Text → Prop) (folder : Folder) (certificate : Text) : Prop :=
  ∃ p, opens certificate p ∧
    ((folder.content .dpCert = some (.text certificate) ∧
        folder.content .dpCertPassword = some (.text p)) ∨
      (folder.content .dpPrevious = some (.text certificate) ∧
        folder.content .dpPreviousPassword = some (.text p)))

section Runs
variable (sha256 : Text → Digest) (opens : Text → Text → Prop) (posix : Bool)

/-- One command on the folder, with values of the generators. No generator gives a certificate
that is `spent`. -/
inductive Step (spent : Text → Prop) : Folder → Folder → Prop
  | run {folder : Folder} {host : Host} {generated : Generated} (command : Command) :
      host.posix = posix → generated.Sound opens → NewCertificate generated folder →
      (∀ c, generated.certificate = .ok c → ¬ spent c) →
      Step spent folder (command.run sha256 host generated folder)

end Runs

/-! ## Generated values are well formed -/

theorem isPassword_of_generated {t : Text} (h : IsGeneratedPassword t) : isPassword t = true := by
  have hlength : 32 ≤ t.length := by
    rw [h.1]
    decide
  simp [isPassword, hlength, h.2]

theorem isCertificatePassword_of_generated {t : Text} (h : IsGeneratedPassword t) :
    isCertificatePassword t = true := by
  have hlength : t.length ≤ 256 := by
    rw [h.1]
    decide
  simp [isCertificatePassword, isPassword_of_generated h, hlength]

theorem ne_nil_of_isPassword {t : Text} (h : isPassword t = true) : t ≠ [] := by
  rintro rfl
  revert h
  decide

/-- A text that ends in letters and digits does not end in a line break. -/
theorem endsWithNewline_append {start t : Text} (h : isPassword t = true) :
    endsWithNewline (start ++ t) = false := by
  have hlast : ∀ c, isAlnum c = false → (start ++ t).getLast? ≠ some c := by
    intro c hc heq
    rw [List.getLast?_append_of_ne_nil _ (ne_nil_of_isPassword h)] at heq
    exact not_mem_of_isPassword hc h (List.mem_of_getLast? heq)
  have hnewline := hlast newline (by decide)
  have hreturn := hlast carriageReturn (by decide)
  simp only [endsWithNewline, hnewline, hreturn, decide_false, Bool.or_false]

theorem contentProblem_append {name : SecretName} {start t : Text} (h : isPassword t = true)
    (hshape : shapeProblem name (start ++ t) = none) :
    contentProblem name (.text (start ++ t)) = none := by
  simp [contentProblem, endsWithNewline_append h, hshape]

theorem contentProblem_password {name : SecretName} {t : Text} (h : isPassword t = true)
    (hshape : shapeProblem name t = none) : contentProblem name (.text t) = none := by
  have happend : shapeProblem name ([] ++ t) = none := hshape
  exact contentProblem_append h happend

theorem contentProblem_nil {name : SecretName} (hshape : shapeProblem name [] = none) :
    contentProblem name (.text []) = none := by
  simp [contentProblem, endsWithNewline, hshape]

theorem carriesPassword_append {start t : Text} (h : isPassword t = true) :
    carriesPassword start (start ++ t) = true := by
  have hprefix : start.isPrefixOf (start ++ t) = true :=
    List.isPrefixOf_iff_prefix.mpr (List.prefix_append start t)
  simp [carriesPassword, hprefix, h]

theorem hashKey_shape {t : Text} (h : IsGeneratedHashKey t) :
    contentProblem .userIdHashKey (.text t) = none := by
  obtain ⟨data, hlength, hall, rfl⟩ := h
  have htake : (data ++ ['=']).takeWhile isBase64 = data := by
    rw [List.takeWhile_append_of_pos (List.all_eq_true.mp hall)]
    simp [isBase64, isAlnum, isDigit]
  have hdrop : (data ++ ['=']).dropWhile isBase64 = ['='] := by
    rw [List.dropWhile_append_of_pos (List.all_eq_true.mp hall)]
    simp [isBase64, isAlnum, isDigit]
  have hbytes : b64decodeLength (data ++ ['=']) = some 32 := by
    simp [b64decodeLength, htake, hdrop, hlength, isPadding]
  have hbreak : endsWithNewline (data ++ ['=']) = false := by
    simp [endsWithNewline, newline, carriageReturn]
  simp [contentProblem, hbreak, shapeProblem, hbytes, orProblem]

/-! ### Connection strings -/

/-- No password starts in the text, nor at its end. -/
def quiet : Text → Bool
  | [] => true
  | [_] => true
  | c :: d :: rest => (!((c == 'P' || c == 'p') && d == 'a')) && quiet (d :: rest)

theorem passwordOf_of_start {start t : Text}
    (hstart : start = "Password=".toList ∨ start = "password=".toList) (h : isPassword t = true) :
    passwordOf (start ++ t) = some t := by
  have hall : t.all isAlnum = true := (Bool.and_eq_true _ _ ▸ h).2
  have hne := ne_nil_of_isPassword h
  rcases hstart with rfl | rfl
  · simp [passwordOf, hne, hall]
  · simp [passwordOf, hne, hall]

theorem passwordOf_append {front start t : Text} (hquiet : quiet front = true)
    (hstart : start = "Password=".toList ∨ start = "password=".toList) (h : isPassword t = true) :
    passwordOf (front ++ (start ++ t)) = some t := by
  induction front with
  | nil => exact passwordOf_of_start hstart h
  | cons c front ih =>
    have hskip : ¬ ("Password=".toList.isPrefixOf (c :: front ++ (start ++ t)) ||
        "password=".toList.isPrefixOf (c :: front ++ (start ++ t))) = true := by
      cases front with
      | nil => rcases hstart with rfl | rfl <;> simp [List.isPrefixOf]
      | cons d front =>
        simp only [quiet] at hquiet
        simp [List.isPrefixOf]
        grind
    have hrest : quiet front = true := by
      cases front with
      | nil => rfl
      | cons d front =>
        simp only [quiet, Bool.and_eq_true] at hquiet
        exact hquiet.2
    rw [List.cons_append, passwordOf]
    rw [if_neg (fun hpos => hskip hpos.1)]
    exact ih hrest

/-- The connection string up to the password's name. -/
def connectionFront (user : String) : Text :=
  "Host=postgres;Port=5432;".toList ++ "Database=decisya;Username=".toList ++ user.toList ++ [';']

theorem passwordOf_connectionString {user : String} {t : Text} (h : isPassword t = true)
    (hquiet : quiet (connectionFront user) = true) :
    passwordOf (connectionString user t) = some t := by
  have hmark : ";Password=".toList = [';'] ++ "Password=".toList := by decide +kernel
  have hsplit : connectionString user t = connectionFront user ++ ("Password=".toList ++ t) := by
    unfold connectionString connectionStart connectionFront
    rw [hmark]
    simp only [List.append_assoc]
  rw [hsplit]
  exact passwordOf_append hquiet (.inl rfl) h

theorem passwordOf_redis {t : Text} (h : isPassword t = true) :
    passwordOf (redisConnectionString t) = some t := by
  have hmark : redisConnectionStart =
      "redis:6379,user=decisya-bff,".toList ++ "password=".toList := by decide +kernel
  have hquiet : quiet "redis:6379,user=decisya-bff,".toList = true := by decide +kernel
  unfold redisConnectionString
  rw [hmark, List.append_assoc]
  exact passwordOf_append hquiet (.inr rfl) h

/-! ### The Redis policy -/

theorem splitOn_redisAclText (sha256 : Text → Digest) (t : Text) :
    (redisAclText sha256 t).splitOn newline =
      redisAclPolicy.map fun line => line.format (sha256 t) := by
  apply List.splitOn_intercalate
  · intro l hl hmem
    have hhex : newline ∉ (sha256 t).hex := by
      intro hin
      have hbad := List.all_eq_true.mp (sha256 t).isHex _ hin
      revert hbad
      decide
    have hdefault : newline ∉ aclDefault.head := by decide +kernel
    have hhealth : newline ∉ aclHealth.head := by decide +kernel
    have hhead : newline ∉ aclBff.head := by decide +kernel
    have htail : newline ∉ aclBffTail := by decide +kernel
    simp only [redisAclPolicy, List.map_cons, List.map_nil, List.mem_cons, List.not_mem_nil,
      or_false] at hl
    rcases hl with rfl | rfl | rfl
    · exact hdefault hmem
    · exact hhealth hmem
    · have hin : newline ∈ aclBff.head ++ (sha256 t).hex ++ aclBffTail := hmem
      rw [List.mem_append, List.mem_append] at hin
      rcases hin with (hin | hin) | hin
      · exact hhead hin
      · exact hhex hin
      · exact htail hin
  · simp [redisAclPolicy]

theorem matches_format (line : AclLine) (hash : Digest) : line.matches (line.format hash) = true := by
  cases htail : line.tail with
  | none => simp [AclLine.matches, AclLine.format, htail]
  | some tail =>
    have hprefix : line.head.isPrefixOf (line.head ++ (hash.hex ++ tail)) = true :=
      List.isPrefixOf_iff_prefix.mpr (List.prefix_append _ _)
    have htake : (hash.hex ++ tail).take 64 = hash.hex := List.take_left' hash.length_eq
    have hdrop : (hash.hex ++ tail).drop 64 = tail := List.drop_left' hash.length_eq
    simp only [AclLine.matches, AclLine.format, htail, List.append_assoc, hprefix, List.drop_left,
      htake, hdrop, hash.isHex, List.length_append, hash.length_eq, decide_true, Bool.and_self]

theorem aclMatches_redisAclText (sha256 : Text → Digest) (t : Text) :
    aclMatches (redisAclText sha256 t) = true := by
  simp only [aclMatches, splitOn_redisAclText]
  simp [redisAclPolicy, matches_format]

theorem redisAclText_eq (sha256 : Text → Digest) (t : Text) :
    redisAclText sha256 t = aclFront ++ '#' :: ((sha256 t).hex ++ aclBffTail) := by
  have hbff : aclBff.format (sha256 t) =
      "user decisya-bff on ".toList ++ '#' :: ((sha256 t).hex ++ aclBffTail) := by
    have hformat : aclBff.format (sha256 t) = aclBff.head ++ (sha256 t).hex ++ aclBffTail := rfl
    rw [hformat, aclBff_head]
    simp only [List.append_assoc, List.cons_append, List.nil_append]
  have hlines : redisAclText sha256 t =
      [newline].intercalate [aclDefault.head, aclHealth.head, aclBff.format (sha256 t)] := rfl
  rw [hlines, hbff]
  generalize (sha256 t).hex ++ aclBffTail = rest
  simp [aclFront, List.intercalate]

theorem endsWithNewline_acl (sha256 : Text → Digest) (t : Text) :
    endsWithNewline (redisAclText sha256 t) = false := by
  have hne : aclBffTail ≠ [] := by decide +kernel
  have hlast : (redisAclText sha256 t).getLast? = aclBffTail.getLast? := by
    rw [redisAclText_eq, ← List.cons_append, ← List.append_assoc,
      List.getLast?_append_of_ne_nil _ hne]
  have hend : aclBffTail.getLast? = some 'o' := by decide +kernel
  rw [endsWithNewline, hlast, hend]
  decide

/-! ## What a command writes is in order -/

/-- A write that passes the rules of its file. -/
def Write.Shaped (w : Write) : Prop := contentProblem w.name (.text w.text) = none

theorem filesFor_shaped {sha256 : Text → Digest} {l : Logical} {v : Text}
    (hpassword : l ≠ .userIdHashKey → isPassword v = true)
    (hkey : l = .userIdHashKey → IsGeneratedHashKey v) :
    ∀ w ∈ filesFor sha256 l v, w.Shaped := by
  intro w hw
  have hsingle : ∀ {name : SecretName}, isPassword v = true →
      shapeProblem name v = orProblem (isPassword v) "must be at least 32 letters and digits" →
      contentProblem name (.text v) = none := by
    intro name hv hshape
    exact contentProblem_password hv (by rw [hshape, hv]; rfl)
  have hconnection : ∀ {name : SecretName} {user : String}, isPassword v = true →
      shapeProblem name (connectionString user v) =
        orProblem (carriesPassword (connectionStart user) (connectionString user v))
          "must be the generated connection string form" →
      contentProblem name (.text (connectionString user v)) = none := by
    intro name user hv hshape
    apply contentProblem_append hv
    rw [connectionString, carriesPassword_append hv] at hshape
    exact hshape
  cases l with
  | userIdHashKey =>
    obtain rfl := List.mem_singleton.mp hw
    exact hashKey_shape (hkey rfl)
  | redis =>
    have hv := hpassword (by decide)
    simp only [filesFor, List.mem_cons, List.not_mem_nil, or_false] at hw
    rcases hw with rfl | rfl
    · simp [Write.Shaped, contentProblem, endsWithNewline_acl, shapeProblem, orProblem,
        aclMatches_redisAclText]
    · apply contentProblem_append hv
      simp [shapeProblem, orProblem, carriesPassword_append hv]
  | keycloakBootstrap =>
    obtain rfl := List.mem_singleton.mp hw
    have hv := hpassword (by decide)
    exact contentProblem_password hv (by simp [shapeProblem, orProblem, hv])
  | postgresSuperuser =>
    obtain rfl := List.mem_singleton.mp hw
    exact hsingle (hpassword (by decide)) rfl
  | keycloakDb =>
    obtain rfl := List.mem_singleton.mp hw
    exact hsingle (hpassword (by decide)) rfl
  | bffClient =>
    obtain rfl := List.mem_singleton.mp hw
    exact hsingle (hpassword (by decide)) rfl
  | migratorDb =>
    simp only [filesFor, List.mem_cons, List.not_mem_nil, or_false] at hw
    rcases hw with rfl | rfl
    · exact hsingle (hpassword (by decide)) rfl
    · exact hconnection (hpassword (by decide)) rfl
  | tenancyDb =>
    simp only [filesFor, List.mem_cons, List.not_mem_nil, or_false] at hw
    rcases hw with rfl | rfl
    · exact hsingle (hpassword (by decide)) rfl
    · exact hconnection (hpassword (by decide)) rfl
  | entitlementsDb =>
    simp only [filesFor, List.mem_cons, List.not_mem_nil, or_false] at hw
    rcases hw with rfl | rfl
    · exact hsingle (hpassword (by decide)) rfl
    · exact hconnection (hpassword (by decide)) rfl

theorem credential_shaped {opens : Text → Text → Prop} {generated : Generated}
    (hsound : generated.Sound opens) (sha256 : Text → Digest) (l : Logical) :
    ∀ w ∈ filesFor sha256 l (generated.credential l), w.Shaped := by
  apply filesFor_shaped
  · intro hl
    exact isPassword_of_generated (hsound.credential l hl)
  · rintro rfl
    exact hsound.hashKey

section Texts
variable {sha256 : Text → Digest} {texts : Texts}

/-- A file that was well formed, or is written, is well formed afterwards. -/
theorem shape_after {name : SecretName} (writes : List Write) (hwrites : ∀ w ∈ writes, w.Shaped)
    (h : contentProblem name (.text (texts name)) = none ∨ name ∈ writes.map Write.name) :
    contentProblem name (.text (texts.writeAll writes name)) = none := by
  induction writes generalizing texts with
  | nil => exact h.resolve_right (by simp)
  | cons w writes ih =>
    apply ih (fun v hv => hwrites v (List.mem_cons_of_mem w hv))
    by_cases hname : name = w.name
    · left
      subst hname
      rw [write_self]
      exact hwrites w List.mem_cons_self
    · rw [write_of_ne hname]
      rw [List.map_cons, List.mem_cons] at h
      exact h.imp_right fun hmem => hmem.resolve_left hname

theorem shape_writeAll (h : ∀ name, contentProblem name (.text (texts name)) = none)
    (writes : List Write) (hwrites : ∀ w ∈ writes, w.Shaped) :
    ∀ name, contentProblem name (.text (texts.writeAll writes name)) = none :=
  fun name => shape_after writes hwrites (.inl (h name))

theorem redis_infix {v : Text} (hv : isPassword v = true) :
    '#' :: (sha256 ((passwordOf (redisConnectionString v)).getD [])).hex <:+:
      redisAclText sha256 v := by
  rw [passwordOf_redis hv, redisAclText_eq]
  exact ⟨aclFront, aclBffTail, by simp⟩

/-- A new credential and what derives from it keep the texts consistent. -/
theorem consistent_filesFor (h : Consistent sha256 texts) {l : Logical} {v : Text}
    (hpassword : l ≠ .userIdHashKey → isPassword v = true)
    (hshaped : ∀ w ∈ filesFor sha256 l v, w.Shaped) :
    Consistent sha256 (texts.writeAll (filesFor sha256 l v)) := by
  have hshape := shape_writeAll h.shape _ hshaped
  have hmigrator : isPassword v = true → passwordOf (connectionString "decisya_migrator" v) = some v :=
    fun hv => passwordOf_connectionString hv (by decide +kernel)
  have htenancy : isPassword v = true → passwordOf (connectionString "decisya_tenancy" v) = some v :=
    fun hv => passwordOf_connectionString hv (by decide +kernel)
  have hentitlements : isPassword v = true →
      passwordOf (connectionString "decisya_entitlements" v) = some v :=
    fun hv => passwordOf_connectionString hv (by decide +kernel)
  cases l with
  | migratorDb =>
    exact ⟨hshape, hmigrator (hpassword (by decide)), h.tenancy, h.entitlements, h.together,
      h.different, h.redis⟩
  | tenancyDb =>
    exact ⟨hshape, h.decisya, htenancy (hpassword (by decide)), h.entitlements, h.together,
      h.different, h.redis⟩
  | entitlementsDb =>
    exact ⟨hshape, h.decisya, h.tenancy, hentitlements (hpassword (by decide)), h.together,
      h.different, h.redis⟩
  | redis =>
    exact ⟨hshape, h.decisya, h.tenancy, h.entitlements, h.together, h.different,
      redis_infix (hpassword (by decide))⟩
  | postgresSuperuser =>
    exact ⟨hshape, h.decisya, h.tenancy, h.entitlements, h.together, h.different, h.redis⟩
  | keycloakDb =>
    exact ⟨hshape, h.decisya, h.tenancy, h.entitlements, h.together, h.different, h.redis⟩
  | keycloakBootstrap =>
    exact ⟨hshape, h.decisya, h.tenancy, h.entitlements, h.together, h.different, h.redis⟩
  | bffClient =>
    exact ⟨hshape, h.decisya, h.tenancy, h.entitlements, h.together, h.different, h.redis⟩
  | userIdHashKey =>
    exact ⟨hshape, h.decisya, h.tenancy, h.entitlements, h.together, h.different, h.redis⟩

/-- What a rotation needs of the texts: all but the certificate pairs agree. -/
structure Agreeing (sha256 : Text → Digest) (texts : Texts) : Prop where
  shape : ∀ name, contentProblem name (.text (texts name)) = none
  decisya : passwordOf (texts .connectionDecisya) = some (texts .migratorDbPassword)
  tenancy : passwordOf (texts .connectionTenancy) = some (texts .tenancyRolePassword)
  entitlements :
    passwordOf (texts .connectionEntitlements) = some (texts .entitlementsRolePassword)
  redis : '#' :: (sha256 ((passwordOf (texts .connectionRedis)).getD [])).hex <:+: texts .redisAcl

theorem Consistent.agreeing (h : Consistent sha256 texts) : Agreeing sha256 texts :=
  ⟨h.shape, h.decisya, h.tenancy, h.entitlements, h.redis⟩

theorem Agreeing.consistent (h : Agreeing sha256 texts)
    (htogether : texts .dpPrevious = [] ↔ texts .dpPreviousPassword = [])
    (hdifferent : texts .dpPrevious ≠ [] → texts .dpCert ≠ texts .dpPrevious) :
    Consistent sha256 texts :=
  ⟨h.shape, h.decisya, h.tenancy, h.entitlements, htogether, hdifferent, h.redis⟩

/-- The other files stay. -/
theorem Agreeing.write (h : Agreeing sha256 texts) {changed : SecretName} {t : Text}
    (hchanged : changed ∈ dpSecrets) (hshaped : Write.Shaped ⟨changed, t⟩) :
    Agreeing sha256 (texts.write ⟨changed, t⟩) := by
  have hother : ∀ name, name ∉ dpSecrets → texts.write ⟨changed, t⟩ name = texts name := by
    intro name hnot
    apply write_of_ne
    rintro rfl
    exact hnot hchanged
  refine ⟨shape_writeAll h.shape [⟨changed, t⟩] (by simpa using hshaped), ?_, ?_, ?_, ?_⟩
  · rw [hother _ (by decide), hother _ (by decide)]
    exact h.decisya
  · rw [hother _ (by decide), hother _ (by decide)]
    exact h.tenancy
  · rw [hother _ (by decide), hother _ (by decide)]
    exact h.entitlements
  · rw [hother _ (by decide), hother _ (by decide)]
    exact h.redis

theorem previous_shaped (h : Agreeing sha256 texts) :
    Write.Shaped ⟨.dpPrevious, texts .dpCert⟩ := by
  have hcert := shapeProblem_of_contentProblem (h.shape .dpCert)
  have hne := (pfx_shape hcert).1
  exact no_break_of_pfx hcert (by simpa [shapeProblem, hne] using hcert)

theorem certificatePassword_shaped {t : Text} (h : IsGeneratedPassword t) :
    Write.Shaped ⟨.dpCertPassword, t⟩ :=
  contentProblem_password (isPassword_of_generated h)
    (by simp [shapeProblem, orProblem, isCertificatePassword_of_generated h])

/-- A rotation leaves the old pair as the previous one and a new pair. -/
theorem consistent_rotation (h : Agreeing sha256 texts) {certificate password : Text}
    (hpfx : pfxShapeProblem certificate = none) (hpassword : IsGeneratedPassword password)
    (hnew : certificate ≠ texts .dpCert) :
    Consistent sha256 (texts.writeAll (rotationWrites texts certificate password)) := by
  have hcert := (pfx_shape (shapeProblem_of_contentProblem (h.shape .dpCert))).1
  have hold := password_ne_nil (shapeProblem_of_contentProblem (h.shape .dpCertPassword))
  have hagree : Agreeing sha256 (texts.writeAll (rotationWrites texts certificate password)) := by
    have hprevious := h.write (by decide) (previous_shaped h)
    have hold : Write.Shaped ⟨.dpPreviousPassword, texts .dpCertPassword⟩ :=
      previousPassword_shape (h.shape .dpCertPassword)
    have hfresh : Write.Shaped ⟨.dpCert, certificate⟩ := no_break_of_pfx hpfx hpfx
    have hboth := hprevious.write (by decide) hold
    have hcurrent := hboth.write (by decide) hfresh
    exact hcurrent.write (by decide) (certificatePassword_shaped hpassword)
  apply hagree.consistent
  · exact iff_of_false hcert hold
  · exact fun _ => hnew

theorem consistent_retire (h : Agreeing sha256 texts) :
    Consistent sha256 (texts.writeAll [⟨.dpPrevious, []⟩, ⟨.dpPreviousPassword, []⟩]) := by
  have hempty : Write.Shaped ⟨.dpPrevious, []⟩ := contentProblem_nil (by decide)
  have hpassword : Write.Shaped ⟨.dpPreviousPassword, []⟩ := contentProblem_nil (by decide)
  have hprevious := h.write (by decide) hempty
  have hboth := hprevious.write (by decide) hpassword
  apply Agreeing.consistent hboth
  · exact iff_of_true rfl rfl
  · exact fun hne => absurd rfl hne

theorem consistent_bootstrap (h : Consistent sha256 texts) :
    Consistent sha256 (texts.writeAll [⟨.keycloakBootstrapAdminPassword, []⟩]) := by
  have hempty : Write.Shaped ⟨.keycloakBootstrapAdminPassword, []⟩ := contentProblem_nil (by decide)
  have hshape := shape_writeAll h.shape [⟨.keycloakBootstrapAdminPassword, []⟩]
    (by simpa using hempty)
  exact ⟨hshape, h.decisya, h.tenancy, h.entitlements, h.together, h.different, h.redis⟩

end Texts

/-! ## One command on a folder in order -/

/-- Each certificate stands beside the password that opens it. -/
structure Opened (opens : Text → Text → Prop) (texts : Texts) : Prop where
  current : opens (texts .dpCert) (texts .dpCertPassword)
  previous : texts .dpPrevious = [] ∨ opens (texts .dpPrevious) (texts .dpPreviousPassword)

/-- The folder holds texts that nothing is wrong with. -/
structure InOrder (sha256 : Text → Digest) (opens : Text → Text → Prop) (posix : Bool)
    (folder : Folder) (texts : Texts) : Prop where
  guarded : Guarded posix folder
  hasTexts : folder.HasTexts texts
  consistent : Consistent sha256 texts
  opened : Opened opens texts

section Step
variable {sha256 : Text → Digest} {opens : Text → Text → Prop} {posix : Bool} {folder : Folder}
  {texts : Texts} {host : Host} {generated : Generated} {command : Command}

theorem content_eq_iff (h : folder.HasTexts texts) {name : SecretName} {t : Text} :
    folder.content name = some (.text t) ↔ texts name = t := by
  rw [h name]
  constructor
  · intro heq
    exact Content.text.inj (Option.some.inj heq)
  · rintro rfl
    rfl

theorem pairsOpen_iff (h : folder.HasTexts texts) : PairsOpen opens folder ↔ Opened opens texts := by
  simp only [PairsOpen, content_eq_iff h]
  constructor
  · rintro ⟨⟨c, p, rfl, rfl, hopen⟩, hprevious⟩
    refine ⟨hopen, hprevious.imp_right ?_⟩
    rintro ⟨c, p, rfl, rfl, hopen⟩
    exact hopen
  · intro hopened
    exact ⟨⟨_, _, rfl, rfl, hopened.current⟩,
      hopened.previous.imp_right fun hopen => ⟨_, _, rfl, rfl, hopen⟩⟩

theorem inOrder_iff : (∃ texts, InOrder sha256 opens posix folder texts) ↔
    secretProblems sha256 posix folder = [] ∧ PairsOpen opens folder := by
  rw [secretProblems_eq_nil_iff]
  constructor
  · rintro ⟨texts, h⟩
    exact ⟨⟨h.guarded, texts, h.hasTexts, h.consistent⟩, (pairsOpen_iff h.hasTexts).mpr h.opened⟩
  · rintro ⟨⟨hguard, texts, htexts, hconsistent⟩, hopen⟩
    exact ⟨texts, hguard, htexts, hconsistent, (pairsOpen_iff htexts).mp hopen⟩

theorem InOrder.writeAll (h : InOrder sha256 opens posix folder texts) {writes : List Write}
    (hconsistent : Consistent sha256 (texts.writeAll writes))
    (hopened : Opened opens (texts.writeAll writes)) :
    InOrder sha256 opens posix (folder.writeAll writes) (texts.writeAll writes) :=
  ⟨guarded_writeAll h.guarded writes, hasTexts_writeAll h.hasTexts writes, hconsistent, hopened⟩

/-- What a command can write in a folder in order. -/
inductive Planned (sha256 : Text → Digest) (host : Host) (generated : Generated) (texts : Texts) :
    Command → List Write → Prop
  | rotateLogical (l : Logical) (applyDb filesOnly : Bool) :
      ¬ (l.rotatesRole = true ∧ applyDb = false ∧ filesOnly = false) →
      ¬ (applyDb = true ∧ l.rotatesRole = false) →
      Planned sha256 host generated texts (.rotate (.logical l) applyDb filesOnly false)
        (filesFor sha256 l (generated.credential l))
  | rotateCertificate (dropPrevious : Bool) (certificate : Text) :
      texts .dpPrevious = [] ∨ dropPrevious = true → host.bffImageProblem = none →
      generated.certificate = .ok certificate → pfxShapeProblem certificate = none →
      Planned sha256 host generated texts (.rotate .dataprotectionCert false false dropPrevious)
        (rotationWrites texts certificate generated.certificatePassword)
  | nothingToRetire : texts .dpPrevious = [] →
      Planned sha256 host generated texts (.retire .dataprotectionPrevious) []
  | retirePrevious : texts .dpPreviousPassword ≠ [] → Planned sha256 host generated texts (.retire .dataprotectionPrevious)
      [⟨.dpPrevious, []⟩, ⟨.dpPreviousPassword, []⟩]
  | retireBootstrap : Planned sha256 host generated texts (.retire .keycloakBootstrap)
      [⟨.keycloakBootstrapAdminPassword, []⟩]

theorem init_refused (sha256 : Text → Digest) (host : Host) (generated : Generated)
    (htexts : folder.HasTexts texts) :
    ∃ problem, secretsInit sha256 host generated folder = .error problem := by
  have hexisting := existing_ne_nil htexts (mem_secretFileNames .redisAcl)
  unfold secretsInit
  simp only [ne_eq, hexisting, not_false_eq_true, if_true]
  split
  · exact ⟨_, rfl⟩
  · split
    · exact ⟨_, rfl⟩
    · exact ⟨_, rfl⟩

theorem add_refused (host : Host) (generated : Generated) (htexts : folder.HasTexts texts) :
    ∃ problem, secretsAdd host generated folder = .error problem := by
  have hexisting := existing_ne_nil htexts (show SecretName.dpCert ∈ dpSecrets by decide)
  unfold secretsAdd
  simp only [ne_eq, hexisting, not_false_eq_true, if_true]
  split
  · exact ⟨_, rfl⟩
  · split
    · exact ⟨_, rfl⟩
    · exact ⟨_, rfl⟩

theorem retirePrevious_cases (htexts : folder.HasTexts texts)
    (hshape : ∀ name, contentProblem name (.text (texts name)) = none) :
    retirePreviousCertificate folder =
      if texts .dpPrevious = [] ∧ texts .dpPreviousPassword = [] then .ok []
      else .ok [⟨.dpPrevious, []⟩, ⟨.dpPreviousPassword, []⟩] := by
  have hread : ∀ {name}, name ∈ dpSecrets → readSecret folder name = .ok (texts name) :=
    fun hname => readSecret_of_text htexts (not_mem_shape (by decide) (by decide) hname
      (shapeProblem_of_contentProblem (hshape _)))
  unfold retirePreviousCertificate
  rw [hread (show SecretName.dpPrevious ∈ dpSecrets by decide),
    hread (show SecretName.dpPreviousPassword ∈ dpSecrets by decide)]
  by_cases hempty : texts .dpPrevious = [] ∧ texts .dpPreviousPassword = []
  · simp [hempty.1, hempty.2, pure, Except.pure, bind, Except.bind]
  · simp [hempty, pure, Except.pure, bind, Except.bind]

theorem plan_cases (hdir : folder.isDir = true) (htexts : folder.HasTexts texts)
    (h : Consistent sha256 texts) {writes : List Write}
    (hplan : command.plan sha256 host generated folder = .ok writes) :
    Planned sha256 host generated texts command writes := by
  cases command with
  | init =>
    obtain ⟨problem, hrefused⟩ := init_refused sha256 host generated htexts
    rw [Command.plan, hrefused] at hplan
    cases hplan
  | add =>
    obtain ⟨problem, hrefused⟩ := add_refused host generated htexts
    rw [Command.plan, hrefused] at hplan
    cases hplan
  | rotate name applyDb filesOnly dropPrevious =>
    cases name with
    | dataprotectionCert =>
      obtain ⟨rfl, rfl, hempty, himage, certificate, hcertificate, hpfx, rfl⟩ :=
        (plan_rotation host generated applyDb filesOnly dropPrevious hdir htexts h writes).mp hplan
      exact .rotateCertificate dropPrevious certificate hempty himage hcertificate hpfx
    | logical l =>
      simp only [Command.plan, secretsRotate, hdir, Bool.true_eq_false, if_false] at hplan
      split at hplan
      · cases hplan
      · rename_i hdrop
        have hno : dropPrevious = false := by simpa using hdrop
        subst hno
        rw [writes_rotateLogical hplan]
        refine .rotateLogical l applyDb filesOnly ?_ ?_
        · intro hflags
          rw [rotateLogical, if_pos hflags] at hplan
          cases hplan
        · intro hflags
          have hnot : ¬ (l.rotatesRole = true ∧ applyDb = false ∧ filesOnly = false) := by
            rw [hflags.2]
            simp
          rw [rotateLogical, if_neg hnot, if_pos hflags] at hplan
          cases hplan
  | retire name =>
    cases name with
    | dataprotectionPrevious =>
      rw [Command.plan, secretsRetire, retirePrevious_cases htexts h.shape] at hplan
      split at hplan
      · rename_i hempty
        cases hplan
        exact .nothingToRetire hempty.1
      · rename_i hempty
        cases hplan
        exact .retirePrevious fun hnil => hempty ⟨h.together.mpr hnil, hnil⟩
    | keycloakBootstrap =>
      simp only [Command.plan, secretsRetire] at hplan
      split at hplan
      · cases hplan
      · cases hplan
        exact .retireBootstrap

theorem writeAll_of_notMem (texts : Texts) {writes : List Write} {name : SecretName}
    (h : name ∉ writes.map Write.name) : texts.writeAll writes name = texts name := by
  induction writes generalizing texts with
  | nil => rfl
  | cons w writes ih =>
    rw [List.map_cons, List.mem_cons, not_or] at h
    have hrest := ih (texts.write w) h.2
    rw [write_of_ne h.1] at hrest
    exact hrest

/-- A later write of every file hides the earlier ones. -/
theorem writeAll_hidden (texts : Texts) {before after : List Write}
    (h : ∀ w ∈ before, w.name ∈ after.map Write.name) :
    (texts.writeAll before).writeAll after = texts.writeAll after := by
  have hsame : ∀ (after : List Write) (t u : Texts),
      (∀ name, name ∉ after.map Write.name → t name = u name) →
      t.writeAll after = u.writeAll after := by
    intro after
    induction after with
    | nil =>
      intro t u hagree
      funext name
      exact hagree name (by simp)
    | cons w after ih =>
      intro t u hagree
      apply ih
      intro name hname
      by_cases heq : name = w.name
      · subst heq
        rw [write_self, write_self]
      · rw [write_of_ne heq, write_of_ne heq]
        apply hagree
        rw [List.map_cons, List.mem_cons, not_or]
        exact ⟨heq, hname⟩
  apply hsame
  intro name hname
  apply writeAll_of_notMem
  intro hmem
  obtain ⟨w, hw, rfl⟩ := List.mem_map.mp hmem
  exact hname (h w hw)

theorem filesFor_names (sha256 : Text → Digest) (l : Logical) (v u : Text) :
    (filesFor sha256 l v).map Write.name = (filesFor sha256 l u).map Write.name := by
  cases l <;> rfl

theorem filesFor_notMem (sha256 : Text → Digest) (l : Logical) (v : Text) {name : SecretName}
    (hname : name ∈ dpSecrets) : name ∉ (filesFor sha256 l v).map Write.name := by
  have hapart : ∀ l, ∀ n ∈ dpSecrets, n ∉ (filesFor sha256 l []).map Write.name := by
    intro l
    cases l <;> simp [filesFor, dpSecrets]
  rw [filesFor_names sha256 l v []]
  exact hapart l name hname

theorem opened_congr {t u : Texts} (h : Opened opens t) (hsame : ∀ name ∈ dpSecrets, u name = t name) :
    Opened opens u := by
  constructor
  · rw [hsame .dpCert (by decide), hsame .dpCertPassword (by decide)]
    exact h.current
  · rw [hsame .dpPrevious (by decide), hsame .dpPreviousPassword (by decide)]
    exact h.previous

theorem planned_consistent {writes : List Write} (h : Consistent sha256 texts)
    (hsound : generated.Sound opens) (hnew : generated.certificate ≠ .ok (texts .dpCert))
    (hplanned : Planned sha256 host generated texts command writes) :
    Consistent sha256 (texts.writeAll writes) := by
  cases hplanned with
  | rotateLogical l =>
    exact consistent_filesFor h (fun hl => isPassword_of_generated (hsound.credential l hl))
      (credential_shaped hsound sha256 l)
  | rotateCertificate dropPrevious certificate hempty himage hcertificate hpfx =>
    apply consistent_rotation h.agreeing hpfx hsound.password
    rintro rfl
    exact hnew hcertificate
  | nothingToRetire => exact h
  | retirePrevious => exact consistent_retire h.agreeing
  | retireBootstrap => exact consistent_bootstrap h

theorem planned_opened {writes : List Write} (h : Opened opens texts) (hsound : generated.Sound opens)
    (hplanned : Planned sha256 host generated texts command writes) :
    Opened opens (texts.writeAll writes) := by
  cases hplanned with
  | rotateLogical l =>
    exact opened_congr h fun name hname => writeAll_of_notMem texts (filesFor_notMem sha256 l _ hname)
  | rotateCertificate dropPrevious certificate hempty himage hcertificate hpfx =>
    exact ⟨hsound.opens certificate hcertificate, .inr h.current⟩
  | nothingToRetire => exact h
  | retirePrevious => exact ⟨h.current, .inl rfl⟩
  | retireBootstrap => exact ⟨h.current, h.previous⟩

theorem Planned.prepared {writes : List Write}
    (hplanned : Planned sha256 host generated texts command writes) (folder : Folder) :
    command.prepared folder = folder := by
  cases hplanned <;> rfl

theorem NewCertificate.ne (hnew : NewCertificate generated folder) (htexts : folder.HasTexts texts) :
    generated.certificate ≠ .ok (texts .dpCert) :=
  hnew _ (htexts .dpCert)

theorem run_inOrder (h : InOrder sha256 opens posix folder texts) (hsound : generated.Sound opens)
    (hnew : NewCertificate generated folder) (host : Host) (command : Command) :
    ∃ texts', InOrder sha256 opens posix (command.run sha256 host generated folder) texts' := by
  unfold Command.run
  cases hplan : command.plan sha256 host generated folder with
  | error problem => exact ⟨texts, h⟩
  | ok writes =>
    have hplanned := plan_cases h.guarded.isDir h.hasTexts h.consistent hplan
    dsimp only
    rw [hplanned.prepared]
    exact ⟨_, h.writeAll (planned_consistent h.consistent hsound (hnew.ne h.hasTexts) hplanned)
      (planned_opened h.opened hsound hplanned)⟩

/-! ## The first secrets -/

/-- The files of every credential, in the order of `secrets init`. -/
def credentialFiles (sha256 : Text → Digest) (generated : Generated) : List Write :=
  logicalSecrets.flatMap fun l => filesFor sha256 l (generated.credential l)

theorem generateCertificatePair_ok {pair : Text × Text}
    (h : generateCertificatePair host generated = .ok pair) :
    generated.certificate = .ok pair.1 ∧ pfxShapeProblem pair.1 = none ∧
      pair.2 = generated.certificatePassword := by
  unfold generateCertificatePair at h
  split at h
  · cases h
  · split at h
    · cases h
    · split at h
      · cases h
      · rename_i hcertificate _ hpfx
        cases h
        exact ⟨hcertificate, hpfx, rfl⟩

theorem secretsInit_ok {writes : List Write}
    (h : secretsInit sha256 host generated folder = .ok writes) :
    folder.existing secretFileNames = [] ∧
      ¬ (folder.isDir = true ∧ host.posix = true ∧ folder.mode &&& 0o077 ≠ 0) ∧
      ∃ certificate, generated.certificate = .ok certificate ∧ pfxShapeProblem certificate = none ∧
        generateCertificatePair host generated = .ok (certificate, generated.certificatePassword) ∧
        writes = credentialFiles sha256 generated ++
          certificateFiles certificate generated.certificatePassword := by
  unfold secretsInit at h
  split at h
  · cases h
  split at h
  · cases h
  split at h
  · cases h
  rename_i hexisting
  split at h
  · cases h
  rename_i hmode
  cases hpair : generateCertificatePair host generated with
  | error problem =>
    rw [hpair] at h
    cases h
  | ok pair =>
    obtain ⟨hcertificate, hpfx, hpassword⟩ := generateCertificatePair_ok hpair
    rw [hpair] at h
    cases h
    refine ⟨by simpa using hexisting, hmode, pair.1, hcertificate, hpfx, ?_, ?_⟩
    · rw [← hpassword]
    · rw [← hpassword]
      rfl

theorem guarded_ensureDir (hvirgin : Virgin folder)
    (hmode : ¬ (folder.isDir = true ∧ posix = true ∧ folder.mode &&& 0o077 ≠ 0)) :
    Guarded posix folder.ensureDir := by
  unfold Folder.ensureDir
  split
  · rename_i hdir
    refine ⟨hdir, ?_, hvirgin.noOthers, fun name f hf => ?_⟩
    · simp only [folderProblems, List.append_eq_nil_iff, ite_singleton_eq_nil]
      refine ⟨fun hbad => hmode ⟨hdir, hbad⟩, ?_⟩
      simp [hvirgin.mine hdir]
    · rw [hvirgin.noFiles name] at hf
      cases hf
  · refine ⟨rfl, by simp [folderProblems], hvirgin.noOthers, fun name f hf => ?_⟩
    have hnone : folder.files name = some f := hf
    rw [hvirgin.noFiles name] at hnone
    cases hnone

theorem content_after {name : SecretName} (writes : List Write)
    (h : folder.content name = some (.text (texts name)) ∨ name ∈ writes.map Write.name) :
    (folder.writeAll writes).content name = some (.text (texts.writeAll writes name)) := by
  induction writes generalizing folder texts with
  | nil => exact h.resolve_right (by simp)
  | cons w writes ih =>
    apply ih
    rw [Folder.content_write]
    by_cases hname : name = w.name
    · left
      subst hname
      rw [if_pos rfl, write_self]
    · rw [if_neg hname, write_of_ne hname]
      rw [List.map_cons, List.mem_cons] at h
      exact h.imp_right fun hmem => hmem.resolve_left hname

theorem mem_initFiles (sha256 : Text → Digest) (generated : Generated) (certificate password : Text)
    (name : SecretName) :
    name ∈ (credentialFiles sha256 generated ++ certificateFiles certificate password).map
      Write.name := by
  cases name <;> simp [credentialFiles, logicalSecrets, filesFor, certificateFiles]

theorem certificateFiles_shaped {certificate password : Text}
    (hpfx : pfxShapeProblem certificate = none) (hpassword : IsGeneratedPassword password) :
    ∀ w ∈ certificateFiles certificate password, w.Shaped := by
  intro w hw
  simp only [certificateFiles, List.mem_cons, List.not_mem_nil, or_false] at hw
  rcases hw with rfl | rfl | rfl | rfl
  · exact no_break_of_pfx hpfx hpfx
  · exact certificatePassword_shaped hpassword
  · exact contentProblem_nil (by decide)
  · exact contentProblem_nil (by decide)

/-- All files of a new stack, of which the certificate may come from a later command. -/
theorem initFiles_inOrder {generated' : Generated} {certificate : Text}
    (hguard : Guarded posix folder) (hsound : generated.Sound opens) (hsound' : generated'.Sound opens)
    (hcertificate : generated'.certificate = .ok certificate)
    (hpfx : pfxShapeProblem certificate = none) :
    ∃ texts, InOrder sha256 opens posix (folder.writeAll (credentialFiles sha256 generated ++
      certificateFiles certificate generated'.certificatePassword)) texts := by
  have hmem := mem_initFiles sha256 generated certificate generated'.certificatePassword
  have hcredential := fun l hl => isPassword_of_generated (hsound.credential l hl)
  have hshaped : ∀ w ∈ credentialFiles sha256 generated ++
      certificateFiles certificate generated'.certificatePassword, w.Shaped := by
    intro w hw
    rcases List.mem_append.mp hw with hw | hw
    · obtain ⟨l, -, hl⟩ := List.mem_flatMap.mp hw
      exact credential_shaped hsound sha256 l w hl
    · exact certificateFiles_shaped hpfx hsound'.password w hw
  refine ⟨Texts.writeAll (fun _ => []) (credentialFiles sha256 generated ++
    certificateFiles certificate generated'.certificatePassword), guarded_writeAll hguard _,
    fun name => content_after _ (.inr (hmem name)), ?_, ?_⟩
  · exact
      { shape := fun name => shape_after _ hshaped (.inr (hmem name))
        decisya := passwordOf_connectionString (hcredential .migratorDb (by decide))
          (by decide +kernel)
        tenancy := passwordOf_connectionString (hcredential .tenancyDb (by decide))
          (by decide +kernel)
        entitlements := passwordOf_connectionString (hcredential .entitlementsDb (by decide))
          (by decide +kernel)
        together := iff_of_true rfl rfl
        different := fun hne => absurd rfl hne
        redis := redis_infix (hcredential .redis (by decide)) }
  · exact ⟨hsound'.opens certificate hcertificate, .inl rfl⟩

theorem init_inOrder (hvirgin : Virgin folder) (hsound : generated.Sound opens) {writes : List Write}
    (hplan : Command.init.plan sha256 host generated folder = .ok writes) :
    ∃ texts, InOrder sha256 opens host.posix (Command.init.run sha256 host generated folder) texts := by
  obtain ⟨-, hmode, certificate, hcertificate, hpfx, -, rfl⟩ := secretsInit_ok hplan
  have hrun : Command.init.run sha256 host generated folder = folder.ensureDir.writeAll
      (credentialFiles sha256 generated ++
        certificateFiles certificate generated.certificatePassword) := by
    rw [Command.run, hplan]
    rfl
  rw [hrun]
  exact initFiles_inOrder (guarded_ensureDir hvirgin hmode) hsound hsound hcertificate hpfx

end Step

end Decisya.Deploy
