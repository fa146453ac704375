import Decisya.Deploy.Secrets
import Mathlib.Data.List.TakeWhile
import Mathlib.Logic.Function.Basic

/-!
# A secret change that was killed

A folder without problems is one text for each name, and these texts agree with one another.
A command that is killed leaves the texts of a first part of its writes.
-/

namespace Decisya.Deploy

set_option autoImplicit false

abbrev Texts := SecretName → Text

def Texts.write (texts : Texts) (w : Write) : Texts := Function.update texts w.name w.text

def Texts.writeAll (texts : Texts) (writes : List Write) : Texts := writes.foldl Texts.write texts

/-- The texts are well formed and carry the credentials they derive from. -/
structure Consistent (sha256 : Text → Digest) (texts : Texts) : Prop where
  shape : ∀ name, contentProblem name (.text (texts name)) = none
  decisya : passwordOf (texts .connectionDecisya) = some (texts .migratorDbPassword)
  tenancy : passwordOf (texts .connectionTenancy) = some (texts .tenancyRolePassword)
  entitlements :
    passwordOf (texts .connectionEntitlements) = some (texts .entitlementsRolePassword)
  together : texts .dpPrevious = [] ↔ texts .dpPreviousPassword = []
  different : texts .dpPrevious ≠ [] → texts .dpCert ≠ texts .dpPrevious
  redis : '#' :: (sha256 ((passwordOf (texts .connectionRedis)).getD [])).hex <:+: texts .redisAcl

/-- The folder and its files belong to the account, and nobody else may write to them. -/
structure Guarded (posix : Bool) (folder : Folder) : Prop where
  isDir : folder.isDir = true
  noProblem : folderProblems posix folder = []
  noOthers : folder.others = []
  files : ∀ name f, folder.files name = some f →
    ¬ (posix = true ∧ f.mode &&& 0o022 ≠ 0) ∧ ¬ (posix = true ∧ f.mine = false)

/-- Every file is there and holds its text. -/
def Folder.HasTexts (folder : Folder) (texts : Texts) : Prop :=
  ∀ name, folder.content name = some (.text (texts name))

theorem ite_singleton_eq_nil {p : Prop} [Decidable p] {x : String} :
    (if p then [x] else []) = [] ↔ ¬ p := by
  by_cases hp : p <;> simp [hp]

theorem fileProblems_eq_nil_iff {posix : Bool} {name : SecretName} {file : Option File} :
    fileProblems posix name file = [] ↔ ∃ f t, file = some f ∧ f.content = .text t ∧
      contentProblem name (.text t) = none ∧ ¬ (posix = true ∧ f.mode &&& 0o022 ≠ 0) ∧
      ¬ (posix = true ∧ f.mine = false) := by
  cases file with
  | none => simp [fileProblems]
  | some f =>
    simp only [fileProblems, List.append_eq_nil_iff, ite_singleton_eq_nil]
    constructor
    · rintro ⟨⟨hmode, hmine⟩, hcontent⟩
      cases hf : f.content with
      | text t =>
        refine ⟨f, t, rfl, hf, ?_, hmode, hmine⟩
        rw [hf] at hcontent
        cases hp : contentProblem name (.text t) with
        | none => rfl
        | some reason => simp [hp] at hcontent
      | undecodable raw =>
        rw [hf] at hcontent
        have hsome : ∃ reason, contentProblem name (.undecodable raw) = some reason := by
          by_cases hlast : raw.getLast? = some 10 ∨ raw.getLast? = some 13
          · exact ⟨_, if_pos hlast⟩
          · exact ⟨_, if_neg hlast⟩
        obtain ⟨reason, hreason⟩ := hsome
        simp [hreason] at hcontent
    · rintro ⟨f', t, hf', hcontent, hproblem, hmode, hmine⟩
      cases hf'
      refine ⟨⟨hmode, hmine⟩, ?_⟩
      rw [hcontent, hproblem]

theorem contents_of_hasTexts {folder : Folder} {texts : Texts} (h : folder.HasTexts texts)
    (hshape : ∀ name, contentProblem name (.text (texts name)) = none) :
    folder.contents = fun name => some (texts name) := by
  funext name
  simp [Folder.contents, h name, hshape name]

theorem shapeProblem_of_contentProblem {name : SecretName} {t : Text}
    (h : contentProblem name (.text t) = none) : shapeProblem name t = none := by
  simp only [contentProblem] at h
  split at h
  · cases h
  · exact h

theorem pairProblem_eq_nil_iff {texts : Texts} {derived source : SecretName}
    (hshape : shapeProblem derived (texts derived) = none) :
    pairProblem (fun name => some (texts name)) derived source = [] ↔
      passwordOf (texts derived) = some (texts source) := by
  simp [pairProblem, hshape]

theorem connection_ne_nil {t : Text} (h : shapeProblem .connectionRedis t = none) : t ≠ [] := by
  rintro rfl
  revert h
  decide

theorem acl_ne_nil {t : Text} (h : shapeProblem .redisAcl t = none) : t ≠ [] := by
  rintro rfl
  simp [shapeProblem, orProblem, aclMatches, redisAclPolicy] at h

theorem derivedProblems_eq_nil_iff {sha256 : Text → Digest} {texts : Texts}
    (hshape : ∀ name, contentProblem name (.text (texts name)) = none) :
    derivedProblems sha256 (fun name => some (texts name)) = [] ↔ Consistent sha256 texts := by
  have hok : ∀ name, shapeProblem name (texts name) = none :=
    fun name => shapeProblem_of_contentProblem (hshape name)
  have hredis := connection_ne_nil (hok .connectionRedis)
  have hacl := acl_ne_nil (hok .redisAcl)
  simp only [derivedProblems, List.append_eq_nil_iff, pairProblem_eq_nil_iff (hok _),
    emptyTogetherProblem, sameCertificateProblem, redisProblem, ite_singleton_eq_nil]
  constructor
  · rintro ⟨⟨⟨⟨⟨h₁, h₂⟩, h₃⟩, htogether⟩, hdifferent⟩, hdigest⟩
    refine ⟨hshape, h₁, h₂, h₃, by simpa using htogether, fun hne heq => ?_, ?_⟩
    · exact hdifferent ⟨hne, by rw [heq]⟩
    · by_contra hnot
      exact hdigest ⟨hredis, hacl, hok _, hok _, hnot⟩
  · intro h
    refine ⟨⟨⟨⟨⟨h.decisya, h.tenancy⟩, h.entitlements⟩, ?_⟩, ?_⟩, fun hnot => hnot.2.2.2.2 h.redis⟩
    · simpa using h.together
    · rintro ⟨hne, heq⟩
      exact h.different hne (Option.some.inj heq)

theorem secretProblems_eq_nil_iff {sha256 : Text → Digest} {posix : Bool} {folder : Folder} :
    secretProblems sha256 posix folder = [] ↔
      Guarded posix folder ∧ ∃ texts, folder.HasTexts texts ∧ Consistent sha256 texts := by
  unfold secretProblems
  cases hdir : folder.isDir with
  | false =>
    simp only [if_true]
    constructor
    · intro h
      cases h
    · rintro ⟨hguard, -⟩
      rw [hguard.isDir] at hdir
      cases hdir
  | true =>
    simp only [Bool.true_eq_false, if_false, List.append_eq_nil_iff, List.map_eq_nil_iff,
      List.flatMap_eq_nil_iff]
    constructor
    · rintro ⟨⟨⟨hfolder, hothers⟩, hfiles⟩, hderived⟩
      have hfile := fun name => fileProblems_eq_nil_iff.mp (hfiles name (mem_secretFileNames name))
      choose f t hf ht hproblem hmode hmine using hfile
      have htexts : folder.HasTexts t := by
        intro name
        simp [Folder.content, hf name, ht name]
      rw [contents_of_hasTexts htexts hproblem] at hderived
      refine ⟨⟨hdir, hfolder, hothers, fun name g hg => ?_⟩, t, htexts,
        (derivedProblems_eq_nil_iff hproblem).mp hderived⟩
      rw [hf name] at hg
      cases hg
      exact ⟨hmode name, hmine name⟩
    · rintro ⟨hguard, texts, htexts, hconsistent⟩
      refine ⟨⟨⟨hguard.noProblem, hguard.noOthers⟩, fun name _ => ?_⟩, ?_⟩
      · obtain ⟨f, hf, hcontent⟩ := Option.map_eq_some_iff.mp (htexts name)
        obtain ⟨hmode, hmine⟩ := hguard.files name f hf
        exact fileProblems_eq_nil_iff.mpr
          ⟨f, texts name, hf, hcontent, hconsistent.shape name, hmode, hmine⟩
      · rw [contents_of_hasTexts htexts hconsistent.shape]
        exact (derivedProblems_eq_nil_iff hconsistent.shape).mpr hconsistent

/-! ## Killed commands -/

section Writes
variable {sha256 : Text → Digest} {posix : Bool} {folder : Folder} {texts : Texts}

theorem hasTexts_write (h : folder.HasTexts texts) (w : Write) :
    (folder.write w).HasTexts (texts.write w) := by
  intro name
  rw [Folder.content_write]
  unfold Texts.write
  by_cases hname : name = w.name
  · subst hname
    simp
  · simpa [hname] using h name

theorem guarded_write (h : Guarded posix folder) (w : Write) : Guarded posix (folder.write w) := by
  refine ⟨h.isDir, h.noProblem, h.noOthers, fun name f hf => ?_⟩
  by_cases hname : name = w.name
  · have hnew : f = ⟨.text w.text, secretFileMode, true⟩ := by
      simpa [Folder.write, hname, eq_comm] using hf
    subst hnew
    simp [secretFileMode]
  · exact h.files name f (by simpa [Folder.write, hname] using hf)

theorem hasTexts_writeAll (h : folder.HasTexts texts) (writes : List Write) :
    (folder.writeAll writes).HasTexts (texts.writeAll writes) := by
  induction writes generalizing folder texts with
  | nil => exact h
  | cons w writes ih => exact ih (hasTexts_write h w)

theorem guarded_writeAll (h : Guarded posix folder) (writes : List Write) :
    Guarded posix (folder.writeAll writes) := by
  induction writes generalizing folder with
  | nil => exact h
  | cons w writes ih => exact ih (guarded_write h w)

/-- Two folders hold the same. -/
def SameContents (f g : Folder) : Prop := ∀ name, f.content name = g.content name

theorem sameContents_iff {f g : Folder} {t u : Texts} (hf : f.HasTexts t) (hg : g.HasTexts u) :
    SameContents f g ↔ t = u := by
  constructor
  · intro h
    funext name
    have hname := h name
    rw [hf name, hg name] at hname
    exact Content.text.inj (Option.some.inj hname)
  · rintro rfl name
    rw [hf name, hg name]

theorem problems_writeAll (hguard : Guarded posix folder) (htexts : folder.HasTexts texts)
    (writes : List Write) :
    secretProblems sha256 posix (folder.writeAll writes) ≠ [] ↔
      ¬ Consistent sha256 (texts.writeAll writes) := by
  rw [Ne, secretProblems_eq_nil_iff, not_iff_not]
  constructor
  · rintro ⟨-, u, hu, hconsistent⟩
    have hsame := (sameContents_iff hu (hasTexts_writeAll htexts writes)).mp fun _ => rfl
    rwa [← hsame]
  · intro h
    exact ⟨guarded_writeAll hguard writes, _, hasTexts_writeAll htexts writes, h⟩

/-- After `k` of the writes: nothing done, all done, or the texts disagree. -/
def NoticedAt (sha256 : Text → Digest) (texts : Texts) (writes : List Write) (k : ℕ) : Prop :=
  texts.writeAll (writes.take k) = texts ∨ texts.writeAll (writes.take k) = texts.writeAll writes ∨
    ¬ Consistent sha256 (texts.writeAll (writes.take k))

theorem noticedAt_zero (writes : List Write) : NoticedAt sha256 texts writes 0 := .inl rfl

theorem noticedAt_of_length_le {writes : List Write} {k : ℕ} (h : writes.length ≤ k) :
    NoticedAt sha256 texts writes k := .inr (.inl (by rw [List.take_of_length_le h]))

theorem noticedAt_nil (k : ℕ) : NoticedAt sha256 texts [] k := noticedAt_of_length_le (Nat.zero_le k)

theorem noticedAt_single (w : Write) (k : ℕ) : NoticedAt sha256 texts [w] k := by
  cases k with
  | zero => exact noticedAt_zero _
  | succ k => exact noticedAt_of_length_le (by simp)

/-- Of two writes only the moment between them counts. -/
theorem noticedAt_pair {v w : Write}
    (h : Consistent sha256 (texts.write v) → texts.write v = texts) (k : ℕ) :
    NoticedAt sha256 texts [v, w] k := by
  match k with
  | 0 => exact noticedAt_zero _
  | 1 =>
    by_cases hconsistent : Consistent sha256 (texts.write v)
    · exact .inl (h hconsistent)
    · exact .inr (.inr hconsistent)
  | k + 2 => exact noticedAt_of_length_le (by simp)

theorem write_eq_self {w : Write} (h : texts w.name = w.text) : texts.write w = texts := by
  unfold Texts.write
  rw [← h]
  exact Function.update_eq_self _ _

theorem write_self (w : Write) : texts.write w w.name = w.text := Function.update_self _ _ _

theorem write_of_ne {w : Write} {name : SecretName} (h : name ≠ w.name) :
    texts.write w name = texts name := Function.update_of_ne h _ _

theorem noticedAt_credential {source derived : SecretName} (hne : derived ≠ source)
    (hpair : ∀ u, Consistent sha256 u → passwordOf (u derived) = some (u source))
    (h : Consistent sha256 texts) (v d : Text) (k : ℕ) :
    NoticedAt sha256 texts [⟨source, v⟩, ⟨derived, d⟩] k := by
  apply noticedAt_pair
  intro hmid
  apply write_eq_self
  have hbefore := hpair texts h
  have hafter := hpair _ hmid
  rw [write_of_ne hne, write_self, hbefore] at hafter
  exact Option.some.inj hafter

/-! ### The Redis policy -/

/-- All of the policy before the hash but the hash mark. -/
def aclFront : Text :=
  aclDefault.head ++ newline :: (aclHealth.head ++ newline :: "user decisya-bff on ".toList)

theorem aclBff_head : aclBff.head = "user decisya-bff on ".toList ++ ['#'] := by decide +kernel

theorem aclBff_matches {t : Text} (h : aclBff.matches t = true) :
    ∃ hash : Text, t = aclBff.head ++ (hash ++ aclBffTail) ∧ hash.length = 64 ∧
      hash.all isHex = true := by
  have hall : (aclBff.head.isPrefixOf t && ((t.drop aclBff.head.length).take 64).all isHex &&
      decide ((t.drop aclBff.head.length).length = 64 + aclBffTail.length) &&
      decide ((t.drop aclBff.head.length).drop 64 = aclBffTail)) = true := h
  generalize aclBff.head = head at hall ⊢
  generalize aclBffTail = tail at hall ⊢
  simp only [Bool.and_eq_true, decide_eq_true_eq] at hall
  obtain ⟨⟨⟨hhead, hhex⟩, hlength⟩, htail⟩ := hall
  obtain ⟨rest, rfl⟩ := List.isPrefixOf_iff_prefix.mp hhead
  rw [List.drop_left] at hhex hlength htail
  refine ⟨rest.take 64, ?_, ?_, hhex⟩
  · rw [← htail, List.take_append_drop]
  · rw [List.length_take]
    omega

theorem aclMatches_split {t : Text} (h : aclMatches t = true) :
    ∃ hash : Text, t = aclFront ++ '#' :: (hash ++ aclBffTail) ∧ hash.length = 64 ∧
      hash.all isHex = true := by
  have hjoin : t = [newline].intercalate (t.splitOn newline) :=
    (List.intercalate_splitOn newline).symm
  unfold aclMatches at h
  generalize t.splitOn newline = lines at h hjoin
  rw [Bool.and_eq_true] at h
  obtain ⟨hlength, hall⟩ := h
  match lines, of_decide_eq_true hlength with
  | [l₁, l₂, l₃], _ =>
    have hlines : ∀ x ∈ [(aclDefault, l₁), (aclHealth, l₂), (aclBff, l₃)],
        x.1.matches x.2 = true := List.all_eq_true.mp hall
    have h₁ : l₁ = aclDefault.head := of_decide_eq_true (hlines (aclDefault, l₁) (by simp))
    have h₂ : l₂ = aclHealth.head := of_decide_eq_true (hlines (aclHealth, l₂) (by simp))
    have h₃ : aclBff.matches l₃ = true := hlines (aclBff, l₃) (by simp)
    obtain ⟨hash, h₃, hhash, hhex⟩ := aclBff_matches h₃
    refine ⟨hash, ?_, hhash, hhex⟩
    rw [hjoin, h₁, h₂, h₃, aclBff_head]
    generalize aclBffTail = tail
    simp [aclFront, List.intercalate]

theorem hash_not_mem_hex {hash : Text} (h : hash.all isHex = true) : '#' ∉ hash := by
  intro hmem
  have hhex := List.all_eq_true.mp h _ hmem
  revert hhex
  decide

/-- A policy names one hash. -/
theorem acl_unique {digest t u : Text} (hlength : digest.length = 64) (ht : aclMatches t = true)
    (hu : aclMatches u = true) (htd : '#' :: digest <:+: t) (hud : '#' :: digest <:+: u) : t = u := by
  have hone : ∀ {t : Text}, aclMatches t = true → '#' :: digest <:+: t →
      t = aclFront ++ '#' :: (digest ++ aclBffTail) := by
    intro t ht htd
    obtain ⟨hash, rfl, hhash, hhex⟩ := aclMatches_split ht
    obtain ⟨before, after, heq⟩ := htd
    have hsplit : before ++ '#' :: (digest ++ after) = aclFront ++ '#' :: (hash ++ aclBffTail) := by
      simpa using heq
    have hfront : '#' ∉ aclFront := by decide +kernel
    have htail : '#' ∉ aclBffTail := by decide +kernel
    have hback : '#' ∉ hash ++ aclBffTail := by
      rw [List.mem_append]
      rintro (hmem | hmem)
      · exact hash_not_mem_hex hhex hmem
      · exact htail hmem
    obtain ⟨-, -, hsame⟩ := (List.append_cons_inj_of_notMem hfront hback).mp hsplit.symm
    have hhash : hash = digest := by
      have htake := congrArg (List.take 64) hsame
      rwa [List.take_left' hhash, List.take_left' hlength] at htake
    rw [hhash]
  rw [hone ht htd, hone hu hud]

theorem noticedAt_redis (h : Consistent sha256 texts) (v d : Text) (k : ℕ) :
    NoticedAt sha256 texts [⟨.redisAcl, v⟩, ⟨.connectionRedis, d⟩] k := by
  apply noticedAt_pair
  intro hmid
  apply write_eq_self
  have hacl : ∀ {u : Texts}, Consistent sha256 u → aclMatches (u .redisAcl) = true := by
    intro u hu
    have hshape := shapeProblem_of_contentProblem (hu.shape .redisAcl)
    by_contra hnot
    simp [shapeProblem, orProblem, hnot] at hshape
  have hdigest := hmid.redis
  rw [write_of_ne (show SecretName.connectionRedis ≠ .redisAcl by decide), write_self] at hdigest
  have hmatches := hacl hmid
  rw [write_self] at hmatches
  exact acl_unique (sha256 _).length_eq (hacl h) hmatches h.redis hdigest

/-! ### The commands -/

theorem noticedAt_filesFor (h : Consistent sha256 texts) (logical : Logical) (v : Text) (k : ℕ) :
    NoticedAt sha256 texts (filesFor sha256 logical v) k := by
  cases logical with
  | postgresSuperuser => exact noticedAt_single _ k
  | migratorDb => exact noticedAt_credential (by decide) (fun _ hu => hu.decisya) h _ _ k
  | tenancyDb => exact noticedAt_credential (by decide) (fun _ hu => hu.tenancy) h _ _ k
  | entitlementsDb => exact noticedAt_credential (by decide) (fun _ hu => hu.entitlements) h _ _ k
  | keycloakDb => exact noticedAt_single _ k
  | keycloakBootstrap => exact noticedAt_single _ k
  | redis => exact noticedAt_redis h _ _ k
  | bffClient => exact noticedAt_single _ k
  | userIdHashKey => exact noticedAt_single _ k

theorem universalNewlines_of_not_mem {t : Text} (h : carriageReturn ∉ t) :
    universalNewlines t = t := by
  induction t with
  | nil => rfl
  | cons c t ih =>
    have hc : c ≠ carriageReturn := fun heq => h (by simp [heq])
    have ht : carriageReturn ∉ t := fun hmem => h (List.mem_cons_of_mem c hmem)
    cases t with
    | nil => simp [universalNewlines, hc]
    | cons d rest => rw [universalNewlines, if_pos hc, ih ht]

theorem not_mem_of_isPassword {t : Text} {c : Char} (hc : isAlnum c = false)
    (h : isPassword t = true) : c ∉ t := by
  intro hmem
  have hall : t.all isAlnum = true := (Bool.and_eq_true _ _ ▸ h).2
  rw [List.all_eq_true.mp hall c hmem] at hc
  cases hc

/-- A certificate file is not empty and holds no line break. -/
theorem pfx_shape {t : Text} (h : pfxShapeProblem t = none) :
    t ≠ [] ∧ ∀ c, isBase64 c = false → isPadding c = false → c ∉ t := by
  unfold pfxShapeProblem at h
  dsimp only at h
  split at h
  · cases h
  · rename_i hshape
    push Not at hshape
    obtain ⟨hdata, hpadding, -⟩ := hshape
    constructor
    · rintro rfl
      exact hdata rfl
    · intro c hc hpad hmem
      rw [← List.takeWhile_append_dropWhile (p := isBase64) (l := t)] at hmem
      rcases List.mem_append.mp hmem with hmem | hmem
      · rw [List.mem_takeWhile_imp hmem] at hc
        cases hc
      · rw [List.all_eq_true.mp hpadding c hmem] at hpad
        cases hpad

theorem readSecret_of_text {name : SecretName} (h : folder.HasTexts texts)
    (hbreak : carriageReturn ∉ texts name) : readSecret folder name = .ok (texts name) := by
  simp [readSecret, h name, universalNewlines_of_not_mem hbreak]

theorem not_mem_shape {name : SecretName} {c : Char} (hc : isBase64 c = false)
    (hpad : isPadding c = false) (hname : name ∈ dpSecrets)
    (h : shapeProblem name (texts name) = none) : c ∉ texts name := by
  have halnum : isAlnum c = false := by
    by_contra hnot
    simp [isBase64, hnot] at hc
  have hpassword : ∀ {t : Text}, isCertificatePassword t = true → c ∉ t := fun ht =>
    not_mem_of_isPassword halnum (Bool.and_eq_true _ _ ▸ ht).1
  simp only [dpSecrets, List.mem_cons, List.not_mem_nil, or_false] at hname
  rcases hname with rfl | rfl | rfl | rfl
  · exact (pfx_shape h).2 c hc hpad
  · by_cases hok : isCertificatePassword (texts .dpCertPassword) = true
    · exact hpassword hok
    · simp [shapeProblem, orProblem, hok] at h
  · by_cases hempty : texts .dpPrevious = []
    · simp [hempty]
    · exact (pfx_shape (by simpa [shapeProblem, hempty] using h)).2 c hc hpad
  · by_cases hempty : texts .dpPreviousPassword = []
    · simp [hempty]
    · by_cases hok : isCertificatePassword (texts .dpPreviousPassword) = true
      · exact hpassword hok
      · simp [shapeProblem, orProblem, hok, hempty] at h

theorem readSecret_valid (htexts : folder.HasTexts texts) (h : Consistent sha256 texts)
    {name : SecretName} (hname : name ∈ dpSecrets) : readSecret folder name = .ok (texts name) :=
  readSecret_of_text htexts (not_mem_shape (by decide) (by decide) hname
    (shapeProblem_of_contentProblem (h.shape name)))

theorem noticedAt_retirePrevious (htexts : folder.HasTexts texts) (h : Consistent sha256 texts)
    {writes : List Write} (hplan : retirePreviousCertificate folder = .ok writes) (k : ℕ) :
    NoticedAt sha256 texts writes k := by
  unfold retirePreviousCertificate at hplan
  rw [readSecret_valid htexts h (show SecretName.dpPrevious ∈ dpSecrets by decide),
    readSecret_valid htexts h (show SecretName.dpPreviousPassword ∈ dpSecrets by decide)] at hplan
  by_cases hempty : texts .dpPrevious = [] ∧ texts .dpPreviousPassword = []
  · have hwrites : writes = [] := by
      simpa [hempty.1, hempty.2, pure, Except.pure, bind, Except.bind, eq_comm] using hplan
    rw [hwrites]
    exact noticedAt_nil k
  · have hwrites : writes = [⟨.dpPrevious, []⟩, ⟨.dpPreviousPassword, []⟩] := by
      simpa [hempty, pure, Except.pure, bind, Except.bind, eq_comm] using hplan
    rw [hwrites]
    apply noticedAt_pair
    intro hmid
    apply write_eq_self
    have htogether := hmid.together
    rw [write_self, write_of_ne (show SecretName.dpPreviousPassword ≠ .dpPrevious by decide)]
      at htogether
    exact h.together.mpr (htogether.mp rfl)

/-- The writes of a rotation that goes through. -/
def rotationWrites (texts : Texts) (certificate password : Text) : List Write :=
  [⟨.dpPrevious, texts .dpCert⟩, ⟨.dpPreviousPassword, texts .dpCertPassword⟩,
    ⟨.dpCert, certificate⟩, ⟨.dpCertPassword, password⟩]

theorem rotateCertificate_valid (htexts : folder.HasTexts texts) (h : Consistent sha256 texts)
    (host : Host) (generated : Generated) (dropPrevious : Bool) (writes : List Write) :
    rotateCertificate host generated folder dropPrevious = .ok writes ↔
      (texts .dpPrevious = [] ∨ dropPrevious = true) ∧ host.bffImageProblem = none ∧
        ∃ certificate, generated.certificate = .ok certificate ∧
          pfxShapeProblem certificate = none ∧
          writes = rotationWrites texts certificate generated.certificatePassword := by
  have hshape : ∀ name, checkShape name (texts name) = .ok () := by
    intro name
    simp [checkShape, shapeProblem_of_contentProblem (h.shape name)]
  have hpair : decide (texts .dpPrevious = []) = decide (texts .dpPreviousPassword = []) :=
    decide_eq_decide.mpr h.together
  unfold rotateCertificate
  rw [readSecret_valid htexts h (show SecretName.dpCert ∈ dpSecrets by decide),
    readSecret_valid htexts h (show SecretName.dpCertPassword ∈ dpSecrets by decide),
    readSecret_valid htexts h (show SecretName.dpPrevious ∈ dpSecrets by decide),
    readSecret_valid htexts h (show SecretName.dpPreviousPassword ∈ dpSecrets by decide)]
  simp only [bind, Except.bind, hshape, hpair, ne_eq, not_true_eq_false, if_false]
  by_cases hrefused : ¬ texts .dpPrevious = [] ∧ dropPrevious = false
  · rw [if_pos hrefused]
    constructor
    · intro hplan
      cases hplan
    · rintro ⟨hempty | hdrop, -⟩
      · exact absurd hempty hrefused.1
      · rw [hrefused.2] at hdrop
        cases hdrop
  · rw [if_neg hrefused]
    have hadmitted : texts .dpPrevious = [] ∨ dropPrevious = true := by
      by_cases hempty : texts .dpPrevious = []
      · exact .inl hempty
      · exact .inr (by simpa [hempty] using hrefused)
    unfold generateCertificatePair
    cases himage : host.bffImageProblem with
    | some problem => simp
    | none =>
      cases hcertificate : generated.certificate with
      | error problem => simp
      | ok certificate =>
        cases hpfx : pfxShapeProblem certificate with
        | some reason => simp [hpfx]
        | none => simp [hpfx, hadmitted, rotationWrites, pure, Except.pure, eq_comm]

/-- Three of the four writes: the new certificate with the old password. -/
def halfRotated (texts : Texts) (certificate : Text) : Texts :=
  ((texts.write ⟨.dpPrevious, texts .dpCert⟩).write
    ⟨.dpPreviousPassword, texts .dpCertPassword⟩).write ⟨.dpCert, certificate⟩

theorem halfRotated_apply (certificate : Text) (name : SecretName) :
    halfRotated texts certificate name =
      if name = .dpCert then certificate
      else if name = .dpPreviousPassword then texts .dpCertPassword
      else if name = .dpPrevious then texts .dpCert else texts name := by
  simp only [halfRotated, Texts.write, Function.update_apply]

theorem password_ne_nil {t : Text} (h : shapeProblem .dpCertPassword t = none) : t ≠ [] := by
  rintro rfl
  revert h
  decide

theorem no_break_of_pfx {name : SecretName} {t : Text} (h : pfxShapeProblem t = none)
    (hname : shapeProblem name t = none) : contentProblem name (.text t) = none := by
  have hlast : ∀ c, isBase64 c = false → isPadding c = false → t.getLast? ≠ some c := by
    intro c hc hpad heq
    exact (pfx_shape h).2 c hc hpad (List.mem_of_getLast? heq)
  have hnewline := hlast newline (by decide) (by decide)
  have hreturn := hlast carriageReturn (by decide) (by decide)
  simp [contentProblem, endsWithNewline, hnewline, hreturn, hname]

theorem previousPassword_shape {t : Text} (h : contentProblem .dpCertPassword (.text t) = none) :
    contentProblem .dpPreviousPassword (.text t) = none := by
  simp only [contentProblem] at h ⊢
  by_cases hbreak : endsWithNewline t = true
  · simp [hbreak] at h
  · by_cases hok : isCertificatePassword t = true
    · simp [hbreak, shapeProblem, orProblem, hok]
    · simp [hbreak, shapeProblem, orProblem, hok] at h

/-- Nothing is wrong with it. -/
theorem halfRotated_consistent (h : Consistent sha256 texts) {certificate : Text}
    (hpfx : pfxShapeProblem certificate = none) (hfresh : texts .dpCert ≠ certificate) :
    Consistent sha256 (halfRotated texts certificate) := by
  have hcert := shapeProblem_of_contentProblem (h.shape .dpCert)
  have hpassword := shapeProblem_of_contentProblem (h.shape .dpCertPassword)
  have hne := (pfx_shape hcert).1
  have hpassword_ne := password_ne_nil hpassword
  constructor
  · intro name
    rw [halfRotated_apply]
    split_ifs with h₁ h₂ h₃
    · rw [h₁]
      exact no_break_of_pfx hpfx hpfx
    · rw [h₂]
      exact previousPassword_shape (h.shape .dpCertPassword)
    · rw [h₃]
      exact no_break_of_pfx hcert (by simpa [shapeProblem, hne] using hcert)
    · exact h.shape name
  · simpa [halfRotated_apply] using h.decisya
  · simpa [halfRotated_apply] using h.tenancy
  · simpa [halfRotated_apply] using h.entitlements
  · simp [halfRotated_apply, hne, hpassword_ne]
  · intro _
    simpa [halfRotated_apply] using hfresh.symm
  · simpa [halfRotated_apply] using h.redis

theorem noticedAt_rotation_iff (h : Consistent sha256 texts) {certificate password : Text}
    (hpfx : pfxShapeProblem certificate = none) (hcertificate : texts .dpCert ≠ certificate)
    (hpassword : texts .dpCertPassword ≠ password) (k : ℕ) :
    NoticedAt sha256 texts (rotationWrites texts certificate password) k ↔ k ≠ 3 := by
  have hne := (pfx_shape (shapeProblem_of_contentProblem (h.shape .dpCert))).1
  have hfirst : texts.writeAll ((rotationWrites texts certificate password).take 1) =
      texts.write ⟨.dpPrevious, texts .dpCert⟩ := rfl
  have hsecond : texts.writeAll ((rotationWrites texts certificate password).take 2) =
      (texts.write ⟨.dpPrevious, texts .dpCert⟩).write
        ⟨.dpPreviousPassword, texts .dpCertPassword⟩ := rfl
  have hthird : texts.writeAll ((rotationWrites texts certificate password).take 3) =
      halfRotated texts certificate := rfl
  have hall : texts.writeAll (rotationWrites texts certificate password) =
      (halfRotated texts certificate).write ⟨.dpCertPassword, password⟩ := rfl
  match k with
  | 0 => exact iff_of_true (noticedAt_zero _) (by decide)
  | 1 =>
    refine iff_of_true (.inr (.inr fun hmid => ?_)) (by decide)
    rw [hfirst] at hmid
    have hdifferent := hmid.different
    simp only [Texts.write, Function.update_apply] at hdifferent
    exact hdifferent (by simpa using hne) rfl
  | 2 =>
    refine iff_of_true (.inr (.inr fun hmid => ?_)) (by decide)
    rw [hsecond] at hmid
    have hdifferent := hmid.different
    simp only [Texts.write, Function.update_apply] at hdifferent
    exact hdifferent (by simpa using hne) rfl
  | 3 =>
    refine iff_of_false ?_ (by decide)
    unfold NoticedAt
    rw [hthird, hall]
    rintro (hbefore | hafter | hproblem)
    · have hcert := congrFun hbefore .dpCert
      rw [halfRotated_apply, if_pos rfl] at hcert
      exact hcertificate hcert.symm
    · have hpass := congrFun hafter .dpCertPassword
      rw [write_self, halfRotated_apply] at hpass
      exact hpassword (by simpa using hpass)
    · exact hproblem (halfRotated_consistent h hpfx hcertificate)
  | k + 4 =>
    refine iff_of_true (noticedAt_of_length_le ?_) (by omega)
    simp [rotationWrites]

/-- No generated value is one that a file holds. -/
def Fresh (generated : Generated) (folder : Folder) : Prop :=
  ∀ name t, folder.content name = some (.text t) →
    (∀ l, generated.credential l ≠ t) ∧ generated.certificate ≠ .ok t ∧
      generated.certificatePassword ≠ t

/-- The command is a rotation of the key ring's certificate that nothing stops. -/
def CertificateRotated (host : Host) (generated : Generated) (folder : Folder)
    (command : Command) : Prop :=
  ∃ dropPrevious certificate, command = .rotate .dataprotectionCert false false dropPrevious ∧
    (folder.content .dpPrevious = some (.text []) ∨ dropPrevious = true) ∧
    host.bffImageProblem = none ∧ generated.certificate = .ok certificate ∧
    pfxShapeProblem certificate = none

/-- The folder, killed after `k` writes of the command, is the one before it, the one after it,
or one with a problem. -/
def Noticed (sha256 : Text → Digest) (host : Host) (generated : Generated) (folder : Folder)
    (command : Command) (k : ℕ) : Prop :=
  let writes := command.writes sha256 host generated folder
  let killed := folder.writeAll (writes.take k)
  SameContents killed folder ∨ SameContents killed (folder.writeAll writes) ∨
    secretProblems sha256 host.posix killed ≠ []

theorem noticed_iff {host : Host} {generated : Generated} {command : Command}
    (hguard : Guarded host.posix folder) (htexts : folder.HasTexts texts) (k : ℕ) :
    Noticed sha256 host generated folder command k ↔
      NoticedAt sha256 texts (command.writes sha256 host generated folder) k := by
  unfold Noticed NoticedAt
  dsimp only
  have hkilled := hasTexts_writeAll htexts
    ((command.writes sha256 host generated folder).take k)
  rw [sameContents_iff hkilled htexts,
    sameContents_iff hkilled (hasTexts_writeAll htexts _), problems_writeAll hguard htexts]

theorem existing_ne_nil (htexts : folder.HasTexts texts) {names : List SecretName}
    {name : SecretName} (hname : name ∈ names) : folder.existing names ≠ [] := by
  apply List.ne_nil_of_mem (a := name)
  apply List.mem_filter.mpr
  refine ⟨hname, ?_⟩
  obtain ⟨f, hf, -⟩ := Option.map_eq_some_iff.mp (htexts name)
  rw [hf]
  rfl

theorem writes_rotateLogical {host : Host} {generated : Generated} {logical : Logical}
    {applyDb filesOnly : Bool} {writes : List Write}
    (h : rotateLogical sha256 host generated folder logical applyDb filesOnly = .ok writes) :
    writes = filesFor sha256 logical (generated.credential logical) := by
  unfold rotateLogical at h
  split at h
  · cases h
  · split at h
    · cases h
    · dsimp only at h
      split at h
      · cases h
      · split at h
        · cases h
        · cases h
          rfl

/-- A command other than a certificate rotation writes what is noticed at every moment. -/
theorem noticedAt_of_not_rotation {host : Host} {generated : Generated} {command : Command}
    (htexts : folder.HasTexts texts) (h : Consistent sha256 texts)
    (hother : ∀ applyDb filesOnly dropPrevious,
      command ≠ .rotate .dataprotectionCert applyDb filesOnly dropPrevious) (k : ℕ) :
    NoticedAt sha256 texts (command.writes sha256 host generated folder) k := by
  unfold Command.writes
  cases hplan : command.plan sha256 host generated folder with
  | error problem => exact noticedAt_nil k
  | ok writes =>
    change NoticedAt sha256 texts writes k
    cases command with
    | init =>
      have hexisting := existing_ne_nil htexts (mem_secretFileNames .redisAcl)
      have hrefused : ∃ problem, secretsInit sha256 host generated folder = .error problem := by
        unfold secretsInit
        simp only [ne_eq, hexisting, not_false_eq_true, if_true]
        split
        · exact ⟨_, rfl⟩
        · split
          · exact ⟨_, rfl⟩
          · exact ⟨_, rfl⟩
      obtain ⟨problem, hproblem⟩ := hrefused
      rw [Command.plan, hproblem] at hplan
      cases hplan
    | add =>
      have hexisting := existing_ne_nil htexts (show SecretName.dpCert ∈ dpSecrets by decide)
      have hrefused : ∃ problem, secretsAdd host generated folder = .error problem := by
        unfold secretsAdd
        simp only [ne_eq, hexisting, not_false_eq_true, if_true]
        split
        · exact ⟨_, rfl⟩
        · split
          · exact ⟨_, rfl⟩
          · exact ⟨_, rfl⟩
      obtain ⟨problem, hproblem⟩ := hrefused
      rw [Command.plan, hproblem] at hplan
      cases hplan
    | rotate name applyDb filesOnly dropPrevious =>
      cases name with
      | dataprotectionCert => exact absurd rfl (hother applyDb filesOnly dropPrevious)
      | logical l =>
        have hlogical : rotateLogical sha256 host generated folder l applyDb filesOnly =
            .ok writes := by
          simp only [Command.plan, secretsRotate] at hplan
          split at hplan
          · cases hplan
          · split at hplan
            · cases hplan
            · exact hplan
        rw [writes_rotateLogical hlogical]
        exact noticedAt_filesFor h l _ k
    | retire name =>
      cases name with
      | dataprotectionPrevious => exact noticedAt_retirePrevious htexts h hplan k
      | keycloakBootstrap =>
        have hwrites : writes = [⟨.keycloakBootstrapAdminPassword, []⟩] := by
          simp only [Command.plan, secretsRetire] at hplan
          split at hplan
          · cases hplan
          · exact (Except.ok.inj hplan).symm
        rw [hwrites]
        exact noticedAt_single _ k

theorem plan_rotation (host : Host) (generated : Generated) (applyDb filesOnly dropPrevious : Bool)
    (hdir : folder.isDir = true) (htexts : folder.HasTexts texts) (h : Consistent sha256 texts)
    (writes : List Write) :
    (Command.rotate .dataprotectionCert applyDb filesOnly dropPrevious).plan sha256 host generated
        folder = .ok writes ↔
      applyDb = false ∧ filesOnly = false ∧
        (texts .dpPrevious = [] ∨ dropPrevious = true) ∧ host.bffImageProblem = none ∧
        ∃ certificate, generated.certificate = .ok certificate ∧
          pfxShapeProblem certificate = none ∧
          writes = rotationWrites texts certificate generated.certificatePassword := by
  have hplan : (Command.rotate .dataprotectionCert applyDb filesOnly dropPrevious).plan sha256 host
      generated folder = if applyDb = true ∨ filesOnly = true then
        .error "--apply-db and --files-only only apply to database credentials"
      else rotateCertificate host generated folder dropPrevious := by
    simp [Command.plan, secretsRotate, hdir]
  rw [hplan]
  by_cases hflags : applyDb = true ∨ filesOnly = true
  · rw [if_pos hflags]
    constructor
    · intro hok
      cases hok
    · rintro ⟨hdb, hfiles, -⟩
      simp [hdb, hfiles] at hflags
  · rw [if_neg hflags, rotateCertificate_valid htexts h]
    simp only [not_or, Bool.not_eq_true] at hflags
    simp [hflags.1, hflags.2]

end Writes

/-- A killed command goes unnoticed exactly when it is a rotation of the key ring's certificate
that was killed after the new certificate and before its password. -/
theorem interrupted_change_noticed_iff (sha256 : Text → Digest) (host : Host) (folder : Folder)
    (hvalid : secretProblems sha256 host.posix folder = []) (generated : Generated)
    (hfresh : Fresh generated folder) (command : Command) (k : ℕ) :
    Noticed sha256 host generated folder command k ↔
      ¬ (CertificateRotated host generated folder command ∧ k = 3) := by
  obtain ⟨hguard, texts, htexts, h⟩ := secretProblems_eq_nil_iff.mp hvalid
  rw [noticed_iff hguard htexts]
  by_cases hother : ∀ applyDb filesOnly dropPrevious,
      command ≠ .rotate .dataprotectionCert applyDb filesOnly dropPrevious
  · refine iff_of_true (noticedAt_of_not_rotation htexts h hother k) ?_
    rintro ⟨⟨dropPrevious, certificate, hcommand, -⟩, -⟩
    exact hother _ _ _ hcommand
  · push Not at hother
    obtain ⟨applyDb, filesOnly, dropPrevious, rfl⟩ := hother
    have hplan := plan_rotation host generated applyDb filesOnly dropPrevious hguard.isDir htexts h
    cases hresult : (Command.rotate .dataprotectionCert applyDb filesOnly dropPrevious).plan sha256
        host generated folder with
    | error problem =>
      have hwrites : (Command.rotate .dataprotectionCert applyDb filesOnly dropPrevious).writes sha256
          host generated folder = [] := by
        rw [Command.writes, hresult]
      rw [hwrites]
      refine iff_of_true (noticedAt_nil k) ?_
      rintro ⟨⟨drop, certificate, hcommand, hdrop, himage, hcertificate, hpfx⟩, -⟩
      cases hcommand
      have hempty : texts .dpPrevious = [] ∨ dropPrevious = true :=
        hdrop.imp_left fun hcontent => by simpa [htexts .dpPrevious] using hcontent
      have hok := (hplan _).mpr ⟨rfl, rfl, hempty, himage, certificate, hcertificate, hpfx, rfl⟩
      rw [hresult] at hok
      cases hok
    | ok writes =>
      obtain ⟨rfl, rfl, hempty, himage, certificate, hcertificate, hpfx, hwrites⟩ :=
        (hplan writes).mp hresult
      have hfour : (Command.rotate .dataprotectionCert false false dropPrevious).writes sha256 host
          generated folder = rotationWrites texts certificate generated.certificatePassword := by
        rw [Command.writes, hresult, hwrites]
      have hnewcert : texts .dpCert ≠ certificate := by
        intro heq
        exact (hfresh _ _ (htexts .dpCert)).2.1 (by rw [hcertificate, heq])
      have hnewpassword : texts .dpCertPassword ≠ generated.certificatePassword :=
        fun heq => (hfresh _ _ (htexts .dpCertPassword)).2.2 heq.symm
      rw [hfour, noticedAt_rotation_iff h hpfx hnewcert hnewpassword, not_and]
      constructor
      · exact fun hk _ => hk
      · intro himp hk
        refine himp ⟨dropPrevious, certificate, rfl, ?_, himage, hcertificate, hpfx⟩ hk
        exact hempty.imp_left fun hnil => by rw [htexts .dpPrevious, hnil]

/-! ## A rotation that goes unnoticed -/

def samplePassword : Text := List.replicate 32 'a'

/-- The hash of the sample's password. -/
def sampleDigest : Digest where
  hex := "3ba3f5f43b92602683c19aee62a20342b084dd5971ddd33808d81a328879a547".toList
  length_eq := by decide +kernel
  isHex := by decide +kernel

def otherDigest : Digest where
  hex := List.replicate 64 '0'
  length_eq := by decide
  isHex := by decide

def sampleSha256 (password : Text) : Digest :=
  if password = samplePassword then sampleDigest else otherDigest

def sampleTexts : Texts
  | .dpCert => "AAAA".toList
  | .dpPrevious => []
  | .dpPreviousPassword => []
  | .connectionDecisya => connectionString "decisya_migrator" samplePassword
  | .connectionEntitlements => connectionString "decisya_entitlements" samplePassword
  | .connectionTenancy => connectionString "decisya_tenancy" samplePassword
  | .connectionRedis => redisConnectionString samplePassword
  | .redisAcl => redisAclText sampleSha256 samplePassword
  | .userIdHashKey => List.replicate 44 'A'
  | _ => samplePassword

def sampleFolder : Folder where
  isDir := true
  mode := 0o700
  mine := true
  others := []
  files name := some ⟨.text (sampleTexts name), secretFileMode, true⟩

def sampleHost : Host := ⟨true, true, false, none, 0⟩

def sampleGenerated : Generated :=
  ⟨fun _ => List.replicate 48 'b', .ok "BBBB".toList, List.replicate 48 'c'⟩

def rotateSample : Command := .rotate .dataprotectionCert false false false

theorem sample_hasTexts : sampleFolder.HasTexts sampleTexts := fun _ => rfl

theorem sample_valid : secretProblems sampleSha256 true sampleFolder = [] := by decide +kernel

theorem sample_consistent : Consistent sampleSha256 sampleTexts := by
  obtain ⟨-, texts, htexts, h⟩ := secretProblems_eq_nil_iff.mp sample_valid
  rwa [(sameContents_iff htexts sample_hasTexts).mp fun _ => rfl] at h

theorem sample_fresh : Fresh sampleGenerated sampleFolder := by
  have hnew : ∀ name ∈ secretFileNames, List.replicate 48 'b' ≠ sampleTexts name ∧
      "BBBB".toList ≠ sampleTexts name ∧ List.replicate 48 'c' ≠ sampleTexts name := by
    decide +kernel
  intro name t ht
  obtain rfl : sampleTexts name = t := Content.text.inj (Option.some.inj ht)
  obtain ⟨hcredential, hcertificate, hpassword⟩ := hnew name (mem_secretFileNames name)
  exact ⟨fun _ => hcredential, fun heq => hcertificate (Except.ok.inj heq), hpassword⟩

/-- The folder holds the new certificate with the password of the old one. -/
theorem rotation_unnoticed :
    secretProblems sampleSha256 true sampleFolder = [] ∧ Fresh sampleGenerated sampleFolder ∧
      ¬ Noticed sampleSha256 sampleHost sampleGenerated sampleFolder rotateSample 3 := by
  refine ⟨sample_valid, sample_fresh, ?_⟩
  rintro (hbefore | hafter | hproblem)
  · have hcert := hbefore .dpCert
    revert hcert
    decide +kernel
  · have hpassword := hafter .dpCertPassword
    revert hpassword
    decide +kernel
  · obtain ⟨hguard, -⟩ := secretProblems_eq_nil_iff.mp sample_valid
    have hhalf : Consistent sampleSha256 (halfRotated sampleTexts "BBBB".toList) :=
      halfRotated_consistent sample_consistent (by decide +kernel) (by decide +kernel)
    exact (problems_writeAll hguard sample_hasTexts _).mp hproblem hhalf

theorem interrupted_change_noticed_sample :
    secretProblems sampleSha256 true sampleFolder = [] ∧ Fresh sampleGenerated sampleFolder ∧
      ∀ k, Noticed sampleSha256 sampleHost sampleGenerated sampleFolder rotateSample k ↔ k ≠ 3 := by
  refine ⟨sample_valid, sample_fresh, fun k => ?_⟩
  rw [interrupted_change_noticed_iff sampleSha256 sampleHost sampleFolder sample_valid
    sampleGenerated sample_fresh rotateSample k, not_and]
  have hrotated : CertificateRotated sampleHost sampleGenerated sampleFolder rotateSample :=
    ⟨false, "BBBB".toList, rfl, .inl rfl, rfl, rfl, by decide +kernel⟩
  exact ⟨fun h => h hrotated, fun h _ => h⟩

end Decisya.Deploy
