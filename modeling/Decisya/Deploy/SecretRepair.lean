import Decisya.Deploy.SecretRuns

/-!
# Killed secret commands and their repair

One command puts in order what a killed one leaves, but for one moment of a rotation and most
moments of `secrets init`.
-/

namespace Decisya.Deploy

set_option autoImplicit false

/-! ## Repairs -/

/-- The command that repairs what a killed one leaves. -/
def Command.repair (folder : Folder) (command : Command) (k : ℕ) : Command :=
  match command with
  | .rotate .dataprotectionCert _ _ _ =>
    if k = 1 ∧ folder.content .dpPrevious = some (.text []) then .retire .dataprotectionPrevious
    else .rotate .dataprotectionCert false false true
  | other => other

section Repair
variable {sha256 : Text → Digest} {opens : Text → Text → Prop} {posix : Bool} {folder : Folder}
  {texts : Texts} {host : Host} {generated : Generated} {command : Command}

/-- Nothing is wrong with the folder, and the certificate can still be opened. -/
def Restored (sha256 : Text → Digest) (opens : Text → Text → Prop) (posix : Bool) (folder : Folder)
    (certificate : Text) : Prop :=
  secretProblems sha256 posix folder = [] ∧ PairsOpen opens folder ∧ Keeps opens folder certificate

theorem InOrder.restored_of_keeps (h : InOrder sha256 opens posix folder texts) {certificate : Text}
    (hkeeps : Keeps opens folder certificate) : Restored sha256 opens posix folder certificate := by
  obtain ⟨hproblems, hopen⟩ := inOrder_iff.mp ⟨texts, h⟩
  exact ⟨hproblems, hopen, hkeeps⟩

theorem InOrder.restored (h : InOrder sha256 opens posix folder texts) {certificate : Text}
    (hcurrent : texts .dpCert = certificate) : Restored sha256 opens posix folder certificate := by
  subst hcurrent
  exact h.restored_of_keeps ⟨_, h.opened.current, .inl ⟨h.hasTexts _, h.hasTexts _⟩⟩

/-- All of the writes: the certificate is the current one still, or the previous one. -/
theorem planned_restored (h : InOrder sha256 opens posix folder texts) {writes : List Write}
    (hsound : generated.Sound opens) (hnew : NewCertificate generated folder)
    (hplanned : Planned sha256 host generated texts command writes) :
    Restored sha256 opens posix (folder.writeAll writes) (texts .dpCert) := by
  have hafter := h.writeAll
    (planned_consistent h.consistent hsound (hnew.ne h.hasTexts) hplanned)
    (planned_opened h.opened hsound hplanned)
  cases hplanned with
  | rotateLogical l =>
    exact hafter.restored (writeAll_of_notMem texts (filesFor_notMem sha256 l _ (by decide)))
  | rotateCertificate dropPrevious certificate =>
    exact hafter.restored_of_keeps ⟨texts .dpCertPassword, h.opened.current,
      .inr ⟨hafter.hasTexts .dpPrevious, hafter.hasTexts .dpPreviousPassword⟩⟩
  | nothingToRetire => exact hafter.restored rfl
  | retirePrevious => exact hafter.restored rfl
  | retireBootstrap => exact hafter.restored rfl

theorem rotateLogical_works (sha256 : Text → Digest) (htexts : folder.HasTexts texts) (hworking : Working host generated)
    {l : Logical} {applyDb filesOnly : Bool}
    (hrole : ¬ (l.rotatesRole = true ∧ applyDb = false ∧ filesOnly = false))
    (happly : ¬ (applyDb = true ∧ l.rotatesRole = false)) :
    rotateLogical sha256 host generated folder l applyDb filesOnly =
      .ok (filesFor sha256 l (generated.credential l)) := by
  have hall : ((filesFor sha256 l (generated.credential l)).find? fun w =>
      (folder.files w.name).isNone) = none := by
    rw [List.find?_eq_none]
    intro w _ hnone
    obtain ⟨f, hf, -⟩ := Option.map_eq_some_iff.mp (htexts w.name)
    simp [hf] at hnone
  unfold rotateLogical
  rw [if_neg hrole, if_neg happly]
  simp [hall, hworking.altered]

/-- With the previous pair dropped, nothing of the pairs can stop a rotation but a half empty one. -/
theorem rotateCertificate_works (htexts : folder.HasTexts texts) (hworking : Working host generated)
    (hshape : ∀ name, contentProblem name (.text (texts name)) = none)
    (htogether : texts .dpPrevious = [] ↔ texts .dpPreviousPassword = []) :
    ∃ certificate, generated.certificate = .ok certificate ∧ pfxShapeProblem certificate = none ∧
      rotateCertificate host generated folder true =
        .ok (rotationWrites texts certificate generated.certificatePassword) := by
  obtain ⟨certificate, hcertificate, hpfx⟩ := hworking.certificate
  refine ⟨certificate, hcertificate, hpfx, ?_⟩
  have hread : ∀ {name}, name ∈ dpSecrets → readSecret folder name = .ok (texts name) :=
    fun hname => readSecret_of_text htexts (not_mem_shape (by decide) (by decide) hname
      (shapeProblem_of_contentProblem (hshape _)))
  have hcheck : ∀ name, checkShape name (texts name) = .ok () := by
    intro name
    simp [checkShape, shapeProblem_of_contentProblem (hshape name)]
  have hpair : decide (texts .dpPrevious = []) = decide (texts .dpPreviousPassword = []) :=
    decide_eq_decide.mpr htogether
  unfold rotateCertificate generateCertificatePair
  rw [hread (show SecretName.dpCert ∈ dpSecrets by decide),
    hread (show SecretName.dpCertPassword ∈ dpSecrets by decide),
    hread (show SecretName.dpPrevious ∈ dpSecrets by decide),
    hread (show SecretName.dpPreviousPassword ∈ dpSecrets by decide)]
  simp [bind, Except.bind, hcheck, hpair, hworking.image, hcertificate, hpfx, rotationWrites, pure,
    Except.pure]

/-- A rotation that drops the previous pair repairs texts whose current pair is whole. -/
theorem rotation_repairs (hguard : Guarded posix folder) (htexts : folder.HasTexts texts)
    (h : Agreeing sha256 texts) (htogether : texts .dpPrevious = [] ↔ texts .dpPreviousPassword = [])
    (hopen : opens (texts .dpCert) (texts .dpCertPassword)) (hsound : generated.Sound opens)
    (hworking : Working host generated) (hnew : NewCertificate generated folder) {current : Text}
    (hcurrent : texts .dpCert = current) :
    Restored sha256 opens posix
      ((Command.rotate .dataprotectionCert false false true).run sha256 host generated folder)
      current := by
  subst hcurrent
  obtain ⟨certificate, hcertificate, hpfx, hplan⟩ :=
    rotateCertificate_works htexts hworking h.shape htogether
  have hrun : (Command.rotate .dataprotectionCert false false true).run sha256 host generated folder =
      folder.writeAll (rotationWrites texts certificate generated.certificatePassword) := by
    simp [Command.run, Command.plan, secretsRotate, hguard.isDir, hplan, Command.prepared]
  have hfresh : certificate ≠ texts .dpCert := by
    rintro rfl
    exact hnew.ne htexts hcertificate
  have hafter : InOrder sha256 opens posix (folder.writeAll (rotationWrites texts certificate
      generated.certificatePassword)) _ :=
    ⟨guarded_writeAll hguard _, hasTexts_writeAll htexts _,
      consistent_rotation h hpfx hsound.password hfresh, hsound.opens certificate hcertificate,
      .inr hopen⟩
  rw [hrun]
  exact hafter.restored_of_keeps ⟨texts .dpCertPassword, hopen,
    .inr ⟨hafter.hasTexts .dpPrevious, hafter.hasTexts .dpPreviousPassword⟩⟩

/-- A retirement repairs texts whose current pair is whole. -/
theorem retirement_repairs (hguard : Guarded posix folder) (htexts : folder.HasTexts texts)
    (h : Agreeing sha256 texts) (hhalf : ¬ (texts .dpPrevious = [] ∧ texts .dpPreviousPassword = []))
    (hopen : opens (texts .dpCert) (texts .dpCertPassword)) {current : Text}
    (hcurrent : texts .dpCert = current) :
    Restored sha256 opens posix
      ((Command.retire .dataprotectionPrevious).run sha256 host generated folder) current := by
  have hrun : (Command.retire .dataprotectionPrevious).run sha256 host generated folder =
      folder.writeAll [⟨.dpPrevious, []⟩, ⟨.dpPreviousPassword, []⟩] := by
    simp [Command.run, Command.plan, secretsRetire, retirePrevious_cases htexts h.shape, hhalf,
      Command.prepared]
  have hafter : InOrder sha256 opens posix
      (folder.writeAll [⟨.dpPrevious, []⟩, ⟨.dpPreviousPassword, []⟩]) _ :=
    ⟨guarded_writeAll hguard _, hasTexts_writeAll htexts _, consistent_retire h, hopen, .inl rfl⟩
  rw [hrun]
  exact hafter.restored hcurrent

/-- What a kill leaves is in order, or the command's repair puts it in order. -/
theorem killed_repaired (h : InOrder sha256 opens posix folder texts) {writes : List Write}
    (hsound : generated.Sound opens) (hnew : NewCertificate generated folder)
    (hplanned : Planned sha256 host generated texts command writes) {k : ℕ}
    (hmoment : ¬ (CertificateRotated host generated folder command ∧ k = 3)) :
    Restored sha256 opens posix (folder.writeAll (writes.take k)) (texts .dpCert) ∨
      ∀ host' generated', Working host' generated' → generated'.Sound opens →
        NewCertificate generated' (folder.writeAll (writes.take k)) →
        Restored sha256 opens posix ((command.repair folder k).run sha256 host' generated'
          (folder.writeAll (writes.take k))) (texts .dpCert) := by
  have hcompleted : writes.length ≤ k → Restored sha256 opens posix
      (folder.writeAll (writes.take k)) (texts .dpCert) := by
    intro hk
    rw [List.take_of_length_le hk]
    exact planned_restored h hsound hnew hplanned
  by_cases hall : writes.length ≤ k
  · exact .inl (hcompleted hall)
  by_cases hzero : k = 0
  · subst hzero
    exact .inl (h.restored rfl)
  have hguard : Guarded posix (folder.writeAll (writes.take k)) := guarded_writeAll h.guarded _
  have htexts := hasTexts_writeAll h.hasTexts (writes.take k)
  have hopen := h.opened.current
  have hcert := (pfx_shape (shapeProblem_of_contentProblem (h.consistent.shape .dpCert))).1
  have hpassword := password_ne_nil (shapeProblem_of_contentProblem (h.consistent.shape .dpCertPassword))
  right
  intro host' generated' hworking hsound' hnew'
  cases hplanned with
  | rotateLogical l applyDb filesOnly hrole happly =>
    have hplan := rotateLogical_works sha256 htexts hworking hrole happly
    have hrun : (Command.rotate (.logical l) applyDb filesOnly false).run sha256 host' generated'
        (folder.writeAll ((filesFor sha256 l (generated.credential l)).take k)) =
        (folder.writeAll ((filesFor sha256 l (generated.credential l)).take k)).writeAll
          (filesFor sha256 l (generated'.credential l)) := by
      simp [Command.run, Command.plan, secretsRotate, hguard.isDir, hplan, Command.prepared]
    have hhidden : (texts.writeAll ((filesFor sha256 l (generated.credential l)).take k)).writeAll
        (filesFor sha256 l (generated'.credential l)) =
        texts.writeAll (filesFor sha256 l (generated'.credential l)) := by
      apply writeAll_hidden
      intro w hw
      rw [filesFor_names sha256 l (generated'.credential l) (generated.credential l)]
      exact List.mem_map_of_mem (List.mem_of_mem_take hw)
    have hsame : ∀ name ∈ dpSecrets,
        texts.writeAll (filesFor sha256 l (generated'.credential l)) name = texts name :=
      fun name hname => writeAll_of_notMem texts (filesFor_notMem sha256 l _ hname)
    have hafter := hasTexts_writeAll htexts (filesFor sha256 l (generated'.credential l))
    rw [hhidden] at hafter
    have horder : InOrder sha256 opens posix _ _ :=
      ⟨guarded_writeAll hguard _, hafter,
        consistent_filesFor h.consistent
          (fun hl => isPassword_of_generated (hsound'.credential l hl))
          (credential_shaped hsound' sha256 l),
        opened_congr h.opened hsame⟩
    rw [Command.repair, hrun]
    · exact horder.restored (hsame .dpCert (by decide))
    · intro _ _ _ heq
      cases heq
  | rotateCertificate dropPrevious certificate hempty himage hcertificate hpfx =>
    have hk : k = 1 ∨ k = 2 := by
      have hthree : k ≠ 3 := by
        rintro rfl
        refine hmoment ⟨⟨dropPrevious, certificate, rfl, ?_, himage, hcertificate, hpfx⟩, rfl⟩
        exact hempty.imp_left fun hnil => by rw [h.hasTexts .dpPrevious, hnil]
      simp only [rotationWrites, List.length_cons, List.length_nil] at hall
      omega
    have hfirst := h.consistent.agreeing.write (by decide) (previous_shaped h.consistent.agreeing)
    have hold : Write.Shaped ⟨.dpPreviousPassword, texts .dpCertPassword⟩ :=
      previousPassword_shape (h.consistent.shape .dpCertPassword)
    rcases hk with rfl | rfl
    · by_cases hnil : texts .dpPrevious = []
      · have hrepair : (Command.rotate .dataprotectionCert false false dropPrevious).repair folder 1 =
            .retire .dataprotectionPrevious := by
          rw [Command.repair, if_pos ⟨rfl, (content_eq_iff h.hasTexts).mpr hnil⟩]
        rw [hrepair]
        exact retirement_repairs hguard htexts hfirst (fun hboth => hcert hboth.1) hopen rfl
      · have hrepair : (Command.rotate .dataprotectionCert false false dropPrevious).repair folder 1 =
            .rotate .dataprotectionCert false false true := by
          rw [Command.repair, if_neg]
          rintro ⟨-, hcontent⟩
          exact hnil ((content_eq_iff h.hasTexts).mp hcontent)
        rw [hrepair]
        refine rotation_repairs hguard htexts hfirst (iff_of_false hcert ?_) hopen hsound' hworking
          hnew' rfl
        exact fun hpass => hnil (h.consistent.together.mpr hpass)
    · have hrepair : (Command.rotate .dataprotectionCert false false dropPrevious).repair folder 2 =
          .rotate .dataprotectionCert false false true := by
        rw [Command.repair, if_neg]
        rintro ⟨hone, -⟩
        cases hone
      rw [hrepair]
      exact rotation_repairs hguard htexts (hfirst.write (by decide) hold)
        (iff_of_false hcert hpassword) hopen hsound' hworking hnew' rfl
  | nothingToRetire => exact absurd (Nat.zero_le k) hall
  | retirePrevious hne =>
    have hk : k = 1 := by
      simp only [List.length_cons, List.length_nil] at hall
      omega
    subst hk
    have hempty : Write.Shaped ⟨.dpPrevious, []⟩ := contentProblem_nil (by decide)
    exact retirement_repairs hguard htexts (h.consistent.agreeing.write (by decide) hempty)
      (fun hboth => hne hboth.2) hopen rfl
  | retireBootstrap =>
    simp only [List.length_cons, List.length_nil] at hall
    omega

/-! ## The moment that cannot be repaired -/

/-- The certificate is not the current one, nor the previous one beside a pair that opens. -/
structure Lost (opens : Text → Text → Prop) (certificate : Text) (texts : Texts) : Prop where
  notCurrent : texts .dpCert ≠ certificate
  mismatched : ¬ opens (texts .dpCert) (texts .dpCertPassword) ∨ texts .dpPrevious ≠ certificate

theorem Lost.not_restored {certificate : Text} (htexts : folder.HasTexts texts)
    (h : Lost opens certificate texts) : ¬ (PairsOpen opens folder ∧ Keeps opens folder certificate) := by
  rintro ⟨hpairs, p, hopen, hkeeps⟩
  have hcurrent := ((pairsOpen_iff htexts).mp hpairs).current
  simp only [content_eq_iff htexts] at hkeeps
  rcases hkeeps with hkeeps | hkeeps
  · exact h.notCurrent hkeeps.1
  · exact (h.mismatched.resolve_left (not_not_intro hcurrent)) hkeeps.1

theorem planned_lost {certificate : Text} (hne : certificate ≠ []) (h : Lost opens certificate texts)
    (hspent : generated.certificate ≠ .ok certificate) {writes : List Write}
    (hplanned : Planned sha256 host generated texts command writes) :
    Lost opens certificate (texts.writeAll writes) := by
  cases hplanned with
  | rotateLogical l =>
    have hsame : ∀ name ∈ dpSecrets,
        texts.writeAll (filesFor sha256 l (generated.credential l)) name = texts name :=
      fun name hname => writeAll_of_notMem texts (filesFor_notMem sha256 l _ hname)
    constructor
    · rw [hsame .dpCert (by decide)]
      exact h.notCurrent
    · rw [hsame .dpCert (by decide), hsame .dpCertPassword (by decide), hsame .dpPrevious (by decide)]
      exact h.mismatched
  | rotateCertificate dropPrevious fresh hempty himage hcertificate hpfx =>
    constructor
    · rintro rfl
      exact hspent hcertificate
    · exact .inr h.notCurrent
  | nothingToRetire => exact h
  | retirePrevious => exact ⟨h.notCurrent, .inr hne.symm⟩
  | retireBootstrap => exact ⟨h.notCurrent, h.mismatched⟩

/-- No command brings a lost certificate back. -/
theorem lost_run {certificate : Text} (hne : certificate ≠ []) {next : Folder}
    (hguard : Guarded posix folder) (htexts : folder.HasTexts texts) (h : Consistent sha256 texts)
    (hlost : Lost opens certificate texts)
    (hruns : Relation.ReflTransGen (Step sha256 opens posix (· = certificate)) folder next) :
    ∃ texts', Guarded posix next ∧ next.HasTexts texts' ∧ Consistent sha256 texts' ∧
      Lost opens certificate texts' := by
  induction hruns with
  | refl => exact ⟨texts, hguard, htexts, h, hlost⟩
  | tail _ hstep ih =>
    obtain ⟨texts', hguard', htexts', h', hlost'⟩ := ih
    cases hstep with
    | @run host generated command hposix hsound hnew hspent =>
      unfold Command.run
      cases hplan : command.plan sha256 host generated _ with
      | error problem => exact ⟨texts', hguard', htexts', h', hlost'⟩
      | ok writes =>
        have hplanned := plan_cases hguard'.isDir htexts' h' hplan
        have hcertificate : generated.certificate ≠ .ok certificate := fun heq => hspent _ heq rfl
        dsimp only
        rw [hplanned.prepared]
        exact ⟨_, guarded_writeAll hguard' writes, hasTexts_writeAll htexts' writes,
          planned_consistent h' hsound (hnew.ne htexts') hplanned,
          planned_lost hne hlost' hcertificate hplanned⟩

theorem killed_eq (hguard : Guarded posix folder) (htexts : folder.HasTexts texts)
    (h : Consistent sha256 texts) (host : Host) (generated : Generated) (command : Command) (k : ℕ) :
    command.killed sha256 host generated folder k = folder ∨
      ∃ writes, Planned sha256 host generated texts command writes ∧
        command.killed sha256 host generated folder k = folder.writeAll (writes.take k) := by
  unfold Command.killed
  cases hplan : command.plan sha256 host generated folder with
  | error problem => exact .inl rfl
  | ok writes =>
    have hplanned := plan_cases hguard.isDir htexts h hplan
    dsimp only
    rw [hplanned.prepared]
    exact .inr ⟨writes, hplanned, rfl⟩

end Repair

/-! ### A sample -/

def laterPassword : Text := List.replicate 48 'c'

def sampleOpens (certificate password : Text) : Prop :=
  password = if certificate = "AAAA".toList then samplePassword else laterPassword

def laterGenerated (certificate : Text) : Generated where
  credential
    | .userIdHashKey => List.replicate 43 'A' ++ ['=']
    | _ => List.replicate 48 'b'
  certificate := .ok certificate
  certificatePassword := laterPassword

theorem laterGenerated_sound {certificate : Text} (h : certificate ≠ "AAAA".toList) :
    (laterGenerated certificate).Sound sampleOpens := by
  refine ⟨fun l hl => ?_, ⟨List.replicate 43 'A', by decide, by decide, rfl⟩, ⟨rfl, ?_⟩, ?_⟩
  · have hcredential : (laterGenerated certificate).credential l = List.replicate 48 'b' := by
      cases l
      case userIdHashKey => exact absurd rfl hl
      all_goals rfl
    rw [hcredential]
    exact ⟨rfl, by decide⟩
  · have hpassword : laterPassword.all isAlnum = true := by decide
    exact hpassword
  · intro c hc
    cases hc
    exact (if_neg h).symm

theorem laterGenerated_fresh : Fresh (laterGenerated "BBBB".toList) sampleFolder := by
  have hnew : ∀ name ∈ secretFileNames, List.replicate 48 'b' ≠ sampleTexts name ∧
      List.replicate 43 'A' ++ ['='] ≠ sampleTexts name ∧ "BBBB".toList ≠ sampleTexts name ∧
      laterPassword ≠ sampleTexts name := by
    decide +kernel
  intro name t ht
  obtain rfl : sampleTexts name = t := Content.text.inj (Option.some.inj ht)
  obtain ⟨hcredential, hkey, hcertificate, hpassword⟩ := hnew name (mem_secretFileNames name)
  refine ⟨fun l => ?_, fun heq => hcertificate (Except.ok.inj heq), hpassword⟩
  cases l
  case userIdHashKey => exact hkey
  all_goals exact hcredential

theorem sample_pairsOpen : PairsOpen sampleOpens sampleFolder :=
  ⟨⟨_, _, rfl, rfl, rfl⟩, .inl rfl⟩

def emptyFolder : Folder := ⟨true, 0o700, true, [], fun _ => none⟩

theorem emptyFolder_virgin : Virgin emptyFolder := ⟨fun _ => rfl, rfl, fun _ => rfl⟩

theorem init_emptyFolder : ∃ writes, Command.init.plan sampleSha256 sampleHost
    (laterGenerated "BBBB".toList) emptyFolder = .ok writes := by
  have hpair : generateCertificatePair sampleHost (laterGenerated "BBBB".toList) =
      .ok ("BBBB".toList, laterPassword) := by
    have hpfx : pfxShapeProblem "BBBB".toList = none := by decide +kernel
    simp only [generateCertificatePair, sampleHost, laterGenerated, hpfx]
  have hnone : emptyFolder.existing secretFileNames = [] := rfl
  have hmode : ¬ (emptyFolder.isDir = true ∧ sampleHost.posix = true ∧
      emptyFolder.mode &&& 0o077 ≠ 0) := by decide
  refine ⟨credentialFiles sampleSha256 (laterGenerated "BBBB".toList) ++
    certificateFiles "BBBB".toList laterPassword, ?_⟩
  rw [Command.plan, secretsInit, if_neg (by decide), if_neg (by decide), if_neg (by simp [hnone]),
    if_neg hmode, hpair]
  rfl

section Theorems
variable (sha256 : Text → Digest) (opens : Text → Text → Prop)

/-- What a killed command leaves is in order, or one command puts it in order whatever the
generators give it; but a rotation that was killed after the new certificate and before its
password leaves what no run of commands can put in order without losing the old certificate. -/
theorem killed_command_repaired_or_lost (hone : ∀ c p q, opens c p → opens c q → p = q) (host : Host)
    (folder : Folder) (hvalid : secretProblems sha256 host.posix folder = [])
    (hopen : PairsOpen opens folder) (current : Text)
    (hcurrent : folder.content .dpCert = some (.text current)) (generated : Generated)
    (hsound : generated.Sound opens) (hfresh : Fresh generated folder) (command : Command) (k : ℕ) :
    let killed := command.killed sha256 host generated folder k
    (¬ (CertificateRotated host generated folder command ∧ k = 3) →
      Restored sha256 opens host.posix killed current ∨
        ∀ host' generated', Working host' generated' → generated'.Sound opens →
          NewCertificate generated' killed → Restored sha256 opens host.posix
            ((command.repair folder k).run sha256 host' generated' killed) current) ∧
    (CertificateRotated host generated folder command ∧ k = 3 → ∀ next,
      Relation.ReflTransGen (Step sha256 opens host.posix (· = current)) killed next →
        ¬ (PairsOpen opens next ∧ Keeps opens next current)) := by
  obtain ⟨texts, h⟩ := inOrder_iff.mpr ⟨hvalid, hopen⟩
  obtain rfl : texts .dpCert = current := (content_eq_iff h.hasTexts).mp hcurrent
  have hnew : NewCertificate generated folder := fun t ht => (hfresh _ t ht).2.1
  intro killed
  constructor
  · intro hmoment
    rcases killed_eq h.guarded h.hasTexts h.consistent host generated command k with
      hsame | ⟨writes, hplanned, hkilled⟩
    · have hrestored : Restored sha256 opens host.posix killed (texts .dpCert) := by
        rw [show killed = folder from hsame]
        exact h.restored rfl
      exact .inl hrestored
    · rw [show killed = folder.writeAll (writes.take k) from hkilled]
      exact killed_repaired h hsound hnew hplanned hmoment
  · rintro ⟨⟨dropPrevious, certificate, rfl, hempty, himage, hcertificate, hpfx⟩, rfl⟩ next hruns
    have hprevious : texts .dpPrevious = [] ∨ dropPrevious = true :=
      hempty.imp_left fun hcontent => (content_eq_iff h.hasTexts).mp hcontent
    have hplan := (plan_rotation host generated false false dropPrevious h.guarded.isDir h.hasTexts
      h.consistent _).mpr ⟨rfl, rfl, hprevious, himage, certificate, hcertificate, hpfx, rfl⟩
    have hkilled : killed = folder.writeAll ((rotationWrites texts certificate
        generated.certificatePassword).take 3) := by
      change Command.killed sha256 host generated folder _ 3 = _
      rw [Command.killed, hplan]
      rfl
    have hcert : certificate ≠ texts .dpCert := by
      rintro rfl
      exact hnew.ne h.hasTexts hcertificate
    have hmismatch : ¬ opens certificate (texts .dpCertPassword) := by
      intro hopens
      have hsame := hone _ _ _ hopens (hsound.opens certificate hcertificate)
      exact (hfresh _ _ (h.hasTexts .dpCertPassword)).2.2 hsame.symm
    have hhalf : Consistent sha256 (halfRotated texts certificate) :=
      halfRotated_consistent h.consistent hpfx hcert.symm
    have hne := (pfx_shape (shapeProblem_of_contentProblem (h.consistent.shape .dpCert))).1
    have hlost : Lost opens (texts .dpCert) (halfRotated texts certificate) :=
      ⟨hcert, .inl hmismatch⟩
    rw [hkilled] at hruns
    obtain ⟨texts', -, htexts', -, hlost⟩ := lost_run hne (guarded_writeAll h.guarded _)
      (hasTexts_writeAll h.hasTexts _) hhalf hlost hruns
    exact hlost.not_restored htexts'

theorem killed_command_repaired_or_lost_sample :
    (∀ k, k ≠ 3 → Restored sampleSha256 sampleOpens true (rotateSample.killed sampleSha256 sampleHost
        (laterGenerated "BBBB".toList) sampleFolder k) "AAAA".toList ∨
      ∀ host' generated', Working host' generated' → generated'.Sound sampleOpens →
        NewCertificate generated' (rotateSample.killed sampleSha256 sampleHost
          (laterGenerated "BBBB".toList) sampleFolder k) →
        Restored sampleSha256 sampleOpens true ((rotateSample.repair sampleFolder k).run sampleSha256
          host' generated' (rotateSample.killed sampleSha256 sampleHost
            (laterGenerated "BBBB".toList) sampleFolder k)) "AAAA".toList) ∧
    ∀ next, Relation.ReflTransGen (Step sampleSha256 sampleOpens true (· = "AAAA".toList))
        (rotateSample.killed sampleSha256 sampleHost (laterGenerated "BBBB".toList) sampleFolder 3)
        next →
      ¬ (PairsOpen sampleOpens next ∧ Keeps sampleOpens next "AAAA".toList) := by
  have happly := killed_command_repaired_or_lost sampleSha256 sampleOpens
    (fun c p q hp hq => hp.trans hq.symm) sampleHost sampleFolder sample_valid sample_pairsOpen
    "AAAA".toList rfl (laterGenerated "BBBB".toList) (laterGenerated_sound (by decide))
    laterGenerated_fresh rotateSample
  have hrotated : CertificateRotated sampleHost (laterGenerated "BBBB".toList) sampleFolder
      rotateSample := ⟨false, "BBBB".toList, rfl, .inl rfl, rfl, rfl, by decide +kernel⟩
  exact ⟨fun k hk => (happly k).1 fun hboth => hk hboth.2, (happly 3).2 ⟨hrotated, rfl⟩⟩

variable (posix : Bool)

/-- Folders of a stack whose secrets began with a completed `secrets init`. A command that was
killed is followed by its repair; one moment of a rotation is left out. -/
inductive Reached : Folder → Prop
  | init {folder : Folder} {host : Host} {generated : Generated} {writes : List Write} :
      Virgin folder → host.posix = posix → generated.Sound opens →
      Command.init.plan sha256 host generated folder = .ok writes →
      Reached (Command.init.run sha256 host generated folder)
  | step {folder next : Folder} : Reached folder → Step sha256 opens posix (fun _ => False) folder next →
      Reached next
  | repaired {folder : Folder} {host host' : Host} {generated generated' : Generated}
      (command : Command) (k : ℕ) : Reached folder →
      host.posix = posix → generated.Sound opens → NewCertificate generated folder →
      ¬ (CertificateRotated host generated folder command ∧ k = 3) →
      host'.posix = posix → generated'.Sound opens → Working host' generated' →
      NewCertificate generated' (command.killed sha256 host generated folder k) →
      Reached ((command.repair folder k).run sha256 host' generated'
        (command.killed sha256 host generated folder k))

/-- A stack's secrets stay in order over every run of commands, of which any may be killed. -/
theorem reached_in_order {folder : Folder} (h : Reached sha256 opens posix folder) :
    secretProblems sha256 posix folder = [] ∧ PairsOpen opens folder := by
  rw [← inOrder_iff]
  induction h with
  | init hvirgin hposix hsound hplan =>
    subst hposix
    exact init_inOrder hvirgin hsound hplan
  | step _ hstep ih =>
    obtain ⟨texts, hinorder⟩ := ih
    cases hstep with
    | run command hposix hsound hnew => exact run_inOrder hinorder hsound hnew _ command
  | @repaired folder host host' generated generated' command k _ hposix hsound hnew hmoment hposix'
      hsound' hworking hnew' ih =>
    obtain ⟨texts, hinorder⟩ := ih
    have hrerun : Restored sha256 opens posix (command.killed sha256 host generated folder k)
        (texts .dpCert) → ∃ texts', InOrder sha256 opens posix ((command.repair folder k).run sha256
          host' generated' (command.killed sha256 host generated folder k)) texts' := by
      intro hrestored
      obtain ⟨_, hkilled⟩ := inOrder_iff.mpr ⟨hrestored.1, hrestored.2.1⟩
      exact run_inOrder hkilled hsound' hnew' host' _
    rcases killed_eq hinorder.guarded hinorder.hasTexts hinorder.consistent host generated command k
      with hsame | ⟨writes, hplanned, hkilled⟩
    · apply hrerun
      rw [hsame]
      exact hinorder.restored rfl
    · rw [hkilled] at hnew' hrerun ⊢
      rcases killed_repaired hinorder hsound hnew hplanned hmoment with hrestored | hrepaired
      · exact hrerun hrestored
      · have hrestored := hrepaired host' generated' hworking hsound' hnew'
        exact inOrder_iff.mpr ⟨hrestored.1, hrestored.2.1⟩

theorem reached_in_order_sample :
    secretProblems sampleSha256 true (rotateSample.run sampleSha256 sampleHost
        (laterGenerated "CCCC".toList) (Command.init.run sampleSha256 sampleHost
          (laterGenerated "BBBB".toList) emptyFolder)) = [] ∧
      PairsOpen sampleOpens (rotateSample.run sampleSha256 sampleHost
        (laterGenerated "CCCC".toList) (Command.init.run sampleSha256 sampleHost
          (laterGenerated "BBBB".toList) emptyFolder)) := by
  obtain ⟨writes, hwrites⟩ := init_emptyFolder
  apply reached_in_order sampleSha256 sampleOpens true
  refine .step (.init emptyFolder_virgin rfl (laterGenerated_sound (by decide)) hwrites)
    (.run rotateSample rfl (laterGenerated_sound (by decide)) ?_ fun _ _ => id)
  intro t ht heq
  have hcontent : (Command.init.run sampleSha256 sampleHost (laterGenerated "BBBB".toList)
      emptyFolder).content .dpCert = some (.text "BBBB".toList) := by
    obtain ⟨-, -, certificate, hcertificate, -, -, rfl⟩ := secretsInit_ok hwrites
    obtain rfl : "BBBB".toList = certificate := Except.ok.inj hcertificate
    rw [Command.run, hwrites]
    rfl
  rw [hcontent] at ht
  cases ht
  exact absurd (Except.ok.inj heq) (by decide)

end Theorems

/-! ## A killed `secrets init` -/

section Init
variable {sha256 : Text → Digest} {opens : Text → Text → Prop} {posix : Bool} {folder : Folder}
  {host : Host} {generated : Generated}

theorem writeAll_append (folder : Folder) (before after : List Write) :
    folder.writeAll (before ++ after) = (folder.writeAll before).writeAll after :=
  List.foldl_append

theorem files_writeAll_of_notMem {writes : List Write} {name : SecretName}
    (h : name ∉ writes.map Write.name) : (folder.writeAll writes).files name = folder.files name := by
  induction writes generalizing folder with
  | nil => rfl
  | cons w writes ih =>
    rw [List.map_cons, List.mem_cons, not_or] at h
    have hrest : ((folder.write w).writeAll writes).files name = (folder.write w).files name := ih h.2
    have hfirst : (folder.write w).files name = folder.files name := if_neg h.1
    rw [← hfirst, ← hrest]
    rfl

/-- No write removes a file. -/
theorem isSome_writeAll {writes : List Write} {name : SecretName}
    (h : (folder.files name).isSome = true ∨ name ∈ writes.map Write.name) :
    ((folder.writeAll writes).files name).isSome = true := by
  induction writes generalizing folder with
  | nil => exact h.resolve_right (by simp)
  | cons w writes ih =>
    apply ih
    by_cases hname : name = w.name
    · left
      simp [Folder.write, hname]
    · rw [List.map_cons, List.mem_cons] at h
      refine h.imp (fun hsome => ?_) fun hmem => hmem.resolve_left hname
      simpa [Folder.write, hname] using hsome

theorem mem_existing {names : List SecretName} {name : SecretName} :
    name ∈ folder.existing names ↔ name ∈ names ∧ (folder.files name).isSome = true := by
  unfold Folder.existing
  exact List.mem_filter

theorem readSecret_exists {name : SecretName} {t : Text} (h : readSecret folder name = .ok t) :
    (folder.files name).isSome = true := by
  unfold readSecret Folder.content at h
  cases hfile : folder.files name with
  | none => simp [hfile] at h
  | some f => rfl

theorem except_bind_ok {α β : Type} {x : Except String α} {f : α → Except String β} {b : β}
    (h : (x >>= f) = .ok b) : ∃ a, x = .ok a ∧ f a = .ok b := by
  cases x with
  | error problem => cases h
  | ok a => exact ⟨a, rfl, h⟩

theorem rotateCertificate_replaces {dropPrevious : Bool} {writes : List Write}
    (h : rotateCertificate host generated folder dropPrevious = .ok writes) :
    ∀ name ∈ writes.map Write.name, (folder.files name).isSome = true := by
  obtain ⟨current, hcurrent, h⟩ := except_bind_ok h
  obtain ⟨currentPassword, hcurrentPassword, h⟩ := except_bind_ok h
  obtain ⟨previous, hprevious, h⟩ := except_bind_ok h
  obtain ⟨previousPassword, hpreviousPassword, h⟩ := except_bind_ok h
  obtain ⟨-, -, h⟩ := except_bind_ok h
  obtain ⟨-, -, h⟩ := except_bind_ok h
  obtain ⟨-, -, h⟩ := except_bind_ok h
  obtain ⟨-, -, h⟩ := except_bind_ok h
  split at h
  · cases h
  split at h
  · cases h
  obtain ⟨fresh, -, h⟩ := except_bind_ok h
  cases h
  intro name hname
  simp only [List.map_cons, List.map_nil, List.mem_cons, List.not_mem_nil, or_false] at hname
  rcases hname with rfl | rfl | rfl | rfl
  · exact readSecret_exists hprevious
  · exact readSecret_exists hpreviousPassword
  · exact readSecret_exists hcurrent
  · exact readSecret_exists hcurrentPassword

theorem retirePrevious_replaces {writes : List Write}
    (h : retirePreviousCertificate folder = .ok writes) :
    ∀ name ∈ writes.map Write.name, (folder.files name).isSome = true := by
  obtain ⟨previous, hprevious, h⟩ := except_bind_ok h
  obtain ⟨previousPassword, hpreviousPassword, h⟩ := except_bind_ok h
  intro name hname
  split at h
  · cases h
    simp at hname
  · cases h
    simp only [List.map_cons, List.map_nil, List.mem_cons, List.not_mem_nil, or_false] at hname
    rcases hname with rfl | rfl
    · exact readSecret_exists hprevious
    · exact readSecret_exists hpreviousPassword

theorem rotateLogical_replaces {l : Logical} {applyDb filesOnly : Bool} {writes : List Write}
    (h : rotateLogical sha256 host generated folder l applyDb filesOnly = .ok writes) :
    ∀ name ∈ writes.map Write.name, (folder.files name).isSome = true := by
  have hwrites := writes_rotateLogical h
  unfold rotateLogical at h
  split at h
  · cases h
  split at h
  · cases h
  dsimp only at h
  split at h
  · cases h
  rename_i hall
  rw [List.find?_eq_none] at hall
  intro name hname
  rw [hwrites] at hname
  obtain ⟨w, hw, rfl⟩ := List.mem_map.mp hname
  simpa [Option.isSome_iff_ne_none] using hall w hw

/-- A folder to which no command can add the file. -/
structure Stranded (folder : Folder) (name : SecretName) : Prop where
  missing : folder.files name = none
  begun : ∃ other, (folder.files other).isSome = true
  notAdded : name ∉ dpSecrets ∨ ∃ other ∈ dpSecrets, (folder.files other).isSome = true

theorem Stranded.notMem {name : SecretName} (h : Stranded folder name) {command : Command}
    {writes : List Write} (hplan : command.plan sha256 host generated folder = .ok writes) :
    name ∉ writes.map Write.name := by
  have hreplaces : (∀ name ∈ writes.map Write.name, (folder.files name).isSome = true) →
      name ∉ writes.map Write.name := by
    intro hall hmem
    have hsome := hall name hmem
    rw [h.missing] at hsome
    cases hsome
  cases command with
  | init =>
    obtain ⟨hnone, -⟩ := secretsInit_ok hplan
    obtain ⟨other, hother⟩ := h.begun
    have hmem := mem_existing.mpr ⟨mem_secretFileNames other, hother⟩
    rw [hnone] at hmem
    cases hmem
  | add =>
    simp only [Command.plan, secretsAdd] at hplan
    split at hplan
    · cases hplan
    split at hplan
    · cases hplan
    split at hplan
    · cases hplan
    rename_i hexisting
    obtain ⟨pair, -, hpair⟩ := except_bind_ok hplan
    cases hpair
    rcases h.notAdded with hnot | ⟨other, hdp, hother⟩
    · intro hmem
      apply hnot
      simpa [certificateFiles, dpSecrets] using hmem
    · refine absurd ?_ hexisting
      exact List.ne_nil_of_mem (mem_existing.mpr ⟨hdp, hother⟩)
  | rotate rotated applyDb filesOnly dropPrevious =>
    apply hreplaces
    simp only [Command.plan, secretsRotate] at hplan
    split at hplan
    · cases hplan
    split at hplan
    · cases hplan
    cases rotated with
    | logical l => exact rotateLogical_replaces hplan
    | dataprotectionCert =>
      dsimp only at hplan
      split at hplan
      · cases hplan
      · exact rotateCertificate_replaces hplan
  | retire retired =>
    apply hreplaces
    cases retired with
    | dataprotectionPrevious => exact retirePrevious_replaces hplan
    | keycloakBootstrap =>
      simp only [Command.plan, secretsRetire] at hplan
      split at hplan
      · cases hplan
      · rename_i hfile
        cases hplan
        simpa [Option.isSome_iff_ne_none] using hfile

theorem files_prepared (folder : Folder) (command : Command) : (command.prepared folder).files = folder.files := by
  cases command with
  | init =>
    simp only [Command.prepared, Folder.ensureDir]
    split <;> rfl
  | add => rfl
  | rotate => rfl
  | retire => rfl

theorem Stranded.run {name : SecretName} (h : Stranded folder name) (command : Command) :
    Stranded (command.run sha256 host generated folder) name := by
  unfold Command.run
  cases hplan : command.plan sha256 host generated folder with
  | error problem => exact h
  | ok writes =>
    have hkeep : ∀ other, (folder.files other).isSome = true →
        (((command.prepared folder).writeAll writes).files other).isSome = true := by
      intro other hother
      apply isSome_writeAll
      rw [files_prepared]
      exact .inl hother
    refine ⟨?_, ?_, ?_⟩
    · have hsame : ((command.prepared folder).writeAll writes).files name =
          (command.prepared folder).files name := files_writeAll_of_notMem (h.notMem hplan)
      rw [files_prepared, h.missing] at hsame
      exact hsame
    · obtain ⟨other, hother⟩ := h.begun
      exact ⟨other, hkeep other hother⟩
    · refine h.notAdded.imp_right ?_
      rintro ⟨other, hdp, hother⟩
      exact ⟨other, hdp, hkeep other hother⟩

theorem Stranded.runs {name : SecretName} {spent : Text → Prop} {next : Folder}
    (h : Stranded folder name)
    (hruns : Relation.ReflTransGen (Step sha256 opens posix spent) folder next) :
    Stranded next name := by
  induction hruns with
  | refl => exact h
  | tail _ hstep ih =>
    cases hstep with
    | run command hposix hsound hnew hspent => exact ih.run command

theorem Stranded.problems {name : SecretName} (h : Stranded folder name) :
    secretProblems sha256 posix folder ≠ [] := by
  intro hvalid
  obtain ⟨-, texts, htexts, -⟩ := secretProblems_eq_nil_iff.mp hvalid
  have hname := htexts name
  simp [Folder.content, h.missing] at hname

/-- The files in the order in which `secrets init` writes them. -/
def initOrder : List SecretName :=
  [.postgresSuperuserPassword, .migratorDbPassword, .connectionDecisya, .tenancyRolePassword,
    .connectionTenancy, .entitlementsRolePassword, .connectionEntitlements, .keycloakDbPassword,
    .keycloakBootstrapAdminPassword, .redisAcl, .connectionRedis, .bffClientSecret, .userIdHashKey,
    .dpCert, .dpCertPassword, .dpPrevious, .dpPreviousPassword]

theorem map_initFiles (sha256 : Text → Digest) (generated : Generated) (certificate password : Text) :
    (credentialFiles sha256 generated ++ certificateFiles certificate password).map Write.name =
      initOrder := rfl

theorem length_credentialFiles (sha256 : Text → Digest) (generated : Generated) :
    (credentialFiles sha256 generated).length = 13 := rfl

/-- After the first file and before the last credential, or among the certificate's files. -/
theorem stranded_init {writes : List Write} (hvirgin : Virgin folder)
    (hnames : writes.map Write.name = initOrder) {k : ℕ} (hzero : k ≠ 0) (hadd : k ≠ 13) (hk : k < 17) :
    ∃ name, Stranded (folder.ensureDir.writeAll (writes.take k)) name := by
  have htake : (writes.take k).map Write.name = initOrder.take k := by
    rw [List.map_take, hnames]
  have hnone : ∀ name, folder.ensureDir.files name = none := by
    intro name
    have hfiles := congrFun (files_prepared folder .init) name
    exact hfiles.trans (hvirgin.noFiles name)
  have hwritten : ∀ other ∈ initOrder.take k,
      ((folder.ensureDir.writeAll (writes.take k)).files other).isSome = true := by
    intro other hother
    apply isSome_writeAll
    rw [htake]
    exact .inr hother
  have hmissing : ∀ name, name ∉ initOrder.take k →
      (folder.ensureDir.writeAll (writes.take k)).files name = none := by
    intro name hname
    rw [files_writeAll_of_notMem (by rwa [htake]), hnone]
  have hsub : ∀ {a b : ℕ} {name : SecretName}, a ≤ b → name ∈ initOrder.take a →
      name ∈ initOrder.take b := fun hab hmem => List.take_subset_take_left initOrder hab hmem
  have hfirst : SecretName.postgresSuperuserPassword ∈ initOrder.take k :=
    hsub (Nat.pos_of_ne_zero hzero) (by decide)
  by_cases hcredentials : k ≤ 12
  · refine ⟨.userIdHashKey, hmissing _ fun hmem => ?_, ⟨_, hwritten _ hfirst⟩, .inl (by decide)⟩
    have hlate := hsub hcredentials hmem
    revert hlate
    decide
  · refine ⟨.dpPreviousPassword, hmissing _ fun hmem => ?_, ⟨_, hwritten _ hfirst⟩,
      .inr ⟨.dpCert, by decide, hwritten _ (hsub (show 14 ≤ k by omega) (by decide))⟩⟩
    have hlate := hsub (show k ≤ 16 by omega) hmem
    revert hlate
    decide

theorem secretsInit_again (hvirgin : Virgin folder) {writes : List Write}
    (hplan : secretsInit sha256 host generated folder = .ok writes) :
    secretsInit sha256 host generated folder.ensureDir = .ok writes := by
  obtain ⟨hexisting, hmode, -⟩ := secretsInit_ok hplan
  have hguard := guarded_ensureDir hvirgin hmode
  have hsame : folder.ensureDir.existing secretFileNames = [] := by
    unfold Folder.existing at hexisting ⊢
    rw [← hexisting]
    have hfiles := files_prepared folder .init
    rw [Command.prepared] at hfiles
    rw [hfiles]
  have hmode' : ¬ (folder.ensureDir.isDir = true ∧ host.posix = true ∧
      folder.ensureDir.mode &&& 0o077 ≠ 0) := by
    rintro ⟨-, hbad⟩
    have hno := hguard.noProblem
    simp only [folderProblems, List.append_eq_nil_iff, ite_singleton_eq_nil] at hno
    exact hno.1 hbad
  unfold secretsInit at hplan ⊢
  simp only [hexisting, hmode, hsame, hmode', ne_eq, not_true_eq_false, if_false] at hplan ⊢
  exact hplan

theorem secretsAdd_works (hguard : Guarded host.posix folder) (hnone : folder.existing dpSecrets = [])
    {pair : Text × Text} (hpair : generateCertificatePair host generated = .ok pair) :
    secretsAdd host generated folder = .ok (certificateFiles pair.1 pair.2) := by
  have hno := hguard.noProblem
  simp only [folderProblems, List.append_eq_nil_iff, ite_singleton_eq_nil] at hno
  unfold secretsAdd
  simp [hguard.isDir, hno.1, hnone, hpair, bind, Except.bind, pure, Except.pure]

end Init

/-- A killed `secrets init` can be completed exactly when no file is written yet, when all
credentials are and no certificate file is, or when all files are. -/
theorem init_killed_recoverable_iff (sha256 : Text → Digest) (opens : Text → Text → Prop)
    (host : Host) (folder : Folder) (hvirgin : Virgin folder) (generated : Generated)
    (hsound : generated.Sound opens) (writes : List Write)
    (hplan : Command.init.plan sha256 host generated folder = .ok writes) (k : ℕ) :
    (∃ next, Relation.ReflTransGen (Step sha256 opens host.posix fun _ => False)
        (Command.init.killed sha256 host generated folder k) next ∧
          secretProblems sha256 host.posix next = []) ↔
      k = 0 ∨ k = 13 ∨ 17 ≤ k := by
  have hinit := hplan
  obtain ⟨hexisting, hmode, certificate, hcertificate, hpfx, hpair, rfl⟩ := secretsInit_ok hplan
  have hguard := guarded_ensureDir hvirgin hmode
  have hkilled : Command.init.killed sha256 host generated folder k = folder.ensureDir.writeAll
      ((credentialFiles sha256 generated ++
        certificateFiles certificate generated.certificatePassword).take k) := by
    rw [Command.killed, hinit]
    rfl
  have hvalid : secretProblems sha256 host.posix (folder.ensureDir.writeAll
      (credentialFiles sha256 generated ++
        certificateFiles certificate generated.certificatePassword)) = [] :=
    (inOrder_iff.mp (initFiles_inOrder hguard hsound hsound hcertificate hpfx)).1
  rw [hkilled]
  constructor
  · rintro ⟨next, hruns, hvalid⟩
    by_contra hnot
    obtain ⟨name, hstranded⟩ := stranded_init hvirgin
      (map_initFiles sha256 generated certificate generated.certificatePassword)
      (show k ≠ 0 by omega) (show k ≠ 13 by omega) (show k < 17 by omega)
    exact (hstranded.runs hruns).problems hvalid
  · rintro (rfl | rfl | hk)
    · -- nothing is written: `secrets init` again
      have hrun : Command.init.run sha256 host generated folder.ensureDir = folder.ensureDir.writeAll
          (credentialFiles sha256 generated ++
            certificateFiles certificate generated.certificatePassword) := by
        have hsame : folder.ensureDir.ensureDir = folder.ensureDir := if_pos hguard.isDir
        rw [Command.run, Command.plan, secretsInit_again hvirgin hinit, Command.prepared, hsame]
      refine ⟨_, .single (.run .init rfl hsound (fun t ht => ?_) fun _ _ => id), ?_⟩
      · have hnone : folder.ensureDir.files .dpCert = none := by
          have hfiles := congrFun (files_prepared folder .init) .dpCert
          exact hfiles.trans (hvirgin.noFiles _)
        simp [Folder.content, Folder.writeAll, hnone] at ht
      · rw [List.take_zero]
        change secretProblems sha256 host.posix
          (Command.init.run sha256 host generated folder.ensureDir) = []
        rw [hrun]
        exact hvalid
    · -- the certificate is missing: `secrets add`
      have htake : (credentialFiles sha256 generated ++ certificateFiles certificate
          generated.certificatePassword).take 13 = credentialFiles sha256 generated :=
        List.take_left' (length_credentialFiles sha256 generated)
      have hnone : ∀ name ∈ dpSecrets,
          (folder.ensureDir.writeAll (credentialFiles sha256 generated)).files name = none := by
        intro name hname
        have hnot : name ∉ (credentialFiles sha256 generated).map Write.name := by
          revert name
          simp [credentialFiles, logicalSecrets, filesFor, dpSecrets]
        have hfiles := congrFun (files_prepared folder .init) name
        rw [files_writeAll_of_notMem hnot]
        exact hfiles.trans (hvirgin.noFiles name)
      have hmissing : (folder.ensureDir.writeAll (credentialFiles sha256 generated)).existing
          dpSecrets = [] := by
        apply List.filter_eq_nil_iff.mpr
        intro name hname
        simp [hnone name hname]
      have hrun : Command.add.run sha256 host generated
          (folder.ensureDir.writeAll (credentialFiles sha256 generated)) = folder.ensureDir.writeAll
            (credentialFiles sha256 generated ++
              certificateFiles certificate generated.certificatePassword) := by
        have hplan := secretsAdd_works (guarded_writeAll hguard (credentialFiles sha256 generated))
          hmissing hpair
        rw [Command.run, Command.plan, hplan, writeAll_append]
        rfl
      rw [htake]
      refine ⟨_, .single (.run .add rfl hsound (fun t ht => ?_) fun _ _ => id), ?_⟩
      · simp [Folder.content, hnone .dpCert (by decide)] at ht
      · rw [hrun]
        exact hvalid
    · refine ⟨_, .refl, ?_⟩
      have hall : (credentialFiles sha256 generated ++ certificateFiles certificate
          generated.certificatePassword).length ≤ k := by
        rw [List.length_append, length_credentialFiles]
        exact hk
      rw [List.take_of_length_le hall]
      exact hvalid

theorem init_killed_recoverable_sample :
    (∃ next, Relation.ReflTransGen (Step sampleSha256 sampleOpens true fun _ => False)
        (Command.init.killed sampleSha256 sampleHost (laterGenerated "BBBB".toList) emptyFolder 13)
        next ∧ secretProblems sampleSha256 true next = []) ∧
      ¬ ∃ next, Relation.ReflTransGen (Step sampleSha256 sampleOpens true fun _ => False)
        (Command.init.killed sampleSha256 sampleHost (laterGenerated "BBBB".toList) emptyFolder 5)
        next ∧ secretProblems sampleSha256 true next = [] := by
  obtain ⟨writes, hwrites⟩ := init_emptyFolder
  have hiff := init_killed_recoverable_iff sampleSha256 sampleOpens sampleHost emptyFolder
    emptyFolder_virgin (laterGenerated "BBBB".toList) (laterGenerated_sound (by decide)) writes hwrites
  constructor
  · exact (hiff 13).mpr (by decide)
  · exact fun h => absurd ((hiff 5).mp h) (by decide)

end Decisya.Deploy
