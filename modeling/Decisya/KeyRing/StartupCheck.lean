import Decisya.KeyRing.FileRules

/-!
# The start-up check of the key ring

The check refuses a ring with a live key that the configured certificates do not open, and logs
the latest expiration among the live keys that only the previous certificate opens. The operator
retires the previous certificate after that date plus the session lifetime. Time is counted in
nanoseconds.
-/

namespace Decisya.KeyRing

open Text.Xml

set_option autoImplicit false

/-! ## Dates and their texts -/

namespace DateTimeOffset

/-- `Instant.FromDateTimeOffset` -/
def instant (d : DateTimeOffset) : ℤ := d.ticks * 100

def toCalendar (d : DateTimeOffset) : Calendar.Instant :=
  ⟨d.date, d.tick / 10, by have h := d.tick_valid; unfold Calendar.dayMicros; omega⟩

/-- `ToString("u")`: a fraction of a second is not written. -/
def toUniversal (d : DateTimeOffset) : Str :=
  d.date.isoformat ++ ' ' :: (d.toCalendar.clock ++ ['Z'])

/-- The start of the second. -/
def wholeSecond (d : DateTimeOffset) : ℤ := d.instant - d.instant % 1000000000

end DateTimeOffset

section Read

open Calendar

/-- The instant of a text `yyyy-MM-dd HH:mm:ssZ`. -/
def readUniversal (s : Str) : Option ℤ := do
  let date ← Date.fromisoformat? (s.take 10)
  match s.drop 10 with
  | [' ', h1, h2, ':', m1, m2, ':', s1, s2, 'Z'] =>
    let t ← Instant.of? date (← number [h1, h2]) (← number [m1, m2]) (← number [s1, s2]) 0
    some (t.total * 1000)
  | _ => none

/-- What is read back has lost the fraction of the second. -/
theorem readUniversal_toUniversal (d : DateTimeOffset) :
    readUniversal d.toUniversal = some d.wholeSecond := by
  have hlen : d.date.isoformat.length = 10 := rfl
  have htake : d.toUniversal.take 10 = d.date.isoformat := by
    rw [DateTimeOffset.toUniversal, ← hlen, List.take_left]
  have hdrop : d.toUniversal.drop 10 = ' ' :: (d.toCalendar.clock ++ ['Z']) := by
    rw [DateTimeOffset.toUniversal, ← hlen, List.drop_left]
  have hhour : number (twoDigits d.toCalendar.hour) = some d.toCalendar.hour :=
    number_twoDigits (by have h := d.toCalendar.hour_lt; omega)
  have hminute : number (twoDigits d.toCalendar.minute) = some d.toCalendar.minute :=
    number_twoDigits (by have h := d.toCalendar.minute_lt; omega)
  have hsecond : number (twoDigits d.toCalendar.second) = some d.toCalendar.second :=
    number_twoDigits (by have h := d.toCalendar.second_lt; omega)
  have hread : readUniversal d.toUniversal = (do
      let date ← Date.fromisoformat? d.date.isoformat
      let t ← Instant.of? date (← number (twoDigits d.toCalendar.hour))
        (← number (twoDigits d.toCalendar.minute)) (← number (twoDigits d.toCalendar.second)) 0
      some (t.total * 1000)) := by
    unfold readUniversal
    rw [htake, hdrop]
    rfl
  have hclock : Instant.of? d.date d.toCalendar.hour d.toCalendar.minute d.toCalendar.second 0
      = some d.toCalendar.floor := d.toCalendar.of?_clock
  have hfloor : ((d.toCalendar.floor.total : ℤ) * 1000) = d.wholeSecond := by
    unfold DateTimeOffset.wholeSecond DateTimeOffset.instant DateTimeOffset.ticks Instant.floor
      Instant.total DateTimeOffset.toCalendar dayMicros
    dsimp only
    omega
  rw [hread, Date.fromisoformat?_isoformat, hhour, hminute, hsecond]
  change (Instant.of? d.date _ _ _ 0).bind _ = _
  rw [hclock, Option.bind_some, hfloor]

theorem readUniversal_none : readUniversal "none".toList = none := by decide

end Read

/-! ## The check -/

structure KeyRingCheckSettings where
  currentFingerprint : Option Str
  previousFingerprint : Option Str

/-- A key as `IKeyManager` gives it: the certificates that wrap it decide whether its descriptor
can be read. -/
structure Key where
  keyId : Str
  expiration : DateTimeOffset
  isRevoked : Bool
  certificates : List Str

structure CheckFailed where
  rule : String
  keyId : Option Str

/-- Whether the folder is there, and its Unix mode where it has one. -/
structure Folder where
  isThere : Bool
  mode : Option ℕ

/-- What a start finds: the folder, the keys unless they cannot be read, the inspected files. -/
structure Volume where
  folder : Folder
  keys : Option (List Key)
  files : List KeyFileInfo

def sessionLifetime : ℤ := 36000000000000

/-- Read, write and execute for the group and for others. -/
def forbiddenDirectoryBits : ℕ := 63

def userWrite : ℕ := 128

def checkDirectory (folder : Folder) : Except CheckFailed Unit :=
  if !folder.isThere then .error ⟨"directory_missing", none⟩
  else
    match folder.mode with
    | none => .ok ()
    | some mode =>
      if mode &&& forbiddenDirectoryBits ≠ 0 ∨ mode &&& userWrite = 0 then
        .error ⟨"directory_mode", none⟩
      else .ok ()

def ruleOf : KeyFileVerdict → String
  | .plaintextMaterial => "key_file_plaintext"
  | .notCertificateWrapped => "key_file_not_certificate_wrapped"
  | .notRegularFile => "key_file_not_regular"
  | _ => "key_file_unreadable"

section Check

variable (settings : KeyRingCheckSettings) (cutoff : ℤ)

/-- The descriptor of a key can be read with one of the certificates that wrap it. -/
def unwraps (key : Key) : Bool :=
  key.certificates.any fun c =>
    settings.currentFingerprint == some c || settings.previousFingerprint == some c

/-- Every live key decrypts. -/
def checkKeys : List Key → Except CheckFailed Unit
  | [] => .ok ()
  | key :: keys =>
    if key.isRevoked || key.expiration.instant ≤ cutoff then checkKeys keys
    else if unwraps settings key then checkKeys keys
    else .error ⟨"key_undecryptable", some key.keyId⟩

/-- The expiration of a live file that only the previous certificate opens. -/
def previousOnly (info : KeyFileInfo) : Option DateTimeOffset :=
  match settings.previousFingerprint, info.expiration with
  | some previous, some expiration =>
    if cutoff < expiration.instant && info.wrappingFingerprints.contains previous &&
        (match settings.currentFingerprint with
          | none => true
          | some current => !info.wrappingFingerprints.contains current) then
      some expiration
    else none
  | _, _ => none

def laterOf : Option DateTimeOffset → Option DateTimeOffset → Option DateTimeOffset
  | latest, none => latest
  | none, some expiration => some expiration
  | some latest, some expiration =>
    if latest.instant < expiration.instant then some expiration else some latest

/-- Every file is certificate-wrapped; `latest` is the latest expiration so far. -/
def checkFiles : Option DateTimeOffset → List KeyFileInfo → Except CheckFailed (Option DateTimeOffset)
  | latest, [] => .ok latest
  | latest, info :: files =>
    if info.verdict ≠ .ok then .error ⟨ruleOf info.verdict, info.keyId⟩
    else checkFiles (laterOf latest (previousOnly settings cutoff info)) files

end Check

/-- The text of event 1831, which is logged only with a previous certificate. -/
def run (settings : KeyRingCheckSettings) (now : ℤ) (volume : Volume) :
    Except CheckFailed (Option Str) := do
  checkDirectory volume.folder
  let cutoff := now - sessionLifetime
  match volume.keys with
  | none => .error ⟨"key_ring_unreadable", none⟩
  | some keys =>
    checkKeys settings cutoff keys
    let latest ← checkFiles settings cutoff none volume.files
    if settings.previousFingerprint.isSome then
      return some ((latest.map DateTimeOffset.toUniversal).getD "none".toList)
    else return none

/-! ## What the check reads -/

section Spec

variable {settings : KeyRingCheckSettings} {cutoff : ℤ}

theorem checkKeys_eq_ok {keys : List Key} : checkKeys settings cutoff keys = .ok () ↔
    ∀ key ∈ keys, key.isRevoked = false → cutoff < key.expiration.instant →
      unwraps settings key = true := by
  induction keys with
  | nil =>
    constructor
    · intro _ key hkey
      cases hkey
    · intro _
      rfl
  | cons key keys ih =>
    rw [checkKeys, List.forall_mem_cons]
    split
    · rename_i hskip
      rw [ih, iff_and_self]
      intro _ hrevoked hlive
      rw [hrevoked, Bool.false_or, decide_eq_true_eq] at hskip
      omega
    · rename_i hlive
      split
      · rename_i hopen
        rw [ih, iff_and_self]
        intro _ _ _
        exact hopen
      · rename_i hclosed
        constructor
        · intro h
          cases h
        · rintro ⟨h, -⟩
          rw [Bool.or_eq_true, decide_eq_true_eq, not_or, Bool.not_eq_true] at hlive
          exact absurd (h hlive.1 (by omega)) hclosed

theorem laterOf_spec (latest expiration : Option DateTimeOffset) :
    (∀ e, latest = some e ∨ expiration = some e →
        ∃ m, laterOf latest expiration = some m ∧ e.instant ≤ m.instant) ∧
      ∀ m, laterOf latest expiration = some m → latest = some m ∨ expiration = some m := by
  cases expiration with
  | none =>
    constructor
    · rintro e (rfl | h)
      · exact ⟨e, rfl, Int.le_refl _⟩
      · cases h
    · exact fun m hm => Or.inl hm
  | some expiration =>
    cases latest with
    | none =>
      constructor
      · rintro e (h | h)
        · cases h
        · cases h
          exact ⟨expiration, rfl, Int.le_refl _⟩
      · exact fun m hm => Or.inr hm
    | some latest =>
      rw [laterOf]
      split
      · rename_i hlt
        constructor
        · rintro e (h | h)
          · cases h
            exact ⟨expiration, rfl, hlt.le⟩
          · cases h
            exact ⟨expiration, rfl, Int.le_refl _⟩
        · exact fun m hm => Or.inr hm
      · rename_i hge
        constructor
        · rintro e (h | h)
          · cases h
            exact ⟨latest, rfl, Int.le_refl _⟩
          · cases h
            exact ⟨latest, rfl, not_lt.mp hge⟩
        · exact fun m hm => Or.inl hm

/-- The result is the latest of what counts. -/
theorem checkFiles_eq_ok {files : List KeyFileInfo} {latest result : Option DateTimeOffset}
    (h : checkFiles settings cutoff latest files = .ok result) :
    (∀ e, (latest = some e ∨ ∃ info ∈ files, previousOnly settings cutoff info = some e) →
        ∃ m, result = some m ∧ e.instant ≤ m.instant) ∧
      ∀ m, result = some m →
        latest = some m ∨ ∃ info ∈ files, previousOnly settings cutoff info = some m := by
  induction files generalizing latest with
  | nil =>
    cases h
    constructor
    · rintro e (rfl | ⟨info, hinfo, -⟩)
      · exact ⟨e, rfl, Int.le_refl _⟩
      · cases hinfo
    · exact fun m hm => Or.inl hm
  | cons info files ih =>
    rw [checkFiles] at h
    split at h
    · cases h
    · obtain ⟨hle, hmem⟩ := ih h
      obtain ⟨hfirst, hone⟩ := laterOf_spec latest (previousOnly settings cutoff info)
      constructor
      · intro e he
        have hcase : (latest = some e ∨ previousOnly settings cutoff info = some e) ∨
            ∃ info ∈ files, previousOnly settings cutoff info = some e := by
          rcases he with he | ⟨other, hother, he⟩
          · exact Or.inl (Or.inl he)
          · rcases List.mem_cons.mp hother with rfl | hother
            · exact Or.inl (Or.inr he)
            · exact Or.inr ⟨other, hother, he⟩
        rcases hcase with hcase | hcase
        · obtain ⟨first, hlater, hlefirst⟩ := hfirst e hcase
          obtain ⟨m, hm, hlem⟩ := hle first (Or.inl hlater)
          exact ⟨m, hm, hlefirst.trans hlem⟩
        · exact hle e (Or.inr hcase)
      · intro m hm
        rcases hmem m hm with hlater | ⟨other, hother, h⟩
        · rcases hone m hlater with h | h
          · exact Or.inl h
          · exact Or.inr ⟨info, List.mem_cons_self, h⟩
        · exact Or.inr ⟨other, List.mem_cons_of_mem info hother, h⟩

/-- A passed check with a previous certificate has logged a text. -/
theorem run_eq_ok {now : ℤ} {volume : Volume} {text : Option Str} {previous : Str}
    (hprevious : settings.previousFingerprint = some previous)
    (h : run settings now volume = .ok text) :
    ∃ keys latest, volume.keys = some keys ∧
      checkKeys settings (now - sessionLifetime) keys = .ok () ∧
      checkFiles settings (now - sessionLifetime) none volume.files = .ok latest ∧
      text = some ((latest.map DateTimeOffset.toUniversal).getD "none".toList) := by
  unfold run at h
  simp only [hprevious, Option.isSome_some, if_true] at h
  cases hfolder : checkDirectory volume.folder with
  | error failed =>
    rw [hfolder] at h
    cases h
  | ok =>
    rw [hfolder] at h
    cases hkeys : volume.keys with
    | none =>
      rw [hkeys] at h
      cases h
    | some keys =>
      rw [hkeys] at h
      cases hcheck : checkKeys settings (now - sessionLifetime) keys with
      | error failed =>
        change (checkKeys settings (now - sessionLifetime) keys).bind _ = _ at h
        rw [hcheck] at h
        cases h
      | ok =>
        change (checkKeys settings (now - sessionLifetime) keys).bind _ = _ at h
        rw [hcheck] at h
        change (checkFiles settings (now - sessionLifetime) none volume.files).bind _ = _ at h
        cases hfiles : checkFiles settings (now - sessionLifetime) none volume.files with
        | error failed =>
          rw [hfiles] at h
          cases h
        | ok latest =>
          rw [hfiles] at h
          cases h
          exact ⟨keys, latest, rfl, hcheck, rfl, rfl⟩

end Spec

/-! ## Retiring the previous certificate -/

section Retire

variable (current previous : Str)

/-- Each key's file names exactly the certificates that wrap it. -/
structure Describes (keys : List Key) (files : List KeyFileInfo) : Prop where
  file : ∀ key ∈ keys, ∃ info ∈ files, info.expiration = some key.expiration ∧
    info.wrappingFingerprints = key.certificates
  key : ∀ info ∈ files, info.wrappingFingerprints ≠ [] → ∃ key ∈ keys,
    info.expiration = some key.expiration ∧ info.wrappingFingerprints = key.certificates

/-- Keys are only added, each wrapped by the current certificate. -/
structure Later (keys later : List Key) : Prop where
  kept : ∀ key ∈ keys, key ∈ later
  added : ∀ key ∈ later, key ∈ keys ∨ current ∈ key.certificates

/-- Whenever the operator acts on the text of the event, the current certificate alone passes. -/
def SafeToRetire (keys : List Key) (now : ℤ) (text : Str) : Prop :=
  ∀ later, Later current keys later → ∀ t,
    (∀ date, readUniversal text = some date → date + sessionLifetime < t) →
    (readUniversal text = none → now < t) →
    checkKeys ⟨some current, none⟩ (t - sessionLifetime) later = .ok ()

/-- A live key that only the previous certificate opens. -/
structure Counts (now : ℤ) (key : Key) : Prop where
  live : now - sessionLifetime < key.expiration.instant
  previous : previous ∈ key.certificates
  notCurrent : current ∉ key.certificates

/-- No key that the current certificate does not open outlives the seconds of the keys that
count, if any count. -/
def WithinSecond (keys : List Key) (now : ℤ) : Prop :=
  (∃ key ∈ keys, Counts current previous now key) →
    ∀ key ∈ keys, key.isRevoked = false → current ∉ key.certificates →
      ∃ last ∈ keys, Counts current previous now last ∧
        key.expiration.instant ≤ last.expiration.wholeSecond

variable {current previous}

theorem previousOnly_eq_some {cutoff : ℤ} {info : KeyFileInfo} {e : DateTimeOffset} :
    previousOnly ⟨some current, some previous⟩ cutoff info = some e ↔
      info.expiration = some e ∧ cutoff < e.instant ∧ previous ∈ info.wrappingFingerprints ∧
        current ∉ info.wrappingFingerprints := by
  unfold previousOnly
  cases info.expiration with
  | none => simp
  | some expiration =>
    simp only [Option.ite_none_right_eq_some, Option.some.injEq, Bool.and_eq_true,
      decide_eq_true_eq, Bool.not_eq_true', List.contains_eq_mem, decide_eq_false_iff_not]
    constructor
    · rintro ⟨⟨⟨hlive, hprevious⟩, hcurrent⟩, rfl⟩
      exact ⟨rfl, hlive, hprevious, hcurrent⟩
    · rintro ⟨rfl, hlive, hprevious, hcurrent⟩
      exact ⟨⟨⟨hlive, hprevious⟩, hcurrent⟩, rfl⟩

variable {keys : List Key} {files : List KeyFileInfo} {now : ℤ}

/-- A file counts for the date exactly as a key does. -/
theorem exists_file_iff (hfiles : Describes keys files) {e : DateTimeOffset} :
    (∃ info ∈ files, previousOnly ⟨some current, some previous⟩ (now - sessionLifetime) info = some e) ↔
      ∃ key ∈ keys, Counts current previous now key ∧ key.expiration = e := by
  constructor
  · rintro ⟨info, hinfo, h⟩
    obtain ⟨hexpiration, hlive, hprevious, hcurrent⟩ := previousOnly_eq_some.mp h
    obtain ⟨key, hkey, hsame, hcertificates⟩ := hfiles.key info hinfo (List.ne_nil_of_mem hprevious)
    rw [hexpiration, Option.some.injEq] at hsame
    rw [hcertificates] at hprevious hcurrent
    rw [hsame] at hlive
    exact ⟨key, hkey, ⟨hlive, hprevious, hcurrent⟩, hsame.symm⟩
  · rintro ⟨key, hkey, hcounts, rfl⟩
    obtain ⟨info, hinfo, hexpiration, hcertificates⟩ := hfiles.file key hkey
    refine ⟨info, hinfo, previousOnly_eq_some.mpr ⟨hexpiration, hcounts.live, ?_, ?_⟩⟩
    · rw [hcertificates]
      exact hcounts.previous
    · rw [hcertificates]
      exact hcounts.notCurrent

/-- The text is the latest expiration among the keys that count, or there is no such key. -/
theorem logged_text (hfiles : Describes keys files) {latest : Option DateTimeOffset}
    (h : checkFiles ⟨some current, some previous⟩ (now - sessionLifetime) none files = .ok latest) :
    (latest = none ∧ ∀ key ∈ keys, ¬ Counts current previous now key) ∨
      ∃ last ∈ keys, Counts current previous now last ∧ latest = some last.expiration ∧
        ∀ key ∈ keys, Counts current previous now key →
          key.expiration.instant ≤ last.expiration.instant := by
  obtain ⟨hle, hmem⟩ := checkFiles_eq_ok h
  have hbound : ∀ key ∈ keys, Counts current previous now key →
      ∃ m, latest = some m ∧ key.expiration.instant ≤ m.instant := by
    intro key hkey hcounts
    exact hle _ (Or.inr ((exists_file_iff hfiles).mpr ⟨key, hkey, hcounts, rfl⟩))
  cases latest with
  | none =>
    left
    refine ⟨rfl, ?_⟩
    intro key hkey hcounts
    obtain ⟨m, hm, -⟩ := hbound key hkey hcounts
    cases hm
  | some m =>
    right
    have hfile := (hmem m rfl).resolve_left (by intro hnone; cases hnone)
    obtain ⟨last, hlast, hcounts, rfl⟩ := (exists_file_iff hfiles).mp hfile
    refine ⟨last, hlast, hcounts, rfl, ?_⟩
    intro key hkey hother
    obtain ⟨m, hm, hle⟩ := hbound key hkey hother
    cases hm
    exact hle

theorem wholeSecond_le (d : DateTimeOffset) : d.wholeSecond ≤ d.instant := by
  unfold DateTimeOffset.wholeSecond
  omega

theorem wholeSecond_mono {d e : DateTimeOffset} (h : d.instant ≤ e.instant) :
    d.wholeSecond ≤ e.wholeSecond := by
  unfold DateTimeOffset.wholeSecond
  omega

/-- Instants of dates are a tick apart. -/
theorem wholeSecond_add_one_lt {d e : DateTimeOffset} (h : e.wholeSecond < d.instant) :
    e.wholeSecond + 1 < d.instant := by
  unfold DateTimeOffset.wholeSecond DateTimeOffset.instant at *
  omega

theorem later_refl (keys : List Key) : Later current keys keys :=
  ⟨fun _ hkey => hkey, fun _ hkey => Or.inl hkey⟩

/-- The current certificate alone opens nothing but the keys it wraps. -/
theorem checkKeys_current_eq_ok {cutoff : ℤ} {later : List Key} :
    checkKeys ⟨some current, none⟩ cutoff later = .ok () ↔
      ∀ key ∈ later, key.isRevoked = false → current ∉ key.certificates →
        key.expiration.instant ≤ cutoff := by
  rw [checkKeys_eq_ok]
  apply forall₂_congr
  intro key _
  apply forall_congr'
  intro _
  have hopen : unwraps ⟨some current, none⟩ key = true ↔ current ∈ key.certificates := by
    simp [unwraps]
  rw [hopen, ← not_lt]
  tauto

theorem safeToRetire_iff {volume : Volume} {text : Str} (hkeys : volume.keys = some keys)
    (hfiles : Describes keys volume.files)
    (hrun : run ⟨some current, some previous⟩ now volume = .ok (some text)) :
    SafeToRetire current keys now text ↔ WithinSecond current previous keys now := by
  obtain ⟨_, latest, hsame, hcheck, hlatest, htext⟩ := run_eq_ok rfl hrun
  rw [hkeys, Option.some.injEq] at hsame
  subst hsame
  rw [Option.some.injEq] at htext
  have hopened : ∀ key ∈ keys, key.isRevoked = false → current ∉ key.certificates →
      now - sessionLifetime < key.expiration.instant → Counts current previous now key := by
    intro key hkey hrevoked hcurrent hlive
    have hopen := checkKeys_eq_ok.mp hcheck key hkey hrevoked hlive
    obtain ⟨c, hc, hmatch⟩ := List.any_eq_true.mp hopen
    rw [Bool.or_eq_true, beq_iff_eq, beq_iff_eq, Option.some.injEq, Option.some.injEq] at hmatch
    rcases hmatch with rfl | rfl
    · exact absurd hc hcurrent
    · exact ⟨hlive, hc, hcurrent⟩
  rcases logged_text hfiles hlatest with ⟨rfl, hnone⟩ | ⟨last, hlast, hcounts, rfl, hmax⟩
  · have hread : readUniversal text = none := by
      rw [htext]
      exact readUniversal_none
    constructor
    · rintro - ⟨key, hkey, hcounts⟩
      exact absurd hcounts (hnone key hkey)
    · intro _ later hlater t _ ht
      apply checkKeys_current_eq_ok.mpr
      intro key hkey hrevoked hcurrent
      have hold := (hlater.added key hkey).resolve_right hcurrent
      by_contra hlive
      have hnow := ht hread
      exact hnone key hold (hopened key hold hrevoked hcurrent (by omega))
  · have hread : readUniversal text = some last.expiration.wholeSecond := by
      rw [htext]
      exact readUniversal_toUniversal last.expiration
    constructor
    · intro hsafe _ key hkey hrevoked hcurrent
      refine ⟨last, hlast, hcounts, ?_⟩
      by_contra hbeyond
      -- a nanosecond after the date of the text the key is still live
      have hpass := hsafe keys (later_refl keys)
        (last.expiration.wholeSecond + sessionLifetime + 1)
        (by intro date hdate; rw [hread] at hdate; cases hdate; omega)
        (by intro hnone; rw [hread] at hnone; cases hnone)
      have hdead := checkKeys_current_eq_ok.mp hpass key hkey hrevoked hcurrent
      have hlive := wholeSecond_add_one_lt (not_le.mp hbeyond)
      omega
    · intro hwithin later hlater t ht _
      apply checkKeys_current_eq_ok.mpr
      intro key hkey hrevoked hcurrent
      have hold := (hlater.added key hkey).resolve_right hcurrent
      obtain ⟨other, hother, hothercounts, hle⟩ :=
        hwithin ⟨last, hlast, hcounts⟩ key hold hrevoked hcurrent
      have hmono := wholeSecond_mono (hmax other hother hothercounts)
      have hdate := ht _ hread
      omega

end Retire

/-! ## A ring with one key -/

theorem lastDay_isSome : (Calendar.Date.of? 2026 10 1).isSome = true := by decide

def lastDay : Calendar.Date := (Calendar.Date.of? 2026 10 1).get lastDay_isSome

def halfPast (half : Bool) : ℕ := if half then 432005000000 else 432000000000

theorem halfPast_lt (half : Bool) : halfPast half < 864000000000 := by
  cases half <;> decide

/-- A key of the previous certificate that expires at noon or half a second later. -/
def previousKey (half : Bool) : Key :=
  ⟨"k".toList, ⟨lastDay, halfPast half, halfPast_lt half⟩, false, ["B".toList]⟩

def previousVolume (half : Bool) : Volume where
  folder := ⟨true, some 448⟩
  keys := some [previousKey half]
  files := [⟨.ok, some "k".toList, some (previousKey half).expiration, ["B".toList]⟩]

theorem describes_previousVolume (half : Bool) :
    Describes [previousKey half] (previousVolume half).files where
  file := by
    intro key hkey
    cases List.mem_singleton.mp hkey
    exact ⟨_, List.mem_cons_self, rfl, rfl⟩
  key := by
    intro info hinfo _
    cases List.mem_singleton.mp hinfo
    exact ⟨_, List.mem_cons_self, rfl, rfl⟩

theorem run_previousVolume (half : Bool) :
    run ⟨some "A".toList, some "B".toList⟩ 0 (previousVolume half)
      = .ok (some (previousKey half).expiration.toUniversal) := by
  cases half <;> rfl

theorem safeToRetire_at_noon :
    SafeToRetire "A".toList [previousKey false] 0 (previousKey false).expiration.toUniversal := by
  apply (safeToRetire_iff rfl (describes_previousVolume false) (run_previousVolume false)).mpr
  intro _ key hkey _ _
  refine ⟨_, List.mem_cons_self, ⟨by decide +kernel, by decide, by decide⟩, ?_⟩
  rw [List.mem_singleton.mp hkey]
  decide +kernel

/-- The text names noon, and the key lives for half a second more. -/
theorem previous_certificate_needed : ¬ ∀ (current previous : Str) (keys : List Key) (now : ℤ)
    (volume : Volume) (text : Str), volume.keys = some keys → Describes keys volume.files →
    run ⟨some current, some previous⟩ now volume = .ok (some text) →
    SafeToRetire current keys now text := by
  intro h
  have hsafe := h _ _ _ _ _ _ rfl (describes_previousVolume true) (run_previousVolume true)
  have hread := readUniversal_toUniversal (previousKey true).expiration
  have hpass := hsafe _ (later_refl _)
    ((previousKey true).expiration.wholeSecond + sessionLifetime + 1)
    (by
      intro date hdate
      rw [hread, Option.some.injEq] at hdate
      rw [← hdate]
      exact lt_add_one _)
    (by
      intro hnone
      rw [hread] at hnone
      exact absurd hnone (Option.some_ne_none _))
  have hdead := checkKeys_current_eq_ok.mp hpass _ List.mem_cons_self rfl (by decide)
  exact absurd hdead (by decide +kernel)

end Decisya.KeyRing
