import Decisya.Deploy.IdentitySql
import Decisya.Text.Numeral
import Decisya.Text.UrlSplit

/-!
# The reports of the two checks

The identity check and the key-ring check print lines of the form `key=value`. The parser takes a
report only where the lines are those of its table, each key once, and it never repeats a line.
-/

namespace Decisya.Deploy

open Python (Str strip before after)
open IdentitySql (splitLines)

set_option autoImplicit false

inductive Kind where
  | flag
  | count
  deriving DecidableEq

inductive Fact where
  | flag (b : Bool)
  | count (n : ℕ)
  deriving DecidableEq

def Fact.kind : Fact → Kind
  | flag _ => .flag
  | count _ => .count

/-- What a report tells, in the order of its lines. -/
abbrev Facts := List (Str × Fact)

/-- The table of a report. Only where `flags` holds may a value be `true` or `false`. -/
structure ReportForm where
  subject : Str
  keys : List (Str × Kind)
  tags : List Str
  isKeyChar : Char → Bool
  flags : Bool

section Parser
variable (form : ReportForm)

/-- `0|[1-9][0-9]{0,8}`, and the two flags. -/
def readValue (s : Str) : Option Fact :=
  if Numeral.isCanonical s = true ∧ s.length ≤ 9 then some (.count (Numeral.value s))
  else if form.flags = true ∧ s = "true".toList then some (.flag true)
  else if form.flags = true ∧ s = "false".toList then some (.flag false)
  else none

def readLine (line : Str) : Option (Str × Fact) :=
  let key := before '=' line
  if line.contains '=' = true ∧ key ≠ [] ∧ key.all form.isKeyChar = true then
    (readValue form (after '=' line)).map fun value => (key, value)
  else none

def kindOf (key : Str) : Option Kind :=
  (form.keys.find? fun entry => decide (entry.1 = key)).map Prod.snd

def hasKey (facts : Facts) (key : Str) : Bool := facts.any fun fact => decide (fact.1 = key)

/-- A line that carries nothing. -/
def isBlank (line : Str) : Bool := line.isEmpty || form.tags.contains line

def complain (text : String) : Str := form.subject ++ text.toList

def addLine (facts : Facts) (raw : Str) : Except Str Facts :=
  let line := strip raw
  if isBlank form line = true then .ok facts
  else match readLine form line with
    | none => .error (complain form " printed a line that is not key=value")
    | some (key, value) =>
      match kindOf form key with
      | none => .error (complain form " printed an unknown key")
      | some kind =>
        if hasKey facts key = true then .error (complain form " printed a key twice")
        else match kind, value with
          | .flag, .count _ => .error (complain form " printed a number where a flag belongs")
          | .count, .flag _ => .error (complain form " printed a flag where a count belongs")
          | _, _ => .ok (facts ++ [(key, value)])

def addLines : List Str → Facts → Except Str Facts
  | [], facts => .ok facts
  | raw :: rest, facts =>
    match addLine form facts raw with
    | .ok facts' => addLines rest facts'
    | .error message => .error message

def parseReport (text : Str) : Except Str Facts :=
  match addLines form (splitLines text) [] with
  | .error message => .error message
  | .ok facts =>
    if form.keys.all (fun entry => hasKey facts entry.1) = true then .ok facts
    else .error (complain form " did not print all " ++ Nat.toDigits 10 form.keys.length ++ " keys".toList)

end Parser

/-! ## The two tables -/

def isIdentityKeyChar (c : Char) : Bool :=
  (decide (97 ≤ c.toNat) && decide (c.toNat ≤ 122)) || Numeral.isDigit c || c == '_'

def isKeyringKeyChar (c : Char) : Bool := (decide (97 ≤ c.toNat) && decide (c.toNat ≤ 122)) || c == '_'

def identityForm : ReportForm where
  subject := "the identity check".toList
  keys := [("realm_present".toList, .flag), ("ssl_required_all".toList, .flag),
    ("events_enabled".toList, .flag), ("admin_events_enabled".toList, .flag),
    ("admin_events_details_off".toList, .flag), ("events_expiration_ok".toList, .flag),
    ("admin_events_expiration_ok".toList, .flag), ("jboss_logging_listener".toList, .flag),
    ("browser_flow_ok".toList, .flag), ("level_2_admin_conditional".toList, .flag),
    ("level_2_tenant_conditional".toList, .flag), ("password_policy_ok".toList, .flag),
    ("breached_list_in_policy".toList, .flag), ("users_total".toList, .count),
    ("users_without_synthetic".toList, .count), ("master_users_without_otp".toList, .count),
    ("bff_secret_unresolved".toList, .flag), ("bff_secret_short".toList, .flag),
    ("bff_redirect_unresolved".toList, .flag), ("bff_logout_uris_unresolved".toList, .flag),
    ("master_brute_force_ok".toList, .flag)]
  tags := ["BEGIN".toList, "ROLLBACK".toList]
  isKeyChar := isIdentityKeyChar
  flags := true

def keyringForm : ReportForm where
  subject := "the key-ring check".toList
  keys := [("refused_entries".toList, .count), ("xml_files".toList, .count), ("xml_ok".toList, .count),
    ("xml_failing".toList, .count), ("other_files".toList, .count), ("wrong_owner".toList, .count),
    ("wrong_mode".toList, .count)]
  tags := []
  isKeyChar := isKeyringKeyChar
  flags := false

def parseIdentityOutput (text : Str) : Except Str Facts := parseReport identityForm text

def parseKeyringReport (text : Str) : Except Str Facts := parseReport keyringForm text

/-! ## What is wrong by a report -/

/-- `facts[key]` -/
def flagOf (facts : Facts) (key : String) : Bool :=
  match (facts.find? fun fact => decide (fact.1 = key.toList)).map Prod.snd with
  | some (.flag b) => b
  | _ => false

def countOf (facts : Facts) (key : String) : ℕ :=
  match (facts.find? fun fact => decide (fact.1 = key.toList)).map Prod.snd with
  | some (.count n) => n
  | _ => 0

def onOff (b : Bool) : Str := if b = true then "on".toList else "off".toList

/-- The flags that a present realm has to show, with what is wrong otherwise. -/
def expectations : List (String × Bool × String) :=
  [("ssl_required_all", true, "the realm does not require TLS for every request"),
    ("events_enabled", true, "login events are off"),
    ("admin_events_enabled", true, "admin events are off"),
    ("admin_events_details_off", true, "admin event details are on (they would carry credentials)"),
    ("events_expiration_ok", true, "login event retention is not 90 days"),
    ("admin_events_expiration_ok", true, "admin event retention is not 90 days"),
    ("jboss_logging_listener", false,
      "the jboss-logging event listener is on (names and addresses would reach the container log)"),
    ("browser_flow_ok", true, "the browser flow is not decisya-browser"),
    ("level_2_admin_conditional", true,
      "the administrator second-factor step is not conditional (admin MFA is off)"),
    ("password_policy_ok", true, "the password policy lacks a required part"),
    ("bff_secret_unresolved", false, "the decisya-bff client secret holds an unresolved placeholder"),
    ("bff_secret_short", false, "the decisya-bff client secret is missing or shorter than 32 characters"),
    ("bff_redirect_unresolved", false, "a decisya-bff redirect URI holds a placeholder or a wildcard"),
    ("bff_logout_uris_unresolved", false, "a decisya-bff logout URI holds a placeholder or a wildcard")]

/-- `[text]` where the condition holds. -/
def problemWhen (bad : Bool) (text : Str) : List Str := if bad = true then [text] else []

def identityPrefix : Str := "identity check: ".toList

/-- The realm as it should be, and no real account while a switch is off. -/
def realmProblems (facts : Facts) : List Str :=
  let count := countOf facts "users_without_synthetic"
  let tenantMfa := flagOf facts "level_2_tenant_conditional"
  let breached := flagOf facts "breached_list_in_policy"
  (expectations.flatMap fun e => problemWhen (flagOf facts e.1 != e.2.1) (identityPrefix ++ e.2.2.toList)) ++
    problemWhen (decide (0 < count) && !(tenantMfa && breached))
      (identityPrefix ++ Nat.toDigits 10 count ++
        " user(s) without synthetic=true while a C-02 switch is off (tenant MFA ".toList ++ onOff tenantMfa ++
        ", breached-password list ".toList ++ onOff breached ++ "); see the go-live gate".toList)

def identityProblems (facts : Facts) (bootstrapRetired : Bool) : List Str :=
  let withoutOtp := countOf facts "master_users_without_otp"
  (if flagOf facts "realm_present" = false then
    [identityPrefix ++ ("realm decisya is missing (Keycloak has not imported it yet, or its database " ++
      "was recreated)").toList]
  else realmProblems facts) ++
    problemWhen (bootstrapRetired && decide (0 < withoutOtp))
      (identityPrefix ++ Nat.toDigits 10 withoutOtp ++
        (" master-realm user(s) or service account(s) without an OTP credential after the bootstrap " ++
          "secret was retired").toList) ++
    problemWhen (bootstrapRetired && !flagOf facts "master_brute_force_ok")
      (identityPrefix ++ "master realm brute-force detection is off".toList)

def keyringProblems (facts : Facts) : List Str :=
  let refused := countOf facts "refused_entries"
  let failing := countOf facts "xml_failing"
  let owner := countOf facts "wrong_owner"
  let mode := countOf facts "wrong_mode"
  problemWhen (decide (0 < refused)) ("key ring: ".toList ++ Nat.toDigits 10 refused ++
      (" entr(y/ies) are neither a file nor a folder (a link, pipe, socket or device); inspect the " ++
        "volume by hand").toList) ++
    problemWhen (decide (0 < failing)) ("key ring: ".toList ++ Nat.toDigits 10 failing ++
      (" key file(s) are plaintext or not wrapped by the certificate; run `keyring reset --confirm` " ++
        "(everyone signs in again)").toList) ++
    problemWhen (decide (0 < owner) || decide (0 < mode)) ("key ring: ".toList ++ Nat.toDigits 10 owner ++
      " entr(y/ies) have the wrong owner and ".toList ++ Nat.toDigits 10 mode ++
      " the wrong mode; run `keyring prepare`".toList)

/-! ## What the parser takes -/

/-- How a value is printed. -/
def Fact.text : Fact → Str
  | flag true => "true".toList
  | flag false => "false".toList
  | count n => Nat.toDigits 10 n

def factLine (fact : Str × Fact) : Str := fact.1 ++ '=' :: fact.2.text

/-- The fact is of the kind the table gives its key, and a count has at most nine digits. -/
structure Fits (form : ReportForm) (fact : Str × Fact) : Prop where
  kind : (fact.1, fact.2.kind) ∈ form.keys
  bound : ∀ n, fact.2 = .count n → n < 1000000000

/-- The lines that carry something. -/
def linesOf (form : ReportForm) (text : Str) : List Str :=
  ((splitLines text).map strip).filter fun line => !isBlank form line

/-- What the parser may say of a report it does not take. -/
def complaints (form : ReportForm) : List Str :=
  [complain form " printed a line that is not key=value", complain form " printed an unknown key",
    complain form " printed a key twice", complain form " printed a number where a flag belongs",
    complain form " printed a flag where a count belongs",
    complain form " did not print all " ++ Nat.toDigits 10 form.keys.length ++ " keys".toList]

structure ReportForm.Lawful (form : ReportForm) : Prop where
  nodup : (form.keys.map Prod.fst).Nodup
  nonempty : ∀ entry ∈ form.keys, entry.1 ≠ []
  chars : ∀ entry ∈ form.keys, entry.1.all form.isKeyChar = true
  equals : form.isKeyChar '=' = false
  flags : ∀ entry ∈ form.keys, entry.2 = .flag → form.flags = true
  tags : ∀ tag ∈ form.tags, tag.contains '=' = false

section Spec
variable {form : ReportForm} {facts facts' : Facts} {line raw key s : Str} {fact : Str × Fact}

theorem kindOf_eq_some (hform : form.Lawful) (kind : Kind) :
    kindOf form key = some kind ↔ (key, kind) ∈ form.keys := by
  unfold kindOf
  constructor
  · intro h
    obtain ⟨entry, hfound, rfl⟩ := Option.map_eq_some_iff.mp h
    have hkey := List.find?_some hfound
    rw [decide_eq_true_iff] at hkey
    subst hkey
    exact List.mem_of_find?_eq_some hfound
  · intro h
    have hsome : (form.keys.find? fun entry => decide (entry.1 = key)).isSome := by
      rw [List.find?_isSome]
      exact ⟨_, h, decide_eq_true rfl⟩
    obtain ⟨entry, hfound⟩ := Option.isSome_iff_exists.mp hsome
    have hkey := List.find?_some hfound
    rw [decide_eq_true_iff] at hkey
    have hsame := List.inj_on_of_nodup_map hform.nodup (List.mem_of_find?_eq_some hfound) h hkey
    rw [hfound, hsame]
    rfl

theorem hasKey_iff : hasKey facts key = true ↔ key ∈ facts.map Prod.fst := by
  unfold hasKey
  rw [List.any_eq_true, List.mem_map]
  simp only [decide_eq_true_eq]

theorem readValue_eq_count (n : ℕ) :
    readValue form s = some (.count n) ↔ s = Nat.toDigits 10 n ∧ n < 1000000000 := by
  unfold readValue
  constructor
  · intro h
    split at h
    · rename_i hs
      cases h
      have htext := (Numeral.isCanonical_iff s).mp hs.1
      refine ⟨htext.symm, ?_⟩
      have hlength := hs.2
      rw [← htext] at hlength
      exact (Nat.length_toDigits_le_iff (by decide) (by decide)).mp hlength
    · split at h
      · cases h
      · split at h <;> cases h
  · rintro ⟨rfl, hn⟩
    have hvalue : Numeral.value (Nat.toDigits 10 n) = n := Nat.ofDigitChars_ten_toDigits
    rw [if_pos, hvalue]
    rw [Numeral.isCanonical_iff, hvalue]
    exact ⟨rfl, (Nat.length_toDigits_le_iff (by decide) (by decide)).mpr hn⟩

theorem readValue_eq_flag (b : Bool) :
    readValue form s = some (.flag b) ↔ form.flags = true ∧ s = Fact.text (.flag b) := by
  unfold readValue
  constructor
  · intro h
    split at h
    · cases h
    · split at h
      · rename_i hs
        cases h
        exact hs
      · split at h
        · rename_i hs
          cases h
          exact hs
        · cases h
  · rintro ⟨hflags, rfl⟩
    cases b with
    | true =>
      rw [if_neg (by decide), if_pos ⟨hflags, rfl⟩]
    | false =>
      rw [if_neg (by decide), if_neg (by rintro ⟨-, h⟩; revert h; decide), if_pos ⟨hflags, rfl⟩]

theorem readValue_text {value : Fact} (h : readValue form s = some value) : s = value.text := by
  cases value with
  | flag b => exact ((readValue_eq_flag b).mp h).2
  | count n => exact ((readValue_eq_count n).mp h).1

theorem readLine_eq_some (hequals : form.isKeyChar '=' = false) :
    readLine form line = some fact ↔
      fact.1 ≠ [] ∧ fact.1.all form.isKeyChar = true ∧ readValue form fact.2.text = some fact.2 ∧
        line = factLine fact := by
  unfold readLine
  dsimp only
  constructor
  · intro h
    split at h
    · rename_i hline
      obtain ⟨hmem, hne, hchars⟩ := hline
      obtain ⟨value, hvalue, rfl⟩ := Option.map_eq_some_iff.mp h
      have htext := readValue_text hvalue
      have hparts := Python.partition_eq (List.contains_iff_mem.mp hmem)
      rw [htext] at hvalue hparts
      exact ⟨hne, hchars, hvalue, hparts⟩
    · cases h
  · rintro ⟨hne, hchars, hvalue, rfl⟩
    have hkey : '=' ∉ fact.1 := by
      intro hmem
      have h := List.all_eq_true.mp hchars '=' hmem
      rw [hequals] at h
      cases h
    unfold factLine
    rw [Python.before_append hkey, Python.after_append hkey, hvalue, if_pos]
    · rfl
    · exact ⟨List.contains_iff_mem.mpr (by simp), hne, hchars⟩

theorem fits_iff (hform : form.Lawful) :
    Fits form fact ↔ readValue form fact.2.text = some fact.2 ∧ kindOf form fact.1 = some fact.2.kind := by
  rw [kindOf_eq_some hform]
  constructor
  · intro h
    refine ⟨?_, h.kind⟩
    cases hfact : fact.2 with
    | flag b =>
      have hkind := h.kind
      rw [hfact] at hkind
      exact (readValue_eq_flag b).mpr ⟨hform.flags _ hkind rfl, rfl⟩
    | count n => exact (readValue_eq_count n).mpr ⟨rfl, h.bound n hfact⟩
  · rintro ⟨hvalue, hkind⟩
    refine ⟨hkind, fun n hn => ?_⟩
    rw [hn] at hvalue
    exact ((readValue_eq_count n).mp hvalue).2

theorem addLine_blank (h : isBlank form (strip raw) = true) : addLine form facts raw = .ok facts := by
  unfold addLine
  dsimp only
  rw [if_pos h]

/-- A line that carries something adds its fact. -/
theorem addLine_eq_ok (hform : form.Lawful) (h : isBlank form (strip raw) = false) :
    addLine form facts raw = .ok facts' ↔
      ∃ fact, strip raw = factLine fact ∧ Fits form fact ∧ fact.1 ∉ facts.map Prod.fst ∧
        facts' = facts ++ [fact] := by
  unfold addLine
  dsimp only
  rw [h, if_neg Bool.false_ne_true]
  cases hread : readLine form (strip raw) with
  | none =>
    refine iff_of_false (fun h => nomatch h) ?_
    rintro ⟨fact, hline, hfits, -, -⟩
    have hentry := hfits.kind
    have hsome := (readLine_eq_some hform.equals).mpr
      ⟨hform.nonempty _ hentry, hform.chars _ hentry, ((fits_iff hform).mp hfits).1, hline⟩
    rw [hread] at hsome
    cases hsome
  | some fact =>
    obtain ⟨key, value⟩ := fact
    obtain ⟨hne, hchars, hvalue, hline⟩ := (readLine_eq_some hform.equals).mp hread
    -- The fact that the line reads as is the only one it is printed from.
    have honly : ∀ fact, strip raw = factLine fact → Fits form fact → fact = (key, value) := by
      intro fact hsame hfits
      have hentry := hfits.kind
      have hsome := (readLine_eq_some hform.equals).mpr
        ⟨hform.nonempty _ hentry, hform.chars _ hentry, ((fits_iff hform).mp hfits).1, hsame⟩
      rw [hread] at hsome
      exact (Option.some.inj hsome).symm
    have hright : (∃ fact, strip raw = factLine fact ∧ Fits form fact ∧ fact.1 ∉ facts.map Prod.fst ∧
        facts' = facts ++ [fact]) ↔
        kindOf form key = some value.kind ∧ hasKey facts key = false ∧ facts' = facts ++ [(key, value)] := by
      constructor
      · rintro ⟨fact, hsame, hfits, hnew, rfl⟩
        cases honly fact hsame hfits
        refine ⟨((fits_iff hform).mp hfits).2, ?_, rfl⟩
        rw [← Bool.not_eq_true, hasKey_iff]
        exact hnew
      · rintro ⟨hkind, hnew, rfl⟩
        refine ⟨(key, value), hline, (fits_iff hform).mpr ⟨hvalue, hkind⟩, ?_, rfl⟩
        rw [← hasKey_iff, hnew]
        exact Bool.false_ne_true
    rw [hright]
    dsimp only
    cases hkind : kindOf form key with
    | none => simp
    | some kind =>
      cases hnew : hasKey facts key with
      | true => simp
      | false =>
        cases kind <;> cases value <;> simp [Fact.kind, eq_comm]

theorem addLines_eq_ok (hform : form.Lawful) (lines : List Str) :
    addLines form lines facts = .ok facts' ↔
      ∃ new, facts' = facts ++ new ∧
        ((lines.map strip).filter fun line => !isBlank form line) = new.map factLine ∧
        (∀ fact ∈ new, Fits form fact ∧ fact.1 ∉ facts.map Prod.fst) ∧ (new.map Prod.fst).Nodup := by
  induction lines generalizing facts with
  | nil =>
    unfold addLines
    constructor
    · intro h
      cases h
      exact ⟨[], by simp⟩
    · rintro ⟨new, rfl, hlines, -, -⟩
      rw [List.map_nil, List.filter_nil, eq_comm, List.map_eq_nil_iff] at hlines
      rw [hlines, List.append_nil]
  | cons raw lines ih =>
    unfold addLines
    rw [List.map_cons, List.filter_cons]
    cases hblank : isBlank form (strip raw) with
    | true =>
      rw [addLine_blank hblank, Bool.not_true, if_neg Bool.false_ne_true]
      exact ih
    | false =>
      rw [Bool.not_false, if_pos rfl]
      have hline : ∀ facts₁, addLine form facts raw = .ok facts₁ ↔ ∃ fact, strip raw = factLine fact ∧
          Fits form fact ∧ fact.1 ∉ facts.map Prod.fst ∧ facts₁ = facts ++ [fact] :=
        fun facts₁ => addLine_eq_ok hform hblank
      constructor
      · intro h
        cases hadd : addLine form facts raw with
        | error message => rw [hadd] at h; cases h
        | ok facts₁ =>
          rw [hadd] at h
          obtain ⟨fact, hsame, hfits, hnew, rfl⟩ := (hline facts₁).mp hadd
          obtain ⟨new, rfl, hlines, hall, hnodup⟩ := ih.mp h
          refine ⟨fact :: new, by simp, by rw [hlines, hsame, List.map_cons], ?_, ?_⟩
          · intro other hother
            rcases List.mem_cons.mp hother with rfl | hother
            · exact ⟨hfits, hnew⟩
            · refine ⟨(hall other hother).1, fun hmem => (hall other hother).2 ?_⟩
              rw [List.map_append]
              exact List.mem_append_left _ hmem
          · rw [List.map_cons, List.nodup_cons]
            refine ⟨fun hmem => ?_, hnodup⟩
            obtain ⟨other, hother, heq⟩ := List.mem_map.mp hmem
            apply (hall other hother).2
            rw [heq, List.map_append]
            exact List.mem_append_right _ (by simp)
      · rintro ⟨new, rfl, hlines, hall, hnodup⟩
        cases new with
        | nil => cases hlines
        | cons fact new =>
          rw [List.map_cons, List.cons.injEq] at hlines
          rw [List.map_cons, List.nodup_cons] at hnodup
          have hadd := (hline (facts ++ [fact])).mpr
            ⟨fact, hlines.1, (hall fact List.mem_cons_self).1, (hall fact List.mem_cons_self).2, rfl⟩
          rw [hadd]
          refine ih.mpr ⟨new, by simp, hlines.2, fun other hother => ?_, hnodup.2⟩
          have h := hall other (List.mem_cons_of_mem _ hother)
          refine ⟨h.1, fun hmem => ?_⟩
          rw [List.map_append, List.mem_append] at hmem
          rcases hmem with hmem | hmem
          · exact h.2 hmem
          · rw [List.map_singleton, List.mem_singleton] at hmem
            exact hnodup.1 (List.mem_map.mpr ⟨other, hother, hmem⟩)

/-- The parser takes the reports whose lines are those of the table, each key once. -/
theorem parseReport_eq_ok (hform : form.Lawful) (text : Str) :
    parseReport form text = .ok facts ↔
      linesOf form text = facts.map factLine ∧ (facts.map Prod.fst).Perm (form.keys.map Prod.fst) ∧
        ∀ fact ∈ facts, Fits form fact := by
  have hspec : ∀ facts, addLines form (splitLines text) [] = .ok facts ↔
      linesOf form text = facts.map factLine ∧ (∀ fact ∈ facts, Fits form fact) ∧
        (facts.map Prod.fst).Nodup := by
    intro facts
    rw [addLines_eq_ok hform]
    simp only [List.nil_append, exists_eq_left', List.map_nil, List.not_mem_nil, not_false_eq_true, and_true]
    rfl
  have hall : ∀ facts : Facts, form.keys.all (fun entry => hasKey facts entry.1) = true ↔
      ∀ key ∈ form.keys.map Prod.fst, key ∈ facts.map Prod.fst := by
    intro facts
    simp only [List.all_eq_true, hasKey_iff, List.mem_map, forall_exists_index, and_imp,
      forall_apply_eq_imp_iff₂]
  have hkeys : ∀ facts : Facts, (∀ fact ∈ facts, Fits form fact) →
      ∀ key ∈ facts.map Prod.fst, key ∈ form.keys.map Prod.fst := by
    intro facts hfits key hkey
    obtain ⟨fact, hfact, rfl⟩ := List.mem_map.mp hkey
    exact List.mem_map.mpr ⟨_, (hfits fact hfact).kind, rfl⟩
  unfold parseReport
  constructor
  · intro h
    cases hadd : addLines form (splitLines text) [] with
    | error message => rw [hadd] at h; cases h
    | ok found =>
      rw [hadd] at h
      dsimp only at h
      split at h
      · rename_i hcomplete
        cases h
        obtain ⟨hsame, hfits, hnodup⟩ := (hspec facts).mp hadd
        refine ⟨hsame, ?_, hfits⟩
        apply (List.perm_ext_iff_of_nodup hnodup hform.nodup).mpr
        exact fun key => ⟨hkeys facts hfits key, (hall facts).mp hcomplete key⟩
      · cases h
  · rintro ⟨hsame, hperm, hfits⟩
    rw [(hspec facts).mpr ⟨hsame, hfits, hperm.nodup_iff.mpr hform.nodup⟩]
    dsimp only
    rw [if_pos]
    exact (hall facts).mpr fun key hkey => hperm.mem_iff.mpr hkey

theorem mem_complaints_of_addLine {message : Str} (h : addLine form facts raw = .error message) :
    message ∈ complaints form := by
  unfold addLine at h
  unfold complaints
  dsimp only at h
  split at h
  · cases h
  · split at h
    · cases h
      simp
    · split at h
      · cases h
        simp
      · split at h
        · cases h
          simp
        · split at h <;> cases h <;> simp

theorem mem_complaints_of_addLines {message : Str} {lines : List Str}
    (h : addLines form lines facts = .error message) : message ∈ complaints form := by
  induction lines generalizing facts with
  | nil => cases h
  | cons raw lines ih =>
    unfold addLines at h
    cases hadd : addLine form facts raw with
    | error other =>
      rw [hadd] at h
      cases h
      exact mem_complaints_of_addLine hadd
    | ok facts₁ =>
      rw [hadd] at h
      exact ih h

theorem mem_complaints_of_parseReport {message text : Str}
    (h : parseReport form text = .error message) : message ∈ complaints form := by
  unfold parseReport at h
  cases hadd : addLines form (splitLines text) [] with
  | error other =>
    rw [hadd] at h
    cases h
    exact mem_complaints_of_addLines hadd
  | ok facts =>
    rw [hadd] at h
    dsimp only at h
    split at h
    · cases h
    · cases h
      simp [complaints]

end Spec

theorem identityForm_lawful : identityForm.Lawful where
  nodup := by decide
  nonempty := by decide
  chars := by decide
  equals := by decide
  flags := fun _ _ _ => rfl
  tags := by decide

theorem keyringForm_lawful : keyringForm.Lawful where
  nodup := by decide
  nonempty := by decide
  chars := by decide
  equals := by decide
  flags := by decide
  tags := by decide

theorem parseKeyringReport_spec (text : Str) :
    (∀ facts, parseKeyringReport text = .ok facts ↔
      linesOf keyringForm text = facts.map factLine ∧
        (facts.map Prod.fst).Perm (keyringForm.keys.map Prod.fst) ∧
        ∀ fact ∈ facts, Fits keyringForm fact) ∧
      ∀ message, parseKeyringReport text = .error message → message ∈ complaints keyringForm :=
  ⟨fun _ => parseReport_eq_ok keyringForm_lawful text, fun _ => mem_complaints_of_parseReport⟩

end Decisya.Deploy
