import Decisya.KeyRing.FileRules

/-!
# The strict rule at text level

`keyring reset` and `verify` apply the rule to the text of a key file, with five patterns. The
start-up check applies it to the document. The two differ where a pattern is matched by something
else than the element or the attribute it stands for.
-/

namespace Decisya.KeyRing

open Text Text.Pattern Text.Xml

set_option autoImplicit false

/-! ## Patterns -/

/-- `re.IGNORECASE` for ASCII letters, which four letters beyond ASCII count as. -/
def foldCase (c : Char) : Char :=
  if c.toNat = 0x212A then 'k'
  else if c.toNat = 0x17F then 's'
  else if c.toNat = 0x130 ∨ c.toNat = 0x131 then 'i'
  else c.toLower

def folded (ignoreCase : Bool) (c : Char) : Char := if ignoreCase then foldCase c else c

def exactly (c : Char) : Item Char Unit := .one (· == c) ()

def letter (ignoreCase : Bool) (c : Char) : Item Char Unit :=
  .one (fun d => folded ignoreCase d == folded ignoreCase c) ()

def word (ignoreCase : Bool) (s : String) : List (Item Char Unit) :=
  s.toList.map (letter ignoreCase)

def oneOf (s : String) : Item Char Unit := .one (s.toList.contains ·) ()

/-- `[A-Za-z0-9_.-]` -/
def isPlainNameChar (c : Char) : Bool := c.isAlphanum || c == '_' || c == '.' || c == '-'

def nameRun (ignoreCase : Bool) : Item Char Unit :=
  .many (fun c => isPlainNameChar (folded ignoreCase c)) 1 ()

/-- Alternatives, tried one after another. -/
abbrev Regex := List (List (Item Char Unit))

/-- `<([A-Za-z0-9_.-]+:)?name` -/
def tagPattern (ignoreCase : Bool) (name : String) : Regex :=
  [exactly '<' :: nameRun ignoreCase :: exactly ':' :: word ignoreCase name,
    exactly '<' :: word ignoreCase name]

def plaintextPattern : Regex := [word true "masterKey", word true "unencryptedKey"]

def secretPattern : Regex := tagPattern true "encryptedSecret"

def revocationPattern : Regex := [word false "<revocation" ++ [oneOf " >/"]]

def decryptorPattern : Regex :=
  [word false "decryptorType=\"Microsoft.AspNetCore.DataProtection.XmlEncryption.EncryptedXmlDecryptor" ++
    [oneOf ",\""]]

def encryptedDataPattern : Regex := tagPattern false "EncryptedData"

def matchHere (r : Regex) (s : Str) : Option (List Unit) := r.findSome? fun items => matchAt items s

/-- `re.search` -/
def search (r : Regex) (text : Str) : Bool := text.tails.any fun s => (matchHere r s).isSome

/-- `len(re.findall(r, text))` -/
def countMatches (r : Regex) (text : Str) : ℕ :=
  (Scan.scan (matchHere r) [] text).countP Scan.Mark.isFirst

def keyringFileProblem (text : Str) : Option String :=
  if search plaintextPattern text then some "holds plaintext key material"
  else
    let opened := countMatches secretPattern text
    if opened = 0 then
      if search revocationPattern text then none else some "holds no encrypted secret"
    else if opened ≠ 1 then some "holds more than one encrypted secret"
    else if !search decryptorPattern text then some "is not wrapped by the certificate decryptor"
    else if !search encryptedDataPattern text then some "holds no EncryptedData"
    else none

/-- The text has what the rule looks for. -/
structure Kept (text : Str) : Prop where
  noPlaintext : search plaintextPattern text = false
  wrapped : countMatches secretPattern text = 0 ∧ search revocationPattern text = true ∨
    countMatches secretPattern text = 1 ∧ search decryptorPattern text = true ∧
      search encryptedDataPattern text = true

theorem keyringFileProblem_eq_none {text : Str} : keyringFileProblem text = none ↔ Kept text := by
  constructor
  · intro h
    rw [keyringFileProblem] at h
    split at h
    · cases h
    · rename_i hplain
      refine ⟨Bool.eq_false_iff.mpr hplain, ?_⟩
      dsimp only at h
      split at h
      · rename_i hzero
        split at h
        · rename_i hrevocation
          exact Or.inl ⟨hzero, hrevocation⟩
        · cases h
      · split at h
        · cases h
        · rename_i hone
          split at h
          · cases h
          · rename_i hdecryptor
            split at h
            · cases h
            · rename_i hdata
              rw [Bool.not_eq_true, Bool.not_eq_false'] at hdecryptor hdata
              exact Or.inr ⟨not_not.mp hone, hdecryptor, hdata⟩
  · rintro ⟨hplain, ⟨hzero, hrevocation⟩ | ⟨hone, hdecryptor, hdata⟩⟩
    · rw [keyringFileProblem, hplain, hzero, hrevocation]
      rfl
    · rw [keyringFileProblem, hplain, hone, hdecryptor, hdata]
      rfl

/-! ## Words and tags -/

theorem foldCase_toUpper (c : Char) : foldCase c.toUpper = foldCase c := by
  rcases Nat.lt_or_ge c.toNat 128 with hascii | hbeyond
  · have hall : ∀ n < 128, foldCase (Char.ofNat n).toUpper = foldCase (Char.ofNat n) := by decide
    have hc := hall c.toNat hascii
    rwa [Char.ofNat_toNat] at hc
  · have hupper : c.toUpper = c := by
      apply dif_neg
      rintro ⟨-, hz⟩
      have hle : c.toNat ≤ 122 := UInt32.le_iff_toNat_le.mp hz
      omega
    rw [hupper]

theorem matchAt_word {x : Str} {w : String} (h : x.map foldCase = w.toList.map foldCase) (z : Str) :
    (matchAt (word true w) (x ++ z)).isSome = true := by
  unfold word
  generalize w.toList = letters at h
  induction letters generalizing x with
  | nil => rfl
  | cons c letters ih =>
    cases x with
    | nil => cases h
    | cons d x =>
      rw [List.map_cons, List.map_cons, List.cons.injEq] at h
      have hfirst : (folded true d == folded true c) = true := beq_iff_eq.mpr h.1
      rw [List.map_cons, letter, List.cons_append, matchAt, if_pos hfirst, Option.isSome_map]
      exact ih h.2

theorem search_of_infix {r : Regex} {x text : Str} (hwithin : x <:+: text)
    (h : ∀ z, (matchHere r (x ++ z)).isSome = true) : search r text = true := by
  obtain ⟨before, after, rfl⟩ := hwithin
  apply List.any_eq_true.mpr
  refine ⟨x ++ after, (List.mem_tails _ _).mpr ⟨before, ?_⟩, h after⟩
  exact (List.append_assoc before x after).symm

theorem determinate_word (ignoreCase : Bool) (w : String) : Determinate (word ignoreCase w) := by
  unfold word
  induction w.toList with
  | nil => trivial
  | cons c letters ih => exact ih

/-- A prefix is followed by a colon, which is none of its characters. -/
theorem determinate_tagPattern {ignoreCase : Bool} {name : String} :
    ∀ items ∈ tagPattern ignoreCase name, Determinate items := by
  intro items hitems
  rcases List.mem_cons.mp hitems with rfl | hitems
  · refine ⟨Or.inl ?_, determinate_word ignoreCase name⟩
    intro c s hc
    rw [exactly, matchAt]
    apply if_neg
    intro hcolon
    rw [beq_iff_eq.mp hcolon] at hc
    cases ignoreCase <;> exact absurd hc (by decide)
  · rw [List.mem_singleton.mp hitems]
    exact determinate_word ignoreCase name

theorem isSome_matchHere {r : Regex} {s : Str} :
    (matchHere r s).isSome = true ↔ ∃ items ∈ r, (matchAt items s).isSome = true := by
  unfold matchHere
  rw [List.isSome_findSome?]
  exact List.any_eq_true

theorem matchHere_append {ignoreCase : Bool} {name : String} (x z : Str)
    (h : (matchHere (tagPattern ignoreCase name) x).isSome = true) :
    (matchHere (tagPattern ignoreCase name) (x ++ z)).isSome = true := by
  obtain ⟨items, hitems, hmatch⟩ := isSome_matchHere.mp h
  have hdet := determinate_tagPattern items hitems
  rw [matchAt_eq_greedy hdet] at hmatch
  obtain ⟨labels, hlabels⟩ := Option.isSome_iff_exists.mp hmatch
  obtain ⟨longer, hlonger, -⟩ := greedy_append hlabels z
  apply isSome_matchHere.mpr
  refine ⟨items, hitems, ?_⟩
  rw [matchAt_eq_greedy hdet, hlonger]
  rfl

def isLead (c : Char) : Bool := c == '<'

theorem lead_of_matchAt {items : List (Item Char Unit)}
    (hdet : Determinate (exactly '<' :: items)) (hitems : ∀ item ∈ items, item.test '<' = false)
    {s : Str} {labels : List Unit} (h : matchAt (exactly '<' :: items) s = some labels) :
    ∃ c t rest, s = c :: t ∧ labels = () :: rest ∧ isLead c = true ∧
      ∀ d ∈ t.take rest.length, isLead d = false := by
  cases s with
  | nil => cases h
  | cons c t =>
    rw [exactly, matchAt] at h
    split at h
    · rename_i hc
      obtain ⟨rest, hrest, rfl⟩ := Option.map_eq_some_iff.mp h
      have htail : Determinate items := hdet
      rw [matchAt_eq_greedy htail] at hrest
      refine ⟨c, t, rest, rfl, rfl, hc, ?_⟩
      intro d hd
      obtain ⟨item, hitem, htest⟩ := exists_test_of_greedy hrest hd
      apply beq_eq_false_iff_ne.mpr
      intro heq
      rw [heq, hitems item hitem] at htest
      cases htest
    · cases h

/-- A tag starts with the one `<` in it. -/
theorem lead_tagPattern {ignoreCase : Bool} {name : String}
    (hname : ∀ item ∈ word ignoreCase name, item.test '<' = false) {s : Str} {labels : List Unit}
    (h : matchHere (tagPattern ignoreCase name) s = some labels) :
    ∃ c t rest, s = c :: t ∧ labels = () :: rest ∧ isLead c = true ∧
      ∀ d ∈ t.take rest.length, isLead d = false := by
  obtain ⟨items, hitems, hmatch⟩ := List.exists_of_findSome?_eq_some h
  have hdet := determinate_tagPattern items hitems
  rcases List.mem_cons.mp hitems with rfl | hitems
  · apply lead_of_matchAt hdet _ hmatch
    intro item hitem
    rcases List.mem_cons.mp hitem with rfl | hitem
    · cases ignoreCase <;> rfl
    · rcases List.mem_cons.mp hitem with rfl | hitem
      · rfl
      · exact hname item hitem
  · rw [List.mem_singleton] at hitems
    rw [hitems] at hdet hmatch
    exact lead_of_matchAt hdet hname hmatch

theorem countMatches_tagPattern {ignoreCase : Bool} {name : String}
    (hname : ∀ item ∈ word ignoreCase name, item.test '<' = false) (text : Str) :
    countMatches (tagPattern ignoreCase name) text =
      Scan.occurrences (fun s => (matchHere (tagPattern ignoreCase name) s).isSome) text := by
  apply Scan.countP_isFirst_scan isLead
  · intro s hs
    obtain ⟨_, _, rest, _, hlabels, _⟩ := lead_tagPattern hname hs
    cases hlabels
  · intro c s labels h
    obtain ⟨_, _, rest, hs, rfl, hlead⟩ := lead_tagPattern hname h
    cases hs
    rw [List.length_cons, Nat.add_sub_cancel]
    exact hlead
  · intro d hd
    rw [List.length_nil, List.take_zero] at hd
    cases hd

/-! ## Elements in the text -/

open KeyRingFileRules

theorem map_foldCase_of_is {e : Element} {name : String} (h : is e name = true) :
    e.name.localName.map foldCase = name.toList.map foldCase := by
  have hupper := congrArg (List.map foldCase) (beq_iff_eq.mp h)
  have hcomp : (foldCase ∘ Char.toUpper) = foldCase := funext foldCase_toUpper
  rw [List.map_map, List.map_map, hcomp] at hupper
  exact hupper

/-- No prefix, or one of the characters `[A-Za-z0-9_.-]`. -/
def hasPlainPrefix (e : Element) : Bool :=
  match e.name.qualifier with
  | none => true
  | some qualifier => qualifier ≠ [] && qualifier.all fun c => isPlainNameChar (foldCase c)

theorem isSome_matchAt_exactly (c : Char) (items : List (Item Char Unit)) (s : Str) :
    (matchAt (exactly c :: items) (c :: s)).isSome = (matchAt items s).isSome := by
  have hc : (c == c) = true := beq_self_eq_true c
  rw [exactly, matchAt, if_pos hc, Option.isSome_map]

theorem isSome_matchAt_nameRun {qualifier : Str} (hne : qualifier ≠ [])
    (hplain : ∀ c ∈ qualifier, isPlainNameChar (folded true c) = true) {name : String} {s : Str}
    (hs : (matchAt (word true name) s).isSome = true) :
    (matchAt (nameRun true :: exactly ':' :: word true name) (qualifier ++ ':' :: s)).isSome = true := by
  have hdet : Determinate (exactly '<' :: nameRun true :: exactly ':' :: word true name) :=
    determinate_tagPattern _ (List.mem_cons_self (l := [exactly '<' :: word true name]))
  have hfull : Pattern.run (fun c => isPlainNameChar (folded true c)) qualifier = qualifier.length := by
    rw [Pattern.run, List.takeWhile_eq_self_iff.mpr hplain]
  have hrun : Pattern.run (fun c => isPlainNameChar (folded true c)) (qualifier ++ ':' :: s)
      = qualifier.length := by
    rw [run_stop rfl, hfull]
  have hpos : 1 ≤ qualifier.length := List.length_pos_of_ne_nil hne
  rw [matchAt_eq_greedy (show Determinate (nameRun true :: _) from hdet), nameRun, greedy, hrun,
    if_pos hpos, Option.isSome_map, List.drop_left, ← matchAt_eq_greedy hdet.2,
    isSome_matchAt_exactly]
  exact hs

theorem isSome_matchHere_tag {e : Element} {name : String} (hname : is e name = true)
    (hplain : hasPlainPrefix e = true) :
    (matchHere (tagPattern true name) ('<' :: e.name.text)).isSome = true := by
  have hlocal := matchAt_word (map_foldCase_of_is hname) []
  rw [List.append_nil] at hlocal
  obtain ⟨⟨qualifier, localName⟩, attributes, children⟩ := e
  apply isSome_matchHere.mpr
  cases qualifier with
  | none =>
    refine ⟨_, List.mem_cons_of_mem _ List.mem_cons_self, ?_⟩
    rw [isSome_matchAt_exactly]
    exact hlocal
  | some qualifier =>
    refine ⟨_, List.mem_cons_self, ?_⟩
    rw [isSome_matchAt_exactly]
    simp only [hasPlainPrefix, Bool.and_eq_true, decide_eq_true_eq] at hplain
    exact isSome_matchAt_nameRun hplain.1 (List.all_eq_true.mp hplain.2) hlocal

section Document

variable {text : Str} {document : Document} (hreads : Reads text document)
include hreads

/-- An element that holds a key in clear is seen in the text. -/
theorem search_plaintext {e : Element} (he : e ∈ document.descendants)
    (hname : (is e "masterKey" || is e "unencryptedKey") = true) :
    search plaintextPattern text = true := by
  have hlocal : e.name.localName <:+: text := by
    refine List.IsInfix.trans ?_ (hreads.tag_infix he)
    unfold QName.text
    split
    · exact (List.suffix_cons '<' e.name.localName).isInfix
    · rename_i qualifier _
      exact ⟨'<' :: qualifier ++ [':'], [], by simp⟩
  apply search_of_infix hlocal
  intro z
  apply isSome_matchHere.mpr
  rcases Bool.or_eq_true_iff.mp hname with h | h
  · exact ⟨_, List.mem_cons_self, matchAt_word (map_foldCase_of_is h) z⟩
  · exact ⟨_, List.mem_cons_of_mem _ List.mem_cons_self, matchAt_word (map_foldCase_of_is h) z⟩

/-- The text has a tag for every encrypted secret with a plain prefix. -/
theorem countP_secrets_le :
    (secrets document).countP hasPlainPrefix ≤ countMatches secretPattern text := by
  have hname : ∀ item ∈ word true "encryptedSecret", item.test '<' = false := by
    intro item hitem
    obtain ⟨c, hc, rfl⟩ := List.mem_map.mp hitem
    have hall : "encryptedSecret".toList.all (fun c => !(folded true '<' == folded true c)) = true := by
      decide
    have hc := List.all_eq_true.mp hall c hc
    rwa [Bool.not_eq_true'] at hc
  rw [secretPattern, countMatches_tagPattern hname]
  refine le_trans ?_ (hreads.countP_le matchHere_append)
  rw [secrets, List.countP_filter]
  apply List.countP_mono_left
  intro e he h
  obtain ⟨hplain, his⟩ := Bool.and_eq_true_iff.mp h
  exact isSome_matchHere_tag his hplain

end Document

/-! ## Where the two rules differ -/

/-- The kinds of documents that are refused though nothing in them is in clear. -/
inductive Misplaced (document : Document) : Prop where
  | root (hkey : is document.root "key" = false) (hrevocation : is document.root "revocation" = false)
  | revocation (hroot : is document.root "revocation" = true) (hsecret : secrets document ≠ [])
  | noSecret (hroot : is document.root "key" = true) (hnone : secrets document = [])
  | hiddenSecret (hroot : is document.root "key" = true) (hmany : 2 ≤ (secrets document).length)
    {e : Element} (he : e ∈ secrets document) (hstart : hasPlainPrefix e = false)
  | decryptor (hroot : is document.root "key" = true) {secret : Element}
    (hsecret : secrets document = [secret]) (htype : typeName secret ≠ certificateDecryptorType)
  | encryptedData (hroot : is document.root "key" = true) {secret : Element}
    (hsecret : secrets document = [secret])
    (hdata : ∀ e ∈ secret.descendants, is e "EncryptedData" = false)

theorem not_key_of_revocation {e : Element} (h : is e "revocation" = true) : is e "key" = false := by
  apply beq_eq_false_iff_ne.mpr
  intro hkey
  rw [is, beq_iff_eq, hkey] at h
  exact absurd h (by decide)

/-- Nothing hides a second secret from the text but its prefix. -/
theorem exists_hidden_secret {text : Str} {document : Document} (hreads : Reads text document)
    (hkept : Kept text) (hmany : 2 ≤ (secrets document).length) :
    ∃ e ∈ secrets document, hasPlainPrefix e = false := by
  by_contra hall
  push Not at hall
  have hcount := countP_secrets_le hreads
  have hlength : (secrets document).countP hasPlainPrefix = (secrets document).length := by
    apply List.countP_eq_length.mpr
    intro e he
    exact eq_true_of_ne_false (hall e he)
  rcases hkept.wrapped with ⟨hzero, -⟩ | ⟨hone, -⟩ <;> omega

section Verdict

variable (tryParse : Str → Option DateTimeOffset) (certificateHash : Str → Option Str)
  {text : Str} {document : Document}

theorem inspect_verdict (hclear : (document.descendants.any fun e =>
      is e "masterKey" || is e "unencryptedKey") = false) :
    (inspect tryParse certificateHash document).verdict = .ok ↔
      is document.root "revocation" = true ∧ secrets document = [] ∨
      is document.root "key" = true ∧ ∃ secret, secrets document = [secret] ∧
        typeName secret = certificateDecryptorType ∧
        secret.descendants.any (is · "EncryptedData") = true := by
  rw [inspect]
  simp only [hclear, Bool.false_eq_true, if_false]
  cases hrevocation : is document.root "revocation" with
  | true =>
    have hkey := not_key_of_revocation hrevocation
    cases hsecrets : secrets document with
    | nil => simp [hkey]
    | cons secret rest => simp [hkey]
  | false =>
    cases hkey : is document.root "key" with
    | false => simp
    | true =>
      cases hsecrets : secrets document with
      | nil => simp
      | cons secret rest =>
        cases rest with
        | nil =>
          by_cases htype : typeName secret = certificateDecryptorType
          · cases hdata : secret.descendants.any (is · "EncryptedData") with
            | false =>
              have hnone : ∀ e ∈ secret.descendants, is e "EncryptedData" = false := by
                simpa using hdata
              simpa [htype, hdata] using hnone
            | true =>
              have hsome := List.any_eq_true.mp hdata
              simpa [htype, hdata] using hsome
          · simp [htype]
        | cons _ _ => simp

/-- What the text rule keeps, the start-up check refuses only for something misplaced. -/
theorem inspect_ok_iff_of_kept (hreads : Reads text document) (hkept : Kept text) :
    (inspect tryParse certificateHash document).verdict = .ok ↔ ¬ Misplaced document := by
  have hclear : (document.descendants.any fun e =>
      is e "masterKey" || is e "unencryptedKey") = false := by
    apply Bool.eq_false_iff.mpr
    intro hany
    obtain ⟨e, he, hname⟩ := List.any_eq_true.mp hany
    have hseen := search_plaintext hreads he hname
    rw [hkept.noPlaintext] at hseen
    cases hseen
  rw [inspect_verdict tryParse certificateHash hclear]
  constructor
  · rintro (⟨hroot, hnone⟩ | ⟨hroot, secret, hsecret, htype, hdata⟩) hmisplaced
    · have hkey := not_key_of_revocation hroot
      cases hmisplaced with
      | root _ h => exact absurd hroot (by rw [h]; exact Bool.false_ne_true)
      | revocation _ h => exact h hnone
      | noSecret h => exact absurd h (by rw [hkey]; exact Bool.false_ne_true)
      | hiddenSecret h => exact absurd h (by rw [hkey]; exact Bool.false_ne_true)
      | decryptor h => exact absurd h (by rw [hkey]; exact Bool.false_ne_true)
      | encryptedData h => exact absurd h (by rw [hkey]; exact Bool.false_ne_true)
    · cases hmisplaced with
      | root h _ => exact absurd hroot (by rw [h]; exact Bool.false_ne_true)
      | revocation h _ =>
        exact absurd hroot (by rw [not_key_of_revocation h]; exact Bool.false_ne_true)
      | noSecret _ h =>
        rw [hsecret] at h
        cases h
      | hiddenSecret _ h =>
        rw [hsecret, List.length_singleton] at h
        omega
      | decryptor _ h hother =>
        rw [hsecret] at h
        cases h
        exact hother htype
      | encryptedData _ h hnone =>
        rw [hsecret] at h
        cases h
        obtain ⟨e, he, hname⟩ := List.any_eq_true.mp hdata
        rw [hnone e he] at hname
        cases hname
  · intro hplaced
    cases hrevocation : is document.root "revocation" with
    | true =>
      left
      refine ⟨rfl, ?_⟩
      by_contra hsecret
      exact hplaced (.revocation hrevocation hsecret)
    | false =>
      right
      cases hkey : is document.root "key" with
      | false => exact absurd (.root hkey hrevocation) hplaced
      | true =>
        refine ⟨rfl, ?_⟩
        cases hsecrets : secrets document with
        | nil => exact absurd (.noSecret hkey hsecrets) hplaced
        | cons secret rest =>
          cases rest with
          | nil =>
            refine ⟨secret, rfl, ?_, ?_⟩
            · by_contra htype
              exact hplaced (.decryptor hkey hsecrets htype)
            · by_contra hdata
              apply hplaced (.encryptedData hkey hsecrets ?_)
              intro e he
              by_contra hname
              exact hdata (List.any_eq_true.mpr ⟨e, he, eq_true_of_ne_false hname⟩)
          | cons second rest =>
            have hmany : 2 ≤ (secrets document).length := by
              rw [hsecrets]
              exact Nat.le_add_left 2 rest.length
            obtain ⟨e, he, hstart⟩ := exists_hidden_secret hreads hkept hmany
            exact absurd (.hiddenSecret hkey hmany he hstart) hplaced

theorem kept_file_accepted_iff (hreads : Reads text document) :
    (keyringFileProblem text = none → (inspect tryParse certificateHash document).verdict = .ok) ↔
      (Kept text → ¬ Misplaced document) := by
  constructor
  · intro h hkept
    exact (inspect_ok_iff_of_kept tryParse certificateHash hreads hkept).mp
      (h (keyringFileProblem_eq_none.mpr hkept))
  · intro h hnone
    have hkept := keyringFileProblem_eq_none.mp hnone
    exact (inspect_ok_iff_of_kept tryParse certificateHash hreads hkept).mpr (h hkept)

end Verdict

/-! ## Two files -/

/-- A name without a prefix. -/
def plainName (s : String) : QName := ⟨none, s.toList⟩

theorem plainName_isValid {s : String} (h : isName s.toList = true) : (plainName s).IsValid :=
  ⟨h, fun _ hqualifier => by cases hqualifier⟩

theorem reads_of_body {body : Str} {root : Element}
    (h : ReadsContent body (.element root.name root.attributes root.children .nil)) :
    Reads body ⟨root⟩ := by
  have hreads := Reads.document .none .nil .nil h
  rw [List.append_nil] at hreads
  exact hreads

theorem reads_empty (s : String) (h : isName s.toList = true) {t : Str} {rest : Content}
    (ht : ReadsContent t rest) :
    ReadsContent ('<' :: (s.toList ++ ("/>".toList ++ t))) (.element (plainName s) [] .nil rest) :=
  @ReadsContent.empty (plainName s) [] [] [] t rest (plainName_isValid h) .nil List.nodup_nil rfl ht

theorem reads_element (s : String) (h : isName s.toList = true) {inner t : Str}
    {children rest : Content} (hinner : ReadsContent inner children) (ht : ReadsContent t rest) :
    ReadsContent ('<' :: (s.toList ++ '>' :: (inner ++ ("</".toList ++ (s.toList ++ '>' :: t)))))
      (.element (plainName s) [] children rest) :=
  @ReadsContent.element (plainName s) [] [] [] inner [] t children rest (plainName_isValid h) .nil
    List.nodup_nil rfl hinner rfl ht

theorem revocation_accepted :
    (inspect (fun _ => none) (fun _ => none) ⟨⟨plainName "revocation", [], .nil⟩⟩).verdict = .ok := by
  have hreads : Reads "<revocation/>".toList ⟨⟨plainName "revocation", [], .nil⟩⟩ :=
    reads_of_body (reads_empty "revocation" (by decide) .nil)
  apply (kept_file_accepted_iff _ _ hreads).mpr
  · intro _ hmisplaced
    cases hmisplaced with
    | root _ h => exact absurd h (by decide)
    | revocation _ h => exact h (by decide)
    | noSecret h => exact absurd h (by decide)
    | hiddenSecret h => exact absurd h (by decide)
    | decryptor h => exact absurd h (by decide)
    | encryptedData h => exact absurd h (by decide)
  · decide

/-- A revocation that is not the root. -/
theorem kept_file_refused : ¬ ∀ (tryParse : Str → Option DateTimeOffset)
    (certificateHash : Str → Option Str) (text : Str) (document : Document), Reads text document →
    keyringFileProblem text = none → (inspect tryParse certificateHash document).verdict = .ok := by
  intro h
  have hreads : Reads "<keys><revocation/></keys>".toList
      ⟨⟨plainName "keys", [], .element (plainName "revocation") [] .nil .nil⟩⟩ :=
    reads_of_body (reads_element "keys" (by decide) (reads_empty "revocation" (by decide) .nil) .nil)
  have hok := h (fun _ => none) (fun _ => none) _ _ hreads (by decide)
  exact absurd hok (by decide)

end Decisya.KeyRing
