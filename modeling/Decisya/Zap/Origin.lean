import Decisya.Text.UrlSplit

/-!
# The origin that the scan is about

Origins are compared by parsing the URL.
-/

namespace Decisya.Zap

open Python

set_option autoImplicit false

section Origin
variable (tables : UrlTables)

structure Origin where
  scheme : Str
  host : Str
  port : ℕ
  deriving DecidableEq

def bffOrigin : Origin := ⟨"https".toList, "localhost".toList, 7200⟩

def isControl (c : Char) : Bool := decide (c.toNat < 0x21) || decide (c.toNat = 0x7f)

def defaultPort (scheme : Str) : Option ℕ :=
  if scheme = "https".toList then some 443 else if scheme = "http".toList then some 80 else none

/-- `none` when the URL does not parse cleanly. -/
def parseOrigin (url : Str) : Option Origin := do
  if url = [] ∨ strip url ≠ url ∨ url.any isControl = true then none
  else
    let parts ← urlsplit tables url
    let host := parts.hostname tables
    let port ← parts.port
    if parts.hasUserinfo = true ∨ parts.scheme = [] then none
    else
      let host ← host
      let port ← (match port with
        | some n => some n
        | none => defaultPort parts.scheme)
      some ⟨parts.scheme, host, port⟩

def isBffOrigin (url : Str) : Bool := decide (parseOrigin tables url = some bffOrigin)

/-- The path without query and fragment; an empty path is the root. -/
def urlPath (url : Str) : Option Str :=
  (urlsplit tables url).map fun parts => if parts.path = [] then ['/'] else parts.path

end Origin

/-! ## What is accepted -/

section Accepted
variable {tables : UrlTables} {url : Str}

/-- What `parseOrigin` has seen where it gives an origin. -/
structure Parsed (tables : UrlTables) (url : Str) (origin : Origin) (parts : SplitResult) : Prop where
  ne_nil : url ≠ []
  stripped : strip url = url
  printing : ∀ c ∈ url, isControl c = false
  split : urlsplit tables url = some parts
  noUserinfo : parts.hasUserinfo = false
  scheme : parts.scheme = origin.scheme
  scheme_ne : origin.scheme ≠ []
  host : parts.hostname tables = some origin.host
  port : parts.port = some (some origin.port) ∨
    (parts.port = some none ∧ defaultPort origin.scheme = some origin.port)

theorem parsed_of_parseOrigin {origin : Origin} (h : parseOrigin tables url = some origin) :
    ∃ parts, Parsed tables url origin parts := by
  unfold parseOrigin at h
  split at h
  · cases h
  rename_i hurl
  push Not at hurl
  obtain ⟨hne, hstrip, hcontrol⟩ := hurl
  have hprinting : ∀ c ∈ url, isControl c = false := by
    intro c hc
    by_contra hbad
    exact hcontrol (List.any_eq_true.mpr ⟨c, hc, by simpa using hbad⟩)
  obtain ⟨parts, hsplit, h⟩ := Option.bind_eq_some_iff.mp h
  obtain ⟨port, hport, h⟩ := Option.bind_eq_some_iff.mp h
  split at h
  · cases h
  rename_i hclean
  push Not at hclean
  obtain ⟨hinfo, hscheme⟩ := hclean
  obtain ⟨host, hhost, h⟩ := Option.bind_eq_some_iff.mp h
  obtain ⟨number, hnumber, h⟩ := Option.bind_eq_some_iff.mp h
  cases h
  refine ⟨parts, hne, hstrip, hprinting, hsplit, by simpa using hinfo, rfl, hscheme, hhost, ?_⟩
  cases port with
  | some n =>
    cases hnumber
    exact .inl hport
  | none => exact .inr ⟨hport, hnumber⟩

theorem parseOrigin_of_parsed {origin : Origin} {parts : SplitResult}
    (h : Parsed tables url origin parts) : parseOrigin tables url = some origin := by
  have hurl : ¬ (url = [] ∨ strip url ≠ url ∨ url.any isControl = true) := by
    rintro (hnil | hstrip | hcontrol)
    · exact h.ne_nil hnil
    · exact hstrip h.stripped
    · obtain ⟨c, hc, hbad⟩ := List.any_eq_true.mp hcontrol
      rw [h.printing c hc] at hbad
      cases hbad
  have hclean : ¬ (parts.hasUserinfo = true ∨ parts.scheme = []) := by
    rw [h.noUserinfo, h.scheme]
    rintro (hinfo | hnil)
    · cases hinfo
    · exact h.scheme_ne hnil
  unfold parseOrigin
  rw [if_neg hurl]
  rcases h.port with hport | ⟨hport, hdefault⟩
  · simp [h.split, hport, h.noUserinfo, h.scheme, h.scheme_ne, h.host]
  · simp [h.split, hport, h.noUserinfo, h.scheme, h.scheme_ne, h.host, hdefault]

/-- A host without delimiter that is some spelling of a word. -/
theorem mem_lowersTo {word text : Str} (h : List.Forall₂ LowersTo text word) {c : Char}
    (hc : c ∈ text) : ∃ d ∈ word, LowersTo c d := by
  induction h with
  | nil => cases hc
  | cons hhead _ ih =>
    rcases List.mem_cons.mp hc with rfl | hc
    · exact ⟨_, List.mem_cons_self, hhead⟩
    · obtain ⟨d, hd, hlower⟩ := ih hc
      exact ⟨d, List.mem_cons_of_mem _ hd, hlower⟩

/-- The characters of a spelling of a word of small letters are ASCII letters. -/
theorem isAsciiAlpha_of_lowersTo {c d : Char} (hd : 'a' ≤ d ∧ d ≤ 'z') (hk : d ≠ 'k')
    (h : LowersTo c d) : isAsciiAlpha c = true ∧ c.toNat < 128 := by
  rcases h with ⟨hascii, rfl⟩ | ⟨-, rfl⟩
  · refine ⟨?_, hascii⟩
    unfold Char.toLower at hd
    split at hd
    · rename_i hupper
      simp only [isAsciiAlpha, Bool.or_eq_true, Bool.and_eq_true, decide_eq_true_eq]
      exact .inl hupper
    · simp only [isAsciiAlpha, Bool.or_eq_true, Bool.and_eq_true, decide_eq_true_eq]
      exact .inr hd
  · exact absurd rfl hk

/-- A small letter that no character outside ASCII has as its lower case. -/
def isPlainLetter (d : Char) : Bool := decide ('a' ≤ d) && decide (d ≤ 'z') && d != 'k'

theorem isAsciiAlpha_of_mem {word text : Str} (hword : word.all isPlainLetter = true)
    (h : List.Forall₂ LowersTo text word) {c : Char} (hc : c ∈ text) :
    isAsciiAlpha c = true ∧ c.toNat < 128 := by
  obtain ⟨d, hd, hlower⟩ := mem_lowersTo h hc
  have hplain := List.all_eq_true.mp hword d hd
  simp only [isPlainLetter, Bool.and_eq_true, decide_eq_true_eq, bne_iff_ne] at hplain
  exact isAsciiAlpha_of_lowersTo hplain.1 hplain.2 hlower

theorem localhost_letters : "localhost".toList.all isPlainLetter = true := by decide

theorem https_letters : "https".toList.all isPlainLetter = true := by decide

theorem ascii_of_letters {word : Str} (hword : word.all isPlainLetter = true) :
    ∀ d ∈ word, d.toNat < 128 := by
  intro d hd
  have hplain := List.all_eq_true.mp hword d hd
  simp only [isPlainLetter, Bool.and_eq_true, decide_eq_true_eq, bne_iff_ne] at hplain
  have hle : d.toNat ≤ 'z'.toNat := hplain.1.2
  have hz : 'z'.toNat = 122 := rfl
  omega

theorem not_mem_of_letters {word text : Str} (hword : word.all isPlainLetter = true)
    (h : List.Forall₂ LowersTo text word) {c : Char} (hc : isAsciiAlpha c = false) : c ∉ text := by
  intro hmem
  rw [(isAsciiAlpha_of_mem hword h hmem).1] at hc
  cases hc

/-- A host name that reads `localhost` is a spelling of it, not an address in brackets. -/
theorem hostname_localhost {parts : SplitResult} (hinfo : parts.hasUserinfo = false)
    (hvalid : netlocValid tables parts.netloc = true)
    (h : parts.hostname tables = some "localhost".toList) :
    List.Forall₂ LowersTo (before ':' parts.netloc) "localhost".toList ∧
      parts.hostinfo = (before ':' parts.netloc, after ':' parts.netloc) := by
  have hat : '@' ∉ parts.netloc := by simpa [SplitResult.hasUserinfo] using hinfo
  have hascii := ascii_of_letters localhost_letters
  have hhost : List.Forall₂ LowersTo parts.hostinfo.1 "localhost".toList := by
    unfold SplitResult.hostname at h
    dsimp only at h
    split at h
    · cases h
    · split at h
      · have hpercent : '%' ∈ "localhost".toList := by
          rw [← Option.some.inj h]
          simp
        exact absurd hpercent (by decide)
      · exact lowersTo_of_lower_eq hascii (Option.some.inj h)
  have hbracket : '[' ∉ parts.netloc := by
    intro hmem
    have hinside : parts.hostinfo.1 = before ']' (after '[' parts.netloc) := by
      simp [SplitResult.hostinfo, afterLast_of_not_mem hat, hmem]
    have hliteral : tables.isIpLiteral (before ']' (after '[' parts.netloc)) = true := by
      simp only [netlocValid, Bool.and_eq_true] at hvalid
      simpa [hmem] using hvalid.1.2
    rw [hinside] at hhost
    rcases tables.ipLiteral_colon _ hliteral with hcolon | hv
    · exact not_mem_of_letters localhost_letters hhost (by decide) hcolon
    · obtain ⟨tail, htail⟩ := List.head?_eq_some_iff.mp hv
      rw [htail] at hhost
      have hfirst : LowersTo 'v' 'l' := (List.forall₂_cons.mp hhost).1
      revert hfirst
      unfold LowersTo
      decide
  have hparts : parts.hostinfo = (before ':' parts.netloc, after ':' parts.netloc) := by
    simp [SplitResult.hostinfo, afterLast_of_not_mem hat, hbracket]
  rw [hparts] at hhost
  exact ⟨hhost, hparts⟩

/-- What stands in the place of the port. -/
structure IsPort (n : ℕ) (text : Str) : Prop where
  digits : text.all isAsciiDigit = true
  number : Calendar.number text = some n

theorem port_eq_some {parts : SplitResult} {n : ℕ} (h : parts.port = some (some n)) :
    parts.hostinfo.2 ≠ [] ∧ IsPort n parts.hostinfo.2 := by
  unfold SplitResult.port at h
  dsimp only at h
  split at h
  · cases h
  rename_i hne
  split at h
  · rename_i hdigits
    split at h
    · rename_i m hnumber
      split at h
      · cases h
        exact ⟨hne, hdigits, hnumber⟩
      · cases h
    · cases h
  · cases h

/-- What a host of letters and a port consist of. -/
def isAuthorityChar (c : Char) : Bool := isAsciiAlpha c || isAsciiDigit c || c == ':'

theorem isAuthorityChar_of_mem {host port : Str} {n : ℕ}
    (hhost : List.Forall₂ LowersTo host "localhost".toList) (hport : IsPort n port) {c : Char}
    (hc : c ∈ host ++ ':' :: port) : isAuthorityChar c = true := by
  rcases List.mem_append.mp hc with hc | hc
  · simp [isAuthorityChar, (isAsciiAlpha_of_mem localhost_letters hhost hc).1]
  · rcases List.mem_cons.mp hc with rfl | hc
    · rfl
    · simp [isAuthorityChar, List.all_eq_true.mp hport.digits c hc]

theorem isAuthorityChar_ascii {c : Char} (h : isAuthorityChar c = true) : c.toNat < 128 := by
  have hle : ∀ {d : Char}, c ≤ d → d.toNat < 128 → c.toNat < 128 := by
    intro d hd hsmall
    have hnat : c.toNat ≤ d.toNat := hd
    omega
  simp only [isAuthorityChar, isAsciiAlpha, isAsciiDigit, Bool.or_eq_true, Bool.and_eq_true,
    decide_eq_true_eq, beq_iff_eq] at h
  rcases h with ((⟨-, h⟩ | ⟨-, h⟩) | ⟨-, h⟩) | rfl
  · exact hle h (by decide)
  · exact hle h (by decide)
  · exact hle h (by decide)
  · decide

theorem not_mem_authority {host port : Str} {n : ℕ}
    (hhost : List.Forall₂ LowersTo host "localhost".toList) (hport : IsPort n port) {c : Char}
    (hc : isAuthorityChar c = false) : c ∉ host ++ ':' :: port := by
  intro hmem
  rw [isAuthorityChar_of_mem hhost hport hmem] at hc
  cases hc

/-- A spelling of the host with a port is a network location that reads back. -/
theorem authority_valid (tables : UrlTables) {host port : Str} {n : ℕ}
    (hhost : List.Forall₂ LowersTo host "localhost".toList) (hport : IsPort n port) :
    netlocValid tables (host ++ ':' :: port) = true := by
  have hopen := not_mem_authority hhost hport (show isAuthorityChar '[' = false by decide)
  have hclose := not_mem_authority hhost hport (show isAuthorityChar ']' = false by decide)
  have hascii : isAscii (host ++ ':' :: port) = true := by
    apply List.all_eq_true.mpr
    intro c hc
    exact decide_eq_true (isAuthorityChar_ascii (isAuthorityChar_of_mem hhost hport hc))
  have hopen' : (host ++ ':' :: port).contains '[' = false := by
    simpa using hopen
  have hclose' : (host ++ ':' :: port).contains ']' = false := by
    simpa using hclose
  unfold netlocValid
  rw [hopen', hclose', hascii]
  rfl

theorem authority_reads (tables : UrlTables) (parts : SplitResult) {host port : Str} {n : ℕ}
    (hhost : List.Forall₂ LowersTo host "localhost".toList) (hport : IsPort n port) (hn : n ≠ 0)
    (hsmall : n ≤ 65535) (hnetloc : parts.netloc = host ++ ':' :: port) :
    parts.hasUserinfo = false ∧ parts.hostname tables = some "localhost".toList ∧
      parts.port = some (some n) := by
  have hat := not_mem_authority hhost hport (show isAuthorityChar '@' = false by decide)
  have hopen := not_mem_authority hhost hport (show isAuthorityChar '[' = false by decide)
  have hcolon : ':' ∉ host := not_mem_of_letters localhost_letters hhost (by decide)
  have hpercent : '%' ∉ host := not_mem_of_letters localhost_letters hhost (by decide)
  have hinfo : parts.hostinfo = (host, port) := by
    have hnot : (host ++ ':' :: port).contains '[' = false := by
      simpa using hopen
    unfold SplitResult.hostinfo
    rw [hnetloc, afterLast_of_not_mem hat]
    dsimp only
    rw [hnot, if_neg Bool.false_ne_true, before_append hcolon, after_append hcolon]
  have hne : host ≠ [] := by
    rintro rfl
    cases hhost
  have hportNe : port ≠ [] := by
    rintro rfl
    have hzero := hport.number
    simp [Calendar.number] at hzero
    exact hn hzero.symm
  refine ⟨by simpa [SplitResult.hasUserinfo, hnetloc] using hat, ?_, ?_⟩
  · simp [SplitResult.hostname, hinfo, hne, hpercent, lower_eq hhost]
  · simp [SplitResult.port, hinfo, hportNe, hport.digits, hport.number, hsmall]

end Accepted

end Decisya.Zap
