import Decisya.Text.Lowercase
import Decisya.Time.Calendar

/-!
# URLs as Python's `urlsplit` takes them apart

`none` is the `ValueError` of the function or of the property. What an address literal in
brackets is, and what Unicode normalisation does to a host outside ASCII, are parameters.
-/

namespace Python

set_option autoImplicit false

structure UrlTables where
  lowercase : CaseTable
  isIpLiteral : Str → Bool
  /-- Normalisation brings no delimiter into the network location. -/
  normalizesClean : Str → Bool
  /-- An IPv6 address holds a colon; the other form starts with a `v`. -/
  ipLiteral_colon : ∀ s, isIpLiteral s = true → ':' ∈ s ∨ s.head? = some 'v'

/-! ## Partitions at one character -/

/-- `s.partition(c)[0]` -/
def before (c : Char) (s : Str) : Str := s.takeWhile fun d => decide (d ≠ c)

/-- `s.partition(c)[2]` -/
def after (c : Char) (s : Str) : Str := (s.dropWhile fun d => decide (d ≠ c)).drop 1

/-- `s.rpartition(c)[2]` -/
def afterLast (c : Char) (s : Str) : Str := s.rtakeWhile fun d => decide (d ≠ c)

theorem before_append {c : Char} {s t : Str} (h : c ∉ s) : before c (s ++ c :: t) = s := by
  have hall : ∀ d ∈ s, (fun d => decide (d ≠ c)) d = true := by
    intro d hd
    apply decide_eq_true
    rintro rfl
    exact h hd
  unfold before
  rw [List.takeWhile_append_of_pos hall]
  simp

theorem after_append {c : Char} {s t : Str} (h : c ∉ s) : after c (s ++ c :: t) = t := by
  have hall : ∀ d ∈ s, (fun d => decide (d ≠ c)) d = true := by
    intro d hd
    apply decide_eq_true
    rintro rfl
    exact h hd
  unfold after
  rw [List.dropWhile_append_of_pos hall]
  simp

theorem not_mem_before (c : Char) (s : Str) : c ∉ before c s := by
  intro hmem
  have hc := List.mem_takeWhile_imp hmem
  simp at hc

theorem before_of_not_mem {c : Char} {s : Str} (h : c ∉ s) : before c s = s := by
  apply List.takeWhile_eq_self_iff.mpr
  intro d hd
  apply decide_eq_true
  rintro rfl
  exact h hd

theorem partition_eq {c : Char} {s : Str} (h : c ∈ s) : s = before c s ++ c :: after c s := by
  induction s with
  | nil => cases h
  | cons d s ih =>
    by_cases hd : d = c
    · subst hd
      simp [before, after]
    · have hmem : c ∈ s := (List.mem_cons.mp h).resolve_left (Ne.symm hd)
      have hrest := ih hmem
      have hbefore : before c (d :: s) = d :: before c s := by simp [before, hd]
      have hafter : after c (d :: s) = after c s := by simp [after, hd]
      rw [hbefore, hafter, List.cons_append, ← hrest]

theorem afterLast_of_not_mem {c : Char} {s : Str} (h : c ∉ s) : afterLast c s = s := by
  apply List.rtakeWhile_eq_self_iff.mpr
  intro d hd
  apply decide_eq_true
  rintro rfl
  exact h hd

/-! ## The function -/

structure SplitResult where
  scheme : Str
  netloc : Str
  path : Str
  query : Str
  fragment : Str

def isTabOrNewline (c : Char) : Bool := c == '\t' || c == '\r' || c == '\n'

/-- Control characters and spaces in front go, tabs and line breaks everywhere. -/
def cleanUrl (url : Str) : Str :=
  (url.dropWhile fun c => decide (c.toNat ≤ 0x20)).filter fun c => !isTabOrNewline c

def isAsciiAlpha (c : Char) : Bool :=
  (decide ('A' ≤ c) && decide (c ≤ 'Z')) || (decide ('a' ≤ c) && decide (c ≤ 'z'))

def isAsciiDigit (c : Char) : Bool := decide ('0' ≤ c) && decide (c ≤ '9')

def isSchemeChar (c : Char) : Bool :=
  isAsciiAlpha c || isAsciiDigit c || c == '+' || c == '-' || c == '.'

def isDelimiter (c : Char) : Bool := c == '/' || c == '?' || c == '#'

def startsWithLetter : Str → Bool
  | [] => false
  | c :: _ => isAsciiAlpha c

section Tables
variable (tables : UrlTables)

/-- The scheme and what follows it. -/
def splitScheme (url : Str) : Str × Str :=
  if url.contains ':' = true ∧ startsWithLetter (before ':' url) = true ∧
      (before ':' url).all isSchemeChar = true then
    (tables.lowercase.lower (before ':' url), after ':' url)
  else ([], url)

/-- The network location and what follows it. -/
def splitNetloc (url : Str) : Str × Str :=
  match url with
  | '/' :: '/' :: rest => (rest.takeWhile fun c => !isDelimiter c, rest.dropWhile fun c => !isDelimiter c)
  | _ => ([], url)

def isAscii (s : Str) : Bool := s.all fun c => decide (c.toNat < 128)

/-- Brackets come in pairs and hold an address; the rest survives normalisation. -/
def netlocValid (netloc : Str) : Bool :=
  (netloc.contains '[' == netloc.contains ']') &&
    (!(netloc.contains '[') || tables.isIpLiteral (before ']' (after '[' netloc))) &&
    (isAscii netloc || tables.normalizesClean netloc)

def urlsplit (text : Str) : Option SplitResult :=
  let scheme := splitScheme tables (cleanUrl text)
  let netloc := splitNetloc scheme.2
  if netlocValid tables netloc.1 = true then
    let fragmentless := before '#' netloc.2
    some
      { scheme := scheme.1
        netloc := netloc.1
        path := before '?' fragmentless
        query := after '?' fragmentless
        fragment := after '#' netloc.2 }
  else none

namespace SplitResult
variable (parts : SplitResult)

/-- `username` is not `None`. -/
def hasUserinfo : Bool := parts.netloc.contains '@'

/-- The host and the text of the port, as they stand. -/
def hostinfo : Str × Str :=
  let info := afterLast '@' parts.netloc
  if info.contains '[' = true then
    let bracketed := after '[' info
    (before ']' bracketed, after ':' (after ']' bracketed))
  else (before ':' info, after ':' info)

def hostname : Option Str :=
  let host := parts.hostinfo.1
  if host = [] then none
  else if host.contains '%' = true then
    some (tables.lowercase.lower (before '%' host) ++ '%' :: after '%' host)
  else some (tables.lowercase.lower host)

/-- `some none` where there is no port. -/
def port : Option (Option ℕ) :=
  let text := parts.hostinfo.2
  if text = [] then some none
  else if text.all isAsciiDigit = true then
    match Calendar.number text with
    | some n => if n ≤ 65535 then some (some n) else none
    | none => none
  else none

end SplitResult

end Tables

/-! ## What it reads -/

section Reads
variable {tables : UrlTables} {url : Str}

theorem cleanUrl_eq (h : ∀ c ∈ url, 0x20 < c.toNat) : cleanUrl url = url := by
  have hdrop : (url.dropWhile fun c => decide (c.toNat ≤ 0x20)) = url := by
    cases url with
    | nil => rfl
    | cons c url =>
      have hc := h c List.mem_cons_self
      rw [List.dropWhile_cons_of_neg]
      simpa using hc
  unfold cleanUrl
  rw [hdrop]
  apply List.filter_eq_self.mpr
  intro c hc
  have hlow := h c hc
  have htab : isTabOrNewline c = false := by
    by_contra hnot
    simp only [isTabOrNewline, Bool.not_eq_false, Bool.or_eq_true, beq_iff_eq] at hnot
    rcases hnot with (rfl | rfl) | rfl <;> exact absurd hlow (by decide)
  simp [htab]

/-- A scheme that is found is what stands before the first colon. -/
theorem splitScheme_cases (tables : UrlTables) (url : Str) :
    (splitScheme tables url = ([], url)) ∨
      ∃ scheme rest, url = scheme ++ ':' :: rest ∧ ':' ∉ scheme ∧ startsWithLetter scheme = true ∧
        splitScheme tables url = (tables.lowercase.lower scheme, rest) := by
  unfold splitScheme
  split
  · rename_i hscheme
    obtain ⟨hcolon, hletter, -⟩ := hscheme
    have hmem : ':' ∈ url := by simpa using hcolon
    exact .inr ⟨before ':' url, after ':' url, partition_eq hmem, not_mem_before _ _, hletter, rfl⟩
  · exact .inl rfl

theorem splitScheme_append {scheme rest : Str} (hletter : startsWithLetter scheme = true)
    (hall : scheme.all isSchemeChar = true) :
    splitScheme tables (scheme ++ ':' :: rest) = (tables.lowercase.lower scheme, rest) := by
  have hcolon : ':' ∉ scheme := by
    intro hmem
    have hchar := List.all_eq_true.mp hall _ hmem
    revert hchar
    decide
  unfold splitScheme
  rw [before_append hcolon, after_append hcolon, if_pos]
  exact ⟨by simp, hletter, hall⟩

theorem splitNetloc_cases (url : Str) :
    (splitNetloc url = ([], url)) ∨ ∃ netloc rest, url = '/' :: '/' :: (netloc ++ rest) ∧
      splitNetloc url = (netloc, rest) ∧ (∀ c ∈ netloc, isDelimiter c = false) ∧
      ∀ c, rest.head? = some c → isDelimiter c = true := by
  unfold splitNetloc
  split
  · rename_i rest
    right
    refine ⟨_, _, ?_, rfl, ?_, ?_⟩
    · rw [List.takeWhile_append_dropWhile]
    · intro c hc
      simpa using List.mem_takeWhile_imp hc
    · intro c hc
      have hhead := List.head?_dropWhile_not (fun c => !isDelimiter c) rest
      rw [hc] at hhead
      simpa using hhead
  · exact .inl rfl

theorem splitNetloc_append {netloc rest : Str} (hnetloc : ∀ c ∈ netloc, isDelimiter c = false)
    (hrest : ∀ c, rest.head? = some c → isDelimiter c = true) :
    splitNetloc ('/' :: '/' :: (netloc ++ rest)) = (netloc, rest) := by
  have hall : ∀ c ∈ netloc, (!isDelimiter c) = true := by
    intro c hc
    rw [hnetloc c hc]
    rfl
  have htake : rest.takeWhile (fun c => !isDelimiter c) = [] := by
    cases rest with
    | nil => rfl
    | cons c rest => simp [hrest c rfl]
  have hdrop : rest.dropWhile (fun c => !isDelimiter c) = rest := by
    cases rest with
    | nil => rfl
    | cons c rest => simp [hrest c rfl]
  have hsplit : splitNetloc ('/' :: '/' :: (netloc ++ rest)) =
      ((netloc ++ rest).takeWhile fun c => !isDelimiter c,
        (netloc ++ rest).dropWhile fun c => !isDelimiter c) := rfl
  rw [hsplit, List.takeWhile_append_of_pos hall, List.dropWhile_append_of_pos hall, htake, hdrop,
    List.append_nil]

/-- Scheme, network location and the rest, put together and taken apart again. -/
theorem urlsplit_append {scheme netloc rest : Str}
    (hprinting : ∀ c ∈ scheme ++ ':' :: '/' :: '/' :: (netloc ++ rest), 0x20 < c.toNat)
    (hletter : startsWithLetter scheme = true) (hall : scheme.all isSchemeChar = true)
    (hnetloc : ∀ c ∈ netloc, isDelimiter c = false)
    (hrest : ∀ c, rest.head? = some c → isDelimiter c = true)
    (hvalid : netlocValid tables netloc = true) :
    urlsplit tables (scheme ++ ':' :: '/' :: '/' :: (netloc ++ rest)) =
      some ⟨tables.lowercase.lower scheme, netloc, before '?' (before '#' rest),
        after '?' (before '#' rest), after '#' rest⟩ := by
  have hsplit := splitNetloc_append hnetloc hrest
  unfold urlsplit
  rw [cleanUrl_eq hprinting, splitScheme_append hletter hall]
  dsimp only
  rw [hsplit]
  exact if_pos hvalid

end Reads

end Python
