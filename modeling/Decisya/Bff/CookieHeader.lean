import Decisya.Text.Split

/-!
# The session-fixation guard and the request's cookies

The guard cuts the raw header at `;` and compares names exactly; the framework cuts it
at `;` and at `,` and compares names without regard to case. What the guard leaves of a
header is a list of whole `;`-pieces, so both readings are compared piece by piece.
-/

namespace Decisya.Bff

set_option autoImplicit false

/-- `char.IsWhiteSpace`. -/
def isWhiteSpace (c : Char) : Bool :=
  (9 ≤ c.toNat && c.toNat ≤ 13) || c.toNat == 0x20 || c.toNat == 0x85 || c.toNat == 0xA0 ||
    c.toNat == 0x1680 || (0x2000 ≤ c.toNat && c.toNat ≤ 0x200A) || c.toNat == 0x2028 ||
    c.toNat == 0x2029 || c.toNat == 0x202F || c.toNat == 0x205F || c.toNat == 0x3000

/-- The values of the `Cookie` header, some of them null; `none` when it is absent. -/
abbrev CookieHeader := Option (List (Option (List Char)))

def CookieHeader.values (header : CookieHeader) : List (List Char) := (header.getD []).filterMap id

def sessionCookieName : List Char := "__Host-decisya-session".toList

/-! ## The framework's reading -/

abbrev Cookie := List Char × List Char

def sameName (a b : List Char) : Bool := a.map Char.toLower == b.map Char.toLower

def isSeparator (c : Char) : Bool := c == ';' || c == ','

def parsePair (s : List Char) : Option Cookie :=
  if '=' ∈ s then some (s.takeWhile (· != '='), (s.dropWhile (· != '=')).drop 1) else none

def parseValue (headerValue : List Char) : List Cookie :=
  ((headerValue.splitOnP isSeparator).map (Text.trim isWhiteSpace)).filterMap parsePair

def CookieHeader.cookies (header : CookieHeader) : List Cookie := header.values.flatMap parseValue

/-- The last value of a repeated name counts. -/
def tryGetValue (cookies : List Cookie) (name : List Char) : Option (List Char) :=
  (cookies.reverse.find? fun c => sameName c.1 name).map Prod.snd

/-! ## The guard -/

def pieces (headerValue : List Char) : List (List Char) :=
  (headerValue.splitOnP (· == ';')).map (Text.trim isWhiteSpace)

def pieceName (trimmedPair : List Char) : List Char := trimmedPair.takeWhile (· != '=')

def remainingPairs (cookieName : List Char) (values : List (List Char)) : List (List Char) :=
  values.flatMap fun headerValue =>
    (pieces headerValue).filter fun pair => pair ≠ [] ∧ pieceName pair ≠ cookieName

def removeCookieFromRequestHeader (header : CookieHeader) (cookieName : List Char) : CookieHeader :=
  match header with
  | none => none
  | some [] => some []
  | some (value :: values) =>
    match remainingPairs cookieName (CookieHeader.values (some (value :: values))) with
    | [] => none
    | pair :: pairs => some [some (List.intercalate "; ".toList (pair :: pairs))]

/-- What `RemoveExistingSessionOnCallbackAsync` leaves of the `Cookie` header. -/
def removeExistingSessionOnCallback (isCallbackPath : Bool) (header : CookieHeader) : CookieHeader :=
  if isCallbackPath = false then header
  else
    match tryGetValue header.cookies sessionCookieName with
    | none => header
    | some rawCookieValue =>
      if rawCookieValue = [] then header
      else removeCookieFromRequestHeader header sessionCookieName

/-! ## Names -/

theorem sameName_comm (a b : List Char) : sameName a b = sameName b a := by
  rw [Bool.eq_iff_iff]
  simp only [sameName, beq_iff_eq]
  exact eq_comm

theorem sameName_congr {a b : List Char} (h : sameName a b = true) (n : List Char) :
    sameName n a = sameName n b := by
  simp only [sameName, beq_iff_eq] at h
  simp only [sameName, h]

theorem tryGetValue_congr {a b : List Char} (h : sameName a b = true) (cookies : List Cookie) :
    tryGetValue cookies a = tryGetValue cookies b := by
  unfold tryGetValue
  simp only [sameName_congr h]

theorem tryGetValue_eq_some {cookies : List Cookie} {name v : List Char} :
    tryGetValue cookies name = some v ↔ ∃ pre n post, cookies = pre ++ (n, v) :: post ∧
      sameName n name = true ∧ ∀ c ∈ post, sameName c.1 name = false := by
  simp only [tryGetValue, Option.map_eq_some_iff, List.find?_eq_some_iff_append]
  constructor
  · intro h
    obtain ⟨⟨n, v'⟩, ⟨hn, before, after, heq, hnot⟩, rfl⟩ := h
    refine ⟨after.reverse, n, before.reverse, ?_, hn, fun c hc => ?_⟩
    · have hrev := congrArg List.reverse heq
      simpa using hrev
    · simpa using hnot c (List.mem_reverse.mp hc)
  · intro h
    obtain ⟨pre, n, post, rfl, hn, hnot⟩ := h
    refine ⟨(n, v), ⟨hn, post.reverse, pre.reverse, by simp, fun c hc => ?_⟩, rfl⟩
    simpa using hnot c (List.mem_reverse.mp hc)

theorem tryGetValue_eq_none {cookies : List Cookie} {name : List Char} :
    tryGetValue cookies name = none ↔ ∀ c ∈ cookies, sameName c.1 name = false := by
  simp [tryGetValue]

/-! ## Reading a header piece by piece -/

theorem not_separator {c : Char} (h : isWhiteSpace c = true) : isSeparator c = false := by
  rw [Bool.eq_false_iff]
  intro hsep
  simp only [isSeparator, Bool.or_eq_true, beq_iff_eq] at hsep
  rcases hsep with rfl | rfl <;> revert h <;> decide

theorem parseValue_trim (s : List Char) : parseValue (Text.trim isWhiteSpace s) = parseValue s := by
  unfold parseValue
  rw [Text.map_trim_splitOnP_trim fun c => not_separator]

theorem parseValue_nil : parseValue [] = [] := by decide

theorem parseValue_append {sep : Char} (h : isSeparator sep = true) (s s' : List Char) :
    parseValue (s ++ sep :: s') = parseValue s ++ parseValue s' := by
  simp only [parseValue, List.splitOnP_append_cons _ _ h, List.map_append, List.filterMap_append]

theorem parseValue_blank (s : List Char) : parseValue (' ' :: s) = parseValue s := by
  rw [← parseValue_trim, Text.trim_cons (by decide), parseValue_trim]

/-- Joining at separators is joining what is read. -/
theorem parseValue_intercalate {sep : List Char} (hsep : ∀ s s',
    parseValue (s ++ (sep ++ s')) = parseValue s ++ parseValue s') (parts : List (List Char)) :
    parseValue (List.intercalate sep parts) = parts.flatMap parseValue := by
  induction parts with
  | nil => exact parseValue_nil
  | cons part parts ih =>
    cases parts with
    | nil => simp
    | cons part' parts =>
      rw [List.intercalate_cons_cons, List.append_assoc, hsep, ih]
      simp

theorem parseValue_pieces (headerValue : List Char) :
    parseValue headerValue = (pieces headerValue).flatMap parseValue := by
  have hjoin : parseValue headerValue = (headerValue.splitOnP (· == ';')).flatMap parseValue := by
    have hsep : ∀ s s', parseValue (s ++ ([';'] ++ s')) = parseValue s ++ parseValue s' :=
      fun s s' => parseValue_append (by decide) s s'
    rw [← parseValue_intercalate hsep]
    exact congrArg parseValue (List.intercalate_splitOn ';').symm
  rw [hjoin, pieces, List.flatMap_map]
  exact congrArg (List.flatMap · _) (funext fun s => (parseValue_trim s).symm)

/-! ## What the guard keeps -/

/-- The pieces of a header that name something. -/
def CookieHeader.pieces (header : CookieHeader) : List (List Char) :=
  header.values.flatMap fun headerValue => (Decisya.Bff.pieces headerValue).filter (· ≠ [])

def isKept (piece : List Char) : Bool := decide (pieceName piece ≠ sessionCookieName)

theorem flatMap_parseValue_filter (parts : List (List Char)) :
    (parts.filter (· ≠ [])).flatMap parseValue = parts.flatMap parseValue := by
  induction parts with
  | nil => rfl
  | cons part parts ih =>
    by_cases hpart : part = []
    · rw [List.filter_cons_of_neg (by simpa using hpart), ih, List.flatMap_cons, hpart,
        parseValue_nil, List.nil_append]
    · rw [List.filter_cons_of_pos (by simpa using hpart), List.flatMap_cons, ih, List.flatMap_cons]

theorem cookies_eq_pieces (header : CookieHeader) :
    header.cookies = header.pieces.flatMap parseValue := by
  simp only [CookieHeader.cookies, CookieHeader.pieces, List.flatMap_assoc]
  exact congrArg (List.flatMap · _) (funext fun headerValue => by
    rw [parseValue_pieces, flatMap_parseValue_filter])

theorem remainingPairs_eq (header : CookieHeader) :
    remainingPairs sessionCookieName header.values = header.pieces.filter isKept := by
  simp only [remainingPairs, CookieHeader.pieces, List.filter_flatMap, List.filter_filter]
  refine congrArg (List.flatMap · _) (funext fun headerValue => ?_)
  refine List.filter_congr fun piece _ => ?_
  simp [isKept, Bool.and_comm]

theorem cookies_removed (header : CookieHeader) :
    (removeCookieFromRequestHeader header sessionCookieName).cookies =
      (header.pieces.filter isKept).flatMap parseValue := by
  have hsep : ∀ s s', parseValue (s ++ ("; ".toList ++ s')) = parseValue s ++ parseValue s' :=
    fun s s' => (parseValue_append (by decide) s (' ' :: s')).trans (by rw [parseValue_blank])
  rw [← remainingPairs_eq]
  match header with
  | none => rfl
  | some [] => rfl
  | some (value :: values) =>
    unfold removeCookieFromRequestHeader
    dsimp only
    split
    · rename_i hnone
      rw [hnone]
      rfl
    · rename_i pair pairs hpairs
      rw [hpairs, ← parseValue_intercalate hsep]
      simp [CookieHeader.cookies, CookieHeader.values]

/-- The pairs the framework reads, each with whether the guard keeps its piece. -/
def CookieHeader.tagged (header : CookieHeader) : List (Bool × Cookie) :=
  header.pieces.flatMap fun piece => (parseValue piece).map fun cookie => (isKept piece, cookie)

theorem cookies_eq_tagged (header : CookieHeader) :
    header.cookies = header.tagged.map Prod.snd := by
  rw [cookies_eq_pieces, CookieHeader.tagged, List.map_flatMap]
  simp [Function.comp_def]

theorem kept_eq_tagged (header : CookieHeader) :
    (header.pieces.filter isKept).flatMap parseValue =
      (header.tagged.filter Prod.fst).map Prod.snd := by
  unfold CookieHeader.tagged
  induction header.pieces with
  | nil => rfl
  | cons piece pieces ih =>
    rw [List.flatMap_cons, List.filter_append, List.map_append, ← ih]
    cases hk : isKept piece with
    | true => simp [hk, List.filter_map, Function.comp_def]
    | false => simp [hk, List.filter_map, Function.comp_def]

/-- `v` is the last value of `name` among the pairs that the guard keeps. -/
def KeptValue (tagged : List (Bool × Cookie)) (name v : List Char) : Prop :=
  ∃ pre n post, tagged = pre ++ (true, n, v) :: post ∧ sameName n name = true ∧
    ∀ q ∈ post, q.1 = true → sameName q.2.1 name = false

theorem keptValue_iff {tagged : List (Bool × Cookie)} {name v : List Char} :
    KeptValue tagged name v ↔
      tryGetValue ((tagged.filter Prod.fst).map Prod.snd) name = some v := by
  have hfind : ((tagged.filter Prod.fst).map Prod.snd).reverse.find?
      (fun c => sameName c.1 name) =
        (tagged.reverse.find? fun q => q.1 && sameName q.2.1 name).map Prod.snd := by
    rw [← List.map_reverse, List.find?_map, ← List.filter_reverse, List.find?_filter]
    simp [Function.comp_def]
  simp only [tryGetValue, hfind, Option.map_map, Option.map_eq_some_iff,
    List.find?_eq_some_iff_append]
  constructor
  · intro h
    obtain ⟨pre, n, post, rfl, hn, hnot⟩ := h
    refine ⟨(true, n, v), ⟨by simpa using hn, post.reverse, pre.reverse, by simp, ?_⟩, rfl⟩
    intro q hq
    have hq' := hnot q (List.mem_reverse.mp hq)
    cases hk : q.1 with
    | true => simpa using hq' hk
    | false => simp
  · intro h
    obtain ⟨⟨kept, n, v'⟩, ⟨hn, before, after, heq, hnot⟩, rfl⟩ := h
    obtain ⟨rfl, hname⟩ : kept = true ∧ sameName n name = true := by simpa using hn
    refine ⟨after.reverse, n, before.reverse, ?_, hname, fun q hq hk => ?_⟩
    · have hrev := congrArg List.reverse heq
      simpa using hrev
    · simpa [hk] using hnot q (List.mem_reverse.mp hq)

/-- What the guard owes for a header. -/
structure SessionStripped (before after : CookieHeader) : Prop where
  session : ∀ v, tryGetValue after.cookies sessionCookieName = some v → v = []
  others : ∀ name, sameName name sessionCookieName = false →
    tryGetValue after.cookies name = tryGetValue before.cookies name

/-- A kept piece holds a session cookie under a name the guard did not recognise. -/
def SessionSurvives (header : CookieHeader) : Prop :=
  ∃ v, v ≠ [] ∧ KeptValue header.tagged sessionCookieName v

/-- A dropped piece holds the value of another cookie, behind a comma. -/
def OtherTakenAlong (header : CookieHeader) : Prop :=
  ∃ pre n v post, header.tagged = pre ++ (false, n, v) :: post ∧
    sameName n sessionCookieName = false ∧ (∀ q ∈ post, sameName q.2.1 n = false) ∧
    ¬ KeptValue pre n v

theorem keptValue_skip {pre post : List (Bool × Cookie)} {n v name v' : List Char}
    (hpost : ∀ q ∈ post, sameName q.2.1 name = false) :
    KeptValue (pre ++ (false, n, v) :: post) name v' ↔ KeptValue pre name v' := by
  have hnone : ∀ q ∈ (false, n, v) :: post, q.1 = true → sameName q.2.1 name = false := by
    intro q hq hk
    rcases List.mem_cons.mp hq with rfl | hq
    · cases hk
    · exact hpost q hq
  constructor
  · intro h
    obtain ⟨pre', n', post', heq, hn, hnot⟩ := h
    rcases List.append_eq_append_iff.mp heq with ⟨mid, hpre, hrest⟩ | ⟨mid, hpre, hrest⟩
    · -- the kept pair would stand behind the dropped one
      have hmem : (true, n', v') ∈ (false, n, v) :: post := hrest ▸ by simp
      rw [hnone _ hmem rfl] at hn
      cases hn
    · cases mid with
      | nil =>
        have hmem : (true, n', v') ∈ (false, n, v) :: post := by
          rw [List.nil_append] at hrest
          exact hrest ▸ List.mem_cons_self
        rw [hnone _ hmem rfl] at hn
        cases hn
      | cons q mid =>
        obtain ⟨rfl, hrest'⟩ := List.cons.inj hrest
        refine ⟨pre', n', mid, hpre, hn, fun q hq => hnot q ?_⟩
        rw [hrest']
        exact List.mem_append_left _ hq
  · intro h
    obtain ⟨pre', n', post', rfl, hn, hnot⟩ := h
    refine ⟨pre', n', post' ++ (false, n, v) :: post, by simp, hn, fun q hq hk => ?_⟩
    rcases List.mem_append.mp hq with hq | hq
    · exact hnot q hq hk
    · exact hnone q hq hk

theorem KeptValue.congr {tagged : List (Bool × Cookie)} {a b v : List Char}
    (h : sameName a b = true) (hk : KeptValue tagged a v) : KeptValue tagged b v := by
  rw [keptValue_iff] at hk ⊢
  rwa [← tryGetValue_congr h]

/-- The last value of a name, with whether the guard keeps it. -/
theorem tagged_of_tryGetValue {tagged : List (Bool × Cookie)} {name v : List Char}
    (h : tryGetValue (tagged.map Prod.snd) name = some v) :
    ∃ pre kept n post, tagged = pre ++ (kept, n, v) :: post ∧ sameName n name = true ∧
      ∀ q ∈ post, sameName q.2.1 name = false := by
  obtain ⟨pre, n, post, heq, hn, hnot⟩ := tryGetValue_eq_some.mp h
  obtain ⟨tpre, trest, rfl, hpre, hrest⟩ := List.map_eq_append_iff.mp heq
  obtain ⟨⟨kept, c⟩, tpost, rfl, hc, hpost⟩ := List.map_eq_cons_iff.mp hrest
  obtain rfl : c = (n, v) := hc
  refine ⟨tpre, kept, n, tpost, rfl, hn, fun q hq => ?_⟩
  exact hnot q.2 (hpost ▸ List.mem_map_of_mem hq)

theorem tryGetValue_of_tagged {pre post : List (Bool × Cookie)} {kept : Bool} {n v : List Char}
    (hpost : ∀ q ∈ post, sameName q.2.1 n = false) :
    tryGetValue ((pre ++ (kept, n, v) :: post).map Prod.snd) n = some v := by
  refine tryGetValue_eq_some.mpr ⟨pre.map Prod.snd, n, post.map Prod.snd, by simp, ?_, ?_⟩
  · simp [sameName]
  · intro c hc
    obtain ⟨q, hq, rfl⟩ := List.mem_map.mp hc
    exact hpost q hq

/-- A header that the guard rewrites: what must be so of its pieces. -/
theorem stripped_iff {before after : CookieHeader}
    (h : after.cookies = (before.tagged.filter Prod.fst).map Prod.snd) :
    SessionStripped before after ↔ ¬ SessionSurvives before ∧ ¬ OtherTakenAlong before := by
  constructor
  · intro hs
    refine ⟨fun hsurvives => ?_, fun htaken => ?_⟩
    · obtain ⟨v, hv, hkept⟩ := hsurvives
      exact hv (hs.session v (h ▸ keptValue_iff.mp hkept))
    · obtain ⟨pre, n, v, post, htagged, hn, hpost, hnot⟩ := htaken
      have hall : tryGetValue before.cookies n = some v := by
        rw [cookies_eq_tagged, htagged]
        exact tryGetValue_of_tagged hpost
      have hkept : KeptValue before.tagged n v := by
        rw [keptValue_iff, ← h]
        exact (hs.others n hn).trans hall
      rw [htagged] at hkept
      exact hnot ((keptValue_skip hpost).mp hkept)
  · intro hs
    obtain ⟨hsurvives, htaken⟩ := hs
    refine ⟨fun v hv => ?_, fun name hname => ?_⟩
    · by_contra hne
      exact hsurvives ⟨v, hne, keptValue_iff.mpr (h ▸ hv)⟩
    · rw [h, cookies_eq_tagged]
      cases hall : tryGetValue (before.tagged.map Prod.snd) name with
      | none =>
        refine tryGetValue_eq_none.mpr fun c hc => tryGetValue_eq_none.mp hall c ?_
        obtain ⟨q, hq, rfl⟩ := List.mem_map.mp hc
        exact List.mem_map_of_mem (List.mem_of_mem_filter hq)
      | some v =>
        obtain ⟨pre, kept, n, post, htagged, hn, hpost⟩ := tagged_of_tryGetValue hall
        rw [← keptValue_iff, htagged]
        cases kept with
        | true => exact ⟨pre, n, post, rfl, hn, fun q hq _ => hpost q hq⟩
        | false =>
          -- the last value of `name` is dropped: an equal one is kept before it
          rw [keptValue_skip hpost]
          by_contra hnot
          refine htaken ⟨pre, n, v, post, htagged, ?_, fun q hq => ?_, fun hkept => ?_⟩
          · rw [sameName_comm, ← hname, sameName_comm name]
            exact (sameName_congr hn _).symm ▸ rfl
          · rw [sameName_congr hn]
            exact hpost q hq
          · exact hnot (hkept.congr hn)

/-- The guard strips the session cookie and nothing else exactly when the framework reads
no session cookie, or no kept piece holds a session cookie the guard does not recognise
and no dropped piece holds the value of another cookie. -/
theorem sessionFixationGuard_strips_iff (header : CookieHeader) :
    SessionStripped header (removeExistingSessionOnCallback true header) ↔
      (∀ v, tryGetValue header.cookies sessionCookieName = some v → v = []) ∨
        (¬ SessionSurvives header ∧ ¬ OtherTakenAlong header) := by
  by_cases hread : ∀ v, tryGetValue header.cookies sessionCookieName = some v → v = []
  · have hsame : removeExistingSessionOnCallback true header = header := by
      unfold removeExistingSessionOnCallback
      cases hv : tryGetValue header.cookies sessionCookieName with
      | none => simp
      | some v => simp [hread v hv]
    rw [hsame]
    exact ⟨fun _ => .inl hread, fun _ => ⟨hread, fun _ _ => rfl⟩⟩
  · have hremoved : removeExistingSessionOnCallback true header =
        removeCookieFromRequestHeader header sessionCookieName := by
      obtain ⟨v, hv, hne⟩ : ∃ v, tryGetValue header.cookies sessionCookieName = some v ∧ v ≠ [] := by
        simpa using hread
      simp [removeExistingSessionOnCallback, hv, hne]
    have hcookies := (cookies_removed header).trans (kept_eq_tagged header)
    rw [hremoved, stripped_iff hcookies]
    simp [hread]

/-- A cookie that differs from the session cookie in the case of one letter. -/
def lowerCaseHeader : CookieHeader := some [some "__host-decisya-session=k".toList]

theorem lowerCaseHeader_survives :
    ¬ SessionStripped lowerCaseHeader (removeExistingSessionOnCallback true lowerCaseHeader) := by
  intro h
  have hread : tryGetValue
      (removeExistingSessionOnCallback true lowerCaseHeader).cookies sessionCookieName =
        some "k".toList := by decide +kernel
  cases h.session _ hread

end Decisya.Bff
