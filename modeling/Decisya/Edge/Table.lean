import Decisya.Edge.Paths

/-!
# The edge table

The routes of every site, in the order in which the edge tries them, and what no request gets
through them to: the administration of the identity provider from the published listener, a
published route from inside the committed subnets, the back channel's endpoints from outside it.
-/

namespace Decisya.Edge

open Python

set_option autoImplicit false

def httpsPort : ℕ := 8443

def adminPort : ℕ := 8444

/-- `COMMITTED_SUBNETS["backchannel"]` -/
def backchannelSubnet : Str := "10.120.0.0/24".toList

/-- `COMMITTED_SUBNETS["idp"]` -/
def idpSubnet : Str := "10.120.1.0/24".toList

def committedSubnets : List Str := [backchannelSubnet, idpSubnet]

def adminPaths : List Str :=
  ["/admin".toList, "/admin/*".toList, "/realms/master".toList, "/realms/master/*".toList]

def realmPaths : List Str := ["/realms/decisya".toList, "/realms/decisya/*".toList]

def publishedIdPaths : List Str := realmPaths ++ ["/resources/*".toList]

def adminListenerPaths : List Str := adminPaths ++ ["/resources/*".toList]

def encodedPathPattern : Str := "(?i)%(2e|2f|5c)".toList

def dotdotPattern : Str := "\\.\\.".toList

inductive Action where
  | proxy (upstreams : List Str)
  | respond (status : Str)
  deriving DecidableEq

/-- A route's conditions, `none` where there is no matcher of the kind, and what it does. -/
structure Row where
  action : Action
  ranges : Option (List Str)
  negated : Option (List Str)
  paths : Option (List Str)
  methods : Option (List Str)
  regexp : Option Str
  deriving DecidableEq

def Row.isProxy (row : Row) : Bool :=
  match row.action with
  | .proxy _ => true
  | .respond _ => false

/-- The sites, by the labels of the layout. -/
inductive Site where
  | app
  | id
  | api
  deriving DecidableEq

/-! ## The rows -/

def refused : Action := .respond "403".toList

def dotdot : Row := ⟨refused, none, none, none, none, some dotdotPattern⟩

def encoded : Row := ⟨refused, none, none, none, none, some encodedPathPattern⟩

def deny : Row := ⟨refused, none, none, none, none, none⟩

def refusedPaths (paths : List Str) : Row := ⟨refused, none, none, some paths, none, none⟩

def bff : Str := "bff:8080".toList

def keycloak : Str := "keycloak:8080".toList

def apiUpstream : Str := "api:8080".toList

/-- A row without a source allow-list: whoever is not inside the committed subnets. -/
def published (paths : Option (List Str)) (upstream : Str) : Row :=
  ⟨.proxy [upstream], none, some committedSubnets, paths, none, none⟩

def logoutPath : Str := "/bff/backchannel-logout".toList

def logoutRow : Row :=
  ⟨.proxy [bff], some [idpSubnet], none, some [logoutPath], some ["POST".toList], none⟩

def backchannelRow (paths : List Str) (upstream : Str) : Row :=
  ⟨.proxy [upstream], some [backchannelSubnet], none, some paths, none, none⟩

/-- `_expected_routes` -/
def expectedRoutes (port : ℕ) (site : Site) : Option (List Row) :=
  if port = httpsPort then
    match site with
    | .app => some [dotdot, logoutRow, refusedPaths [logoutPath ++ ['*']], published none bff, deny]
    | .id => some [dotdot, refusedPaths adminPaths, encoded,
        published (some publishedIdPaths) keycloak, backchannelRow realmPaths keycloak, deny]
    | .api => some [dotdot, backchannelRow ["/api/*".toList] apiUpstream, deny]
  else if port = adminPort then
    match site with
    | .id => some [dotdot, encoded, published (some adminListenerPaths) keycloak, deny]
    | .app | .api => none
  else none

/-! ## First match -/

/-- What the edge is given: the case table, the addresses of a network and the search for a
regular expression. -/
structure Engine (Address : Type) where
  cases : CaseTable
  inside : Str → Address → Bool
  search : Str → Str → Bool

structure Request (Address : Type) where
  source : Address
  method : Str
  path : Str

section Match
variable {Address : Type} (e : Engine Address) (r : Request Address)

def Row.admits (row : Row) : Bool :=
  (row.ranges.all fun nets => nets.any fun net => e.inside net r.source) &&
  (row.negated.all fun nets => !nets.any fun net => e.inside net r.source) &&
  (row.paths.all fun paths => paths.any fun path => caddyPathMatches e.cases path r.path) &&
  (row.methods.all fun methods => methods.any fun method => method == r.method) &&
  row.regexp.all fun pattern => e.search pattern r.path

def firstMatch (rows : List Row) : Option Row := rows.find? (Row.admits e r)

/-- The row that decides on a request, if the port has the site. -/
def deciding (port : ℕ) (site : Site) : Option Row := (expectedRoutes port site).bind (firstMatch e r)

variable {e r} {row found : Row} {rows : List Row}

theorem firstMatch_cons (h : firstMatch e r (row :: rows) = some found) :
    (row.admits e r = true ∧ found = row) ∨
      (row.admits e r = false ∧ firstMatch e r rows = some found) := by
  unfold firstMatch at h
  rw [List.find?_cons] at h
  cases hadmits : row.admits e r with
  | true =>
    rw [hadmits] at h
    exact Or.inl ⟨rfl, (Option.some.inj h).symm⟩
  | false =>
    rw [hadmits] at h
    exact Or.inr ⟨rfl, h⟩

/-- A proxied request got past every refusal before. -/
theorem firstMatch_cons_of_refused (hrow : row.isProxy = false) (hfound : found.isProxy = true)
    (h : firstMatch e r (row :: rows) = some found) :
    row.admits e r = false ∧ firstMatch e r rows = some found := by
  rcases firstMatch_cons h with ⟨-, rfl⟩ | hrest
  · rw [hrow] at hfound
    cases hfound
  · exact hrest

theorem not_proxied_deny (hfound : found.isProxy = true) (h : firstMatch e r [deny] = some found) :
    False := by
  obtain ⟨-, hnil⟩ := firstMatch_cons_of_refused rfl hfound h
  cases hnil

end Match

/-! ## What the rows admit -/

section Rows
variable {Address : Type} {e : Engine Address} {r : Request Address} {paths : List Str}
  {upstream : Str}

theorem dotdot_admits : dotdot.admits e r = e.search dotdotPattern r.path := by
  simp [Row.admits, dotdot]

theorem encoded_admits : encoded.admits e r = e.search encodedPathPattern r.path := by
  simp [Row.admits, encoded]

theorem refusedPaths_admits : (refusedPaths paths).admits e r =
    paths.any fun path => caddyPathMatches e.cases path r.path := by
  simp [Row.admits, refusedPaths]

/-- A row that excepts the committed subnets admits nobody inside them. -/
theorem outside_of_negated {row : Row} (hnegated : row.negated = some committedSubnets)
    (h : row.admits e r = true) : ∀ net ∈ committedSubnets, e.inside net r.source = false := by
  unfold Row.admits at h
  rw [hnegated] at h
  simp only [Option.all_some, Bool.and_eq_true, Bool.not_eq_true', List.any_eq_false,
    Bool.not_eq_true] at h
  exact h.1.1.1.2

theorem matches_of_published (h : (published (some paths) upstream).admits e r = true) :
    ∃ path ∈ paths, caddyPathMatches e.cases path r.path = true := by
  unfold Row.admits published at h
  simp only [Option.all_none, Option.all_some, Bool.and_true, Bool.true_and, Bool.and_eq_true,
    List.any_eq_true] at h
  exact h.2

theorem backchannelRow_admits (h : (backchannelRow paths upstream).admits e r = true) :
    e.inside backchannelSubnet r.source = true ∧
      ∃ path ∈ paths, caddyPathMatches e.cases path r.path = true := by
  unfold Row.admits backchannelRow at h
  simp only [Option.all_none, Option.all_some, Bool.and_true, Bool.and_eq_true, List.any_eq_true,
    List.mem_singleton, exists_eq_left] at h
  exact h

theorem logoutRow_admits (h : logoutRow.admits e r = true) :
    e.inside idpSubnet r.source = true ∧ caddyPathMatches e.cases logoutPath r.path = true ∧
      r.method = "POST".toList := by
  unfold Row.admits logoutRow at h
  simp only [Option.all_none, Option.all_some, Bool.and_true, Bool.and_eq_true, List.any_eq_true,
    List.mem_singleton, exists_eq_left, beq_iff_eq] at h
  exact ⟨h.1.1, h.1.2, h.2.symm⟩

end Rows

/-! ## What the patterns admit -/

def realmWords : List Str := ["realms".toList, "decisya".toList]

def resourcesWords : List Str := ["resources".toList]

section Patterns
variable {cases : CaseTable} {path : Str}

theorem below_of_matches {words : List Str} (hplain : (pathOf words ++ ['/']).all isPlain = true)
    (h : caddyPathMatches cases (pathOf words ++ ['/'] ++ ['*']) path = true) :
    AtOrBelow cases words path :=
  Or.inr ((matches_start hplain (List.append_ne_nil_of_right_ne_nil _ (List.cons_ne_nil _ _))).mp h)

theorem realm_of_matches {pattern : Str} (hmem : pattern ∈ realmPaths)
    (h : caddyPathMatches cases pattern path = true) : AtOrBelow cases realmWords path := by
  rcases List.mem_pair.mp hmem with rfl | rfl
  · exact Or.inl ((matches_word (by decide)).mp h)
  · exact below_of_matches (by decide) h

theorem resources_of_matches (h : caddyPathMatches cases "/resources/*".toList path = true) :
    AtOrBelow cases resourcesWords path :=
  below_of_matches (by decide) h

theorem admin_of_matches {pattern : Str} (hmem : pattern ∈ adminPaths)
    (h : caddyPathMatches cases pattern path = true) : IsAdminPath cases path := by
  unfold adminPaths at hmem
  simp only [List.mem_cons, List.not_mem_nil, or_false] at hmem
  rcases hmem with rfl | rfl | rfl | rfl
  · exact ⟨"/admin".toList, by decide, Or.inl ((matches_word (by decide)).mp h)⟩
  · refine ⟨"/admin".toList, by decide, Or.inr ?_⟩
    exact (@matches_start cases "/admin/".toList path (by decide) (by decide)).mp h
  · exact ⟨"/realms/master".toList, by decide, Or.inl ((matches_word (by decide)).mp h)⟩
  · refine ⟨"/realms/master".toList, by decide, Or.inr ?_⟩
    exact (@matches_start cases "/realms/master/".toList path (by decide) (by decide)).mp h

end Patterns

/-! ## Encoded dots -/

/-- The two digits of an encoded dot, slash or backslash. -/
def encodedCodes : List Str :=
  ["2e".toList, "2E".toList, "2f".toList, "2F".toList, "5c".toList, "5C".toList]

/-- What the search for the two patterns of the table finds. -/
structure Engine.Searches {Address : Type} (e : Engine Address) : Prop where
  dotdot : ∀ path, e.search dotdotPattern path = true ↔ ['.', '.'] <:+: path
  encoded : ∀ path, e.search encodedPathPattern path = true ↔
    ∃ code ∈ encodedCodes, '%' :: code <:+: path

theorem char_eq_of_toNat {c d : Char} (h : c.toNat = d.toNat) : c = d := by
  rw [← Char.ofNat_toNat c, ← Char.ofNat_toNat d, h]

theorem hexValue_lt {c : Char} {n : ℕ} (h : Percent.hexValue c = some n) : n < 16 := by
  unfold Percent.hexValue at h
  split at h
  · rename_i hdigit
    have hhigh : c.toNat ≤ 57 := hdigit.2
    injection h
    omega
  · split at h
    · rename_i hlower
      have hhigh : c.toNat ≤ 102 := hlower.2
      injection h
      omega
    · split at h
      · rename_i hupper
        have hhigh : c.toNat ≤ 70 := hupper.2
        injection h
        omega
      · cases h

theorem eq_of_hexValue {c : Char} {n : ℕ} (h : Percent.hexValue c = some n) :
    c.toNat = n + 48 ∧ n < 10 ∨ c.toNat = n + 87 ∧ 10 ≤ n ∨ c.toNat = n + 55 ∧ 10 ≤ n := by
  unfold Percent.hexValue at h
  split at h
  · rename_i hdigit
    have hlow : 48 ≤ c.toNat := hdigit.1
    have hhigh : c.toNat ≤ 57 := hdigit.2
    injection h
    omega
  · split at h
    · rename_i hlower
      have hlow : 97 ≤ c.toNat := hlower.1
      injection h
      omega
    · split at h
      · rename_i hupper
        have hlow : 65 ≤ c.toNat := hupper.1
        injection h
        omega
      · cases h

theorem code_of_dot {high low : Char} (h : Percent.byteOf high low = some 46) :
    [high, low] ∈ encodedCodes := by
  unfold Percent.byteOf at h
  obtain ⟨a, ha, h⟩ := Option.bind_eq_some_iff.mp h
  obtain ⟨b, hb, h⟩ := Option.bind_eq_some_iff.mp h
  injection h with hsum
  have hblt := hexValue_lt hb
  have hhigh : high = '2' := by
    apply char_eq_of_toNat
    have hcase := eq_of_hexValue ha
    have htwo : ('2' : Char).toNat = 50 := rfl
    omega
  have hlow : low = 'e' ∨ low = 'E' := by
    rcases eq_of_hexValue hb with ⟨-, hlt⟩ | ⟨heq, -⟩ | ⟨heq, -⟩
    · omega
    · left
      apply char_eq_of_toNat
      have he : ('e' : Char).toNat = 101 := rfl
      omega
    · right
      apply char_eq_of_toNat
      have he : ('E' : Char).toNat = 69 := rfl
      omega
  rcases hlow with rfl | rfl
  · rw [hhigh]
    decide
  · rw [hhigh]
    decide

section Admin
variable {Address : Type} {e : Engine Address} {r : Request Address} {charset : Percent.Charset}

theorem noDotByte_of_search (he : e.Searches) (h : e.search encodedPathPattern r.path = false) :
    Percent.NoDotByte r.path := by
  intro before high low after hpath hbyte
  have hfound := (he.encoded r.path).mpr ⟨[high, low], code_of_dot hbyte,
    ⟨before, after, by rw [hpath]; simp⟩⟩
  rw [hfound] at h
  cases h

theorem dotsApart_of_search (he : e.Searches) (h : e.search dotdotPattern r.path = false) :
    Percent.DotsApart r.path := by
  rw [Percent.dotsApart_iff]
  intro hpart
  rw [(he.dotdot r.path).mpr hpart] at h
  cases h

/-- Neither the path nor what one more decoding makes of it is one of the administration's. -/
def NotAdmin (e : Engine Address) (charset : Percent.Charset) (path : Str) : Prop :=
  ¬ IsAdminPath e.cases path ∧ ¬ IsAdminPath e.cases (resolve (Percent.decode charset path))

theorem AtOrBelow.notAdmin {words : List Str} (h : AtOrBelow e.cases words r.path)
    (hwords : words.all isSegment = true) (hstart : pathOf words ∈ publishedStarts)
    (hdots : Percent.DotsApart r.path) (hnone : Percent.NoDotByte r.path) :
    NotAdmin e charset r.path := by
  have hne : words ≠ [] := by
    rintro rfl
    exact absurd hstart (by decide)
  constructor
  · apply not_isAdminPath hstart
    rcases h with heq | hbelow
    · rw [heq]
    · exact (List.prefix_append _ _).trans hbelow
  · exact not_isAdminPath hstart (h.start_resolve hwords hne hdots hnone)

/-! ## Site by site -/

variable {found : Row}

theorem id_notAdmin (he : e.Searches) (h : deciding e r httpsPort .id = some found)
    (hproxy : found.isProxy = true) : NotAdmin e charset r.path := by
  obtain ⟨hdotdot, h⟩ := firstMatch_cons_of_refused rfl hproxy h
  obtain ⟨-, h⟩ := firstMatch_cons_of_refused rfl hproxy h
  obtain ⟨hencoded, h⟩ := firstMatch_cons_of_refused rfl hproxy h
  rw [dotdot_admits] at hdotdot
  rw [encoded_admits] at hencoded
  have hdots := dotsApart_of_search he hdotdot
  have hnone := noDotByte_of_search he hencoded
  have hrealm : ∀ pattern ∈ realmPaths, caddyPathMatches e.cases pattern r.path = true →
      NotAdmin e charset r.path := fun pattern hmem hmatch =>
    (realm_of_matches hmem hmatch).notAdmin (by decide) (by decide) hdots hnone
  rcases firstMatch_cons h with ⟨hadmits, -⟩ | ⟨-, h⟩
  · obtain ⟨pattern, hmem, hmatch⟩ := matches_of_published hadmits
    rcases List.mem_append.mp hmem with hmem | hmem
    · exact hrealm pattern hmem hmatch
    · rw [List.mem_singleton.mp hmem] at hmatch
      exact (resources_of_matches hmatch).notAdmin (by decide) (by decide) hdots hnone
  · rcases firstMatch_cons h with ⟨hadmits, -⟩ | ⟨-, h⟩
    · obtain ⟨-, pattern, hmem, hmatch⟩ := backchannelRow_admits hadmits
      exact hrealm pattern hmem hmatch
    · exact (not_proxied_deny hproxy h).elim

theorem admin_admits (h : deciding e r adminPort .id = some found) (hproxy : found.isProxy = true) :
    IsAdminPath e.cases r.path ∨ "/resources/".toList <+: e.cases.lower r.path := by
  obtain ⟨-, h⟩ := firstMatch_cons_of_refused rfl hproxy h
  obtain ⟨-, h⟩ := firstMatch_cons_of_refused rfl hproxy h
  rcases firstMatch_cons h with ⟨hadmits, -⟩ | ⟨-, h⟩
  · obtain ⟨pattern, hmem, hmatch⟩ := matches_of_published hadmits
    rcases List.mem_append.mp hmem with hmem | hmem
    · exact Or.inl (admin_of_matches hmem hmatch)
    · rw [List.mem_singleton.mp hmem] at hmatch
      exact Or.inr ((@matches_start e.cases "/resources/".toList r.path (by decide) (by decide)).mp
        hmatch)
  · exact (not_proxied_deny hproxy h).elim

theorem app_logout (h : deciding e r httpsPort .app = some found) (hproxy : found.isProxy = true)
    (hpath : logoutPath <+: e.cases.lower r.path) :
    e.cases.lower r.path = logoutPath ∧ r.method = "POST".toList ∧
      e.inside idpSubnet r.source = true := by
  obtain ⟨-, h⟩ := firstMatch_cons_of_refused rfl hproxy h
  rcases firstMatch_cons h with ⟨hadmits, -⟩ | ⟨-, h⟩
  · obtain ⟨hinside, hmatch, hmethod⟩ := logoutRow_admits hadmits
    exact ⟨(matches_word (by decide)).mp hmatch, hmethod, hinside⟩
  · obtain ⟨hnot, -⟩ := firstMatch_cons_of_refused rfl hproxy h
    have hmatch : caddyPathMatches e.cases (logoutPath ++ ['*']) r.path = true :=
      (matches_start (by decide) (by decide)).mpr hpath
    rw [refusedPaths_admits, List.any_cons, hmatch] at hnot
    cases hnot

theorem api_admits (h : deciding e r httpsPort .api = some found) (hproxy : found.isProxy = true) :
    "/api/".toList <+: e.cases.lower r.path ∧ e.inside backchannelSubnet r.source = true := by
  obtain ⟨-, h⟩ := firstMatch_cons_of_refused rfl hproxy h
  rcases firstMatch_cons h with ⟨hadmits, -⟩ | ⟨-, h⟩
  · obtain ⟨hinside, pattern, hmem, hmatch⟩ := backchannelRow_admits hadmits
    rw [List.mem_singleton.mp hmem] at hmatch
    exact ⟨(@matches_start e.cases "/api/".toList r.path (by decide) (by decide)).mp hmatch,
      hinside⟩
  · exact (not_proxied_deny hproxy h).elim

/-- The table's proxy rows with no source allow-list except the committed subnets. -/
def exceptsCommitted (row : Row) : Bool :=
  !row.isProxy || row.ranges.isSome || row.negated == some committedSubnets

theorem all_exceptsCommitted {port : ℕ} {site : Site} {rows : List Row}
    (h : expectedRoutes port site = some rows) : rows.all exceptsCommitted = true := by
  unfold expectedRoutes at h
  split at h
  · cases site with
    | app =>
      cases h
      decide
    | id =>
      cases h
      decide
    | api =>
      cases h
      decide
  · split at h
    · cases site with
      | app => cases h
      | id =>
        cases h
        decide
      | api => cases h
    · cases h

/-- Nothing inside the committed subnets gets through a published row. -/
theorem published_outside {port : ℕ} {site : Site} (h : deciding e r port site = some found)
    (hproxy : found.isProxy = true) (hranges : found.ranges = none) :
    ∀ net ∈ committedSubnets, e.inside net r.source = false := by
  unfold deciding at h
  obtain ⟨rows, hrows, hfound⟩ := Option.bind_eq_some_iff.mp h
  have hadmits := List.find?_some hfound
  have hexcepts := List.all_eq_true.mp (all_exceptsCommitted hrows) found
    (List.mem_of_find?_eq_some hfound)
  unfold exceptsCommitted at hexcepts
  rw [hproxy, hranges, Bool.not_true, Option.isSome_none, Bool.or_false, Bool.false_or,
    beq_iff_eq] at hexcepts
  exact outside_of_negated hexcepts hadmits

end Admin

/-- The edge table keeps the administration, the back channel and the committed subnets apart. -/
theorem edge_table_isolates_admin {Address : Type} (e : Engine Address) (he : e.Searches)
    (charset : Percent.Charset) (r : Request Address) :
    (∀ found, deciding e r httpsPort .id = some found → found.isProxy = true →
      ¬ IsAdminPath e.cases r.path ∧
        ¬ IsAdminPath e.cases (resolve (Percent.decode charset r.path))) ∧
    (∀ found, deciding e r adminPort .id = some found → found.isProxy = true →
      IsAdminPath e.cases r.path ∨ "/resources/".toList <+: e.cases.lower r.path) ∧
    (∀ port site found, deciding e r port site = some found → found.isProxy = true →
      found.ranges = none → ∀ net ∈ committedSubnets, e.inside net r.source = false) ∧
    (∀ found, deciding e r httpsPort .app = some found → found.isProxy = true →
      logoutPath <+: e.cases.lower r.path → e.cases.lower r.path = logoutPath ∧
        r.method = "POST".toList ∧ e.inside idpSubnet r.source = true) ∧
    ∀ found, deciding e r httpsPort .api = some found → found.isProxy = true →
      "/api/".toList <+: e.cases.lower r.path ∧ e.inside backchannelSubnet r.source = true :=
  ⟨fun _ h hproxy => id_notAdmin he h hproxy, fun _ h hproxy => admin_admits h hproxy,
    fun _ _ _ h hproxy hranges => published_outside h hproxy hranges,
    fun _ h hproxy hpath => app_logout h hproxy hpath, fun _ h hproxy => api_admits h hproxy⟩

/-- An engine over addresses that are the network they are in. -/
def engineSample : Engine Str where
  cases := CaseTable.identity
  inside net source := net == source
  search pattern path :=
    if pattern = dotdotPattern then decide (['.', '.'] <:+: path)
    else if pattern = encodedPathPattern then encodedCodes.any fun code => decide ('%' :: code <:+: path)
    else false

theorem engineSample_searches : engineSample.Searches := by
  constructor
  · intro path
    change decide (['.', '.'] <:+: path) = true ↔ _
    exact decide_eq_true_iff
  · intro path
    change (encodedCodes.any fun code => decide ('%' :: code <:+: path)) = true ↔ _
    simp only [List.any_eq_true, decide_eq_true_eq]

def consoleSample : Request Str := ⟨[], "GET".toList, "/realms/decisya/account".toList⟩

theorem edge_table_isolates_admin_sample :
    ¬ IsAdminPath CaseTable.identity "/realms/decisya/account".toList ∧
      ¬ IsAdminPath CaseTable.identity
        (resolve (Percent.decode Percent.Charset.ascii "/realms/decisya/account".toList)) := by
  have hall := edge_table_isolates_admin engineSample engineSample_searches Percent.Charset.ascii
    consoleSample
  exact hall.1 (published (some publishedIdPaths) keycloak) (by decide) rfl

end Decisya.Edge
