import Decisya.ImageScan.Policy

/-!
# The order of the exceptions

An entry covers a match by any of its ids, and the first active one in the list is judged alone.
Where a fix leaves a short entry in force but not a long one, the order of two entries for one
match decides.
-/

namespace Decisya.ImageScan

open Calendar Python

set_option autoImplicit false

/-! ## Valid entries -/

def exceptionImages : List Str := aliases ++ ["api".toList, "bff".toList, "migrator".toList]

def maxExceptionDays : ℕ := 90

/-- `$` also lets one line feed at the end through. -/
def withoutNewline (s : Str) : Str := if s.getLast? = some '\n' then s.dropLast else s

def isGhsaChar (c : Char) : Bool := "23456789cfghjmpqrvwx".toList.contains c

def isGhsa (s : Str) : Bool :=
  s.length == 19 && s.take 4 == "GHSA".toList &&
    [4, 9, 14].all fun i => s[i]? == some '-' && ((s.drop (i + 1)).take 4).all isGhsaChar

def isPackageChar (c : Char) : Bool := c.isAlphanum || "._:@/+-".toList.contains c

/-- `PACKAGE_RE` -/
def isPackage (s : Str) : Bool :=
  match withoutNewline s with
  | [] => false
  | c :: rest => c.isAlphanum && rest.all isPackageChar

section Valid

-- `\d`, which every decimal digit matches
variable (isDecimal : Char → Bool)

def isCve (s : Str) : Bool :=
  s.take 4 == "CVE-".toList && ((s.drop 4).take 4).all isDecimal && s[8]? == some '-' &&
    decide (13 ≤ s.length) && (s.drop 9).all isDecimal

/-- `ID_RE` -/
def isExceptionId (s : Str) : Bool := isCve isDecimal (withoutNewline s) || isGhsa (withoutNewline s)

/-- What `exception_errors` asks of an entry apart from its justification and its issue. -/
structure ValidEntry (today : Date) (e : Entry) : Prop where
  id : isExceptionId isDecimal e.id = true
  image : e.image ∈ exceptionImages
  package : isPackage e.package = true
  added : e.added ≤ today
  expires : e.added ≤ e.expires
  window : e.expires.toordinal ≤ e.added.toordinal + maxExceptionDays

end Valid

/-! ## One match -/

def Judged.isExcepted : Judged → Bool
  | finding _ => false
  | excepted _ _ => true

/-- The active entries that cover a match. -/
def covering (exceptions : List Entry) (today : Date) (name : Str) (b : Blocking) : List Entry :=
  (exceptions.filter fun e => today ≤ e.expires).filter fun e => e.covers name b

def Entry.isShort (e : Entry) : Bool :=
  decide (e.expires.toordinal ≤ e.added.toordinal + maxFixedExceptionDays)

/-- A fixed match for which the narrow rule asks for nothing but a short entry. -/
structure Narrow (name : Str) (tagState : Option TagState) (b : Blocking) : Prop where
  fixed : b.fixed = true
  tag : tagState = some .unchanged
  image : name ∈ aliases
  type : inOsPackageTypes b.artifact = some true

section Match

variable {name : Str} {exceptions : List Entry} {today : Date} {tagState : Option TagState}
  {tagLabel : Str} {b : Blocking} {e : Entry} {judged : Judged}

theorem hitOf_eq_head? : hitOf exceptions today name b = (covering exceptions today name b).head? :=
  List.head?_filter.symm

theorem mem_covering : e ∈ covering exceptions today name b ↔
    e ∈ exceptions ∧ today ≤ e.expires ∧ e.covers name b = true := by
  unfold covering
  rw [List.mem_filter, List.mem_filter, decide_eq_true_eq, and_assoc]

theorem covers_iff : e.covers name b = true ↔ e.image = name ∧ b.item.package.isStr e.package = true ∧
    b.ids.any (fun x => x.isStr e.id) = true := by
  simp [Entry.covers, and_assoc]

theorem keepsFixedException_eq_true {artifact : Json} :
    keepsFixedException e name artifact tagState = some true ↔
      (tagState = some .unchanged ∧ name ∈ aliases) ∧ inOsPackageTypes artifact = some true ∧
        e.isShort = true := by
  unfold keepsFixedException
  split
  · rename_i hnarrow
    cases htype : inOsPackageTypes artifact with
    | none => simp [hnarrow]
    | some isOs =>
      cases isOs with
      | false => simp [hnarrow]
      | true => simp [hnarrow, Entry.isShort]
  · rename_i hnarrow
    simp [hnarrow]

/-- A match is excepted by the entry found if it is not fixed, or by the narrow rule. -/
theorem isExcepted_settle {found : Option Entry}
    (h : settle name tagState tagLabel b found = some judged) :
    judged.isExcepted = true ↔
      ∃ hit, found = some hit ∧ (b.fixed = false ∨ Narrow name tagState b ∧ hit.isShort = true) := by
  have hkeeps : ∀ hit : Entry,
      b.fixed = true ∧ keepsFixedException hit name b.artifact tagState = some true ↔
        Narrow name tagState b ∧ hit.isShort = true := by
    intro hit
    rw [keepsFixedException_eq_true]
    constructor
    · rintro ⟨hfixed, ⟨htag, hname⟩, htype, hshort⟩
      exact ⟨⟨hfixed, htag, hname, htype⟩, hshort⟩
    · rintro ⟨hnarrow, hshort⟩
      exact ⟨hnarrow.fixed, ⟨hnarrow.tag, hnarrow.image⟩, hnarrow.type, hshort⟩
  rcases settle_cases h with ⟨note, rfl, hnot⟩ | ⟨hit, note, hfound, rfl, hcase⟩
  · constructor
    · intro hfalse
      cases hfalse
    · rintro ⟨hit, hfound, hcase⟩
      obtain ⟨hfixed, hkept⟩ := hnot hit hfound
      rcases hcase with hcase | hcase
      · rw [hfixed] at hcase
        cases hcase
      · have hkept' := ((hkeeps hit).mpr hcase).2
        rw [hkept] at hkept'
        cases hkept'
  · simp only [Judged.isExcepted, true_iff]
    refine ⟨hit, hfound, ?_⟩
    rw [← hkeeps hit]
    exact hcase

theorem settle_isSome_of_narrow (hnarrow : Narrow name tagState b) (found : Option Entry) :
    ∃ judged, settle name tagState tagLabel b found = some judged := by
  cases found with
  | none => exact ⟨_, rfl⟩
  | some hit =>
    unfold settle keepsFixedException
    simp only [hnarrow.fixed, hnarrow.tag, hnarrow.image, hnarrow.type, and_self, if_true,
      Option.bind_eq_bind, Option.bind_some, Bool.true_and]
    split
    · exact ⟨_, rfl⟩
    · exact ⟨_, rfl⟩

theorem keepsFixedException_congr {hit other : Entry} (hfixed : b.fixed = true)
    (h : Narrow name tagState b → hit.isShort = other.isShort) :
    keepsFixedException hit name b.artifact tagState
      = keepsFixedException other name b.artifact tagState := by
  unfold keepsFixedException
  split
  · rename_i hnarrow
    cases htype : inOsPackageTypes b.artifact with
    | none => simp only [Option.bind_eq_bind, Option.bind_none]
    | some isOs =>
      cases isOs with
      | false => simp only [Option.bind_eq_bind, Option.bind_some, Bool.false_and]
      | true =>
        have hsame := h ⟨hfixed, hnarrow.1, hnarrow.2, htype⟩
        unfold Entry.isShort at hsame
        simp only [Option.bind_eq_bind, Option.bind_some, Bool.true_and, hsame]
  · rfl

/-- Which entry was found matters only to the narrow rule, and only by its length. -/
theorem settle_congr {hit other : Entry} (h : Narrow name tagState b → hit.isShort = other.isShort) :
    (settle name tagState tagLabel b (some hit)).map Judged.isExcepted
      = (settle name tagState tagLabel b (some other)).map Judged.isExcepted := by
  unfold settle
  dsimp only
  cases hfixed : b.fixed with
  | false =>
    simp only [Bool.false_eq_true, if_false, Option.map_some, Judged.isExcepted]
  | true =>
    rw [if_pos rfl, if_pos rfl, keepsFixedException_congr hfixed h]
    cases keepsFixedException other name b.artifact tagState with
    | none => simp only [Option.bind_eq_bind, Option.bind_none]
    | some kept =>
      cases kept with
      | true =>
        simp only [Option.bind_eq_bind, Option.bind_some, if_true, Option.map_some,
          Judged.isExcepted]
      | false => simp only [Option.bind_eq_bind, Option.bind_some, Bool.false_eq_true, if_false]

theorem hitOf_cons {rest : List Entry} (hactive : today ≤ e.expires)
    (hcovers : e.covers name b = true) : hitOf (e :: rest) today name b = some e := by
  rw [hitOf, List.filter_cons, if_pos (decide_eq_true hactive), List.find?_cons]
  simp only [hcovers]

theorem hitOf_eq_none_iff : hitOf exceptions today name b = none ↔
    covering exceptions today name b = [] := by
  rw [hitOf_eq_head?, List.head?_eq_none_iff]

theorem mem_covering_of_hitOf (h : hitOf exceptions today name b = some e) :
    e ∈ covering exceptions today name b := by
  rw [hitOf_eq_head?] at h
  exact List.mem_of_head? h

end Match

/-! ## All matches -/

section Policy

variable (elevates : Json → Option Bool) (isDecimal : Char → Bool) (doc : Json) (name : Str)
  (today : Date) (tagState : Option TagState) (tagLabel : Str)

/-- The matches of a document that has some. -/
def matchesOf : List Json :=
  (do (← (← doc.get "matches")).iterate).getD []

/-- Whether a match is excepted: `some none` when it is passed over, `none` when it raises. -/
def status (exceptions : List Entry) (m : Json) : Option (Option Bool) :=
  (judge elevates name exceptions today tagState tagLabel m).map (Option.map Judged.isExcepted)

/-- The order of the exceptions changes no verdict. -/
def OrderFree (exceptions : List Entry) : Prop :=
  ∀ permuted, exceptions.Perm permuted → ∀ m ∈ matchesOf doc,
    status elevates name today tagState tagLabel permuted m
      = status elevates name today tagState tagLabel exceptions m

/-- One more valid entry makes no finding of an excepted match. -/
def OnlyHelps (exceptions : List Entry) : Prop :=
  ∀ before after e, exceptions = before ++ after → ValidEntry isDecimal today e →
    e.key ∉ exceptions.map Entry.key → ∀ m ∈ matchesOf doc,
      status elevates name today tagState tagLabel exceptions m = some (some true) →
        status elevates name today tagState tagLabel (before ++ e :: after) m ≠ some (some false)

/-- The entries for a match agree: all long, or all short with none left to be added. -/
def Agree (exceptions : List Entry) (b : Blocking) : Prop :=
  (∀ e ∈ covering exceptions today name b, e.isShort = false) ∨
    (∀ e ∈ covering exceptions today name b, e.isShort = true) ∧
      ∀ package id, b.item.package.isStr package = true →
        b.ids.any (fun x => x.isStr id) = true → isExceptionId isDecimal id = true →
          (name, package, id) ∈ exceptions.map Entry.key

variable {elevates isDecimal doc name today tagState tagLabel}
variable {exceptions : List Entry} {m : Json} {b : Blocking}

theorem status_of_blocking (hb : blocking elevates name m = some (some b)) :
    status elevates name today tagState tagLabel exceptions m
      = ((settle name tagState tagLabel b (hitOf exceptions today name b)).map
          Judged.isExcepted).map some := by
  unfold status judge
  rw [hb]
  simp only [Option.bind_eq_bind, Option.bind_some, Option.map_map]
  rfl

theorem status_eq_excepted_iff (hb : blocking elevates name m = some (some b)) {judged : Judged}
    (h : settle name tagState tagLabel b (hitOf exceptions today name b) = some judged) :
    status elevates name today tagState tagLabel exceptions m = some (some judged.isExcepted) := by
  rw [status_of_blocking hb, h]
  rfl

theorem judgements_eq_some {judged : List Judged}
    (h : judgements elevates doc name exceptions today tagState tagLabel = some judged) :
    ∃ ms found, matchesOf doc = ms ∧
      ms.mapM (judge elevates name exceptions today tagState tagLabel) = some found ∧
      judged = found.filterMap id := by
  unfold judgements at h
  simp only [Option.bind_eq_bind, Option.bind_eq_some_iff, Option.some.injEq] at h
  obtain ⟨field, hfield, value, hvalue, ms, hms, found, hfound, hjudged⟩ := h
  refine ⟨ms, found, ?_, hfound, hjudged.symm⟩
  unfold matchesOf
  rw [hfield]
  simp only [Option.bind_eq_bind, Option.bind_some]
  rw [hvalue]
  simp only [Option.bind_some]
  rw [hms]
  rfl

/-- The verdicts of `evaluate`, in the order of the matches. -/
theorem map_isExcepted_judgements {judged : List Judged}
    (h : judgements elevates doc name exceptions today tagState tagLabel = some judged) :
    judged.map Judged.isExcepted = (matchesOf doc).filterMap fun m =>
      (status elevates name today tagState tagLabel exceptions m).join := by
  obtain ⟨ms, found, hmatches, hfound, rfl⟩ := judgements_eq_some h
  rw [hmatches]
  clear hmatches h
  induction ms generalizing found with
  | nil =>
    cases hfound
    rfl
  | cons m ms ih =>
    simp only [List.mapM_cons, Option.bind_eq_bind, Option.bind_eq_some_iff, Option.pure_def,
      Option.some.injEq] at hfound
    obtain ⟨first, hfirst, rest, hrest, rfl⟩ := hfound
    have htail := ih rest hrest
    have hstatus : (status elevates name today tagState tagLabel exceptions m).join
        = first.map Judged.isExcepted := by
      rw [status, hfirst]
      rfl
    simp only [List.filterMap_cons, hstatus]
    rw [← htail]
    cases first <;> rfl

/-- For a match under the narrow rule the entry found decides by its length. -/
theorem status_of_narrow (hb : blocking elevates name m = some (some b))
    (hnarrow : Narrow name tagState b) :
    status elevates name today tagState tagLabel exceptions m
      = some (some ((hitOf exceptions today name b).any Entry.isShort)) := by
  obtain ⟨judged, hjudged⟩ : ∃ judged,
      settle name tagState tagLabel b (hitOf exceptions today name b) = some judged :=
    settle_isSome_of_narrow hnarrow _
  rw [status_eq_excepted_iff hb hjudged]
  congr 2
  apply Bool.eq_iff_iff.mpr
  rw [isExcepted_settle hjudged, hnarrow.fixed]
  cases hitOf exceptions today name b with
  | none =>
    constructor
    · rintro ⟨hit, hhit, -⟩
      cases hhit
    · intro hany
      cases hany
  | some hit =>
    constructor
    · rintro ⟨other, hother, hcase⟩
      cases hother
      exact (hcase.resolve_left Bool.noConfusion).2
    · intro hshort
      exact ⟨hit, rfl, Or.inr ⟨hnarrow, hshort⟩⟩

theorem perm_covering {permuted : List Entry} (h : exceptions.Perm permuted) :
    (covering exceptions today name b).Perm (covering permuted today name b) :=
  (h.filter _).filter _

/-- Where the entries agree on their length, the order cannot decide. -/
theorem status_perm {permuted : List Entry} (h : exceptions.Perm permuted)
    (hagree : ∀ b, blocking elevates name m = some (some b) → Narrow name tagState b →
      Agree isDecimal name today exceptions b) :
    status elevates name today tagState tagLabel permuted m
      = status elevates name today tagState tagLabel exceptions m := by
  cases hblocking : blocking elevates name m with
  | none =>
    unfold status judge
    rw [hblocking]
    rfl
  | some blocked =>
    cases blocked with
    | none =>
      unfold status judge
      rw [hblocking]
      rfl
    | some b =>
      rw [status_of_blocking hblocking, status_of_blocking hblocking]
      congr 1
      have hperm : (covering exceptions today name b).Perm (covering permuted today name b) :=
        perm_covering h
      cases hhit : hitOf exceptions today name b with
      | none =>
        have hnil := hitOf_eq_none_iff.mp hhit
        rw [hnil] at hperm
        have hother := hitOf_eq_none_iff.mpr hperm.nil_eq.symm
        rw [hother]
      | some hit =>
        cases hother : hitOf permuted today name b with
        | none =>
          rw [hitOf_eq_none_iff.mp hother] at hperm
          rw [hitOf_eq_none_iff.mpr hperm.eq_nil] at hhit
          cases hhit
        | some other =>
          apply settle_congr
          intro hnarrow
          have hhitmem := mem_covering_of_hitOf hhit
          have hothermem := hperm.mem_iff.mpr (mem_covering_of_hitOf hother)
          rcases hagree b hblocking hnarrow with hlong | ⟨hshort, -⟩
          · rw [hlong _ hothermem, hlong _ hhitmem]
          · rw [hshort _ hothermem, hshort _ hhitmem]

/-- An entry the list does not have covers no match whose ids are all listed. -/
theorem covering_insert {before after : List Entry} {e hit : Entry}
    (hlist : exceptions = before ++ after) (hvalid : ValidEntry isDecimal today e)
    (hkey : e.key ∉ exceptions.map Entry.key)
    (hlisted : ∀ package id, b.item.package.isStr package = true →
      b.ids.any (fun x => x.isStr id) = true → isExceptionId isDecimal id = true →
        (name, package, id) ∈ exceptions.map Entry.key)
    (hhit : hit ∈ covering (before ++ e :: after) today name b) :
    hit ∈ covering exceptions today name b := by
  obtain ⟨hmem, hactive, hcovers⟩ := mem_covering.mp hhit
  obtain ⟨himage, hpackage, hid⟩ := covers_iff.mp hcovers
  apply mem_covering.mpr
  refine ⟨?_, hactive, hcovers⟩
  rw [hlist, List.mem_append]
  rcases List.mem_append.mp hmem with hmem | hmem
  · exact Or.inl hmem
  · rcases List.mem_cons.mp hmem with rfl | hmem
    · have hin := hlisted hit.package hit.id hpackage hid hvalid.id
      rw [← himage] at hin
      exact absurd hin hkey
    · exact Or.inr hmem

theorem status_eq_some {excepted : Bool}
    (h : status elevates name today tagState tagLabel exceptions m = some (some excepted)) :
    ∃ b judged, blocking elevates name m = some (some b) ∧
      settle name tagState tagLabel b (hitOf exceptions today name b) = some judged ∧
      judged.isExcepted = excepted := by
  obtain ⟨found, hjudge, hsome⟩ := Option.map_eq_some_iff.mp h
  obtain ⟨judged, rfl, hexcepted⟩ := Option.map_eq_some_iff.mp hsome
  rcases judge_cases hjudge with ⟨-, hnone⟩ | ⟨b, other, hblocking, hfound, hsettle⟩
  · cases hnone
  · cases hfound
    exact ⟨b, judged, hblocking, hsettle, hexcepted⟩

theorem onlyHelps_of_agree (hagree : ∀ m ∈ matchesOf doc, ∀ b,
      blocking elevates name m = some (some b) → Narrow name tagState b →
        Agree isDecimal name today exceptions b) :
    OnlyHelps elevates isDecimal doc name today tagState tagLabel exceptions := by
  intro before after e hlist hvalid hkey m hm hexcepted hfinding
  obtain ⟨b, judged, hblocking, hsettle, htrue⟩ := status_eq_some hexcepted
  obtain ⟨b', judged', hblocking', hsettle', hfalse⟩ := status_eq_some hfinding
  rw [hblocking] at hblocking'
  cases hblocking'
  obtain ⟨hit, hhit, hcase⟩ := (isExcepted_settle hsettle).mp htrue
  have hcovering := mem_covering_of_hitOf hhit
  have hgrown : hit ∈ covering (before ++ e :: after) today name b := by
    obtain ⟨hmem, hrest⟩ := mem_covering.mp hcovering
    rw [hlist, List.mem_append] at hmem
    refine mem_covering.mpr ⟨?_, hrest⟩
    rw [List.mem_append, List.mem_cons]
    exact hmem.imp_right Or.inr
  obtain ⟨hit', hhit'⟩ : ∃ hit', hitOf (before ++ e :: after) today name b = some hit' := by
    cases hnew : hitOf (before ++ e :: after) today name b with
    | none =>
      rw [hitOf_eq_none_iff.mp hnew] at hgrown
      cases hgrown
    | some hit' => exact ⟨hit', rfl⟩
  have hstill : judged'.isExcepted = true := by
    apply (isExcepted_settle hsettle').mpr
    refine ⟨hit', hhit', ?_⟩
    rcases hcase with hopen | ⟨hnarrow, hshort⟩
    · exact Or.inl hopen
    · right
      refine ⟨hnarrow, ?_⟩
      rcases hagree m hm b hblocking hnarrow with hlong | ⟨hallShort, hlisted⟩
      · rw [hlong hit hcovering] at hshort
        cases hshort
      · exact hallShort hit' (covering_insert hlist hvalid hkey hlisted
          (mem_covering_of_hitOf hhit'))
  rw [hstill] at hfalse
  cases hfalse

/-- An entry of more than 30 days for any id of a match. -/
theorem exists_long_entry (hname : name ∈ aliases) {package id : Str} (hpackage : isPackage package = true)
    (hid : isExceptionId isDecimal id = true) (today : Date) : ∃ e : Entry,
    ValidEntry isDecimal today e ∧ e.key = (name, package, id) ∧ today ≤ e.expires ∧
      e.isShort = false := by
  obtain ⟨first, last, hfirst, hlast, hlong, hshort⟩ := Date.exists_span today
  refine ⟨⟨id, name, package, first, last⟩, ⟨hid, List.mem_append_left _ hname, hpackage, hfirst,
    le_trans hfirst hlast, hshort⟩, rfl, hlast, ?_⟩
  apply decide_eq_false
  rw [not_le]
  exact hlong

/-- A covering entry moved to the front decides. -/
theorem status_front (hb : blocking elevates name m = some (some b))
    (hnarrow : Narrow name tagState b) {e : Entry} {rest : List Entry} (hactive : today ≤ e.expires)
    (hcovers : e.covers name b = true) :
    status elevates name today tagState tagLabel (e :: rest) m = some (some e.isShort) := by
  rw [status_of_narrow hb hnarrow, hitOf_cons hactive hcovers]
  rfl

theorem agree_of_order (hvalid : ∀ e ∈ exceptions, ValidEntry isDecimal today e)
    (horder : OrderFree elevates doc name today tagState tagLabel exceptions)
    (honly : OnlyHelps elevates isDecimal doc name today tagState tagLabel exceptions)
    (hm : m ∈ matchesOf doc) (hb : blocking elevates name m = some (some b))
    (hnarrow : Narrow name tagState b) : Agree isDecimal name today exceptions b := by
  have hstatus : ∀ e ∈ covering exceptions today name b,
      status elevates name today tagState tagLabel exceptions m = some (some e.isShort) := by
    intro e he
    obtain ⟨hmem, hactive, hcovers⟩ := mem_covering.mp he
    have hfront := horder _ (List.perm_cons_erase hmem) m hm
    rw [status_front hb hnarrow hactive hcovers] at hfront
    exact hfront.symm
  by_cases hshort : ∃ e ∈ covering exceptions today name b, e.isShort = true
  · obtain ⟨s, hs, hsshort⟩ := hshort
    have hexcepted := hstatus s hs
    rw [hsshort] at hexcepted
    right
    constructor
    · intro e he
      have hsame := hstatus e he
      rw [hexcepted] at hsame
      exact (Option.some.inj (Option.some.inj hsame)).symm
    · intro package id hpackage hid hvalidId
      by_contra hfree
      obtain ⟨hmem, hactive, hcovers⟩ := mem_covering.mp hs
      have hspackage := (covers_iff.mp hcovers).2.1
      have hsame : s.package = package := by
        cases hjson : b.item.package <;> rw [hjson] at hpackage hspackage <;>
          simp [Json.isStr] at hpackage hspackage
        exact hspackage.symm.trans hpackage
      obtain ⟨e, hentry, hkey, hlater, hlong⟩ :=
        exists_long_entry hnarrow.image (hvalid s hmem).package hvalidId today
      rw [hsame] at hkey
      have hnew : e.key ∉ exceptions.map Entry.key := by
        rw [hkey]
        exact hfree
      have hnewCovers : e.covers name b = true := by
        have himage : e.image = name := congrArg Prod.fst hkey
        have hpack : e.package = package := congrArg (fun key => key.2.1) hkey
        have hident : e.id = id := congrArg (fun key => key.2.2) hkey
        rw [covers_iff, himage, hpack, hident]
        exact ⟨rfl, hpackage, hid⟩
      have hfinding : status elevates name today tagState tagLabel (e :: exceptions) m
          = some (some false) := by
        rw [status_front hb hnarrow hlater hnewCovers, hlong]
      exact honly [] exceptions e rfl hentry hnew m hm hexcepted hfinding
  · left
    intro e he
    by_contra hne
    exact hshort ⟨e, he, eq_true_of_ne_false hne⟩

end Policy

/-! ## A match with two ids -/

theorem fixDay_isSome : (Date.of? 2026 10 1).isSome = true := by decide

theorem soonDay_isSome : (Date.of? 2026 10 20).isSome = true := by decide

theorem farDay_isSome : (Date.of? 2026 12 1).isSome = true := by decide

def fixDay : Date := (Date.of? 2026 10 1).get fixDay_isSome

/-- 61 days on, or 19. -/
def fixExpires (isLong : Bool) : Date :=
  if isLong then (Date.of? 2026 12 1).get farDay_isSome
  else (Date.of? 2026 10 20).get soonDay_isSome

theorem fixExpires_bounds (isLong : Bool) : fixDay ≤ fixExpires isLong ∧
    (fixExpires isLong).toordinal ≤ fixDay.toordinal + maxExceptionDays := by
  cases isLong <;> decide +kernel

def fixEntry (id : Str) (isLong : Bool) : Entry where
  id := id
  image := "redis".toList
  package := "openssl".toList
  added := fixDay
  expires := fixExpires isLong

def shortEntry : Entry := fixEntry "CVE-2026-0001".toList false

def longEntry : Entry := fixEntry "CVE-2026-0002".toList true

/-- A fixed match of an OS package, with a related id or without. -/
def fixMatch (related : List Json) : Json :=
  .obj [("vulnerability".toList, .obj [("id".toList, .str "CVE-2026-0001".toList),
      ("severity".toList, .str "High".toList), ("fix".toList, .obj [("state".toList, .str "fixed".toList)])]),
    ("relatedVulnerabilities".toList, .arr related),
    ("artifact".toList, .obj [("name".toList, .str "openssl".toList),
      ("type".toList, .str "apk".toList)])]

def fixDoc (related : List Json) : Json := .obj [("matches".toList, .arr [fixMatch related])]

def relatedId : Json := .obj [("id".toList, .str "CVE-2026-0002".toList)]

theorem validEntry_fixEntry {id : Str} (hid : isExceptionId Char.isDigit id = true) (isLong : Bool) :
    ValidEntry Char.isDigit fixDay (fixEntry id isLong) where
  id := hid
  image := List.mem_append_left _ (show "redis".toList ∈ aliases by decide)
  package := show isPackage "openssl".toList = true by decide
  added := le_refl _
  expires := (fixExpires_bounds isLong).1
  window := (fixExpires_bounds isLong).2

end Decisya.ImageScan
