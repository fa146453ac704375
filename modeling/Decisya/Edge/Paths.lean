import Decisya.Text.Lowercase
import Decisya.Text.Percent

/-!
# Paths at the edge

The path matcher of the edge's routes, what it comes to for the patterns the routes hold, and
the paths of the identity provider's administration.
-/

namespace Decisya.Edge

open Python

set_option autoImplicit false

variable (table : CaseTable)

/-- An inner `*` stands for characters other than `/`. -/
def globMatches : Str → Str → Bool
  | [], path => path.isEmpty
  | c :: pattern, path =>
    if c = '*' then
      (List.range (path.length + 1)).any fun n =>
        (path.take n).all (· != '/') && globMatches pattern (path.drop n)
    else
      match path with
      | [] => false
      | d :: path => c == d && globMatches pattern path

def caddyPathMatches (pattern path : Str) : Bool :=
  let pattern := table.lower pattern
  let path := table.lower path
  if pattern = ['*'] then true
  else if '*' ∉ pattern then path == pattern
  else if '*' ∈ pattern.tail.dropLast then globMatches pattern path
  else
    let starts := pattern.head? == some '*'
    let ends := pattern.getLast? == some '*'
    let core := Text.trim (· == '*') pattern
    if starts && ends then decide (core <:+: path)
    else if starts then core.isSuffixOf path
    else core.isPrefixOf path

/-! ## What the patterns match -/

/-- Characters of a pattern that stand for themselves. -/
def isPlain (c : Char) : Bool := isLowerAscii c && c != '*'

section Match
variable {table : CaseTable} {word path : Str}

theorem isLowerAscii_of_isPlain (h : word.all isPlain = true) : word.all isLowerAscii = true := by
  rw [List.all_eq_true] at h ⊢
  intro c hc
  have hplain := h c hc
  unfold isPlain at hplain
  rw [Bool.and_eq_true] at hplain
  exact hplain.1

theorem star_not_mem (h : word.all isPlain = true) : '*' ∉ word := by
  intro hmem
  have hplain := List.all_eq_true.mp h '*' hmem
  exact absurd hplain (by decide)

theorem lower_of_isPlain (h : word.all isPlain = true) : table.lower word = word :=
  lower_eq (forall_lowersTo_self (isLowerAscii_of_isPlain h))

theorem matches_word (h : word.all isPlain = true) :
    caddyPathMatches table word path = true ↔ table.lower path = word := by
  have hstar := star_not_mem h
  unfold caddyPathMatches
  rw [lower_of_isPlain h]
  have hne : word ≠ ['*'] := by
    rintro rfl
    exact hstar List.mem_cons_self
  dsimp only
  rw [if_neg hne, if_pos hstar]
  exact beq_iff_eq

theorem matches_start (h : word.all isPlain = true) (hne : word ≠ []) :
    caddyPathMatches table (word ++ ['*']) path = true ↔ word <+: table.lower path := by
  have hstar := star_not_mem h
  have hlower : table.lower (word ++ ['*']) = word ++ ['*'] := by
    apply lower_eq
    apply List.rel_append (forall_lowersTo_self (isLowerAscii_of_isPlain h))
    exact List.Forall₂.cons (lowersTo_self (by decide)) List.Forall₂.nil
  have hinner : '*' ∉ (word ++ ['*']).tail.dropLast := by
    rw [List.tail_append_of_ne_nil hne, List.dropLast_concat]
    exact fun hmem => hstar (List.mem_of_mem_tail hmem)
  have hwhole : word ++ ['*'] ≠ ['*'] := by
    intro heq
    rw [List.append_left_eq_self] at heq
    exact hne heq
  have hhead : ((word ++ ['*']).head? == some '*') = false := by
    rw [List.head?_append_of_ne_nil _ hne, beq_eq_false_iff_ne]
    exact fun h => hstar (List.mem_of_head? h)
  have hcore : Text.trim (· == '*') (word ++ ['*']) = word := by
    rw [Text.trim_concat (by rfl)]
    apply Text.trim_eq_self
    intro c hc
    rw [beq_eq_false_iff_ne]
    rintro rfl
    exact hstar hc
  unfold caddyPathMatches
  rw [hlower]
  dsimp only
  rw [if_neg hwhole, if_neg (by simp), if_neg hinner, hhead, hcore, Bool.false_and,
    if_neg Bool.false_ne_true, if_neg Bool.false_ne_true, List.isPrefixOf_iff_prefix]

end Match

/-! ## The administration's paths -/

def adminRoots : List Str := ["/admin".toList, "/realms/master".toList]

/-- Up to case one of the roots, or below one. -/
def IsAdminPath (path : Str) : Prop :=
  ∃ root ∈ adminRoots, table.lower path = root ∨ root ++ ['/'] <+: table.lower path

def isSeparator (c : Char) : Bool := c == '/' || c == '\\'

/-- The path with its dot segments resolved, where a backslash separates as well. -/
def resolve (path : Str) : Str :=
  '/' :: join ['/'] (Text.resolveDots '.' (path.splitOnP isSeparator))

section Admin
variable {table : CaseTable} {path : Str}

/-- The start of every path that is published, up to case. -/
def publishedStarts : List Str := ["/realms/decisya".toList, "/resources".toList]

theorem not_isAdminPath {start : Str} (hstart : start ∈ publishedStarts)
    (h : start <+: table.lower path) : ¬ IsAdminPath table path := by
  rintro ⟨root, hroot, hpath⟩
  have hbelow : root <+: table.lower path := by
    rcases hpath with heq | hprefix
    · rw [heq]
    · exact (List.prefix_append root ['/']).trans hprefix
  have hcompare := List.prefix_or_prefix_of_prefix h hbelow
  revert hcompare
  unfold publishedStarts at hstart
  unfold adminRoots at hroot
  rw [List.mem_pair] at hstart hroot
  rcases hstart with rfl | rfl <;> rcases hroot with rfl | rfl <;> decide

end Admin

/-! ## Decoding once more -/

/-- The text that segments make. -/
def pathOf (segments : List Str) : Str := segments.flatMap fun segment => '/' :: segment

/-- A segment of a pattern: a word that no separator and no dot is in. -/
def isSegment (word : Str) : Bool :=
  word.all (fun c => isPlain c && !isSeparator c && c != '.' && c != '%') && !word.isEmpty

theorem isSeparator_of_lowersTo {c d : Char} (h : LowersTo c d) (hd : isSeparator d = false) :
    isSeparator c = false := by
  unfold isSeparator at hd ⊢
  rw [Bool.or_eq_false_iff, beq_eq_false_iff_ne, beq_eq_false_iff_ne] at hd ⊢
  rcases h with ⟨-, rfl⟩ | ⟨hkelvin, rfl⟩
  · constructor
    · rintro rfl
      exact hd.1 rfl
    · rintro rfl
      exact hd.2 rfl
  · constructor
    · rintro rfl
      exact absurd hkelvin (by decide)
    · rintro rfl
      exact absurd hkelvin (by decide)

/-- A character that is its own lower case is in a text only where it is in the lower case. -/
theorem not_mem_of_lowersTo {x : Char} (hx : x.toLower = x) (hkelvin : x.toNat ≠ 0x212a)
    {q word : Str} (h : List.Forall₂ LowersTo q word) (hword : x ∉ word) : x ∉ q := by
  intro hmem
  apply hword
  induction h with
  | nil => exact hmem
  | cons hc _ ih =>
    rcases List.mem_cons.mp hmem with rfl | hmem
    · rcases hc with ⟨-, hlower⟩ | ⟨hsame, -⟩
      · rw [← hlower, hx]
        exact List.mem_cons_self
      · exact absurd hsame hkelvin
    · exact List.mem_cons_of_mem _ (ih (fun h => hword (List.mem_cons_of_mem _ h)) hmem)

section Decode
variable {table : CaseTable} {charset : Percent.Charset}

theorem join_eq {segments : List Str} (hne : segments ≠ []) :
    '/' :: join ['/'] segments = pathOf segments := by
  induction segments with
  | nil => exact absurd rfl hne
  | cons s rest ih =>
    cases rest with
    | nil => simp [join, pathOf]
    | cons t rest =>
      have hrest := ih (List.cons_ne_nil t rest)
      have hcons : join ['/'] (s :: t :: rest) = s ++ '/' :: join ['/'] (t :: rest) := by
        simp [join, List.intercalate]
      rw [hcons, hrest]
      rfl

/-- Words of a pattern are segments of the path, in some case. -/
theorem exists_segments {words : List Str} {q : Str}
    (h : List.Forall₂ LowersTo q (pathOf words)) (hwords : words.all isSegment = true) :
    ∃ segments, q = pathOf segments ∧ List.Forall₂ (List.Forall₂ LowersTo) segments words := by
  induction words generalizing q with
  | nil =>
    cases h
    exact ⟨[], rfl, List.Forall₂.nil⟩
  | cons w words ih =>
    rw [List.all_cons, Bool.and_eq_true] at hwords
    unfold pathOf at h
    rw [List.flatMap_cons, List.cons_append] at h
    cases h with
    | cons hslash hrest =>
      rename_i c q
      have hc := eq_of_lowersTo hslash rfl
      have hfirst := List.forall₂_take_append q w _ hrest
      obtain ⟨segments, hsegments, hall⟩ := ih (List.forall₂_drop_append q w _ hrest) hwords.2
      refine ⟨q.take w.length :: segments, ?_, List.Forall₂.cons hfirst hall⟩
      rw [hc]
      unfold pathOf at hsegments ⊢
      rw [List.flatMap_cons, ← hsegments, List.cons_append, List.take_append_drop]

theorem isSegment_spec {word : Str} (h : isSegment word = true) :
    word ≠ [] ∧ (∀ c ∈ word, isSeparator c = false) ∧ '.' ∉ word ∧ '%' ∉ word := by
  unfold isSegment at h
  rw [Bool.and_eq_true, List.all_eq_true, Bool.not_eq_true', List.isEmpty_eq_false_iff] at h
  have hchars : ∀ c ∈ word, isSeparator c = false ∧ c ≠ '.' ∧ c ≠ '%' := by
    intro c hc
    have hall := h.1 c hc
    simp only [Bool.and_eq_true, Bool.not_eq_true', bne_iff_ne] at hall
    exact ⟨hall.1.1.2, hall.1.2, hall.2⟩
  exact ⟨h.2, fun c hc => (hchars c hc).1, fun hmem => (hchars _ hmem).2.1 rfl,
    fun hmem => (hchars _ hmem).2.2 rfl⟩

/-- What a segment of a pattern matches is an ordinary segment. -/
theorem segment_of_word {s word : Str} (h : List.Forall₂ LowersTo s word)
    (hword : isSegment word = true) :
    s ≠ [] ∧ (∀ c ∈ s, isSeparator c = false) ∧ '.' ∉ s ∧ '%' ∉ s := by
  obtain ⟨hne, hsep, hdot, hpercent⟩ := isSegment_spec hword
  refine ⟨?_, ?_, not_mem_of_lowersTo rfl (by decide) h hdot,
    not_mem_of_lowersTo rfl (by decide) h hpercent⟩
  · rintro rfl
    cases h
    exact hne rfl
  · clear hne hdot hpercent hword
    induction h with
    | nil => simp
    | cons hc _ ih =>
      intro x hx
      rcases List.mem_cons.mp hx with rfl | hx
      · exact isSeparator_of_lowersTo hc (hsep _ List.mem_cons_self)
      · exact ih (fun d hd => hsep d (List.mem_cons_of_mem _ hd)) x hx

theorem segments_spec {segments words : List Str}
    (h : List.Forall₂ (List.Forall₂ LowersTo) segments words)
    (hwords : words.all isSegment = true) :
    ∀ s ∈ segments, s ≠ [] ∧ (∀ c ∈ s, isSeparator c = false) ∧ '.' ∉ s ∧ '%' ∉ s := by
  induction h with
  | nil => simp
  | cons hs _ ih =>
    rw [List.all_cons, Bool.and_eq_true] at hwords
    intro s hmem
    rcases List.mem_cons.mp hmem with rfl | hmem
    · exact segment_of_word hs hwords.1
    · exact ih hwords.2 s hmem

/-- A path at or below one of words. -/
def AtOrBelow (table : CaseTable) (words : List Str) (path : Str) : Prop :=
  table.lower path = pathOf words ∨ pathOf words ++ ['/'] <+: table.lower path

theorem mem_pathOf {words : List Str} (hwords : words.all isSegment = true) {c : Char}
    (hc : c ∈ pathOf words) : c.toNat < 128 := by
  obtain ⟨w, hw, hmem⟩ := List.mem_flatMap.mp hc
  rcases List.mem_cons.mp hmem with rfl | hmem
  · decide
  · have hsegment := List.all_eq_true.mp hwords w hw
    unfold isSegment at hsegment
    rw [Bool.and_eq_true, List.all_eq_true] at hsegment
    have hplain := hsegment.1 c hmem
    simp only [Bool.and_eq_true, isPlain, isLowerAscii, decide_eq_true_eq] at hplain
    exact hplain.1.1.1.1.1

/-- The path's segments that the words match, and what is after them. -/
theorem AtOrBelow.exists_segments {words : List Str} {path : Str}
    (h : AtOrBelow table words path) (hwords : words.all isSegment = true) :
    ∃ segments tail, path = pathOf segments ++ tail ∧
      List.Forall₂ (List.Forall₂ LowersTo) segments words ∧
      List.Forall₂ LowersTo (pathOf segments) (pathOf words) ∧
      (tail = [] ∨ ∃ rest, tail = '/' :: rest) := by
  have hascii : ∀ c ∈ pathOf words, c.toNat < 128 := fun c hc => mem_pathOf hwords hc
  rcases h with heq | hbelow
  · have hpath := lowersTo_of_lower_eq hascii heq
    obtain ⟨segments, rfl, hall⟩ := Edge.exists_segments hpath hwords
    exact ⟨segments, [], (List.append_nil _).symm, hall, hpath, Or.inl rfl⟩
  · have hascii' : ∀ c ∈ pathOf words ++ ['/'], c.toNat < 128 := by
      intro c hc
      rcases List.mem_append.mp hc with hc | hc
      · exact hascii c hc
      · rw [List.mem_singleton.mp hc]
        decide
    obtain ⟨q, rest, rfl, hq⟩ := exists_of_prefix_lower hascii' (by simp) hbelow
    have hfirst := List.forall₂_take_append q _ _ hq
    have hsecond := List.forall₂_drop_append q _ _ hq
    obtain ⟨segments, hsegments, hall⟩ := Edge.exists_segments hfirst hwords
    rw [hsegments] at hfirst
    refine ⟨segments, q.drop (pathOf words).length ++ rest, ?_, hall, hfirst, Or.inr ?_⟩
    · rw [← hsegments, ← List.append_assoc, List.take_append_drop]
    · cases hdrop : q.drop (pathOf words).length with
      | nil =>
        rw [hdrop] at hsecond
        cases hsecond
      | cons c more =>
        rw [hdrop] at hsecond
        cases hsecond with
        | cons hc hnil =>
          cases hnil
          exact ⟨rest, by rw [eq_of_lowersTo hc rfl]; rfl⟩

theorem exists_pieces {segments : List Str} {tail : Str}
    (hspec : ∀ s ∈ segments, ∀ c ∈ s, isSeparator c = false)
    (htail : tail = [] ∨ ∃ rest, tail = '/' :: rest) : ∃ more,
      (pathOf segments ++ Percent.decode charset tail).splitOnP isSeparator
        = ([] :: segments) ++ more := by
  have hsegments : (pathOf segments).splitOnP isSeparator = [] :: segments :=
    Text.splitOnP_segments (s := []) (by rfl) (by simp) hspec
  rcases htail with rfl | ⟨rest, rfl⟩
  · refine ⟨[], ?_⟩
    have hnil : Percent.decode charset [] = [] := @Percent.flush_nil charset
    rw [hnil, List.append_nil, List.append_nil, hsegments]
  · refine ⟨(Percent.decode charset rest).splitOnP isSeparator, ?_⟩
    rw [Percent.decode_cons (by decide), List.splitOnP_append_cons _ _ (by rfl), hsegments]

theorem pathOf_append (a b : List Str) : pathOf (a ++ b) = pathOf a ++ pathOf b :=
  List.flatMap_append

/-- With neither dots in a row nor an encoded dot, the words are still there after one more
decoding and the resolution of dot segments. -/
theorem AtOrBelow.start_resolve {words : List Str} {path : Str} (h : AtOrBelow table words path)
    (hwords : words.all isSegment = true) (hne : words ≠ []) (hdots : Percent.DotsApart path)
    (hnone : Percent.NoDotByte path) :
    pathOf words <+: table.lower (resolve (Percent.decode charset path)) := by
  obtain ⟨segments, tail, rfl, hall, hpath, htail⟩ := h.exists_segments hwords
  have hspec := segments_spec hall hwords
  have hdecode : Percent.DotsApart (Percent.decode charset (pathOf segments ++ tail)) :=
    Percent.dotsApart_decode hdots hnone
  have hpercent : '%' ∉ pathOf segments := by
    intro hmem
    obtain ⟨s, hs, hc⟩ := List.mem_flatMap.mp hmem
    rcases List.mem_cons.mp hc with heq | hc
    · exact absurd heq (by decide)
    · exact (hspec s hs).2.2.2 hc
  rw [Percent.decode_append hpercent] at hdecode ⊢
  obtain ⟨more, hpieces⟩ := @exists_pieces charset _ _ (fun s hs => (hspec s hs).2.1) htail
  have hmore : ∀ s ∈ more, s ≠ ['.', '.'] := by
    rintro s hs rfl
    have hpiece : ['.', '.'] ∈ (pathOf segments ++ Percent.decode charset tail).splitOnP
        isSeparator := by
      rw [hpieces]
      exact List.mem_append_right _ hs
    exact Percent.dotsApart_iff.mp hdecode (Text.infix_of_mem_splitOnP hpiece)
  have hself : Text.resolveDots '.' ([] :: segments) = segments := by
    change Text.resolveDots '.' segments = segments
    apply Text.resolveDots_eq_self
    intro s hs
    have hdot := (hspec s hs).2.2.1
    refine ⟨(hspec s hs).1, ?_, ?_⟩
    · rintro rfl
      exact hdot List.mem_cons_self
    · rintro rfl
      exact hdot List.mem_cons_self
  have hresolved : Text.resolveDots '.' ([] :: segments) <+:
      Text.resolveDots '.' (([] :: segments) ++ more) := Text.resolveDots_append hmore
  rw [hself] at hresolved
  obtain ⟨below, hbelow⟩ := hresolved
  have hsegments : segments ≠ [] := by
    rintro rfl
    cases hall
    exact hne rfl
  unfold resolve
  rw [hpieces, ← hbelow, join_eq (List.append_ne_nil_of_left_ne_nil hsegments below), pathOf_append]
  exact lower_append hpath

end Decode
end Decisya.Edge
