import Decisya.Deploy.IdentitySqlReading

/-!
# Accepted scripts read only

Where the check and the server read every part of a script alike, an accepted script is one query
of rows that it holds, in a transaction that reads only, and no forbidden word is outside its
quotes.
-/

namespace Decisya.Deploy.IdentitySql

set_option autoImplicit false

open SqlLexis (Str Rules Piece lex outside tokens tokensFrom flush statements isWordChar continues)
open Decisya.KeyRing (foldCase)

/-! ## What the server would run -/

def lowered (toks : List Str) : List Str := toks.map (List.map Char.toLower)

def beginTokens : List Str := ["begin", "transaction", "read", "only"].map String.toList
def rollbackTokens : List Str := [("rollback").toList]
def selectTokens : List Str := ["select", "t", ".", "line", "from", "(", "values"].map String.toList

/-- Three statements: the start of a transaction that reads only, a query of rows that the
script holds, and the end. -/
def isQuery (toks : List Str) : Bool :=
  match statements toks with
  | [first, second, third] =>
    lowered first == beginTokens && selectTokens.isPrefixOf (lowered second) &&
      lowered third == rollbackTokens
  | _ => false

/-- A backslash outside quotes starts a command of `psql`. -/
def isHarmless (token : Str) : Bool := token != ['\\'] && !isForbidden (token.map Char.toLower)

/-- What the server reads of the script is one query and no more. -/
def readsOnly (rules : Rules) (text : Str) : Bool :=
  (lex rules text).any fun pieces =>
    isQuery (tokens (outside pieces)) && (tokens (outside pieces)).all isHarmless

/-- The check ends every part where the server does, and the tokens that it compares are letters
of ASCII or signs. -/
def readsAlike (rules : Rules) (text : Str) : Bool :=
  (lex rules text).any fun pieces =>
    pieces.all isAlike && (compared (statements (tokens (outside pieces)))).all isPlainToken

/-! ## One statement -/

section Statement
variable {c : Char} {o s word t rest : Str} {ts pattern : List Str} {n : ℕ}

theorem tokensFrom_ne_nil (hword : word ≠ []) : tokensFrom word o ≠ [] := by
  induction o generalizing word with
  | nil =>
    rw [tokensFrom, flush_ne_nil hword]
    exact List.cons_ne_nil _ _
  | cons c o ih =>
    cases hc : continues word c with
    | true =>
      rw [tokensFrom_continue hc]
      exact ih (by simp)
    | false =>
      cases hspace : SqlLexis.isSpace c with
      | true =>
        rw [tokensFrom_space hc hspace, flush_ne_nil hword]
        exact List.cons_ne_nil _ _
      | false =>
        rw [tokensFrom_sign hc hspace, flush_ne_nil hword]
        exact List.cons_ne_nil _ _

theorem ne_nil_of_mem_tokensFrom (h : t ∈ tokensFrom word o) : t ≠ [] := by
  have hflush : ∀ w : Str, t ∈ flush w → t ≠ [] := by
    intro w hw
    unfold flush at hw
    split at hw
    · exact absurd hw List.not_mem_nil
    · rw [List.mem_singleton.mp hw]
      assumption
  induction o generalizing word with
  | nil => exact hflush word h
  | cons c o ih =>
    cases hc : continues word c with
    | true =>
      rw [tokensFrom_continue hc] at h
      exact ih h
    | false =>
      cases hspace : SqlLexis.isSpace c with
      | true =>
        rw [tokensFrom_space hc hspace] at h
        rcases List.mem_append.mp h with h | h
        · exact hflush word h
        · exact ih h
      | false =>
        rw [tokensFrom_sign hc hspace] at h
        rcases List.mem_append.mp h with h | h
        · exact hflush word h
        rcases List.mem_cons.mp h with rfl | h
        · exact List.cons_ne_nil _ _
        · exact ih h

/-- A character that leaves no token is white space. -/
theorem space_of_tokens_nil (h : tokens (c :: o) = []) :
    SqlLexis.isSpace c = true ∧ tokens o = [] := by
  unfold tokens at h
  cases hc : continues [] c with
  | true =>
    rw [tokensFrom_continue hc] at h
    exact absurd h (tokensFrom_ne_nil (by simp))
  | false =>
    cases hspace : SqlLexis.isSpace c with
    | true =>
      rw [tokensFrom_space hc hspace] at h
      exact ⟨rfl, h⟩
    | false =>
      rw [tokensFrom_sign hc hspace] at h
      cases h

theorem blank_of_covers (h : Covers o s) (ht : tokens o = []) :
    ∀ c ∈ s, Python.isSpace c = true := by
  induction h with
  | nil => exact fun c hc => absurd hc List.not_mem_nil
  | char c hc h ih =>
    obtain ⟨hspace, hrest⟩ := space_of_tokens_nil ht
    exact List.forall_mem_cons.mpr ⟨isSpace_of_isSpace hspace, ih hrest⟩
  | newline c hc h ih =>
    exact List.forall_mem_cons.mpr ⟨rfl, ih (space_of_tokens_nil ht).2⟩
  | gap c hc hend h ih => exact ih (space_of_tokens_nil ht).2
  | quoted q inner hq hinner h ih => exact absurd (space_of_tokens_nil ht).1 (by decide)

theorem not_blank_of_covers (h : Covers o s) (ht : tokens o = t :: ts)
    (hplain : isPlainToken t = true) : ¬ ∀ c ∈ s, Python.isSpace c = true := by
  intro hblank
  obtain ⟨space, s', o', rfl, -⟩ := token_of_covers h ht hplain
  have hmem : t ∈ tokens o := ht ▸ List.mem_cons_self
  have hne := ne_nil_of_mem_tokensFrom hmem
  obtain ⟨c, t, rfl⟩ := List.exists_cons_of_ne_nil hne
  have hc := hblank c (by simp)
  rw [not_isSpace_of_isPlainToken hplain] at hc
  cases hc

/-- The plain tokens at the start of a statement are those that the check compares it with. -/
theorem take_tokens_eq (h : Covers o s) (hts : Plain ((tokens o).take n))
    (hspaced : Spaced pattern ((collapse s).map foldCase) rest) (hpattern : Plain pattern)
    (hne : pattern ≠ []) (hn : pattern.length ≤ n) (hrest : rest = [] ∨ n = pattern.length) :
    ((tokens o).take n).map (List.map foldCase) = pattern := by
  have hplain : ∀ token ∈ (tokens o).take n, isPlainToken token = true := fun x hx => (hts x hx).2
  obtain ⟨o', s', hserver, hcovers, hdrop⟩ :=
    spaced_of_covers h (List.take_append_drop n (tokens o)).symm hplain
  obtain ⟨rest', hcheck, hblank⟩ := spaced_of_collapse hspaced hpattern hne
  have hfold := hserver.fold hts
  rcases spaced_unique hfold hcheck hts.fold hpattern with ⟨vs, hvs, hmore⟩ | ⟨vs, hvs, hmore⟩
  · have hnil : vs = [] := by
      rcases Nat.lt_or_ge (tokens o).length n with hlt | hge
      · have hend : tokens o' = [] := by
          rw [hdrop, List.drop_eq_nil_of_le (by omega)]
        have hspaces : ∀ c ∈ s'.map foldCase, Python.isSpace c = true := by
          intro c hc
          obtain ⟨d, hd, rfl⟩ := List.mem_map.mp hc
          rw [isSpace_foldCase]
          exact blank_of_covers hcovers hend d hd
        apply spaced_blank hmore _ hspaces
        intro x hx
        exact hpattern x (by rw [hvs]; exact List.mem_append_right _ hx)
      · have hlength := congrArg List.length hvs
        rw [List.length_append, List.length_map, List.length_take] at hlength
        exact List.eq_nil_of_length_eq_zero (by omega)
    rw [hvs, hnil, List.append_nil]
  · have hnil : vs = [] := by
      rcases hrest with hrest | hrest
      · apply spaced_blank hmore _ (hblank hrest)
        intro x hx
        exact hts.fold x (by rw [hvs]; exact List.mem_append_right _ hx)
      · have hlength := congrArg List.length hvs
        rw [List.length_append, List.length_map, List.length_take] at hlength
        exact List.eq_nil_of_length_eq_zero (by omega)
    rw [hvs, hnil, List.append_nil]

theorem map_foldCase_eq_lowered (hts : Plain ts) : ts.map (List.map foldCase) = lowered ts := by
  apply List.map_congr_left
  intro t ht
  apply List.map_congr_left
  intro c hc
  rcases isPlainToken_cons (isPlainToken_singleton (hts t ht).2 hc) with ⟨halpha, -⟩ | ⟨-, rfl | rfl⟩
  · exact foldCase_of_isAlpha halpha
  · rfl
  · rfl

/-! ### The three statements -/

theorem ascii_of_spaced (h : Spaced ts s rest) (hts : Plain ts)
    (hrest : ∀ c ∈ rest, Python.isSpace c = true) :
    ∀ c ∈ s, Python.isSpace c = false → c.toNat < 128 := by
  induction h with
  | nil s =>
    intro c hc hspace
    rw [hrest c hc] at hspace
    cases hspace
  | @cons space t s rest ts hspace hnext h ih =>
    intro c hc hc'
    rcases List.mem_append.mp hc with hc | hc
    · rw [hspace c hc] at hc'
      cases hc'
    rcases List.mem_append.mp hc with hc | hc
    · have hone := isPlainToken_singleton (hts t List.mem_cons_self).2 hc
      rcases isPlainToken_cons hone with ⟨halpha, -⟩ | ⟨-, rfl | rfl⟩
      · have hletter := letter_bounds halpha
        omega
      · decide
      · decide
    · exact ih (fun x hx => hts x (List.mem_cons_of_mem t hx)) hrest c hc hc'

variable {tables : Tables}

/-- A statement that is the expected one in upper case is so for the server. -/
theorem tokens_eq_of_upper {expected : Str} (h : Covers o s) (hts : Plain (tokens o))
    (hupper : tables.upper (collapse s) = expected)
    (hspaced : Spaced pattern (expected.map foldCase) []) (hpattern : Plain pattern)
    (hne : pattern ≠ []) : lowered (tokens o) = pattern := by
  have hplain : ∀ token ∈ tokens o, isPlainToken token = true := fun x hx => (hts x hx).2
  obtain ⟨o', s', hserver, hcovers, hend⟩ :=
    spaced_of_covers h (List.append_nil (tokens o)).symm hplain
  have hblank := blank_of_covers hcovers hend
  have hascii : ∀ c ∈ collapse s, c.toNat < 128 := by
    intro c hc
    obtain ⟨lead, tail, htrim, -⟩ := exists_trim (squeeze false s)
    have hmem : c ∈ squeeze false s := by
      rw [htrim]
      exact List.mem_append_right _ (List.mem_append_left _ hc)
    rcases mem_squeeze hmem with rfl | ⟨hc, hspace⟩
    · decide
    · exact ascii_of_spaced hserver hts hblank c hc hspace
  have hfold : (collapse s).map foldCase = expected.map foldCase := by
    rw [← hupper, tables.upper_ascii _ hascii, List.map_map]
    apply List.map_congr_left
    intro c hc
    exact (KeyRing.foldCase_toUpper c).symm
  rw [← hfold] at hspaced
  have htake : (tokens o).take (max (tokens o).length pattern.length) = tokens o :=
    List.take_of_length_le (le_max_left _ _)
  have heq := take_tokens_eq h (htake.symm ▸ hts) hspaced hpattern hne (le_max_right _ _) (Or.inl rfl)
  rw [htake, map_foldCase_eq_lowered hts] at heq
  exact heq

theorem dropFolded_spec {p after : Str} (h : dropFolded p s = some after) :
    s.map foldCase = p ++ after.map foldCase := by
  induction p generalizing s with
  | nil =>
    rw [dropFolded] at h
    rw [Option.some.inj h]
    rfl
  | cons d p ih =>
    cases s with
    | nil => cases h
    | cons c s =>
      rw [dropFolded] at h
      split at h
      · rename_i hd
        rw [List.map_cons, hd, ih h]
        rfl
      · cases h

theorem endsWord_cons (hc : (foldCase c).isAlpha = false) : EndsWord t (c :: s) := by
  intro _ d hd
  rw [← Option.some.inj hd]
  exact hc

theorem isSpace_of_mem_blank : ∀ c ∈ [' '], Python.isSpace c = true := by
  intro c hc
  rw [List.mem_singleton.mp hc]
  rfl

/-- The pattern of the second statement takes the text apart. -/
theorem spaced_select (gap : Str) (hgap : ∀ c ∈ gap, Python.isSpace c = true)
    (hend : EndsWord "values".toList rest) : Spaced selectTokens
      ("select t.line from (".toList ++ (gap ++ ("values".toList ++ rest))) rest := by
  have hnone : ∀ c ∈ ([] : Str), Python.isSpace c = true := fun _ hc => absurd hc List.not_mem_nil
  have hone := isSpace_of_mem_blank
  have hvalues := Spaced.cons gap "values".toList hgap hend (Spaced.nil rest)
  have hbracket := Spaced.cons [' '] ['('] hone (fun h => absurd h (by decide)) hvalues
  have hfrom := Spaced.cons [' '] "from".toList hone (endsWord_cons (by decide)) hbracket
  have hline := Spaced.cons [] "line".toList hnone (endsWord_cons (by decide)) hfrom
  have hdot := Spaced.cons [] ['.'] hnone (fun h => absurd h (by decide)) hline
  have ht := Spaced.cons [' '] ['t'] hone (endsWord_cons (by decide)) hdot
  exact Spaced.cons [] "select".toList hnone (endsWord_cons (by decide)) ht

theorem endsWord_nil : EndsWord t [] := fun _ _ hc => by cases hc

theorem spaced_begin :
    Spaced beginTokens ("BEGIN TRANSACTION READ ONLY".toList.map foldCase) [] := by
  have hnone : ∀ c ∈ ([] : Str), Python.isSpace c = true := fun _ hc => absurd hc List.not_mem_nil
  have hone := isSpace_of_mem_blank
  have honly := Spaced.cons [' '] "only".toList hone endsWord_nil (Spaced.nil [])
  have hread := Spaced.cons [' '] "read".toList hone (endsWord_cons (by decide)) honly
  have htransaction := Spaced.cons [' '] "transaction".toList hone (endsWord_cons (by decide)) hread
  exact Spaced.cons [] "begin".toList hnone (endsWord_cons (by decide)) htransaction

theorem spaced_rollback : Spaced rollbackTokens ("ROLLBACK".toList.map foldCase) [] :=
  Spaced.cons [] "rollback".toList (fun _ hc => absurd hc List.not_mem_nil) endsWord_nil
    (Spaced.nil [])

theorem exists_of_isSelect (h : isSelect tables s = true) :
    ∃ rest, Spaced selectTokens (s.map foldCase) rest := by
  have hvalues : ∀ x, atValues tables x = true → ∃ after, x.map foldCase = "values".toList ++ after ∧
      EndsWord "values".toList after := by
    intro x hx
    unfold atValues at hx
    split at hx
    · rename_i after hafter
      refine ⟨after.map foldCase, dropFolded_spec hafter, ?_⟩
      intro _ c hc
      rw [List.head?_map, Option.map_eq_some_iff] at hc
      obtain ⟨d, hd, rfl⟩ := hc
      rw [foldCase_foldCase]
      apply Bool.eq_false_of_not_eq_true
      intro halpha
      rw [hd, Option.any_some, tables.isWord_of_foldCase d halpha] at hx
      cases hx
    · cases hx
  unfold isSelect at h
  split at h
  · rename_i after hafter
    rw [dropFolded_spec hafter]
    rw [Bool.or_eq_true, Bool.and_eq_true, beq_iff_eq] at h
    rcases h with h | ⟨hspace, h⟩
    · obtain ⟨rest, hrest, hend⟩ := hvalues after h
      rw [hrest]
      exact ⟨rest, spaced_select [] (fun _ hc => absurd hc List.not_mem_nil) hend⟩
    · obtain ⟨more, rfl⟩ := List.head?_eq_some_iff.mp hspace
      obtain ⟨rest, hrest, hend⟩ := hvalues more h
      rw [List.map_cons, hrest]
      exact ⟨rest, spaced_select [' '] isSpace_of_mem_blank hend⟩
  · cases h

theorem prefix_of_isSelect (h : Covers o s) (hts : Plain ((tokens o).take 7))
    (hselect : isSelect tables (collapse s) = true) : selectTokens <+: lowered (tokens o) := by
  obtain ⟨rest, hspaced⟩ := exists_of_isSelect hselect
  have hplain : Plain selectTokens := by
    unfold Plain
    decide
  have heq := take_tokens_eq h hts hspaced hplain (by decide) le_rfl (Or.inr rfl)
  rw [map_foldCase_eq_lowered hts, lowered, List.map_take] at heq
  rw [← heq]
  exact List.take_prefix _ _

end Statement

/-! ## All statements -/

section Statements
variable {c : Char} {o s word seg code : Str} {segs stmts : List Str} {tables : Tables}

def isSemicolon (c : Char) : Bool := c == ';'

theorem splitOnP_append {α : Type} {p : α → Bool} {x y : List α} (hx : ∀ a ∈ x, p a = false) :
    (x ++ y).splitOnP p = (y.splitOnP p).modifyHead (x ++ ·) := by
  induction x with
  | nil =>
    cases h : y.splitOnP p with
    | nil => exact absurd h (List.splitOnP_ne_nil p y)
    | cons z zs =>
      rw [List.nil_append, h]
      rfl
  | cons a x ih =>
    obtain ⟨ha, hx⟩ := List.forall_mem_cons.mp hx
    rw [List.cons_append, List.splitOnP_cons_eq_if_modifyHead, if_neg (by rw [ha]; exact Bool.false_ne_true),
      ih hx]
    cases h : y.splitOnP p with
    | nil => exact absurd h (List.splitOnP_ne_nil p y)
    | cons z zs => rfl

theorem splitOnP_sep {α : Type} {p : α → Bool} {a : α} (ha : p a = true) (y : List α) :
    (a :: y).splitOnP p = [] :: y.splitOnP p := by
  rw [List.splitOnP_cons_eq_if_modifyHead, if_pos ha]

/-- The statements of the server are the tokens between its semicolons. -/
theorem splitOnP_tokensFrom (hword : ';' ∉ word) (h : o.splitOnP isSemicolon = seg :: segs) :
    (tokensFrom word o).splitOnP (· == [';']) = tokensFrom word seg :: segs.map tokens := by
  have hflush : ∀ w : Str, ';' ∉ w → ∀ x ∈ flush w, (x == [';']) = false := by
    intro w hw x hx
    unfold flush at hx
    split at hx
    · exact absurd hx List.not_mem_nil
    · rw [List.mem_singleton.mp hx, beq_eq_false_iff_ne]
      rintro rfl
      exact hw List.mem_cons_self
  induction o generalizing word seg segs with
  | nil =>
    obtain ⟨rfl, rfl⟩ := List.cons.inj h
    rw [tokensFrom, List.splitOnP_eq_singleton (hflush word hword)]
    rfl
  | cons c o ih =>
    cases hsplit : o.splitOnP isSemicolon with
    | nil => exact absurd hsplit (List.splitOnP_ne_nil _ _)
    | cons first others =>
      rw [List.splitOnP_cons_eq_if_modifyHead, hsplit] at h
      split at h
      · rename_i hc
        obtain ⟨rfl, rfl⟩ := List.cons.inj h
        obtain rfl : c = ';' := beq_iff_eq.mp hc
        have hcontinues : continues word ';' = false := rfl
        have hrest : (tokens o).splitOnP (· == [';']) = tokens first :: others.map tokens :=
          ih List.not_mem_nil hsplit
        rw [tokensFrom_sign hcontinues rfl, splitOnP_append (hflush word hword),
          splitOnP_sep (by decide), hrest, tokensFrom]
        simp
      · rename_i hc
        obtain ⟨rfl, rfl⟩ := List.cons.inj h
        have hne : c ≠ ';' := fun heq => hc (beq_iff_eq.mpr heq)
        have hrest : (tokens o).splitOnP (· == [';']) = tokens first :: others.map tokens :=
          ih List.not_mem_nil hsplit
        cases hcontinues : continues word c with
        | true =>
          rw [tokensFrom_continue hcontinues, tokensFrom_continue hcontinues]
          apply ih _ hsplit
          intro hmem
          rcases List.mem_append.mp hmem with hmem | hmem
          · exact hword hmem
          · exact hne (List.mem_singleton.mp hmem).symm
        | false =>
          cases hspace : SqlLexis.isSpace c with
          | true =>
            rw [tokensFrom_space hcontinues hspace, tokensFrom_space hcontinues hspace,
              splitOnP_append (hflush word hword), hrest]
            rfl
          | false =>
            have hsign : ∀ x ∈ flush word ++ [[c]], (x == [';']) = false := by
              intro x hx
              rcases List.mem_append.mp hx with hx | hx
              · exact hflush word hword x hx
              · rw [List.mem_singleton.mp hx, beq_eq_false_iff_ne]
                intro heq
                exact hne (List.cons.inj heq).1
            rw [tokensFrom_sign hcontinues hspace, tokensFrom_sign hcontinues hspace,
              List.append_cons, splitOnP_append hsign, hrest]
            simp

/-- Both texts are cut at the same places. -/
theorem forall₂_split (h : Covers o s) :
    List.Forall₂ Covers (o.splitOnP isSemicolon) (s.splitOnP isSemicolon) := by
  have hbreak : ∀ c : Char, isBreak c = true → isSemicolon c = false := by
    intro c hc
    apply Bool.eq_false_of_not_eq_true
    intro heq
    rw [beq_iff_eq.mp heq] at hc
    cases hc
  have hcons : ∀ (c : Char) (x : Str), isSemicolon c = false →
      (c :: x).splitOnP isSemicolon = (x.splitOnP isSemicolon).modifyHead (c :: ·) := by
    intro c x hc
    rw [List.splitOnP_cons_eq_if_modifyHead, if_neg (by rw [hc]; exact Bool.false_ne_true)]
  induction h with
  | nil => exact List.Forall₂.cons Covers.nil List.Forall₂.nil
  | @char c o s hc h ih =>
    cases hsemi : isSemicolon c with
    | true =>
      rw [splitOnP_sep hsemi, splitOnP_sep hsemi]
      exact List.Forall₂.cons Covers.nil ih
    | false =>
      rw [hcons c o hsemi, hcons c s hsemi]
      generalize o.splitOnP isSemicolon = left at ih
      generalize s.splitOnP isSemicolon = right at ih
      cases ih with
      | nil => exact List.Forall₂.nil
      | cons hfirst hrest => exact List.Forall₂.cons (hfirst.char c hc) hrest
  | @newline c o s hc h ih =>
    rw [hcons c o (hbreak c hc), hcons '\n' s (hbreak '\n' rfl)]
    generalize o.splitOnP isSemicolon = left at ih
    generalize s.splitOnP isSemicolon = right at ih
    cases ih with
    | nil => exact List.Forall₂.nil
    | cons hfirst hrest => exact List.Forall₂.cons (hfirst.newline c hc) hrest
  | @gap c o s hc hend h ih =>
    have hsemi : isSemicolon c = false := by
      rcases hc with rfl | hc
      · rfl
      · exact hbreak c hc
    have hhead : ∀ x xs, s.splitOnP isSemicolon = x :: xs → AtEnd x := by
      intro x xs hx
      rcases hend with rfl | ⟨rest, rfl⟩
      · exact Or.inl (List.cons.inj hx).1.symm
      · rw [hcons '\n' rest (hbreak '\n' rfl)] at hx
        cases hrest : rest.splitOnP isSemicolon with
        | nil => exact absurd hrest (List.splitOnP_ne_nil _ _)
        | cons y ys =>
          rw [hrest] at hx
          exact Or.inr ⟨y, (List.cons.inj hx).1.symm⟩
    rw [hcons c o hsemi]
    generalize o.splitOnP isSemicolon = left at ih
    generalize hright : s.splitOnP isSemicolon = right at ih hhead
    cases ih with
    | nil => exact List.Forall₂.nil
    | cons hfirst hrest => exact List.Forall₂.cons (hfirst.gap c hc (hhead _ _ rfl)) hrest
  | @quoted q inner o s hq hinner h ih =>
    have hquote : isSemicolon q = false := by rcases hq with rfl | rfl <;> rfl
    have hpart : ∀ a ∈ q :: (inner ++ [q]), isSemicolon a = false := by
      intro a ha
      rcases List.mem_cons.mp ha with rfl | ha
      · exact hquote
      rcases List.mem_append.mp ha with ha | ha
      · rw [isSemicolon, beq_eq_false_iff_ne]
        rintro rfl
        exact hinner ha
      · rw [List.mem_singleton.mp ha]
        exact hquote
    have htext : q :: (inner ++ q :: s) = (q :: (inner ++ [q])) ++ s := by simp
    rw [htext, splitOnP_append hpart, hcons '\'' _ rfl, hcons '\'' _ rfl, List.modifyHead_modifyHead]
    generalize o.splitOnP isSemicolon = left at ih
    generalize s.splitOnP isSemicolon = right at ih
    cases ih with
    | nil => exact List.Forall₂.nil
    | cons hfirst hrest =>
      refine List.Forall₂.cons ?_ hrest
      have hall := hfirst.quoted q inner hq hinner
      simpa using hall

theorem statements_tokens (o : Str) : statements (tokens o) =
    ((o.splitOnP isSemicolon).filter fun seg => tokens seg ≠ []).map tokens := by
  cases h : o.splitOnP isSemicolon with
  | nil => exact absurd h (List.splitOnP_ne_nil _ _)
  | cons seg segs =>
    have hsplit : (tokens o).splitOnP (· == [';']) = (seg :: segs).map tokens :=
      splitOnP_tokensFrom List.not_mem_nil h
    rw [statements, hsplit, List.filter_map]
    rfl

theorem head_mem_compared {t : Str} {ts : List Str} {stmts : List (List Str)}
    (h : t :: ts ∈ stmts) : t ∈ compared stmts := by
  cases stmts with
  | nil => exact absurd h List.not_mem_nil
  | cons first stmts =>
    cases stmts with
    | nil =>
      rw [compared, ← List.mem_singleton.mp h]
      exact List.mem_cons_self
    | cons second others =>
      rw [compared]
      rcases List.mem_cons.mp h with rfl | h
      · exact List.mem_append_left _ (List.mem_append_left _ List.mem_cons_self)
      rcases List.mem_cons.mp h with rfl | h
      · exact List.mem_append_left _ (List.mem_append_right _ List.mem_cons_self)
      · apply List.mem_append_right
        exact List.mem_flatten.mpr ⟨_, h, List.mem_cons_self⟩

/-- The statements that are not empty for the server are those that are not blank for the
check. -/
theorem forall₂_statements (h : Covers o s)
    (hplain : ∀ token ∈ compared (statements (tokens o)), isPlainToken token = true) :
    List.Forall₂ Covers ((o.splitOnP isSemicolon).filter fun seg => tokens seg ≠ [])
      ((s.splitOnP isSemicolon).filter fun seg => !seg.all Python.isSpace) := by
  have hheads : ∀ x ∈ o.splitOnP isSemicolon, ∀ t ts, tokens x = t :: ts →
      isPlainToken t = true := by
    intro x hx t ts ht
    apply hplain
    have hmem : tokens x ∈ statements (tokens o) := by
      rw [statements_tokens]
      apply List.mem_map_of_mem
      rw [List.mem_filter, ht]
      exact ⟨hx, rfl⟩
    rw [ht] at hmem
    exact head_mem_compared hmem
  have hboth := (List.forall₂_and_left _ _).mpr ⟨hheads, forall₂_split h⟩
  generalize o.splitOnP isSemicolon = left at hboth
  generalize s.splitOnP isSemicolon = right at hboth
  clear hheads hplain
  induction hboth with
  | nil => exact List.Forall₂.nil
  | @cons x y left right hxy hrest ih =>
    obtain ⟨hhead, hcovers⟩ := hxy
    cases ht : tokens x with
    | nil =>
      have hblank : y.all Python.isSpace = true := List.all_eq_true.mpr (blank_of_covers hcovers ht)
      rw [List.filter_cons_of_neg (by rw [ht]; decide), List.filter_cons_of_neg (by rw [hblank]; decide)]
      exact ih
    | cons t ts =>
      have hnot := not_blank_of_covers hcovers ht (hhead t ts ht)
      have hblank : y.all Python.isSpace = false := by
        apply Bool.eq_false_of_not_eq_true
        intro hall
        exact hnot (List.all_eq_true.mp hall)
      rw [List.filter_cons_of_pos (by rw [ht]; exact decide_eq_true (List.cons_ne_nil t ts)),
        List.filter_cons_of_pos (by rw [hblank]; decide)]
      exact List.Forall₂.cons hcovers ih

theorem exists_of_shapeOk (h : shapeOk tables code = true) : ∃ first second third,
    ((code.splitOnP isSemicolon).filter fun seg => !seg.all Python.isSpace) = [first, second, third] ∧
      tables.upper (collapse first) = "BEGIN TRANSACTION READ ONLY".toList ∧
      tables.upper (collapse third) = "ROLLBACK".toList ∧
      isSelect tables (collapse second) = true := by
  unfold shapeOk at h
  split at h
  · rename_i a b c heq
    have hmap : ((code.splitOnP isSemicolon).filter fun seg => !seg.all Python.isSpace).map collapse =
        [a, b, c] := heq
    obtain ⟨first, l, hl, rfl, htail⟩ := List.map_eq_cons_iff.mp hmap
    obtain ⟨second, l', rfl, rfl, hlast⟩ := List.map_eq_cons_iff.mp htail
    obtain ⟨third, l'', rfl, rfl, hend⟩ := List.map_eq_cons_iff.mp hlast
    obtain rfl := List.map_eq_nil_iff.mp hend
    rw [Bool.and_eq_true, Bool.and_eq_true, beq_iff_eq, beq_iff_eq] at h
    exact ⟨first, second, third, hl, h.1.1, h.1.2, h.2⟩
  · cases h

/-- The three statements that the check accepts are the server's. -/
theorem isQuery_of_shapeOk (h : Covers o code)
    (hplain : ∀ token ∈ compared (statements (tokens o)), isPlainToken token = true)
    (hshape : shapeOk tables code = true) : isQuery (tokens o) = true := by
  obtain ⟨first, second, third, hcode, hfirst, hthird, hsecond⟩ := exists_of_shapeOk hshape
  have hall := forall₂_statements h hplain
  rw [hcode] at hall
  obtain ⟨o₁, l, hcovers₁, hl, ho⟩ := List.forall₂_cons_right_iff.mp hall
  obtain ⟨o₂, l', hcovers₂, hl', rfl⟩ := List.forall₂_cons_right_iff.mp hl
  obtain ⟨o₃, l'', hcovers₃, hl'', rfl⟩ := List.forall₂_cons_right_iff.mp hl'
  obtain rfl := List.forall₂_nil_right_iff.mp hl''
  have hstatements : statements (tokens o) = [tokens o₁, tokens o₂, tokens o₃] := by
    rw [statements_tokens, ho]
    rfl
  have hpart : ∀ (x : Str) (ts : List Str), (∀ token ∈ ts, token ∈ tokens x) →
      (∀ token ∈ ts, token ∈ compared (statements (tokens o))) → Plain ts := by
    intro x ts hx hts token hmem
    exact ⟨ne_nil_of_mem_tokensFrom (hx token hmem), hplain token (hts token hmem)⟩
  have hcompared : compared (statements (tokens o)) =
      tokens o₁ ++ (tokens o₂).take 7 ++ [tokens o₃].flatten := by
    rw [hstatements]
    rfl
  have hplain₁ : Plain (tokens o₁) := by
    apply hpart o₁ _ fun _ hmem => hmem
    intro token hmem
    rw [hcompared]
    exact List.mem_append_left _ (List.mem_append_left _ hmem)
  have hplain₂ : Plain ((tokens o₂).take 7) := by
    apply hpart o₂ _ fun _ hmem => List.mem_of_mem_take hmem
    intro token hmem
    rw [hcompared]
    exact List.mem_append_left _ (List.mem_append_right _ hmem)
  have hplain₃ : Plain (tokens o₃) := by
    apply hpart o₃ _ fun _ hmem => hmem
    intro token hmem
    rw [hcompared]
    exact List.mem_append_right _ (List.mem_flatten.mpr ⟨_, List.mem_singleton_self _, hmem⟩)
  have hbegin : lowered (tokens o₁) = beginTokens :=
    tokens_eq_of_upper hcovers₁ hplain₁ hfirst spaced_begin (by unfold Plain; decide) (by decide)
  have hrollback : lowered (tokens o₃) = rollbackTokens :=
    tokens_eq_of_upper hcovers₃ hplain₃ hthird spaced_rollback (by unfold Plain; decide) (by decide)
  have hselect := List.isPrefixOf_iff_prefix.mpr (prefix_of_isSelect hcovers₂ hplain₂ hsecond)
  unfold isQuery
  rw [hstatements]
  dsimp only
  rw [hbegin, hrollback, hselect]
  rfl

end Statements

/-! ## Forbidden words -/

section Words
variable {tables : Tables} {c d : Char} {o s x y w word t : Str}

/-- The words as the check's pattern has them. -/
def wordsIn (tables : Tables) (s : Str) : List Str := s.splitOnP fun c => !tables.isWord c

theorem mem_wordsIn_append_cons (hc : tables.isWord c = false) :
    w ∈ wordsIn tables (x ++ c :: y) ↔ w ∈ wordsIn tables x ∨ w ∈ wordsIn tables y := by
  unfold wordsIn
  rw [List.splitOnP_append_cons x y (by rw [hc]; rfl), List.mem_append]

theorem isWord_newline : tables.isWord '\n' = false := tables.isWord_break '\n' rfl

theorem mem_wordsIn_append (hend : AtEnd s) (hw : w ≠ []) :
    w ∈ wordsIn tables (x ++ s) ↔ w ∈ wordsIn tables x ∨ w ∈ wordsIn tables s := by
  have hnil : w ∉ wordsIn tables [] := by
    intro hmem
    exact hw (List.mem_singleton.mp hmem)
  rcases hend with rfl | ⟨rest, rfl⟩
  · rw [List.append_nil]
    exact (or_iff_left hnil).symm
  · have hrest : w ∈ wordsIn tables ([] ++ '\n' :: rest) ↔ w ∈ wordsIn tables rest := by
      rw [mem_wordsIn_append_cons isWord_newline]
      exact or_iff_right hnil
    rw [mem_wordsIn_append_cons isWord_newline, ← hrest]
    rfl

/-- A text starts with the first of its words. -/
theorem takeWhile_mem_wordsIn (x : Str) : x.takeWhile tables.isWord ∈ wordsIn tables x := by
  have hhead : (wordsIn tables x).head? = some (x.takeWhile tables.isWord) := by
    unfold wordsIn
    induction x with
    | nil => rfl
    | cons c x ih =>
      rw [List.splitOnP_cons_eq_if_modifyHead]
      cases hc : tables.isWord c with
      | true =>
        rw [if_neg (by decide), List.takeWhile_cons_of_pos hc, List.head?_modifyHead, ih]
        rfl
      | false =>
        rw [if_pos Bool.not_false, List.takeWhile_cons_of_neg (by rw [hc]; exact Bool.false_ne_true)]
        rfl
  exact List.mem_of_head? hhead

theorem not_isWord_of_stop (h : continues word c = false) : tables.isWord c = false := by
  have hword := (Bool.or_eq_false_iff.mp h).1
  unfold isWordChar at hword
  rw [Bool.or_eq_false_iff, decide_eq_false_iff_not] at hword
  rw [tables.isWord_ascii c (by omega)]
  exact hword.1

/-- A token that such a character ends is the word before it, itself, or of the rest. -/
theorem mem_tokensFrom_stop (h : continues word c = false) (ht : t ∈ tokensFrom word (c :: o)) :
    t = word ∨ t = [c] ∨ t ∈ tokens o := by
  have hflush : t ∈ flush word → t = word := by
    intro hmem
    unfold flush at hmem
    split at hmem
    · exact absurd hmem List.not_mem_nil
    · exact List.mem_singleton.mp hmem
  cases hspace : SqlLexis.isSpace c with
  | true =>
    rw [tokensFrom_space h hspace] at ht
    rcases List.mem_append.mp ht with ht | ht
    · exact Or.inl (hflush ht)
    · exact Or.inr (Or.inr ht)
  | false =>
    rw [tokensFrom_sign h hspace] at ht
    rcases List.mem_append.mp ht with ht | ht
    · exact Or.inl (hflush ht)
    rcases List.mem_cons.mp ht with ht | ht
    · exact Or.inr (Or.inl ht)
    · exact Or.inr (Or.inr ht)

/-- The beginning of a token of the server is a word for the check. -/
theorem mem_wordsIn_of_covers (h : Covers o s) (ht : t ∈ tokensFrom word o)
    (hne : t.takeWhile tables.isWord ≠ []) :
    t.takeWhile tables.isWord ∈ wordsIn tables (word ++ s) := by
  have hstop : ∀ {c : Char} {word o : Str}, continues word c = false → t ∈ tokensFrom word (c :: o) →
      t = word ∨ t ∈ tokens o := by
    intro c word o hc hmem
    rcases mem_tokensFrom_stop hc hmem with hword | hsign | hrest
    · exact Or.inl hword
    · rw [hsign, List.takeWhile_cons_of_neg (by rw [not_isWord_of_stop hc]; exact Bool.false_ne_true)] at hne
      exact absurd rfl hne
    · exact Or.inr hrest
  induction h generalizing word with
  | nil =>
    have heq : t = word := by
      rw [tokensFrom, flush] at ht
      split at ht
      · exact absurd ht List.not_mem_nil
      · exact List.mem_singleton.mp ht
    rw [heq, List.append_nil]
    exact takeWhile_mem_wordsIn word
  | @char c o s hc h ih =>
    cases hcontinues : continues word c with
    | true =>
      rw [tokensFrom_continue hcontinues] at ht
      have hmem := ih ht
      rwa [List.append_assoc] at hmem
    | false =>
      rw [mem_wordsIn_append_cons (not_isWord_of_stop hcontinues)]
      rcases hstop hcontinues ht with rfl | hrest
      · exact Or.inl (takeWhile_mem_wordsIn t)
      · exact Or.inr (ih hrest)
  | @newline c o s hc h ih =>
    rw [mem_wordsIn_append_cons isWord_newline]
    cases hcontinues : continues word c with
    | true =>
      rw [tokensFrom_continue hcontinues] at ht
      have hmem := ih ht
      rw [List.append_assoc] at hmem
      exact (mem_wordsIn_append_cons (tables.isWord_break c hc)).mp hmem
    | false =>
      rcases hstop hcontinues ht with rfl | hrest
      · exact Or.inl (takeWhile_mem_wordsIn t)
      · exact Or.inr (ih hrest)
  | @gap c o s hc hend h ih =>
    rw [mem_wordsIn_append hend hne]
    cases hcontinues : continues word c with
    | true =>
      have hbreak : isBreak c = true := by
        rcases hc with rfl | hc
        · cases hcontinues
        · exact hc
      rw [tokensFrom_continue hcontinues] at ht
      have hmem := ih ht
      rw [List.append_assoc] at hmem
      exact (mem_wordsIn_append_cons (tables.isWord_break c hbreak)).mp hmem
    | false =>
      rcases hstop hcontinues ht with rfl | hrest
      · exact Or.inl (takeWhile_mem_wordsIn t)
      · exact Or.inr (ih hrest)
  | @quoted q inner o s hq hinner h ih =>
    have hquote : tables.isWord q = false := by
      rcases hq with rfl | rfl
      · exact tables.isWord_ascii '"' (by decide)
      · exact tables.isWord_ascii '$' (by decide)
    rw [mem_wordsIn_append_cons hquote, mem_wordsIn_append_cons hquote]
    rcases hstop rfl ht with rfl | hrest
    · exact Or.inl (takeWhile_mem_wordsIn t)
    · rcases hstop rfl hrest with rfl | hrest
      · exact absurd rfl hne
      · exact Or.inr (Or.inr (ih hrest))

/-! ### The words of the pattern -/

theorem lt_of_isWord (h : (c.isAlphanum || c == '_') = true) : c.toNat < 128 := by
  rw [Bool.or_eq_true, beq_iff_eq, Char.isAlphanum, Bool.or_eq_true] at h
  rcases h with (halpha | hdigit) | rfl
  · have hletter := letter_bounds halpha
    omega
  · have hle := (Bool.and_eq_true_iff.mp hdigit).2
    have hle' : c.val.toNat ≤ 57 := UInt32.le_iff_toNat_le.mp (of_decide_eq_true hle)
    have hval : c.toNat = c.val.toNat := rfl
    omega
  · decide

theorem ascii_of_toLower (h : (c.toLower.isAlphanum || c.toLower == '_') = true) :
    foldCase c = c.toLower ∧ tables.isWord c = true := by
  have hword : (c.isAlphanum || c == '_') = true := by
    by_cases hupper : c.isUpper = true
    · unfold Char.isAlphanum Char.isAlpha
      rw [hupper]
      rfl
    · rwa [Char.toLower_eq_of_not_isUpper hupper] at h
  have hascii := lt_of_isWord hword
  refine ⟨?_, by rw [tables.isWord_ascii c hascii]; exact hword⟩
  unfold foldCase
  rw [if_neg (by omega), if_neg (by omega), if_neg (by omega)]

theorem takeWhile_of_toLower (tables : Tables) {p : Str} (h : x.map Char.toLower = p)
    (hp : (p.all fun d => d.isAlphanum || d == '_') = true) (y : Str) :
    (x ++ y).takeWhile tables.isWord = x ++ y.takeWhile tables.isWord ∧ x.map foldCase = p := by
  have hall : ∀ c ∈ x, foldCase c = c.toLower ∧ tables.isWord c = true := by
    intro c hc
    apply ascii_of_toLower
    have hmem : c.toLower ∈ p := by
      rw [← h]
      exact List.mem_map_of_mem hc
    exact List.all_eq_true.mp hp _ hmem
  refine ⟨List.takeWhile_append_of_pos fun c hc => (hall c hc).2, ?_⟩
  rw [← h]
  exact List.map_congr_left fun c hc => (hall c hc).1

/-- What makes a token forbidden is at its beginning, which is a word for the check. -/
theorem isForbidden_takeWhile (tables : Tables) (h : isForbidden (t.map Char.toLower) = true) :
    t.takeWhile tables.isWord ≠ [] ∧ isForbidden ((t.takeWhile tables.isWord).map foldCase) = true := by
  have hne : ∀ z, isForbidden (z.map foldCase) = true → z ≠ [] := by
    rintro z hz rfl
    exact absurd hz (by decide)
  suffices hforbidden : isForbidden ((t.takeWhile tables.isWord).map foldCase) = true from
    ⟨hne _ hforbidden, hforbidden⟩
  unfold isForbidden at h
  rw [Bool.or_eq_true] at h
  rcases h with hword | hstart
  · have hp : ∀ p ∈ forbiddenWords, (p.all fun d => d.isAlphanum || d == '_') = true := by decide
    have hmem := List.contains_iff_mem.mp hword
    obtain ⟨htake, hfold⟩ := takeWhile_of_toLower tables rfl (hp _ hmem) []
    rw [List.append_nil] at htake
    rw [htake, List.takeWhile_nil, List.append_nil, hfold]
    unfold isForbidden
    rw [hword]
    rfl
  · obtain ⟨p, hp, hbegin⟩ := List.any_eq_true.mp hstart
    have hall : ∀ p ∈ forbiddenStarts, (p.all fun d => d.isAlphanum || d == '_') = true := by decide
    obtain ⟨z, hz⟩ := List.isPrefixOf_iff_prefix.mp hbegin
    obtain ⟨x, y, rfl, hx, -⟩ := List.map_eq_append_iff.mp hz.symm
    obtain ⟨htake, hfold⟩ := takeWhile_of_toLower tables hx (hall p hp) y
    rw [htake, List.map_append, hfold]
    unfold isForbidden
    rw [Bool.or_eq_true]
    right
    apply List.any_eq_true.mpr
    exact ⟨p, hp, List.isPrefixOf_iff_prefix.mpr (List.prefix_append p _)⟩

theorem mem_of_covers (h : Covers o s) (hc : c ∈ o) (hne : c ≠ '\'' ∧ c ≠ ' ')
    (hbreak : isBreak c = false) : c ∈ s := by
  induction h with
  | nil => exact absurd hc List.not_mem_nil
  | char d hd h ih =>
    rcases List.mem_cons.mp hc with rfl | hc
    · exact List.mem_cons_self
    · exact List.mem_cons_of_mem d (ih hc)
  | newline d hd h ih =>
    rcases List.mem_cons.mp hc with rfl | hc
    · rw [hd] at hbreak
      cases hbreak
    · exact List.mem_cons_of_mem _ (ih hc)
  | gap d hd hend h ih =>
    rcases List.mem_cons.mp hc with rfl | hc
    · rcases hd with hd | hd
      · exact absurd hd hne.2
      · rw [hd] at hbreak
        cases hbreak
    · exact ih hc
  | quoted q inner hq hinner h ih =>
    rcases List.mem_cons.mp hc with hc | hc
    · exact absurd hc hne.1
    rcases List.mem_cons.mp hc with hc | hc
    · exact absurd hc hne.1
    · exact List.mem_cons_of_mem q (List.mem_append_right _ (List.mem_cons_of_mem q (ih hc)))

/-- Without a backslash and a forbidden word for the check the server has none. -/
theorem isHarmless_of_covers (h : Covers o s) (hbackslash : '\\' ∉ s)
    (hwords : ∀ w ∈ wordsIn tables s, isForbidden (w.map foldCase) = false)
    (ht : t ∈ tokens o) : isHarmless t = true := by
  unfold isHarmless
  rw [Bool.and_eq_true, bne_iff_ne, Bool.not_eq_true']
  constructor
  · rintro rfl
    have hmem := (mem_of_mem_tokensFrom ht List.mem_cons_self).resolve_left List.not_mem_nil
    exact hbackslash (mem_of_covers h hmem ⟨by decide, by decide⟩ (by decide))
  · apply Bool.eq_false_of_not_eq_true
    intro hforbidden
    obtain ⟨hne, hword⟩ := isForbidden_takeWhile tables hforbidden
    have hmem : t.takeWhile tables.isWord ∈ wordsIn tables s := mem_wordsIn_of_covers h ht hne
    rw [hwords _ hmem] at hword
    cases hword

end Words

/-! ## Accepted scripts -/

section Accepted
variable {tables : Tables} {rules : Rules} {text : Str}

theorem eq_false_of_problemIf {broken : Bool} {message : String} (h : problemIf broken message = []) :
    broken = false := by
  cases broken with
  | false => rfl
  | true => cases h

/-- What acceptance says of the code that the check is left with. -/
theorem accepted_spec (h : identitySqlProblems tables text = []) :
    hasBlock (noComments text) = false ∧ '\\' ∉ codeOf text ∧ shapeOk tables (codeOf text) = true ∧
      ∀ w ∈ wordsIn tables (codeOf text), isForbidden (w.map foldCase) = false := by
  unfold identitySqlProblems at h
  dsimp only at h
  simp only [List.append_eq_nil_iff, List.map_eq_nil_iff] at h
  obtain ⟨⟨⟨⟨hblock, -⟩, hbackslash⟩, hshape⟩, hwords⟩ := h
  refine ⟨eq_false_of_problemIf hblock, ?_, ?_, ?_⟩
  · intro hmem
    have hnone := eq_false_of_problemIf hbackslash
    rw [List.contains_iff_mem.mpr hmem] at hnone
    cases hnone
  · have hbroken := eq_false_of_problemIf hshape
    rwa [Bool.not_eq_false'] at hbroken
  · intro w hw
    apply Bool.eq_false_of_not_eq_true
    intro hforbidden
    have hmem : w ∈ forbiddenIn tables (codeOf text) := List.mem_filter.mpr ⟨hw, hforbidden⟩
    have hlower := List.mem_dedup.mpr (List.mem_map_of_mem (f := tables.cases.lower) hmem)
    have hsorted := (List.mem_insertionSort (· ≤ ·)).mpr hlower
    rw [hwords] at hsorted
    exact absurd hsorted List.not_mem_nil

/-- A script that the check accepts is one query that reads only, where the check and the server
read its parts alike. -/
theorem readsOnly_of_accepted (tables : Tables) (rules : Rules) (text : Str)
    (h : identitySqlProblems tables text = []) (halike : readsAlike rules text = true) :
    readsOnly rules text = true := by
  obtain ⟨hblock, hbackslash, hshape, hwords⟩ := accepted_spec h
  unfold readsAlike at halike
  unfold readsOnly
  cases hlex : lex rules text with
  | none =>
    rw [hlex] at halike
    cases halike
  | some pieces =>
    rw [hlex, Option.any_some, Bool.and_eq_true] at halike
    have hparts := List.all_eq_true.mp halike.1
    have hplain := List.all_eq_true.mp halike.2
    have hcovers := covers_codeOf hlex hparts hblock
    rw [Option.any_some, Bool.and_eq_true]
    refine ⟨isQuery_of_shapeOk hcovers hplain hshape, List.all_eq_true.mpr ?_⟩
    intro token htoken
    exact isHarmless_of_covers hcovers hbackslash hwords htoken

/-- The tables for scripts of ASCII characters. -/
def asciiTables : Tables where
  cases := Python.CaseTable.identity
  upper s := s.map Char.toUpper
  upper_ascii _ _ := rfl
  isWord c := c.isAlphanum || c == '_' || (foldCase c).isAlpha
  isWord_ascii := by
    intro c hascii
    cases halpha : (foldCase c).isAlpha with
    | false => rw [Bool.or_false]
    | true =>
      have hall : ∀ n < 128, (foldCase (Char.ofNat n)).isAlpha = true →
          (Char.ofNat n).isAlphanum = true := by decide
      have hc := hall c.toNat hascii
      rw [Char.ofNat_toNat] at hc
      rw [hc halpha]
      rfl
  isWord_of_foldCase := by
    intro c halpha
    rw [halpha, Bool.or_true]
  isWord_break := by
    intro c hc
    have hspace : Python.isSpace c = true := by
      unfold isBreak at hc
      unfold Python.isSpace
      simp only [Bool.or_eq_true, Bool.and_eq_true, decide_eq_true_eq, beq_iff_eq] at hc ⊢
      omega
    rw [not_isAlpha_of_isSpace hspace, Bool.or_false]
    rcases Nat.lt_or_ge c.toNat 128 with hascii | hbeyond
    · have hall : ∀ n < 128, isBreak (Char.ofNat n) = true →
          ((Char.ofNat n).isAlphanum || Char.ofNat n == '_') = false := by decide
      have hnone := hall c.toNat hascii
      rw [Char.ofNat_toNat] at hnone
      exact hnone hc
    · apply Bool.eq_false_of_not_eq_true
      intro hword
      have hlt := lt_of_isWord hword
      omega
  isDecimal := Char.isDigit
  isDecimal_ascii _ _ := rfl

def rows : Str :=
  Python.join [','] (identityKeys.map fun key => "(1,'".toList ++ key ++ "=')".toList)

def plainScript : Str :=
  "BEGIN TRANSACTION READ ONLY;SELECT t.line FROM (VALUES".toList ++ rows ++
    ") AS t(n,line);ROLLBACK;".toList

/-- Two dashes in a literal hide the rest of the line. -/
def hidingScript : Str :=
  "BEGIN TRANSACTION READ ONLY;SELECT t.line FROM (VALUES".toList ++ rows ++
    ",(1,'--')) AS t(n,line);COPY t TO PROGRAM 'id';SELECT ('\n');ROLLBACK;".toList

theorem plainScript_readsOnly : readsOnly SqlLexis.serverRules plainScript = true :=
  readsOnly_of_accepted asciiTables SqlLexis.serverRules plainScript (by decide +kernel)
    (by decide +kernel)

theorem hidingScript_accepted : identitySqlProblems asciiTables hidingScript = [] ∧
    readsOnly SqlLexis.serverRules hidingScript = false := by
  decide +kernel

end Accepted

end Decisya.Deploy.IdentitySql
