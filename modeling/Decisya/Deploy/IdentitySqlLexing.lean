import Decisya.Deploy.IdentitySql

/-!
# The two ways to read a script

Where no quoted part holds what the check takes for a comment, a quote or the end of a statement,
and no comment holds what it takes for the end of a line, the check is left with what the server
reads outside quotes and comments.
-/

namespace Decisya.Deploy.IdentitySql

set_option autoImplicit false

open SqlLexis

/-! ## Parts that both read alike -/

def hasDashes (s : Str) : Bool := s.tails.any fun t => ['-', '-'].isPrefixOf t

def hasEscapedQuote : Str → Bool
  | [] => false
  | '\\' :: c :: rest => c == '\'' || hasEscapedQuote rest
  | _ :: rest => hasEscapedQuote rest

/-- A part that the check ends where the server does. -/
def isAlike (piece : Piece) : Bool :=
  match piece with
  | .char _ => true
  | .literal escapes body => !hasDashes piece.source && !(escapes && hasEscapedQuote body)
  | .identifier _ => !hasDashes piece.source && !piece.source.contains '\'' && !piece.source.contains ';'
  | .dollar _ _ => !hasDashes piece.source && !piece.source.contains '\'' && !piece.source.contains ';'
  | .comment body => body.all fun c => !isBreak c
  | .block _ => true

/-! ## Pieces and their text -/

section Pieces
variable {escapes : Bool} {body rest s : Str} {c : Char}

/-- All quotes in it are doubled. -/
def isDoubled : Str → Bool
  | [] => true
  | '\'' :: '\'' :: rest => isDoubled rest
  | '\'' :: _ => false
  | _ :: rest => isDoubled rest

theorem isDoubled_cons (hc : c ≠ '\'') : isDoubled (c :: s) = isDoubled s := by
  rw [isDoubled]
  · intro rest heq _
    exact hc heq
  · intro heq
    exact hc heq

theorem hasEscapedQuote_cons (hc : c ≠ '\\') : hasEscapedQuote (c :: s) = hasEscapedQuote s := by
  rw [hasEscapedQuote]
  intro d rest heq _
  exact hc heq

theorem exists_of_map {o : Option (Str × Str)} (f : Str → Str)
    (h : (o.map fun r => (f r.1, r.2)) = some (body, rest)) :
    ∃ b, o = some (b, rest) ∧ body = f b := by
  obtain ⟨r, hr, heq⟩ := Option.map_eq_some_iff.mp h
  obtain ⟨rfl, rfl⟩ := Prod.mk.inj heq
  exact ⟨r.1, hr, rfl⟩

/-- A literal is read up to the first quote that is neither doubled nor escaped. -/
theorem readLiteral_spec (h : readLiteral escapes s = some (body, rest)) :
    s = body ++ '\'' :: rest ∧ rest.head? ≠ some '\'' ∧
      ((escapes && hasEscapedQuote body) = false → isDoubled body = true) := by
  induction s using readLiteral.induct escapes generalizing body with
  | case1 => cases h
  | case2 tail ih =>
    rw [readLiteral] at h
    obtain ⟨b, hb, rfl⟩ := exists_of_map (fun b => '\'' :: '\'' :: b) h
    obtain ⟨htail, hhead, hdoubled⟩ := ih hb
    refine ⟨congrArg (fun t => '\'' :: '\'' :: t) htail, hhead, ?_⟩
    rw [hasEscapedQuote_cons (by decide), hasEscapedQuote_cons (by decide)]
    exact hdoubled
  | case3 tail hne =>
    rw [readLiteral] at h
    · obtain ⟨rfl, rfl⟩ := Prod.mk.inj (Option.some.inj h)
      refine ⟨rfl, ?_, fun _ => rfl⟩
      intro hhead
      obtain ⟨more, rfl⟩ := List.head?_eq_some_iff.mp hhead
      exact hne more rfl
    · exact hne
  | case4 d tail hescapes ih =>
    rw [readLiteral, if_pos hescapes] at h
    obtain ⟨b, hb, rfl⟩ := exists_of_map (fun b => '\\' :: d :: b) h
    obtain ⟨htail, hhead, hdoubled⟩ := ih hb
    refine ⟨congrArg (fun t => '\\' :: d :: t) htail, hhead, ?_⟩
    intro hnone
    rw [hasEscapedQuote, hescapes, Bool.true_and, Bool.or_eq_false_iff, beq_eq_false_iff_ne] at hnone
    rw [isDoubled_cons (by decide), isDoubled_cons hnone.1]
    apply hdoubled
    rw [hnone.2, Bool.and_false]
  | case5 d tail hescapes ih =>
    rw [readLiteral, if_neg hescapes] at h
    obtain ⟨b, hb, rfl⟩ := exists_of_map (fun b => '\\' :: b) h
    obtain ⟨htail, hhead, hdoubled⟩ := ih hb
    refine ⟨congrArg (fun t => '\\' :: t) htail, hhead, ?_⟩
    intro _
    rw [isDoubled_cons (by decide)]
    apply hdoubled
    rw [Bool.eq_false_of_not_eq_true hescapes, Bool.false_and]
  | case6 d tail h1 h2 h3 ih =>
    rw [readLiteral] at h
    · obtain ⟨b, hb, rfl⟩ := exists_of_map (fun b => d :: b) h
      obtain ⟨htail, hhead, hdoubled⟩ := ih hb
      have hbackslash : d ≠ '\\' := by
        rintro rfl
        cases tail with
        | nil => cases hb
        | cons c tail => exact h3 c tail rfl rfl
      refine ⟨congrArg (fun t => d :: t) htail, hhead, ?_⟩
      rw [hasEscapedQuote_cons hbackslash, isDoubled_cons h2]
      exact hdoubled
    · exact h1
    · exact h2
    · exact h3

theorem readIdentifier_eq (h : readIdentifier s = some (body, rest)) : s = body ++ '"' :: rest := by
  induction s using readIdentifier.induct generalizing body with
  | case1 => cases h
  | case2 tail ih =>
    rw [readIdentifier] at h
    obtain ⟨b, hb, rfl⟩ := exists_of_map (fun b => '"' :: '"' :: b) h
    exact congrArg (fun t => '"' :: '"' :: t) (ih hb)
  | case3 tail hne =>
    rw [readIdentifier] at h
    · obtain ⟨rfl, rfl⟩ := Prod.mk.inj (Option.some.inj h)
      rfl
    · exact hne
  | case4 d tail h1 h2 ih =>
    rw [readIdentifier] at h
    · obtain ⟨b, hb, rfl⟩ := exists_of_map (fun b => d :: b) h
      exact congrArg (fun t => d :: t) (ih hb)
    · exact h1
    · exact h2

theorem readUntil_eq {close : Str} (h : readUntil close s = some (body, rest)) :
    s = body ++ close ++ rest := by
  induction s generalizing body with
  | nil => cases h
  | cons d tail ih =>
    rw [readUntil] at h
    split at h
    · rename_i hprefix
      obtain ⟨rfl, rfl⟩ := Prod.mk.inj (Option.some.inj h)
      exact (List.prefix_iff_eq_append.mp (List.isPrefixOf_iff_prefix.mp hprefix)).symm
    · obtain ⟨b, hb, rfl⟩ := exists_of_map (fun b => d :: b) h
      exact congrArg (fun t => d :: t) (ih hb)

theorem readTag_eq {tag : Str} (h : readTag s = some tag) :
    s = tag ++ '$' :: s.drop (tag.length + 1) := by
  unfold readTag at h
  dsimp only at h
  split at h
  · rename_i hand
    obtain rfl := Option.some.inj h
    obtain ⟨more, hmore⟩ := List.head?_eq_some_iff.mp hand.1
    have htake := List.takeWhile_append_dropWhile (p := isWordChar) (l := s)
    have hdrop : s.drop (s.takeWhile isWordChar).length = s.dropWhile isWordChar := by
      have hdropped := congrArg (List.drop (s.takeWhile isWordChar).length) htake
      rw [List.drop_left] at hdropped
      exact hdropped.symm
    rw [hdrop] at hmore
    have htail : s.drop ((s.takeWhile isWordChar).length + 1) = more := by
      rw [← List.drop_drop, hdrop, hmore]
      rfl
    rw [htail, ← hmore]
    exact htake.symm
  · cases h

/-- The first piece of a text and what follows it. -/
inductive Reads : Str → Piece → Str → Prop where
  | char (c : Char) (rest : Str) (hquote : c ≠ '\'') (hdashes : ¬ (c = '-' ∧ rest.head? = some '-')) :
    Reads (c :: rest) (.char c) rest
  | literal (escapes : Bool) (body rest : Str) (hrest : rest.head? ≠ some '\'')
    (hbody : (escapes && hasEscapedQuote body) = false → isDoubled body = true) :
    Reads ('\'' :: (body ++ '\'' :: rest)) (.literal escapes body) rest
  | identifier (body rest : Str) : Reads ('"' :: (body ++ '"' :: rest)) (.identifier body) rest
  | dollar (tag body rest : Str) :
    Reads (delimiter tag ++ body ++ delimiter tag ++ rest) (.dollar tag body) rest
  | comment (rest : Str) :
    Reads ('-' :: '-' :: rest) (.comment (readLine rest).1) (readLine rest).2
  | block (body rest after : Str) : Reads ('/' :: '*' :: rest) (.block body) after

theorem reads_of_next {rules : Rules} {before : Str} {piece : Piece}
    (h : next rules before (c :: s) = some (piece, rest)) : Reads (c :: s) piece rest := by
  rw [next] at h
  split at h
  · rename_i hquote
    obtain ⟨r, hr, heq⟩ := Option.map_eq_some_iff.mp h
    obtain ⟨rfl, rfl⟩ := Prod.mk.inj heq
    obtain ⟨rfl, hrest, hbody⟩ := readLiteral_spec hr
    rw [hquote]
    exact Reads.literal _ _ _ hrest hbody
  rename_i hquote
  split at h
  · rename_i hidentifier
    obtain ⟨r, hr, heq⟩ := Option.map_eq_some_iff.mp h
    obtain ⟨rfl, rfl⟩ := Prod.mk.inj heq
    obtain rfl := readIdentifier_eq hr
    rw [hidentifier]
    exact Reads.identifier _ _
  split at h
  · rename_i hdashes
    obtain ⟨rfl, hhead⟩ := hdashes
    obtain ⟨tail, rfl⟩ := List.head?_eq_some_iff.mp hhead
    obtain ⟨rfl, rfl⟩ := Prod.mk.inj (Option.some.inj h)
    exact Reads.comment tail
  rename_i hdashes
  split at h
  · rename_i hblock
    obtain ⟨rfl, hhead⟩ := hblock
    obtain ⟨tail, rfl⟩ := List.head?_eq_some_iff.mp hhead
    obtain ⟨r, -, heq⟩ := Option.map_eq_some_iff.mp h
    obtain ⟨rfl, rfl⟩ := Prod.mk.inj heq
    exact Reads.block _ _ _
  split at h
  · rename_i hdollar
    obtain ⟨rfl, -, htag⟩ := hdollar
    obtain ⟨tag, htag⟩ := Option.isSome_iff_exists.mp htag
    have htext := readTag_eq htag
    rw [htag, Option.getD_some] at h
    obtain ⟨r, hr, heq⟩ := Option.map_eq_some_iff.mp h
    obtain ⟨rfl, rfl⟩ := Prod.mk.inj heq
    have hbody := readUntil_eq hr
    rw [hbody] at htext
    have hall : '$' :: s = delimiter tag ++ r.1 ++ delimiter tag ++ r.2 := by
      rw [htext]
      unfold delimiter
      simp
    rw [hall]
    exact Reads.dollar tag r.1 r.2
  · obtain ⟨rfl, rfl⟩ := Prod.mk.inj (Option.some.inj h)
    exact Reads.char c s hquote hdashes

end Pieces

/-! ## Lines and comments -/

/-- The text without what follows two dashes up to the end of the line, the ends of lines as
`splitlines` has them. -/
def cutFrom : Bool → Str → Str
  | _, [] => []
  | inComment, c :: rest =>
    if isBreak c then
      if rest = [] then []
      else if c = '\r' ∧ rest.head? = some '\n' then cutFrom false rest
      else '\n' :: cutFrom false rest
    else if inComment = true ∨ (c = '-' ∧ rest.head? = some '-') then cutFrom true rest
    else c :: cutFrom false rest

section Cut
variable {text rest s : Str} {c : Char} {inComment : Bool}

theorem cutFrom_break (hc : isBreak c = true) (inComment : Bool) (rest : Str) :
    cutFrom inComment (c :: rest) =
      if rest = [] then []
      else if c = '\r' ∧ rest.head? = some '\n' then cutFrom false rest
      else '\n' :: cutFrom false rest := by
  rw [cutFrom, if_pos hc]

theorem cutFrom_comment (hc : isBreak c = false) (rest : Str) :
    cutFrom true (c :: rest) = cutFrom true rest := by
  rw [cutFrom, if_neg (by rw [hc]; exact Bool.false_ne_true), if_pos (Or.inl rfl)]

theorem cutFrom_dashes (rest : Str) : cutFrom false ('-' :: '-' :: rest) = cutFrom true rest := by
  rw [cutFrom, if_neg (by decide), if_pos (Or.inr ⟨rfl, rfl⟩), cutFrom_comment (by decide)]

theorem cutFrom_char (hc : isBreak c = false) (hdashes : ¬ (c = '-' ∧ rest.head? = some '-')) :
    cutFrom false (c :: rest) = c :: cutFrom false rest := by
  rw [cutFrom, if_neg (by rw [hc]; exact Bool.false_ne_true), if_neg]
  intro h
  rcases h with h | h
  · cases h
  · exact hdashes h

theorem join_cons (line : Str) (lines : List Str) :
    Python.join ['\n'] (line :: lines) = line ++ Python.join ['\n'] ([] :: lines) := by
  cases lines with
  | nil => simp [Python.join, List.intercalate]
  | cons next lines => simp [Python.join, List.intercalate]

theorem join_nil_cons (lines : List Str) (hne : lines ≠ []) :
    Python.join ['\n'] ([] :: lines) = '\n' :: Python.join ['\n'] lines := by
  obtain ⟨line, lines, rfl⟩ := List.exists_cons_of_ne_nil hne
  simp [Python.join, List.intercalate]

theorem splitLines_break (hc : isBreak c = true) (hcrlf : ¬ (c = '\r' ∧ rest.head? = some '\n')) :
    splitLines (c :: rest) = [] :: splitLines rest := by
  rw [splitLines, if_pos hc]
  intro tail hr hrest
  exact hcrlf ⟨hr, by rw [hrest]; rfl⟩

theorem splitLines_char (hc : isBreak c = false) :
    splitLines (c :: rest) = ontoFirst c (splitLines rest) := by
  rw [splitLines, if_neg (by rw [hc]; exact Bool.false_ne_true)]
  intro tail hr _
  rw [hr] at hc
  cases hc

theorem splitLines_ne_nil (hne : text ≠ []) : splitLines text ≠ [] := by
  induction text with
  | nil => exact absurd rfl hne
  | cons c rest ih =>
    cases hc : isBreak c with
    | true =>
      by_cases hcrlf : c = '\r' ∧ rest.head? = some '\n'
      · obtain ⟨rfl, hhead⟩ := hcrlf
        obtain ⟨tail, rfl⟩ := List.head?_eq_some_iff.mp hhead
        exact List.cons_ne_nil _ _
      · rw [splitLines_break hc hcrlf]
        exact List.cons_ne_nil _ _
    | false =>
      rw [splitLines_char hc]
      cases splitLines rest with
      | nil => exact List.cons_ne_nil _ _
      | cons line lines => exact List.cons_ne_nil _ _

/-- The first line starts as the text does. -/
theorem head_splitLines {line : Str} {lines : List Str} (h : splitLines text = line :: lines)
    (hc : isBreak c = false) : line.head? = some c ↔ text.head? = some c := by
  cases text with
  | nil => cases h
  | cons d rest =>
    cases hd : isBreak d with
    | true =>
      have hfirst : line = [] := by
        by_cases hcrlf : d = '\r' ∧ rest.head? = some '\n'
        · obtain ⟨rfl, hhead⟩ := hcrlf
          obtain ⟨tail, rfl⟩ := List.head?_eq_some_iff.mp hhead
          exact (List.cons.inj h).1.symm
        · rw [splitLines_break hd hcrlf] at h
          exact (List.cons.inj h).1.symm
      refine iff_of_false (by rw [hfirst]; simp) ?_
      intro heq
      obtain rfl := Option.some.inj heq
      rw [hd] at hc
      cases hc
    | false =>
      rw [splitLines_char hd] at h
      cases hrest : splitLines rest with
      | nil =>
        rw [hrest] at h
        rw [← (List.cons.inj h).1]
        rfl
      | cons first others =>
        rw [hrest] at h
        rw [← (List.cons.inj h).1]
        rfl

theorem stripComment_dashes (rest : Str) : stripComment ('-' :: '-' :: rest) = [] := rfl

theorem stripComment_cons (hdashes : ¬ (c = '-' ∧ rest.head? = some '-')) :
    stripComment (c :: rest) = c :: stripComment rest := by
  rw [stripComment]
  intro tail hc hrest
  exact hdashes ⟨hc, by rw [hrest]; rfl⟩

theorem noComments_spec (text : Str) :
    noComments text = cutFrom false text ∧ ∀ line lines, splitLines text = line :: lines →
      cutFrom true text = Python.join ['\n'] ([] :: lines.map stripComment) := by
  unfold noComments
  induction text with
  | nil => exact ⟨rfl, fun _ _ h => by cases h⟩
  | cons c rest ih =>
    obtain ⟨hfalse, htrue⟩ := ih
    cases hc : isBreak c with
    | true =>
      by_cases hcrlf : c = '\r' ∧ rest.head? = some '\n'
      · obtain ⟨rfl, hhead⟩ := hcrlf
        obtain ⟨tail, rfl⟩ := List.head?_eq_some_iff.mp hhead
        have hlines : splitLines ('\r' :: '\n' :: tail) = splitLines ('\n' :: tail) := by
          rw [splitLines_break (c := '\n') (by decide) (by simp)]
          rfl
        have hcut : ∀ b, cutFrom b ('\r' :: '\n' :: tail) = cutFrom false ('\n' :: tail) := by
          intro b
          rw [cutFrom_break hc, if_neg (List.cons_ne_nil _ _), if_pos ⟨rfl, rfl⟩]
        rw [hlines, hcut, hcut]
        refine ⟨hfalse, ?_⟩
        intro line lines h
        rw [← hfalse, h, List.map_cons]
        rw [splitLines_break (c := '\n') (by decide) (by simp)] at h
        rw [← (List.cons.inj h).1]
        rfl
      · have hcut : ∀ b, cutFrom b (c :: rest) =
            Python.join ['\n'] ([] :: (splitLines rest).map stripComment) := by
          intro b
          rw [cutFrom_break hc, if_neg hcrlf]
          split
          · rename_i hnil
            rw [hnil]
            rfl
          · rename_i hne
            rw [join_nil_cons, hfalse]
            intro hmap
            exact splitLines_ne_nil hne (List.map_eq_nil_iff.mp hmap)
        rw [splitLines_break hc hcrlf, hcut, hcut]
        refine ⟨rfl, ?_⟩
        intro line lines h
        rw [(List.cons.inj h).2]
    | false =>
      have hcut : cutFrom true (c :: rest) = cutFrom true rest := cutFrom_comment hc rest
      rw [splitLines_char hc]
      cases hrest : splitLines rest with
      | nil =>
        have hnil : rest = [] := by
          by_contra hne
          exact splitLines_ne_nil hne hrest
        subst hnil
        rw [ontoFirst]
        constructor
        · rw [cutFrom_char hc (by simp)]
          simp [stripComment_cons, stripComment, Python.join, List.intercalate, cutFrom]
        · intro line lines h
          rw [hcut, ← (List.cons.inj h).2]
          rfl
      | cons line lines =>
        have htrue' := htrue line lines hrest
        rw [ontoFirst]
        constructor
        · by_cases hdashes : c = '-' ∧ rest.head? = some '-'
          · obtain ⟨rfl, hhead⟩ := hdashes
            obtain ⟨more, rfl⟩ := List.head?_eq_some_iff.mp
              ((head_splitLines hrest (by decide)).mpr hhead)
            obtain ⟨tail, rfl⟩ := List.head?_eq_some_iff.mp hhead
            rw [cutFrom_dashes, ← cutFrom_comment (c := '-') (by decide), htrue']
            rfl
          · have hline : ¬ (c = '-' ∧ line.head? = some '-') := by
              intro hand
              exact hdashes ⟨hand.1, (head_splitLines hrest (by decide)).mp hand.2⟩
            rw [cutFrom_char hc hdashes, ← hfalse, hrest, List.map_cons, List.map_cons,
              stripComment_cons hline, join_cons, join_cons (stripComment line)]
            rfl
        · intro line' lines' h
          rw [hcut, htrue', (List.cons.inj h).2]

theorem noComments_eq (text : Str) : noComments text = cutFrom false text := (noComments_spec text).1

end Cut

/-! ## Quoted parts in the text that is cut -/

/-- The text with the ends of lines as `splitlines` has them. -/
def norm : Str → Str
  | [] => []
  | c :: rest =>
    if isBreak c then if c = '\r' ∧ rest.head? = some '\n' then norm rest else '\n' :: norm rest
    else c :: norm rest

section Quoted
variable {body rest s x y : Str} {c q : Char}

theorem hasDashes_cons (c : Char) (s : Str) :
    hasDashes (c :: s) = (['-', '-'].isPrefixOf (c :: s) || hasDashes s) := by
  unfold hasDashes
  rw [List.tails_cons, List.any_cons]

theorem not_dashes (h : hasDashes (c :: s) = false) : ¬ (c = '-' ∧ s.head? = some '-') := by
  intro hdashes
  obtain ⟨rfl, hhead⟩ := hdashes
  obtain ⟨tail, rfl⟩ := List.head?_eq_some_iff.mp hhead
  rw [hasDashes_cons, Bool.or_eq_false_iff] at h
  exact absurd h.1 (by simp)

theorem hasDashes_tail (h : hasDashes (c :: s) = false) : hasDashes s = false := by
  rw [hasDashes_cons, Bool.or_eq_false_iff] at h
  exact h.2

/-- Without two dashes nothing is cut. -/
theorem cutFrom_append (h : hasDashes (body ++ [q]) = false) (hq : isBreak q = false) :
    cutFrom false (body ++ q :: rest) = norm body ++ cutFrom false (q :: rest) := by
  induction body with
  | nil => rfl
  | cons c body ih =>
    have htail := ih (hasDashes_tail h)
    have hhead : (body ++ q :: rest).head? = (body ++ [q]).head? := by
      cases body with
      | nil => rfl
      | cons d body => rfl
    rw [List.cons_append, norm]
    cases hc : isBreak c with
    | true =>
      have hnewline : (body ++ q :: rest).head? = some '\n' ↔ body.head? = some '\n' := by
        cases body with
        | nil =>
          refine iff_of_false ?_ (by simp)
          intro heq
          rw [Option.some.inj heq] at hq
          cases hq
        | cons d body => rfl
      rw [cutFrom_break hc, if_neg (by simp), if_pos rfl, htail]
      by_cases hcrlf : c = '\r' ∧ body.head? = some '\n'
      · rw [if_pos hcrlf, if_pos ⟨hcrlf.1, hnewline.mpr hcrlf.2⟩]
      · rw [if_neg hcrlf, if_neg fun h => hcrlf ⟨h.1, hnewline.mp h.2⟩]
        rfl
    | false =>
      rw [cutFrom_char hc (by rw [hhead]; exact not_dashes h), htail, if_neg Bool.false_ne_true]
      rfl

theorem cutFrom_quote (hq : isBreak q = false) (hdash : q ≠ '-') :
    cutFrom false (q :: rest) = q :: cutFrom false rest :=
  cutFrom_char hq fun h => hdash h.1

theorem mem_norm (h : c ∈ norm s) : c ∈ s ∨ c = '\n' := by
  induction s with
  | nil => exact Or.inl h
  | cons d s ih =>
    rw [norm] at h
    split at h
    · split at h
      · exact (ih h).imp_left (List.mem_cons_of_mem d)
      · rcases List.mem_cons.mp h with rfl | h
        · exact Or.inr rfl
        · exact (ih h).imp_left (List.mem_cons_of_mem d)
    · rcases List.mem_cons.mp h with rfl | h
      · exact Or.inl List.mem_cons_self
      · exact (ih h).imp_left (List.mem_cons_of_mem d)

theorem isDoubled_norm (h : isDoubled s = true) : isDoubled (norm s) = true := by
  induction s using isDoubled.induct with
  | case1 => rfl
  | case2 tail ih =>
    have hnorm : norm ('\'' :: '\'' :: tail) = '\'' :: '\'' :: norm tail := by
      rw [norm, if_neg (by decide), norm, if_neg (by decide)]
    rw [hnorm]
    exact ih h
  | case3 tail hne =>
    rw [isDoubled] at h
    · cases h
    · exact hne
  | case4 d tail h1 h2 ih =>
    rw [isDoubled_cons h2] at h
    rw [norm]
    split
    · split
      · exact ih h
      · rw [isDoubled_cons (by decide)]
        exact ih h
    · rw [isDoubled_cons h2]
      exact ih h

theorem closeLiteral_cons (hc : c ≠ '\'') : closeLiteral (c :: s) = closeLiteral s := by
  rw [closeLiteral]
  · intro tail heq _
    exact hc heq
  · intro heq
    exact hc heq

/-- A literal whose quotes are doubled is closed where the server closes it. -/
theorem closeLiteral_append (h : isDoubled x = true) (hy : y.head? ≠ some '\'') :
    closeLiteral (x ++ '\'' :: y) = some y := by
  induction x using isDoubled.induct with
  | case1 =>
    rw [List.nil_append, closeLiteral]
    rintro tail rfl
    exact hy rfl
  | case2 tail ih =>
    rw [List.cons_append, List.cons_append, closeLiteral, ih h]
    rfl
  | case3 tail hne =>
    rw [isDoubled] at h
    · cases h
    · exact hne
  | case4 d tail h1 h2 ih =>
    rw [isDoubled_cons h2] at h
    rw [List.cons_append, closeLiteral_cons h2]
    exact ih h

theorem stripLiterals_cons (hc : c ≠ '\'') (n : ℕ) :
    stripLiterals (n + 1) (c :: s) = c :: stripLiterals n s := by
  rw [stripLiterals, if_neg hc]

theorem stripLiterals_literal (h : isDoubled x = true) (hy : y.head? ≠ some '\'') (n : ℕ) :
    stripLiterals (n + 1) ('\'' :: (x ++ '\'' :: y)) = '\'' :: '\'' :: stripLiterals n y := by
  rw [stripLiterals, if_pos rfl, closeLiteral_append h hy]

theorem stripLiterals_append (hx : '\'' ∉ x) {n : ℕ} (hn : (x ++ y).length ≤ n) :
    stripLiterals n (x ++ y) = x ++ stripLiterals (n - x.length) y := by
  induction x generalizing n with
  | nil => rfl
  | cons c x ih =>
    rw [List.mem_cons, not_or] at hx
    rw [List.cons_append, List.length_cons] at hn
    obtain ⟨m, rfl⟩ : ∃ m, n = m + 1 := ⟨n - 1, by omega⟩
    rw [List.cons_append, stripLiterals_cons (fun h => hx.1 h.symm), ih hx.2 (by omega),
      List.length_cons, Nat.add_sub_add_right]
    rfl

/-- At the end of a line or of the text. -/
def AtEnd (s : Str) : Prop := s = [] ∨ ∃ rest, s = '\n' :: rest

theorem atEnd_cutFrom_break (hc : isBreak c = true) (inComment : Bool) (rest : Str) :
    AtEnd (cutFrom inComment (c :: rest)) := by
  rw [cutFrom_break hc]
  split
  · exact Or.inl rfl
  split
  · rename_i hcrlf
    obtain ⟨tail, rfl⟩ := List.head?_eq_some_iff.mp hcrlf.2
    rw [cutFrom_break (c := '\n') (by decide)]
    split
    · exact Or.inl rfl
    split
    · rename_i hr
      exact absurd hr.1 (by decide)
    · exact Or.inr ⟨_, rfl⟩
  · exact Or.inr ⟨_, rfl⟩

theorem atEnd_cutFrom_comment (s : Str) : AtEnd (cutFrom true s) := by
  induction s with
  | nil => exact Or.inl rfl
  | cons c rest ih =>
    cases hc : isBreak c with
    | true => exact atEnd_cutFrom_break hc true rest
    | false =>
      rw [cutFrom_comment hc]
      exact ih

theorem AtEnd.head_ne (h : AtEnd s) (hc : c ≠ '\n') : s.head? ≠ some c := by
  intro hhead
  rcases h with rfl | ⟨rest, rfl⟩
  · cases hhead
  · exact hc (Option.some.inj hhead).symm

/-- The cut text starts with a quote only where the text does. -/
theorem head_cutFrom (h : (cutFrom false s).head? = some '\'') : s.head? = some '\'' := by
  cases s with
  | nil => exact h
  | cons c rest =>
    cases hc : isBreak c with
    | true => exact absurd h ((atEnd_cutFrom_break hc false rest).head_ne (by decide))
    | false =>
      by_cases hdashes : c = '-' ∧ rest.head? = some '-'
      · obtain ⟨rfl, hhead⟩ := hdashes
        obtain ⟨tail, rfl⟩ := List.head?_eq_some_iff.mp hhead
        rw [cutFrom_dashes] at h
        exact absurd h ((atEnd_cutFrom_comment tail).head_ne (by decide))
      · rw [cutFrom_char hc hdashes] at h
        exact h

end Quoted

/-! ## What the check is left with -/

/-- The text outside quotes as the server has it, and what the check is left with: the ends of
lines differ, comments are gone, and a quoted identifier or a dollar-quoted string is still
there. -/
inductive Covers : Str → Str → Prop where
  | nil : Covers [] []
  | char (c : Char) {o s : Str} (hc : isBreak c = false) (h : Covers o s) :
    Covers (c :: o) (c :: s)
  | newline (c : Char) {o s : Str} (hc : isBreak c = true) (h : Covers o s) :
    Covers (c :: o) ('\n' :: s)
  | gap (c : Char) {o s : Str} (hc : c = ' ' ∨ isBreak c = true) (hend : AtEnd s)
    (h : Covers o s) : Covers (c :: o) s
  | quoted (q : Char) (inner : Str) {o s : Str} (hq : q = '"' ∨ q = '$') (hinner : ';' ∉ inner)
    (h : Covers o s) : Covers ('\'' :: '\'' :: o) (q :: (inner ++ q :: s))

def hasBlock (s : Str) : Bool := s.tails.any fun t => ['/', '*'].isPrefixOf t

theorem hasBlock_tail {c : Char} {s : Str} (h : hasBlock (c :: s) = false) : hasBlock s = false := by
  unfold hasBlock at h ⊢
  rw [List.tails_cons, List.any_cons, Bool.or_eq_false_iff] at h
  exact h.2

theorem hasBlock_append {x s : Str} (h : hasBlock (x ++ s) = false) : hasBlock s = false := by
  induction x with
  | nil => exact h
  | cons c x ih => exact ih (hasBlock_tail h)

section Simulation
variable {rules : Rules} {text before rest s : Str} {piece : Piece} {pieces : List Piece}

theorem atEnd_stripLiterals (h : AtEnd s) (n : ℕ) (hn : s.length ≤ n) :
    AtEnd (stripLiterals n s) := by
  rcases h with rfl | ⟨rest, rfl⟩
  · left
    cases n <;> rfl
  · obtain ⟨m, rfl⟩ : ∃ m, n = m + 1 := ⟨n - 1, by rw [List.length_cons] at hn; omega⟩
    rw [stripLiterals_cons (by decide)]
    exact Or.inr ⟨_, rfl⟩

/-- The rest of a text, as the check reads it, is the server's. -/
def RestCovers (pieces : List Piece) (rest : Str) : Prop :=
  hasBlock (cutFrom false rest) = false → ∀ n, (cutFrom false rest).length ≤ n →
    Covers (outside pieces) (stripLiterals n (cutFrom false rest))

theorem covers_char {c : Char} (hquote : c ≠ '\'') (hdashes : ¬ (c = '-' ∧ rest.head? = some '-'))
    (hrest : RestCovers pieces rest) : RestCovers (.char c :: pieces) (c :: rest) := by
  intro hblock n hn
  cases hc : isBreak c with
  | false =>
    rw [cutFrom_char hc hdashes] at hblock hn ⊢
    obtain ⟨m, rfl⟩ : ∃ m, n = m + 1 := ⟨n - 1, by rw [List.length_cons] at hn; omega⟩
    rw [stripLiterals_cons hquote]
    rw [List.length_cons] at hn
    exact Covers.char c hc (hrest (hasBlock_tail hblock) m (by omega))
  | true =>
    have hend := atEnd_stripLiterals (atEnd_cutFrom_break hc false rest) n hn
    rw [cutFrom_break hc] at hblock hn hend ⊢
    split at hblock
    · rename_i hnil
      subst hnil
      rw [if_pos rfl] at hn hend ⊢
      exact Covers.gap c (Or.inr hc) hend (hrest rfl n hn)
    rename_i hne
    rw [if_neg hne] at hn hend ⊢
    split at hblock
    · rename_i hcrlf
      rw [if_pos hcrlf] at hn hend ⊢
      exact Covers.gap c (Or.inr hc) hend (hrest hblock n hn)
    · rename_i hcrlf
      rw [if_neg hcrlf] at hn ⊢
      obtain ⟨m, rfl⟩ : ∃ m, n = m + 1 := ⟨n - 1, by rw [List.length_cons] at hn; omega⟩
      rw [stripLiterals_cons (by decide)]
      rw [List.length_cons] at hn
      exact Covers.newline c hc (hrest (hasBlock_tail hblock) m (by omega))

/-- A quoted part without two dashes is cut as it stands. -/
theorem cutFrom_quoted {q : Char} {inner : Str} (hq : isBreak q = false) (hdash : q ≠ '-')
    (h : hasDashes (q :: (inner ++ [q])) = false) :
    cutFrom false (q :: (inner ++ q :: rest)) = q :: (norm inner ++ q :: cutFrom false rest) := by
  rw [cutFrom_quote hq hdash, cutFrom_append (hasDashes_tail h) hq, cutFrom_quote hq hdash]

theorem covers_literal {escapes : Bool} {body : Str} (hhead : rest.head? ≠ some '\'')
    (hbody : (escapes && hasEscapedQuote body) = false → isDoubled body = true)
    (halike : isAlike (.literal escapes body) = true) (hrest : RestCovers pieces rest) :
    RestCovers (.literal escapes body :: pieces) ('\'' :: (body ++ '\'' :: rest)) := by
  intro hblock n hn
  rw [isAlike, Bool.and_eq_true, Bool.not_eq_true', Bool.not_eq_true'] at halike
  have hcut : cutFrom false ('\'' :: (body ++ '\'' :: rest)) =
      '\'' :: (norm body ++ '\'' :: cutFrom false rest) :=
    cutFrom_quoted (by decide) (by decide) halike.1
  rw [hcut] at hblock hn ⊢
  obtain ⟨m, rfl⟩ : ∃ m, n = m + 1 := ⟨n - 1, by rw [List.length_cons] at hn; omega⟩
  have hcutHead : (cutFrom false rest).head? ≠ some '\'' := fun h => hhead (head_cutFrom h)
  rw [stripLiterals_literal (isDoubled_norm (hbody halike.2)) hcutHead]
  have htail : hasBlock (cutFrom false rest) = false :=
    hasBlock_tail (hasBlock_append (hasBlock_tail hblock))
  have hlength : (cutFrom false rest).length ≤ m := by
    rw [List.length_cons, List.length_append, List.length_cons] at hn
    omega
  exact Covers.char '\'' (by decide) (Covers.char '\'' (by decide) (hrest htail m hlength))

theorem covers_quoted {q : Char} {inner : Str} (hq : q = '"' ∨ q = '$')
    (hpiece : piece.outside = ['\'', '\'']) (hsource : piece.source = q :: (inner ++ [q]))
    (halike : (!hasDashes piece.source && !piece.source.contains '\'' &&
      !piece.source.contains ';') = true) (hrest : RestCovers pieces rest) :
    RestCovers (piece :: pieces) (q :: (inner ++ q :: rest)) := by
  intro hblock n hn
  rw [Bool.and_eq_true, Bool.and_eq_true, Bool.not_eq_true', Bool.not_eq_true', Bool.not_eq_true',
    hsource] at halike
  obtain ⟨⟨hdashes, hnoquote⟩, hnosemicolon⟩ := halike
  have hquote : '\'' ∉ q :: (inner ++ [q]) := by
    rw [← List.contains_iff_mem, hnoquote]
    exact Bool.false_ne_true
  have hsemicolon : ';' ∉ q :: (inner ++ [q]) := by
    rw [← List.contains_iff_mem, hnosemicolon]
    exact Bool.false_ne_true
  have hbreak : isBreak q = false := by rcases hq with rfl | rfl <;> decide
  have hdash : q ≠ '-' := by rcases hq with rfl | rfl <;> decide
  have hnewline : ∀ c : Char, c ≠ '\n' → c ∉ q :: (inner ++ [q]) →
      c ∉ q :: (norm inner ++ [q]) := by
    intro c hc hnot hmem
    rcases List.mem_cons.mp hmem with rfl | hmem
    · exact hnot List.mem_cons_self
    rcases List.mem_append.mp hmem with hinner | hlast
    · have hin := (mem_norm hinner).resolve_right hc
      exact hnot (List.mem_cons_of_mem _ (List.mem_append_left _ hin))
    · exact hnot (List.mem_cons_of_mem _ (List.mem_append_right _ hlast))
  have hcut : cutFrom false (q :: (inner ++ q :: rest)) =
      (q :: (norm inner ++ [q])) ++ cutFrom false rest := by
    rw [cutFrom_quoted hbreak hdash hdashes]
    simp
  rw [hcut] at hblock hn ⊢
  rw [stripLiterals_append (hnewline '\'' (by decide) hquote) hn]
  have hlength : (cutFrom false rest).length ≤ n - (q :: (norm inner ++ [q])).length := by
    rw [List.length_append] at hn
    omega
  have hcovers := hrest (hasBlock_append hblock) _ hlength
  have hinner : ';' ∉ norm inner := by
    intro hmem
    have hin := (mem_norm hmem).resolve_right (by decide)
    exact hsemicolon (List.mem_cons_of_mem _ (List.mem_append_left _ hin))
  have hall := Covers.quoted q (norm inner) hq hinner hcovers
  have houtside : outside (piece :: pieces) = '\'' :: '\'' :: outside pieces := by
    unfold outside
    rw [List.flatMap_cons, hpiece]
    rfl
  rw [houtside]
  simpa using hall

theorem covers_comment
    (halike : isAlike (.comment (readLine rest).1) = true)
    (hrest : RestCovers pieces (readLine rest).2) :
    RestCovers (.comment (readLine rest).1 :: pieces) ('-' :: '-' :: rest) := by
  intro hblock n hn
  have hbody : ∀ body after : Str, (body.all fun c => !isBreak c) = true →
      cutFrom true (body ++ after) = cutFrom true after := by
    intro body after hall
    induction body with
    | nil => rfl
    | cons c body ih =>
      rw [List.all_cons, Bool.and_eq_true, Bool.not_eq_true'] at hall
      rw [List.cons_append, cutFrom_comment hall.1, ih hall.2]
  have hafter : cutFrom true (readLine rest).2 = cutFrom false (readLine rest).2 := by
    unfold readLine
    cases hdrop : rest.dropWhile fun c => !isLineEnd c with
    | nil => rfl
    | cons c after =>
      have hc := List.head?_dropWhile_not (fun c => !isLineEnd c) rest
      rw [hdrop] at hc
      have hbreak : isBreak c = true := by
        have hend : isLineEnd c = true := by simpa using hc
        unfold isLineEnd at hend
        rw [Bool.or_eq_true, beq_iff_eq, beq_iff_eq] at hend
        rcases hend with rfl | rfl <;> decide
      rw [cutFrom_break hbreak, cutFrom_break hbreak]
  have hall : cutFrom false ('-' :: '-' :: rest) = cutFrom false (readLine rest).2 := by
    have hsplit : rest = (readLine rest).1 ++ (readLine rest).2 :=
      List.takeWhile_append_dropWhile.symm
    rw [cutFrom_dashes, ← hafter]
    conv_lhs => rw [hsplit]
    exact hbody _ _ halike
  have hend : AtEnd (cutFrom false ('-' :: '-' :: rest)) := by
    rw [cutFrom_dashes]
    exact atEnd_cutFrom_comment rest
  have hend' := atEnd_stripLiterals hend n hn
  rw [hall] at hblock hn hend' ⊢
  exact Covers.gap ' ' (Or.inl rfl) hend' (hrest hblock n hn)

/-- One piece that both read alike, in front of a rest that they do. -/
theorem covers_piece (hreads : Reads text piece rest) (halike : isAlike piece = true)
    (hrest : RestCovers pieces rest) : RestCovers (piece :: pieces) text := by
  cases hreads with
  | char c rest hquote hdashes => exact covers_char hquote hdashes hrest
  | literal escapes body rest hhead hbody => exact covers_literal hhead hbody halike hrest
  | identifier body rest => exact covers_quoted (Or.inl rfl) rfl rfl halike hrest
  | dollar tag body rest =>
    have hsource : Piece.source (.dollar tag body) =
        '$' :: ((tag ++ '$' :: (body ++ '$' :: tag)) ++ ['$']) := by
      simp [Piece.source, delimiter]
    have htext : delimiter tag ++ body ++ delimiter tag ++ rest =
        '$' :: ((tag ++ '$' :: (body ++ '$' :: tag)) ++ '$' :: rest) := by
      simp [delimiter]
    rw [htext]
    exact covers_quoted (Or.inr rfl) rfl hsource halike hrest
  | comment rest => exact covers_comment halike hrest
  | block body rest after =>
    intro hblock
    rw [cutFrom_quote (by decide) (by decide), cutFrom_quote (by decide) (by decide)] at hblock
    unfold hasBlock at hblock
    rw [List.tails_cons, List.any_cons, Bool.or_eq_false_iff] at hblock
    exact absurd hblock.1 (by simp)

theorem covers_of_lexFrom {n : ℕ} (h : lexFrom rules n before text = some pieces)
    (halike : ∀ piece ∈ pieces, isAlike piece = true) : RestCovers pieces text := by
  induction n generalizing before text pieces with
  | zero =>
    cases text with
    | nil =>
      obtain rfl := Option.some.inj h
      intro _ m _
      cases m <;> exact Covers.nil
    | cons c text => cases h
  | succ n ih =>
    cases text with
    | nil =>
      obtain rfl := Option.some.inj h
      intro _ m _
      cases m <;> exact Covers.nil
    | cons c text =>
      rw [lexFrom] at h
      split at h
      · cases h
      · rename_i r hr
        obtain ⟨more, hmore, rfl⟩ := Option.map_eq_some_iff.mp h
        have hreads : Reads (c :: text) r.1 r.2 := reads_of_next hr
        apply covers_piece hreads (halike r.1 List.mem_cons_self)
        exact ih hmore fun piece hpiece => halike piece (List.mem_cons_of_mem _ hpiece)

/-- Where every part is read alike, what the check is left with covers the text outside quotes. -/
theorem covers_codeOf (h : lex rules text = some pieces)
    (halike : ∀ piece ∈ pieces, isAlike piece = true)
    (hblock : hasBlock (noComments text) = false) : Covers (outside pieces) (codeOf text) := by
  unfold codeOf
  rw [noComments_eq] at hblock ⊢
  exact covers_of_lexFrom h halike hblock _ le_rfl

end Simulation

end Decisya.Deploy.IdentitySql
