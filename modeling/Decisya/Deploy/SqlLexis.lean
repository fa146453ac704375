import Mathlib

/-!
# A script as the server reads it

`psql` and PostgreSQL read a script once, from left to right. Outside quotes a text consists of
words and signs; a literal, a quoted identifier, a dollar-quoted string and a comment each reach
to their own end, whatever they hold.
-/

namespace Decisya.Deploy.SqlLexis

set_option autoImplicit false

abbrev Str := List Char

/-- What the characters before a quote or a dollar sign decide: whether the literal has escapes
and whether a dollar-quoted string may start. -/
structure Rules where
  escapes : Str → Bool
  opens : Str → Bool

/-! ## Pieces -/

inductive Piece where
  | char (c : Char)
  | literal (escapes : Bool) (body : Str)
  | identifier (body : Str)
  | dollar (tag body : Str)
  | comment (body : Str)
  | block (body : Str)
  deriving DecidableEq, Repr

def delimiter (tag : Str) : Str := '$' :: tag ++ ['$']

def Piece.source : Piece → Str
  | .char c => [c]
  | .literal _ body => '\'' :: body ++ ['\'']
  | .identifier body => '"' :: body ++ ['"']
  | .dollar tag body => delimiter tag ++ body ++ delimiter tag
  | .comment body => '-' :: '-' :: body
  | .block body => '/' :: '*' :: body

/-- The body of a literal and what follows its quote; a doubled quote is one of the body, and
so is what follows a backslash where the literal has escapes. -/
def readLiteral (escapes : Bool) : Str → Option (Str × Str)
  | [] => none
  | '\'' :: '\'' :: rest => (readLiteral escapes rest).map fun r => ('\'' :: '\'' :: r.1, r.2)
  | '\'' :: rest => some ([], rest)
  | '\\' :: c :: rest =>
    if escapes then (readLiteral escapes rest).map fun r => ('\\' :: c :: r.1, r.2)
    else (readLiteral escapes (c :: rest)).map fun r => ('\\' :: r.1, r.2)
  | c :: rest => (readLiteral escapes rest).map fun r => (c :: r.1, r.2)

def readIdentifier : Str → Option (Str × Str)
  | [] => none
  | '"' :: '"' :: rest => (readIdentifier rest).map fun r => ('"' :: '"' :: r.1, r.2)
  | '"' :: rest => some ([], rest)
  | c :: rest => (readIdentifier rest).map fun r => (c :: r.1, r.2)

def readUntil (close : Str) : Str → Option (Str × Str)
  | [] => none
  | c :: rest =>
    if close.isPrefixOf (c :: rest) then some ([], (c :: rest).drop close.length)
    else (readUntil close rest).map fun r => (c :: r.1, r.2)

def isLineEnd (c : Char) : Bool := c == '\n' || c == '\r'

def readLine (rest : Str) : Str × Str :=
  (rest.takeWhile fun c => !isLineEnd c, rest.dropWhile fun c => !isLineEnd c)

/-- Block comments nest; the body ends with the last `*/`. -/
def readBlock : ℕ → Str → Option (Str × Str)
  | _, [] => none
  | depth, '/' :: '*' :: rest =>
    (readBlock (depth + 1) rest).map fun r => ('/' :: '*' :: r.1, r.2)
  | 0, '*' :: '/' :: rest => some (['*', '/'], rest)
  | depth + 1, '*' :: '/' :: rest =>
    (readBlock depth rest).map fun r => ('*' :: '/' :: r.1, r.2)
  | depth, c :: rest => (readBlock depth rest).map fun r => (c :: r.1, r.2)

def isWordChar (c : Char) : Bool := c.isAlphanum || c == '_' || 128 ≤ c.toNat

/-- The tag in front of the second dollar sign. -/
def readTag (rest : Str) : Option Str :=
  let tag := rest.takeWhile isWordChar
  if (rest.drop tag.length).head? = some '$' ∧ tag.head?.any Char.isDigit = false then some tag
  else none

variable (rules : Rules)

/-- The first piece and what follows it. -/
def next (before : Str) : Str → Option (Piece × Str)
  | [] => none
  | c :: rest =>
    if c = '\'' then
      (readLiteral (rules.escapes before) rest).map fun r =>
        (.literal (rules.escapes before) r.1, r.2)
    else if c = '"' then (readIdentifier rest).map fun r => (.identifier r.1, r.2)
    else if c = '-' ∧ rest.head? = some '-' then
      some (.comment (readLine rest.tail).1, (readLine rest.tail).2)
    else if c = '/' ∧ rest.head? = some '*' then
      (readBlock 0 rest.tail).map fun r => (.block r.1, r.2)
    else if c = '$' ∧ rules.opens before = true ∧ (readTag rest).isSome = true then
      let tag := (readTag rest).getD []
      (readUntil (delimiter tag) (rest.drop (tag.length + 1))).map fun r => (.dollar tag r.1, r.2)
    else some (.char c, rest)

/-- The pieces of a text, if every quote and comment in it is closed. -/
def lexFrom : ℕ → Str → Str → Option (List Piece)
  | _, _, [] => some []
  | 0, _, _ :: _ => none
  | n + 1, before, c :: text =>
    match next rules before (c :: text) with
    | none => none
    | some r => (lexFrom n (before ++ r.1.source) r.2).map (r.1 :: ·)

def lex (text : Str) : Option (List Piece) := lexFrom rules text.length [] text

/-! ## Words and signs -/

/-- The word that ends right before a quote or a dollar sign. -/
def lastWord (before : Str) : Str :=
  (before.reverse.takeWhile fun c => isWordChar c || c == '$').reverse

/-- PostgreSQL: an `E` before its quote gives a literal escapes, and no dollar-quoted string
starts in a word. -/
def serverRules : Rules where
  escapes before := lastWord before == ['e'] || lastWord before == ['E']
  opens before := (lastWord before).isEmpty

/-- What is outside quotes and comments: a quoted piece leaves its quotes, a comment a blank. -/
def Piece.outside : Piece → Str
  | .char c => [c]
  | .literal _ _ => ['\'', '\'']
  | .identifier _ => ['\'', '\'']
  | .dollar _ _ => ['\'', '\'']
  | .comment _ => [' ']
  | .block _ => [' ']

def outside (pieces : List Piece) : Str := pieces.flatMap Piece.outside

def isSpace (c : Char) : Bool :=
  c == ' ' || c == '\n' || c == '\r' || c == '\t' || c == Char.ofNat 11 || c == Char.ofNat 12

def flush (word : Str) : List Str := if word = [] then [] else [word]

/-- A dollar sign goes on with a word that has begun. -/
def continues (word : Str) (c : Char) : Bool := isWordChar c || (c == '$' && !word.isEmpty)

/-- The tokens after a word that has begun. -/
def tokensFrom : Str → Str → List Str
  | word, [] => flush word
  | word, c :: rest =>
    if continues word c then tokensFrom (word ++ [c]) rest
    else if isSpace c then flush word ++ tokensFrom [] rest
    else flush word ++ [c] :: tokensFrom [] rest

def tokens (text : Str) : List Str := tokensFrom [] text

/-- The statements between semicolons that are not empty. -/
def statements (toks : List Str) : List (List Str) :=
  (toks.splitOnP (· == [';'])).filter (· ≠ [])

end Decisya.Deploy.SqlLexis
