import Mathlib.Data.Nat.Notation

/-!
# The versions of Go modules and their order

Three numbers, then the identifiers of a pre-release, which come before the release. A text that
is no version comes before every version. The build metadata does not count.
-/

namespace GoVersion

set_option autoImplicit false

abbrev Str := List Char

structure Version where
  major : ℕ
  minor : ℕ
  patch : ℕ
  prerelease : List Str
  deriving DecidableEq

def number (ds : Str) : ℕ := ds.foldl (fun n c => 10 * n + (c.toNat - 48)) 0

/-- Digits without a leading zero, and what follows them. -/
def parseInt (s : Str) : Option (ℕ × Str) :=
  let ds := s.takeWhile Char.isDigit
  if ds = [] ∨ ds.head? = some '0' ∧ ds.length ≠ 1 then none
  else some (number ds, s.dropWhile Char.isDigit)

def isIdentChar (c : Char) : Bool := c.isAlphanum || c == '-'

def isNum (ident : Str) : Bool := ident.all Char.isDigit

def isIdent (ident : Str) : Bool := !ident.isEmpty && ident.all isIdentChar

def isBadNum (ident : Str) : Bool := isNum ident && decide (1 < ident.length) && ident.head? == some '0'

/-- The identifiers after a hyphen. -/
def parsePrerelease : Str → Option (List Str)
  | [] => some []
  | '-' :: s =>
    let idents := s.splitOn '.'
    if idents.all fun i => isIdent i && !isBadNum i then some idents else none
  | _ => none

def isBuild : Str → Bool
  | [] => true
  | '+' :: s => (s.splitOn '.').all isIdent
  | _ => false

def parse : Str → Option Version
  | 'v' :: s => do
    let (major, s) ← parseInt s
    match s with
    | [] => some ⟨major, 0, 0, []⟩
    | '.' :: s => do
      let (minor, s) ← parseInt s
      match s with
      | [] => some ⟨major, minor, 0, []⟩
      | '.' :: s => do
        let (patch, s) ← parseInt s
        let prerelease ← parsePrerelease (s.takeWhile (· ≠ '+'))
        if isBuild (s.dropWhile (· ≠ '+')) then some ⟨major, minor, patch, prerelease⟩ else none
      | _ => none
    | _ => none
  | _ => none

/-- A numeric identifier comes before the others. -/
def compareIdent (a b : Str) : Ordering :=
  if isNum a = true ∧ isNum b = true then compare (number a) (number b)
  else if isNum a then .lt
  else if isNum b then .gt
  else compare a b

def compareIdents : List Str → List Str → Ordering
  | [], [] => .eq
  | [], _ :: _ => .lt
  | _ :: _, [] => .gt
  | a :: as, b :: bs => (compareIdent a b).then (compareIdents as bs)

/-- No pre-release comes after every pre-release. -/
def comparePrerelease : List Str → List Str → Ordering
  | [], [] => .eq
  | [], _ :: _ => .gt
  | _ :: _, [] => .lt
  | a :: as, b :: bs => compareIdents (a :: as) (b :: bs)

def Version.compare (a b : Version) : Ordering :=
  (Ord.compare a.major b.major).then ((Ord.compare a.minor b.minor).then
    ((Ord.compare a.patch b.patch).then (comparePrerelease a.prerelease b.prerelease)))

def compare (a b : Str) : Ordering :=
  match parse a, parse b with
  | none, none => .eq
  | none, some _ => .lt
  | some _, none => .gt
  | some a, some b => a.compare b

theorem compareIdent_self (a : Str) : compareIdent a a = .eq := by
  unfold compareIdent
  split
  · exact Nat.compare_eq_eq.mpr rfl
  · split
    · rename_i h hnum
      exact absurd ⟨hnum, hnum⟩ h
    · exact Std.ReflCmp.compare_self

theorem compareIdents_self (as : List Str) : compareIdents as as = .eq := by
  induction as with
  | nil => rfl
  | cons a as ih => rw [compareIdents, compareIdent_self, ih, Ordering.eq_then]

theorem Version.compare_self (a : Version) : a.compare a = .eq := by
  have hpre : comparePrerelease a.prerelease a.prerelease = .eq := by
    cases a.prerelease with
    | nil => rfl
    | cons i is => exact compareIdents_self (i :: is)
  unfold Version.compare
  rw [hpre, Nat.compare_eq_eq.mpr rfl, Nat.compare_eq_eq.mpr rfl, Nat.compare_eq_eq.mpr rfl]
  rfl

theorem compare_self (a : Str) : compare a a = .eq := by
  unfold compare
  cases parse a with
  | none => rfl
  | some v => exact v.compare_self

end GoVersion
