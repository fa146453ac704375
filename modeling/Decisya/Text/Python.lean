import Mathlib.Data.Nat.Notation
import Decisya.Text.Split

/-!
# Strings as Python's `str` methods see them
-/

namespace Python

set_option autoImplicit false

abbrev Str := List Char

instance decidableMem (s : Str) (l : List Str) : Decidable (s ∈ l) :=
  decidable_of_iff (l.any (fun t => t == s) = true) (by simp)

/-- `str.isspace` of one character, which is also what `\s` matches. -/
def isSpace (c : Char) : Bool :=
  let n := c.toNat
  (9 ≤ n && n ≤ 13) || (28 ≤ n && n ≤ 32) || n == 0x85 || n == 0xa0 || n == 0x1680 ||
    (0x2000 ≤ n && n ≤ 0x200a) || n == 0x2028 || n == 0x2029 || n == 0x202f || n == 0x205f ||
    n == 0x3000

def strip (s : Str) : Str := Text.trim isSpace s

/-- `str.lower` as far as ASCII words are concerned: the Kelvin sign is the one other
character whose lower case is a single ASCII letter. -/
def lower (s : Str) : Str := s.map fun c => if c.toNat = 0x212a then 'k' else c.toLower

def capitalize : Str → Str
  | [] => []
  | c :: rest => c.toUpper :: lower rest

/-- `sep.join(parts)` -/
def join (sep : Str) (parts : List Str) : Str := sep.intercalate parts

def startsWith (s start : Str) : Bool := start.isPrefixOf s

end Python
