import Mathlib.Data.Nat.Notation
import Mathlib.Data.Rat.Init

/-!
# JSON documents as Python reads them

What `json.loads` builds, and the few operations on it that code reading a document it does
not trust uses: `none` is the exception that an operation on the wrong type raises.
-/

set_option autoImplicit false

inductive Json where
  | null
  | bool (b : Bool)
  | num (q : ℚ)
  | str (s : List Char)
  | arr (items : List Json)
  | obj (fields : List (List Char × Json))

namespace Json

def truthy : Json → Bool
  | null => false
  | bool b => b
  | num q => decide (q ≠ 0)
  | str s => !s.isEmpty
  | arr items => !items.isEmpty
  | obj fields => !fields.isEmpty

def lookup (fields : List (List Char × Json)) (key : List Char) : Option Json :=
  (fields.find? fun f => f.1 = key).map Prod.snd

/-- `x.get(key)`: of a dictionary only. -/
def get (x : Json) (key : String) : Option (Option Json) :=
  match x with
  | obj fields => some (lookup fields key.toList)
  | _ => none

/-- `x or d` -/
def orElse (x : Option Json) (d : Json) : Json :=
  match x with
  | some j => if j.truthy then j else d
  | none => d

/-- `x.get(key) or {}` -/
def getDict (x : Json) (key : String) : Option Json := (x.get key).map fun v => orElse v (obj [])

/-- What a `for` loop over the value sees. -/
def iterate : Json → Option (List Json)
  | arr items => some items
  | obj fields => some (fields.map fun f => str f.1)
  | str s => some (s.map fun c => str [c])
  | _ => none

/-- `for r in x.get(key) or []` -/
def getList (x : Json) (key : String) : Option (List Json) := do
  (orElse (← x.get key) (arr [])).iterate

def isStr (x : Json) (s : List Char) : Bool :=
  match x with
  | str t => t = s
  | _ => false

/-- Lists and dictionaries cannot be put in a set or looked up in one. -/
def hashable : Json → Bool
  | arr _ | obj _ => false
  | _ => true

def asStr : Json → Option (List Char)
  | str s => some s
  | _ => none

end Json
