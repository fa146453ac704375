import Decisya.Text.Escapes
import Decisya.Text.Utf16

/-!
# The admin class of a path

A path under `/api/admin` is counted in the admin bucket. The check looks at the path as it came
and after each of up to three decodings, at its segments as they stand and with the dot segments
resolved.
-/

namespace Decisya.Bff.RouteClassifier

open Text

set_option autoImplicit false

def maxDecodePasses : ℕ := 3

def slash : UInt16 := 0x2F

def backslash : UInt16 := 0x5C

def dot : UInt16 := 0x2E

def percent : UInt16 := 0x25

/-- `StringComparison.OrdinalIgnoreCase` goes through upper case. Nothing but the ASCII letters
has an upper case in `api` or `admin`. -/
def upperUnit (c : UInt16) : UInt16 := if 0x61 ≤ c ∧ c ≤ 0x7A then c - 0x20 else c

def equalsIgnoreCase (a b : Utf16) : Bool := a.map upperUnit == b.map upperUnit

def toSlash (c : UInt16) : UInt16 := if c = backslash then slash else c

def pieces (value : Utf16) : List Utf16 :=
  ((value.map toSlash).splitOnP (· == slash)).filter (· ≠ [])

/-- The loop over the pieces; `segments` are those kept so far. -/
def addSegments (resolveDots : Bool) : List Utf16 → List Utf16 → List Utf16
  | segments, [] => segments
  | segments, raw :: rest =>
    let segment := trim isWhiteSpaceUnit raw
    if resolveDots && segment == [dot] then addSegments resolveDots segments rest
    else if resolveDots && segment == [dot, dot] then addSegments resolveDots segments.dropLast rest
    else addSegments resolveDots (segments ++ [segment]) rest

def startsAdmin : List Utf16 → Bool
  | a :: b :: _ => equalsIgnoreCase a (ascii "api") && equalsIgnoreCase b (ascii "admin")
  | _ => false

def hasAdminSegments (value : Utf16) (resolveDots : Bool) : Bool :=
  startsAdmin (addSegments resolveDots [] (pieces value))

section Loop

-- `Uri.UnescapeDataString`; `none` is the `UriFormatException`
variable (unescapeDataString : Utf16 → Option Utf16)

def decodePasses : ℕ → Utf16 → Bool
  | 0, _ => false
  | left + 1, value =>
    if hasAdminSegments value false || hasAdminSegments value true then true
    else
      match unescapeDataString value with
      | none => false
      | some decoded => if decoded = value then false else decodePasses left decoded

def isAdminPath (path : Option Utf16) : Bool :=
  match path with
  | none => false
  | some [] => false
  | some value => decodePasses unescapeDataString (maxDecodePasses + 1) value

end Loop

/-! ## Percent-encoding -/

/-- The ASCII character of two hexadecimal digits. -/
def asciiOf (high low : UInt16) : Option UInt16 := do
  let h ← hexValue high
  let l ← hexValue low
  if h.val < 8 then some (h.val * 16 + l.val).toUInt16 else none

/-- Every escape of an ASCII character is decoded in one pass, and the rest stays. -/
def unescapeAscii (value : Utf16) : Option Utf16 :=
  some (Escapes.unescape percent asciiOf value)

/-- Any characters written as escapes, in each of `rounds` rounds. -/
abbrev PercentEncoded (rounds : ℕ) (p q : Utf16) : Prop :=
  Escapes.EncodedIn percent asciiOf rounds p q

theorem asciiOf_digits (high low c : UInt16) (h : asciiOf high low = some c) :
    high ≠ percent ∧ low ≠ percent := by
  have hnone : hexValue percent = none := by decide
  obtain ⟨u, hhigh, h⟩ := Option.bind_eq_some_iff.mp h
  obtain ⟨v, hlow, -⟩ := Option.bind_eq_some_iff.mp h
  constructor
  · intro heq
    rw [heq, hnone] at hhigh
    cases hhigh
  · intro heq
    rw [heq, hnone] at hlow
    cases hlow

/-! ## Admin paths -/

def isSeparator (c : UInt16) : Bool := c == slash || c == backslash

def segments (p : Utf16) : List Utf16 :=
  ((p.splitOnP isSeparator).filter (· ≠ [])).map (trim isWhiteSpaceUnit)

/-- Where segments lead: `.` stays, `..` goes up, at the root to the root. -/
inductive Resolves : List Utf16 → List Utf16 → Prop where
  | root : Resolves [] []
  | stay {s path : List Utf16} (h : Resolves s path) : Resolves (s ++ [[dot]]) path
  | up {s path : List Utf16} (h : Resolves s path) : Resolves (s ++ [[dot, dot]]) path.dropLast
  | down {s path : List Utf16} (h : Resolves s path) {name : Utf16} (hdot : name ≠ [dot])
    (hdots : name ≠ [dot, dot]) : Resolves (s ++ [name]) (path ++ [name])

def StartsAdmin (path : List Utf16) : Prop :=
  ∃ a b rest, path = a :: b :: rest ∧ a.map upperUnit = ascii "API" ∧ b.map upperUnit = ascii "ADMIN"

structure IsAdmin (p : Utf16) : Prop where
  isAscii : p.all (· < 0x80) = true
  plain : percent ∉ p
  starts : StartsAdmin (segments p) ∨ ∃ path, Resolves (segments p) path ∧ StartsAdmin path

theorem startsAdmin_iff {path : List Utf16} : startsAdmin path = true ↔ StartsAdmin path := by
  have hapi : (ascii "api").map upperUnit = ascii "API" := by decide
  have hadmin : (ascii "admin").map upperUnit = ascii "ADMIN" := by decide
  constructor
  · intro h
    match path with
    | [] => cases h
    | [_] => cases h
    | a :: b :: rest =>
      rw [startsAdmin, Bool.and_eq_true, equalsIgnoreCase, equalsIgnoreCase, beq_iff_eq, beq_iff_eq,
        hapi, hadmin] at h
      exact ⟨a, b, rest, rfl, h⟩
  · rintro ⟨a, b, rest, rfl, h⟩
    rw [startsAdmin, Bool.and_eq_true, equalsIgnoreCase, equalsIgnoreCase, beq_iff_eq, beq_iff_eq,
      hapi, hadmin]
    exact h

theorem splitOnP_toSlash (p : Utf16) :
    (p.map toSlash).splitOnP (· == slash) = p.splitOnP isSeparator := by
  induction p with
  | nil => rfl
  | cons c p ih =>
    have hsep : (toSlash c == slash) = isSeparator c := by
      unfold toSlash isSeparator
      split
      · rename_i hback
        simp [hback]
      · rename_i hback
        simp [hback]
    rw [List.map_cons, List.splitOnP_cons_eq_if_modifyHead, List.splitOnP_cons_eq_if_modifyHead,
      hsep, ih]
    split
    · rfl
    · rename_i hnot
      have hkeep : toSlash c = c := by
        apply if_neg
        intro hback
        rw [hback] at hnot
        exact hnot rfl
      rw [hkeep]

theorem map_trim_pieces (p : Utf16) : (pieces p).map (trim isWhiteSpaceUnit) = segments p := by
  rw [pieces, splitOnP_toSlash, segments]

/-- Nothing is resolved: the segments as they are. -/
theorem addSegments_false (acc raws : List Utf16) :
    addSegments false acc raws = acc ++ raws.map (trim isWhiteSpaceUnit) := by
  induction raws generalizing acc with
  | nil => rw [addSegments, List.map_nil, List.append_nil]
  | cons raw raws ih =>
    rw [addSegments]
    simp only [Bool.false_and, Bool.false_eq_true, if_false]
    rw [ih, List.append_assoc, List.singleton_append, List.map_cons]

theorem addSegments_cons (acc : List Utf16) (raw : Utf16) (raws : List Utf16) :
    addSegments true acc (raw :: raws) =
      if trim isWhiteSpaceUnit raw = [dot] then addSegments true acc raws
      else if trim isWhiteSpaceUnit raw = [dot, dot] then addSegments true acc.dropLast raws
      else addSegments true (acc ++ [trim isWhiteSpaceUnit raw]) raws := by
  simp only [addSegments, Bool.true_and, beq_iff_eq]

theorem addSegments_concat (acc raws : List Utf16) (raw : Utf16) :
    addSegments true acc (raws ++ [raw]) = addSegments true (addSegments true acc raws) [raw] := by
  induction raws generalizing acc with
  | nil => rfl
  | cons first raws ih =>
    rw [List.cons_append, addSegments_cons, addSegments_cons acc first raws]
    split
    · exact ih acc
    · split
      · exact ih acc.dropLast
      · exact ih _

theorem Resolves.addSegments {s path raws : List Utf16} (h : Resolves s path)
    (hraws : raws.map (trim isWhiteSpaceUnit) = s) : addSegments true [] raws = path := by
  induction h generalizing raws with
  | root =>
    rw [List.map_eq_nil_iff.mp hraws]
    rfl
  | stay _ ih =>
    obtain ⟨init, last, rfl, hinit, hlast⟩ := List.map_eq_append_iff.mp hraws
    obtain ⟨raw, rfl, hraw⟩ := List.map_eq_singleton_iff.mp hlast
    rw [addSegments_concat, ih hinit, addSegments_cons, hraw]
    rfl
  | up _ ih =>
    obtain ⟨init, last, rfl, hinit, hlast⟩ := List.map_eq_append_iff.mp hraws
    obtain ⟨raw, rfl, hraw⟩ := List.map_eq_singleton_iff.mp hlast
    rw [addSegments_concat, ih hinit, addSegments_cons, hraw]
    rfl
  | down _ hdot hdots ih =>
    obtain ⟨init, last, rfl, hinit, hlast⟩ := List.map_eq_append_iff.mp hraws
    obtain ⟨raw, rfl, hraw⟩ := List.map_eq_singleton_iff.mp hlast
    rw [addSegments_concat, ih hinit, addSegments_cons, hraw]
    rw [if_neg hdot, if_neg hdots, RouteClassifier.addSegments]

/-- One look finds an admin path that is not encoded. -/
theorem IsAdmin.hasAdminSegments {p : Utf16} (h : IsAdmin p) :
    (hasAdminSegments p false || hasAdminSegments p true) = true := by
  rw [Bool.or_eq_true, RouteClassifier.hasAdminSegments, RouteClassifier.hasAdminSegments,
    startsAdmin_iff, startsAdmin_iff, addSegments_false, map_trim_pieces, List.nil_append]
  rcases h.starts with h | ⟨path, hpath, h⟩
  · exact Or.inl h
  · right
    rw [hpath.addSegments (map_trim_pieces p)]
    exact h

/-! ## The passes -/

/-- The text stays an encoding of the path, one round less deep after each pass, until it is the
path. -/
theorem decodePasses_reps {depth left : ℕ} {p q : Utf16} (hp : IsAdmin p)
    (h : Escapes.Reps percent asciiOf depth p q) (hleft : depth < left) :
    decodePasses unescapeAscii left q = true := by
  induction left generalizing depth q with
  | zero => omega
  | succ left ih =>
    rw [decodePasses]
    split
    · rfl
    · rename_i hlook
      have hne : q ≠ p := by
        intro heq
        rw [heq] at hlook
        exact hlook hp.hasAdminSegments
      have hdepth : depth ≠ 0 := by
        intro hzero
        rw [hzero] at h
        exact hne h.eq_of_zero
      obtain ⟨hreps, hcase, -⟩ := Escapes.unescape_reps asciiOf_digits hp.plain h
      have hlt := hcase.resolve_left hne
      have hchanged : Escapes.unescape percent asciiOf q ≠ q := by
        intro heq
        rw [heq] at hlt
        exact Nat.lt_irrefl _ hlt
      simp only [unescapeAscii]
      rw [if_neg hchanged]
      exact ih hreps (by omega)

theorem isAdminPath_percentEncoded {p q : Utf16} {rounds : ℕ} (hp : IsAdmin p)
    (hq : PercentEncoded rounds p q) (hrounds : rounds ≤ 3) :
    isAdminPath unescapeAscii (some q) = true := by
  have hpasses := decodePasses_reps hp hq.reps (Nat.lt_succ_of_le hrounds)
  match q with
  | [] => exact hpasses
  | c :: rest => exact hpasses

theorem isAdminPath_percentEncoded_twice :
    isAdminPath unescapeAscii (some (ascii "/%2541pi%5Cadmin")) = true := by
  have hp : IsAdmin (ascii "/Api\\admin") := by
    refine ⟨by decide, by decide, Or.inl ⟨ascii "Api", ascii "admin", [], ?_⟩⟩
    decide
  have hfirst : Escapes.Encodes percent asciiOf (ascii "/Api\\admin") (ascii "/%41pi\\admin") := by
    apply Escapes.Encodes.keep
    apply Escapes.Encodes.escape (by decide)
    exact Escapes.Encodes.refl _
  have hsecond : Escapes.Encodes percent asciiOf (ascii "/%41pi\\admin")
      (ascii "/%2541pi%5Cadmin") := by
    apply Escapes.Encodes.keep
    apply Escapes.Encodes.escape (by decide)
    iterate 4 apply Escapes.Encodes.keep
    apply Escapes.Encodes.escape (by decide)
    exact Escapes.Encodes.refl _
  exact isAdminPath_percentEncoded hp (.succ (.succ (.zero _) hfirst) hsecond) (by decide)

end Decisya.Bff.RouteClassifier
