import Decisya.Logging.Shapes

/-!
# Masking token-shaped text

`MaskString` of the masking core: a window of the value is searched for JWT shapes, what is
left of it for bearer shapes, and the result is cut at the limit. The code is written for
characters that carry anything beside their code unit, so that it can be run on characters
that know where in the value they stand.
-/

namespace Decisya.Logging

open Text Text.Scan Text.Pattern

set_option autoImplicit false

def truncationMarker : Utf16 := 0x2026 :: ascii "[truncated]"

def maskStringMatchMargin : Int32 := 4096

def maxStringLength : Int32 := 8192

def maxExceptionTextLength : Int32 := 32768

/-! ## `MaskString` -/

section Code
variable {α L : Type} (unit : α → UInt16) (constant : UInt16 → α)

/-- `Regex.Replace` with the mask, and whether there was anything to replace. Without a match
it returns the text itself. -/
def replaceShape (parts : Utf16 → Option (List L)) (text : List α) : List α × Bool :=
  let marks := scan parts [] (text.map unit)
  (substitute (mask.map constant) marks text, marks.any Mark.inMatch)

/-- The text and whether it changed, where neither slice is out of range. -/
def maskOver (value : List α) (limit : Int32) : Option (List α × Bool) :=
  let matchWindow := (limit + maskStringMatchMargin).toInt
  let truncatedForMatching := decide (matchWindow < value.length)
  -- a negative end of a range throws
  if truncatedForMatching && decide (matchWindow < 0) then none
  else
    let window := if truncatedForMatching then value.take matchWindow.toNat else value
    let jwt := replaceShape unit constant jwtAt window
    let bearer := replaceShape unit constant bearerAt jwt.1
    if limit.toInt < bearer.1.length then
      if limit.toInt < 0 then none
      else some (bearer.1.take limit.toInt.toNat ++ truncationMarker.map constant, true)
    else some (bearer.1, truncatedForMatching || jwt.2 || bearer.2)

end Code

/-- A text after both replacements. -/
def maskShapes {α : Type} (unit : α → UInt16) (constant : UInt16 → α) (text : List α) : List α :=
  (replaceShape unit constant bearerAt (replaceShape unit constant jwtAt text).1).1

def maskString (value : Utf16) (limit : Int32) : Option (Utf16 × Bool) :=
  maskOver id id value limit

/-! ## Where the characters come from -/

/-- A code unit, and where in the value it was unless it is of the mask or the marker. -/
abbrev Cell := UInt16 × Option ℕ

def cells (value : Utf16) : List Cell := value.zipIdx.map fun p => (p.1, some p.2)

def traced (value : Utf16) (limit : Int32) : Option (List Cell × Bool) :=
  maskOver Prod.fst (fun u => (u, none)) (cells value) limit

def positions (output : List Cell) : List ℕ := output.filterMap Prod.snd

/-- In a match of the JWT shape, or in the token of one of the bearer shape. -/
def secret (value : Utf16) (i : ℕ) : Bool :=
  (scan jwtAt [] value)[i]?.any Mark.inMatch ||
    (scan bearerAt [] value)[i]?.any (Overlap.tight isLoose)

/-- In the word and the white space before a token. -/
def bearerWord (value : Utf16) (i : ℕ) : Bool :=
  (scan bearerAt [] value)[i]?.any fun mark => mark.inMatch && !Overlap.tight isLoose mark

/-- Only what is not secret is left, in its order; where more than that and the word `bearer`
is missing the marker says so; and a change is reported if there is one. -/
def LeaksNothing (value : Utf16) (limit : Int32) : Prop :=
  ∀ output changed, traced value limit = some (output, changed) →
    ((positions output).Pairwise (· < ·) ∧
      ∀ u i, (u, some i) ∈ output → value[i]? = some u ∧ secret value i = false) ∧
    ((∃ i < value.length, secret value i = false ∧ bearerWord value i = false ∧
      i ∉ positions output) → truncationMarker <:+ output.map Prod.fst) ∧
    (changed = true ↔ output.map Prod.fst ≠ value)

/-! ## A run of the code -/

theorem matchWindow_toInt {limit : Int32} (hlimit : 0 ≤ limit.toInt)
    (hwindow : 0 ≤ (limit + maskStringMatchMargin).toInt) :
    (limit + maskStringMatchMargin).toInt = limit.toInt + 4096 := by
  have hmargin : maskStringMatchMargin.toInt = 4096 := by decide
  have hlt := Int32.toInt_lt limit
  rw [Int32.toInt_add, hmargin, Int.bmod_def] at hwindow ⊢
  omega

section Run
variable {α β : Type} {unit : α → UInt16} {constant : UInt16 → α} {value : List α} {limit : Int32}

/-- The window, and what both replacements leave of it. -/
theorem maskOver_eq_some {output : List α} {changed : Bool}
    (h : maskOver unit constant value limit = some (output, changed)) :
    ∃ kept : ℕ, limit.toInt = kept ∧
      output = (if kept < (maskShapes unit constant (value.take (kept + 4096))).length then
        (maskShapes unit constant (value.take (kept + 4096))).take kept ++
          truncationMarker.map constant
        else maskShapes unit constant (value.take (kept + 4096))) ∧
      changed = (decide (kept + 4096 < value.length) ||
        decide (kept < (maskShapes unit constant (value.take (kept + 4096))).length) ||
        (replaceShape unit constant jwtAt (value.take (kept + 4096))).2 ||
        (replaceShape unit constant bearerAt
          (replaceShape unit constant jwtAt (value.take (kept + 4096))).1).2) := by
  unfold maskOver at h
  dsimp only at h
  split at h
  · cases h
  · rename_i hthrow
    rw [Bool.and_eq_true, decide_eq_true_eq, decide_eq_true_eq] at hthrow
    have hwindow : 0 ≤ (limit + maskStringMatchMargin).toInt := by
      by_contra hneg
      exact hthrow ⟨by omega, by omega⟩
    have hlimit : 0 ≤ limit.toInt := by
      by_contra hneg
      rw [if_pos (by omega), if_pos (by omega)] at h
      cases h
    have hsum := matchWindow_toInt hlimit hwindow
    obtain ⟨kept, hkept⟩ := Int.eq_ofNat_of_zero_le hlimit
    rw [hkept] at hsum
    have htext : (if decide ((limit + maskStringMatchMargin).toInt < value.length) = true then
        value.take (limit + maskStringMatchMargin).toInt.toNat else value)
          = value.take (kept + 4096) := by
      rw [hsum]
      split
      · congr 1
      · rename_i hle
        rw [decide_eq_true_eq] at hle
        exact (List.take_of_length_le (by omega)).symm
    have htruncated : decide ((limit + maskStringMatchMargin).toInt < value.length)
        = decide (kept + 4096 < value.length) := by
      rw [hsum, decide_eq_decide]
      omega
    rw [htext, hkept, htruncated] at h
    refine ⟨kept, hkept, ?_⟩
    change (if (kept : ℤ) < ((maskShapes unit constant (value.take (kept + 4096))).length : ℤ) then _
      else _) = _ at h
    by_cases hcut : kept < (maskShapes unit constant (value.take (kept + 4096))).length
    · rw [if_pos (by omega), if_neg (by omega)] at h
      cases h
      rw [if_pos hcut, decide_eq_true hcut, Bool.or_true, Bool.true_or, Bool.true_or]
      exact ⟨rfl, rfl⟩
    · rw [if_neg (by omega)] at h
      cases h
      rw [if_neg hcut, decide_eq_false hcut, Bool.or_false]
      exact ⟨rfl, rfl⟩

section Map
variable {unit' : β → UInt16} {constant' : UInt16 → β} (f : α → β)
variable (hunit : ∀ x, unit' (f x) = unit x) (hconstant : ∀ u, f (constant u) = constant' u)
include hunit hconstant

/-- A replacement reads code units only. -/
theorem replaceShape_map {L : Type} (parts : Utf16 → Option (List L)) (text : List α) :
    replaceShape unit' constant' parts (text.map f) =
      ((replaceShape unit constant parts text).1.map f, (replaceShape unit constant parts text).2) := by
  have hmap : (text.map f).map unit' = text.map unit := by
    rw [List.map_map]
    exact List.map_congr_left fun x _ => hunit x
  have hmask : (mask.map constant).map f = mask.map constant' := by
    rw [List.map_map]
    exact List.map_congr_left fun u _ => hconstant u
  unfold replaceShape
  dsimp only
  rw [map_substitute, hmask, hmap]

theorem maskShapes_map (text : List α) :
    maskShapes unit' constant' (text.map f) = (maskShapes unit constant text).map f := by
  unfold maskShapes
  rw [replaceShape_map f hunit hconstant, replaceShape_map f hunit hconstant]

theorem maskOver_map :
    maskOver unit' constant' (value.map f) limit =
      (maskOver unit constant value limit).map fun r => (r.1.map f, r.2) := by
  have hmarker : (truncationMarker.map constant).map f = truncationMarker.map constant' := by
    rw [List.map_map]
    exact List.map_congr_left fun u _ => hconstant u
  have hwindow : ∀ (b : Bool) (n : ℕ), (if b = true then (value.map f).take n else value.map f)
      = (if b = true then value.take n else value).map f := by
    intro b n
    split
    · rw [List.map_take]
    · rfl
  unfold maskOver
  dsimp only
  rw [hwindow, replaceShape_map f hunit hconstant, replaceShape_map f hunit hconstant]
  dsimp only
  simp only [List.length_map, apply_ite (Option.map fun r : List α × Bool => (r.1.map f, r.2)),
    Option.map_none, Option.map_some, List.map_append, List.map_take, hmarker]

end Map

theorem maskShapes_eq_assemble (unit : α → UInt16) (constant : UInt16 → α) (text : List α)
    (hunit : ∀ u, unit (constant u) = u) :
    maskShapes unit constant text = Overlap.assemble (mask.map constant)
      (Overlap.fates jwtAt bearerAt [] [] (text.map unit)) text := by
  apply Overlap.substitute_twice windowed_jwtAt windowed_bearerAt
  · exact mask_map_ne_nil constant
  · intro m hm
    obtain ⟨u, hu, rfl⟩ := List.mem_map.mp hm
    rw [hunit]
    exact bearerAt_stop hu
  · exact fun h => absurd rfl h
  · exact Nat.zero_le _

end Run

theorem map_fst_cells (value : Utf16) : (cells value).map Prod.fst = value := by
  unfold cells
  rw [List.map_map]
  exact List.zipIdx_map_fst 0 value

theorem map_fst_maskShapes (text : List Cell) :
    (maskShapes Prod.fst (fun u => ((u, none) : Cell)) text).map Prod.fst =
      maskShapes id id (text.map Prod.fst) := by
  symm
  apply maskShapes_map Prod.fst
  · exact fun _ => rfl
  · exact fun _ => rfl

/-- The characters that know where they stand are those of the output. -/
theorem maskString_of_traced {value : Utf16} {limit : Int32} {output : List Cell} {changed : Bool}
    (h : traced value limit = some (output, changed)) :
    maskString value limit = some (output.map Prod.fst, changed) := by
  have hmap : maskOver id id ((cells value).map Prod.fst) limit
      = (traced value limit).map fun r => (r.1.map Prod.fst, r.2) :=
    maskOver_map Prod.fst (fun _ => rfl) fun _ => rfl
  rw [map_fst_cells] at hmap
  rw [maskString, hmap, h, Option.map_some]

end Decisya.Logging
