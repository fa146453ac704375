import Decisya.Text.Split

/-!
# Strings of UTF-16 code units

A string is a list of 16-bit code units, lone surrogates included, and its length counts
code units. Only what a check reads of a code unit is defined here.
-/

namespace Text

set_option autoImplicit false

abbrev Utf16 := List UInt16

/-- The code units of a text of ASCII characters. -/
def ascii (s : String) : Utf16 := s.toList.map fun c => c.toNat.toUInt16

/-- `char.IsWhiteSpace`. -/
def isWhiteSpaceUnit (c : UInt16) : Bool :=
  (9 ≤ c && c ≤ 13) || c == 0x20 || c == 0x85 || c == 0xA0 || c == 0x1680 ||
    (0x2000 ≤ c && c ≤ 0x200A) || c == 0x2028 || c == 0x2029 || c == 0x202F || c == 0x205F ||
    c == 0x3000

/-- `char.IsControl`. -/
def isControlUnit (c : UInt16) : Bool := c ≤ 0x1F || (0x7F ≤ c && c ≤ 0x9F)

/-- `string.IsNullOrWhiteSpace` of a string that is there. -/
def isBlank (s : Utf16) : Bool := s.all isWhiteSpaceUnit

theorem not_isBlank_of_head {c : UInt16} {s : Utf16} (h : isWhiteSpaceUnit c = false) :
    isBlank (c :: s) = false := by
  simp [isBlank, h]

/-! ## Hexadecimal digits -/

def hexUnit (d : Fin 16) : UInt16 :=
  if d.val < 10 then (0x30 + d.val).toUInt16 else (0x57 + d.val).toUInt16

/-- The value of an ASCII hexadecimal digit of either case. -/
def hexValue (c : UInt16) : Option (Fin 16) :=
  if 0x30 ≤ c ∧ c ≤ 0x39 then some (Fin.ofNat 16 (c.toNat - 0x30))
  else if 0x61 ≤ c ∧ c ≤ 0x66 then some (Fin.ofNat 16 (c.toNat - 0x57))
  else if 0x41 ≤ c ∧ c ≤ 0x46 then some (Fin.ofNat 16 (c.toNat - 0x37))
  else none

def isHexUnit (c : UInt16) : Bool := (hexValue c).isSome

@[simp] theorem hexValue_hexUnit (d : Fin 16) : hexValue (hexUnit d) = some d := by
  revert d
  decide

theorem isHexUnit_hexUnit (d : Fin 16) : isHexUnit (hexUnit d) = true := by
  simp [isHexUnit]

theorem hexUnit_bounds (d : Fin 16) : 0x30 ≤ hexUnit d ∧ hexUnit d ≤ 0x66 := by
  revert d
  decide

/-! ## Code points -/

def isHighSurrogate (c : UInt16) : Bool := 0xD800 ≤ c && c ≤ 0xDBFF

def isLowSurrogate (c : UInt16) : Bool := 0xDC00 ≤ c && c ≤ 0xDFFF

/-- The code points of a string; none where a surrogate stands alone. -/
def codePoints : Utf16 → Option (List ℕ)
  | [] => some []
  | [c] => if isHighSurrogate c || isLowSurrogate c then none else some [c.toNat]
  | c :: d :: rest =>
    if isHighSurrogate c then
      if isLowSurrogate d then
        (codePoints rest).map fun points =>
          (0x10000 + (c.toNat - 0xD800) * 0x400 + (d.toNat - 0xDC00)) :: points
      else none
    else if isLowSurrogate c then none
    else (codePoints (d :: rest)).map fun points => c.toNat :: points

theorem length_codePoints_le {s : Utf16} {points : List ℕ} (h : codePoints s = some points) :
    points.length ≤ s.length := by
  induction s using codePoints.induct generalizing points with
  | case1 =>
    cases h
    exact Nat.le_refl 0
  | case2 c hsurrogate =>
    rw [codePoints, if_pos hsurrogate] at h
    cases h
  | case3 c hsurrogate =>
    rw [codePoints, if_neg hsurrogate] at h
    cases h
    exact Nat.le_refl 1
  | case4 c d rest hhigh hlow ih =>
    rw [codePoints, if_pos hhigh, if_pos hlow] at h
    obtain ⟨tail, htail, rfl⟩ := Option.map_eq_some_iff.mp h
    have hle := ih htail
    simp only [List.length_cons]
    omega
  | case5 c d rest hhigh hlow =>
    rw [codePoints, if_pos hhigh, if_neg hlow] at h
    cases h
  | case6 c d rest hhigh hlow =>
    rw [codePoints, if_neg hhigh, if_pos hlow] at h
    cases h
  | case7 c d rest hhigh hlow ih =>
    rw [codePoints, if_neg hhigh, if_neg hlow] at h
    obtain ⟨tail, htail, rfl⟩ := Option.map_eq_some_iff.mp h
    have hle := ih htail
    simp only [List.length_cons] at hle ⊢
    omega

/-- A pair of surrogates is never U+0000. -/
theorem zero_mem_codePoints {s : Utf16} {points : List ℕ} (h : codePoints s = some points) :
    0 ∈ points ↔ 0 ∈ s := by
  induction s using codePoints.induct generalizing points with
  | case1 =>
    cases h
    simp
  | case2 c hsurrogate =>
    rw [codePoints, if_pos hsurrogate] at h
    cases h
  | case3 c hsurrogate =>
    rw [codePoints, if_neg hsurrogate] at h
    cases h
    simp only [List.mem_singleton, ← UInt16.toNat_inj]
    rfl
  | case4 c d rest hhigh hlow ih =>
    rw [codePoints, if_pos hhigh, if_pos hlow] at h
    obtain ⟨tail, htail, rfl⟩ := Option.map_eq_some_iff.mp h
    have hc : (0 : UInt16) ≠ c := by
      rintro rfl
      exact absurd hhigh (by decide)
    have hd : (0 : UInt16) ≠ d := by
      rintro rfl
      exact absurd hlow (by decide)
    rw [List.mem_cons, List.mem_cons, List.mem_cons, ih htail, or_iff_right hc, or_iff_right hd]
    apply or_iff_right
    omega
  | case5 c d rest hhigh hlow =>
    rw [codePoints, if_pos hhigh, if_neg hlow] at h
    cases h
  | case6 c d rest hhigh hlow =>
    rw [codePoints, if_neg hhigh, if_pos hlow] at h
    cases h
  | case7 c d rest hhigh hlow ih =>
    rw [codePoints, if_neg hhigh, if_neg hlow] at h
    obtain ⟨tail, htail, rfl⟩ := Option.map_eq_some_iff.mp h
    rw [List.mem_cons, ih htail, List.mem_cons (b := c), ← UInt16.toNat_inj]
    rfl

/-- Units below the surrogates are code points of their own. -/
theorem codePoints_eq {s : Utf16} (h : ∀ c ∈ s, c < 0xD800) :
    codePoints s = some (s.map UInt16.toNat) := by
  have hplain : ∀ c : UInt16, c < 0xD800 → isHighSurrogate c = false ∧ isLowSurrogate c = false := by
    intro c hc
    have hlt : c.toNat < 0xD800 := hc
    have hhigh : ¬ 0xD800 ≤ c := by
      intro hge
      have hge' : 0xD800 ≤ c.toNat := hge
      omega
    have hlow : ¬ 0xDC00 ≤ c := by
      intro hge
      have hge' : 0xDC00 ≤ c.toNat := hge
      omega
    unfold isHighSurrogate isLowSurrogate
    rw [decide_eq_false hhigh, decide_eq_false hlow]
    exact ⟨rfl, rfl⟩
  induction s with
  | nil => rfl
  | cons c s ih =>
    obtain ⟨hhigh, hlow⟩ := hplain c (h c List.mem_cons_self)
    have hrest := ih fun d hd => h d (List.mem_cons_of_mem c hd)
    cases s with
    | nil =>
      rw [codePoints, hhigh, hlow]
      rfl
    | cons d rest =>
      rw [codePoints, hhigh, hlow, if_neg Bool.false_ne_true, if_neg Bool.false_ne_true, hrest]
      rfl

end Text
