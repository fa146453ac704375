import Decisya.Text.Python

/-!
# Lower case of any text

`str.lower` outside ASCII is a table of Unicode's, which is a parameter here: what is used of
it is that it gives no ASCII character. The two characters that do give one are written out.
-/

namespace Python

set_option autoImplicit false

/-- What a character outside ASCII becomes, which may depend on the text around it. -/
structure CaseTable where
  other : Str → Char → Str → Str
  other_ne_nil : ∀ before c after, other before c after ≠ []
  not_ascii : ∀ before c after, ∀ d ∈ other before c after, 128 ≤ d.toNat

/-- The combining dot that the lower case of U+0130 ends in. -/
def dotAbove : Char := Char.ofNat 0x307

namespace CaseTable

/-- The table that leaves everything outside ASCII as it is. -/
def identity : CaseTable where
  other _ c _ := [if c.toNat < 128 then dotAbove else c]
  other_ne_nil _ _ _ := List.cons_ne_nil _ _
  not_ascii := by
    intro _ c _ d hd
    rw [List.mem_singleton.mp hd]
    split
    · decide
    · omega

instance : Inhabited CaseTable := ⟨identity⟩

variable (table : CaseTable)

def lowerChar (before : Str) (c : Char) (after : Str) : Str :=
  if c.toNat < 128 then [c.toLower]
  else if c.toNat = 0x212a then ['k']
  else if c.toNat = 0x130 then ['i', dotAbove]
  else table.other before c after

def lowerFrom (before : Str) : Str → Str
  | [] => []
  | c :: after => table.lowerChar before c after ++ lowerFrom (before ++ [c]) after

/-- `s.lower()` -/
def lower (s : Str) : Str := table.lowerFrom [] s

end CaseTable

/-! ## Characters with one lower case everywhere -/

/-- The lower case is this ASCII character alone, whatever is around. -/
def LowersTo (c d : Char) : Prop := (c.toNat < 128 ∧ c.toLower = d) ∨ (c.toNat = 0x212a ∧ d = 'k')

/-- Neither upper case nor outside ASCII. -/
def isLowerAscii (c : Char) : Bool := decide (c.toNat < 128) && c.toLower == c

theorem lowersTo_self {c : Char} (h : isLowerAscii c = true) : LowersTo c c := by
  unfold isLowerAscii at h
  rw [Bool.and_eq_true, decide_eq_true_iff, beq_iff_eq] at h
  exact Or.inl h

theorem forall_lowersTo_self {s : Str} (h : s.all isLowerAscii = true) :
    List.Forall₂ LowersTo s s := by
  induction s with
  | nil => exact List.Forall₂.nil
  | cons c s ih =>
    rw [List.all_cons, Bool.and_eq_true] at h
    exact List.Forall₂.cons (lowersTo_self h.1) (ih h.2)

/-- Only letters come from another character. -/
theorem eq_of_lowersTo {c d : Char} (h : LowersTo c d) (hd : d.isLower = false) : c = d := by
  rcases h with ⟨-, rfl⟩ | ⟨-, rfl⟩
  · by_cases hupper : c.isUpper = true
    · rw [Char.isLower_toLower_eq_isAlpha, Char.isAlpha, hupper, Bool.true_or] at hd
      cases hd
    · exact (Char.toLower_eq_of_not_isUpper hupper).symm
  · exact absurd hd (by decide)

section Lower
variable {table : CaseTable} {before after rest q pattern : Str} {c d : Char}

theorem lowerChar_of_lowersTo (h : LowersTo c d) : table.lowerChar before c after = [d] := by
  unfold CaseTable.lowerChar
  rcases h with ⟨hascii, hlower⟩ | ⟨hkelvin, rfl⟩
  · rw [if_pos hascii, hlower]
  · rw [if_neg (by omega), if_pos hkelvin]

theorem lowerChar_ne_nil : table.lowerChar before c after ≠ [] := by
  unfold CaseTable.lowerChar
  split
  · exact List.cons_ne_nil _ _
  · split
    · exact List.cons_ne_nil _ _
    · split
      · exact List.cons_ne_nil _ _
      · exact table.other_ne_nil before c after

theorem lowerFrom_append (h : List.Forall₂ LowersTo q pattern) :
    table.lowerFrom before (q ++ rest) = pattern ++ table.lowerFrom (before ++ q) rest := by
  induction h generalizing before with
  | nil => rw [List.append_nil]; rfl
  | cons hc _ ih =>
    rw [List.cons_append, CaseTable.lowerFrom, lowerChar_of_lowersTo hc, ih, List.append_assoc]
    rfl

theorem lower_append (h : List.Forall₂ LowersTo q pattern) :
    pattern <+: table.lower (q ++ rest) := by
  unfold CaseTable.lower
  rw [lowerFrom_append h]
  exact List.prefix_append _ _

theorem lower_eq (h : List.Forall₂ LowersTo q pattern) : table.lower q = pattern := by
  have happend := @lowerFrom_append table [] [] q pattern h
  rw [List.append_nil] at happend
  unfold CaseTable.lower
  rw [happend]
  exact List.append_nil pattern

/-- Where a lower case starts with an ASCII character, the text has a character for it alone,
unless it is the `i` of U+0130. -/
theorem lowersTo_of_lowerChar {tail : Str} (hd : d.toNat < 128)
    (h : table.lowerChar before c after = d :: tail) :
    (LowersTo c d ∧ tail = []) ∨ (d = 'i' ∧ tail = [dotAbove]) := by
  unfold CaseTable.lowerChar at h
  split at h
  · rename_i hascii
    injection h with hlower htail
    exact Or.inl ⟨Or.inl ⟨hascii, hlower⟩, htail.symm⟩
  · split at h
    · rename_i hkelvin
      injection h with hlower htail
      exact Or.inl ⟨Or.inr ⟨hkelvin, hlower.symm⟩, htail.symm⟩
    · split at h
      · injection h with hlower htail
        exact Or.inr ⟨hlower.symm, htail.symm⟩
      · have hmem : d ∈ table.other before c after := by
          rw [h]
          exact List.mem_cons_self
        have hge := table.not_ascii before c after d hmem
        omega

/-- A text whose lower case starts with an ASCII word starts with that word in some case. -/
theorem exists_of_prefix_lowerFrom {s : Str} (hascii : ∀ d ∈ pattern, d.toNat < 128)
    (hlast : pattern.getLast? ≠ some 'i') (h : pattern <+: table.lowerFrom before s) :
    ∃ q rest, s = q ++ rest ∧ List.Forall₂ LowersTo q pattern := by
  induction pattern generalizing before s with
  | nil => exact ⟨[], s, rfl, List.Forall₂.nil⟩
  | cons d pattern ih =>
    cases s with
    | nil =>
      obtain ⟨tail, htail⟩ := h
      cases htail
    | cons c after =>
      obtain ⟨tail, htail⟩ := h
      rw [CaseTable.lowerFrom] at htail
      obtain ⟨e, lowered, hlowered⟩ := List.exists_cons_of_ne_nil
        (@lowerChar_ne_nil table before after c)
      rw [hlowered, List.cons_append, List.cons_append] at htail
      injection htail with hhead hrest
      subst hhead
      rcases lowersTo_of_lowerChar (hascii d List.mem_cons_self) hlowered with
        ⟨hc, rfl⟩ | ⟨rfl, rfl⟩
      · have hlast' : pattern.getLast? ≠ some 'i' := by
          cases pattern with
          | nil => simp
          | cons e pattern => rwa [List.getLast?_cons_cons] at hlast
        obtain ⟨q, rest, hs, hq⟩ := ih (fun e he => hascii e (List.mem_cons_of_mem _ he)) hlast'
          ⟨tail, hrest⟩
        exact ⟨c :: q, rest, by rw [hs]; rfl, List.Forall₂.cons hc hq⟩
      · cases pattern with
        | nil => exact absurd rfl hlast
        | cons e pattern =>
          rw [List.cons_append, List.cons_append] at hrest
          injection hrest with hdot
          have hsmall := hascii e (by simp)
          rw [hdot] at hsmall
          exact absurd hsmall (by decide)

theorem exists_of_prefix_lower {s : Str} (hascii : ∀ d ∈ pattern, d.toNat < 128)
    (hlast : pattern.getLast? ≠ some 'i') (h : pattern <+: table.lower s) :
    ∃ q rest, s = q ++ rest ∧ List.Forall₂ LowersTo q pattern :=
  exists_of_prefix_lowerFrom hascii hlast h

theorem lowersTo_of_lowerFrom_eq {s : Str} (hascii : ∀ d ∈ pattern, d.toNat < 128)
    (h : table.lowerFrom before s = pattern) : List.Forall₂ LowersTo s pattern := by
  induction s generalizing before pattern with
  | nil =>
    obtain rfl : pattern = [] := h.symm
    exact List.Forall₂.nil
  | cons c after ih =>
    rw [CaseTable.lowerFrom] at h
    obtain ⟨d, lowered, hlowered⟩ := List.exists_cons_of_ne_nil
      (@lowerChar_ne_nil table before after c)
    rw [hlowered, List.cons_append] at h
    subst h
    rcases lowersTo_of_lowerChar (hascii d List.mem_cons_self) hlowered with ⟨hc, rfl⟩ | ⟨-, rfl⟩
    · exact List.Forall₂.cons hc (ih (fun e he => hascii e (List.mem_cons_of_mem _ he)) rfl)
    · exact absurd (hascii dotAbove (by simp)) (by decide)

/-- A text whose lower case is an ASCII word is that word in some case. -/
theorem lowersTo_of_lower_eq {s : Str} (hascii : ∀ d ∈ pattern, d.toNat < 128)
    (h : table.lower s = pattern) : List.Forall₂ LowersTo s pattern :=
  lowersTo_of_lowerFrom_eq hascii h

end Lower
end Python
