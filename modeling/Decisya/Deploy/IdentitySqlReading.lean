import Decisya.Deploy.IdentitySqlLexing

/-!
# What an accepted script does

The check compares a few words and looks for others in what it is left with. Where that covers
what the server reads outside quotes, these are words of the server too, and the script is one
query in a transaction that reads only.
-/

namespace Decisya.Deploy.IdentitySql

set_option autoImplicit false

open SqlLexis (Str Rules Piece lex outside tokens tokensFrom flush statements isWordChar continues)
open Decisya.KeyRing (foldCase)

/-! ## Tokens -/

section Tokens
variable {c : Char} {o s word t : Str} {ts : List Str}

theorem tokensFrom_continue (h : continues word c = true) :
    tokensFrom word (c :: o) = tokensFrom (word ++ [c]) o := by
  rw [tokensFrom, if_pos h]

theorem tokensFrom_space (h : continues word c = false) (hspace : SqlLexis.isSpace c = true) :
    tokensFrom word (c :: o) = flush word ++ tokens o := by
  rw [tokensFrom, if_neg (by rw [h]; exact Bool.false_ne_true), if_pos hspace]
  rfl

theorem tokensFrom_sign (h : continues word c = false) (hspace : SqlLexis.isSpace c = false) :
    tokensFrom word (c :: o) = flush word ++ [c] :: tokens o := by
  rw [tokensFrom, if_neg (by rw [h]; exact Bool.false_ne_true),
    if_neg (by rw [hspace]; exact Bool.false_ne_true)]
  rfl

/-- A word ends where a character does not go on with it. -/
theorem tokensFrom_stop (h : continues word c = false) (hc : continues [] c = false) :
    tokensFrom word (c :: o) = flush word ++ tokens (c :: o) := by
  unfold tokens
  cases hspace : SqlLexis.isSpace c with
  | true => rw [tokensFrom_space h hspace, tokensFrom_space hc hspace]; rfl
  | false => rw [tokensFrom_sign h hspace, tokensFrom_sign hc hspace]; rfl

theorem flush_ne_nil (h : word ≠ []) : flush word = [word] := if_neg h

/-- The first token goes on with the word that has begun. -/
theorem prefix_of_tokensFrom (hword : word ≠ []) (h : tokensFrom word o = t :: ts) :
    word <+: t := by
  induction o generalizing word with
  | nil =>
    rw [tokensFrom, flush_ne_nil hword] at h
    rw [(List.cons.inj h).1]
  | cons c o ih =>
    cases hc : continues word c with
    | true =>
      rw [tokensFrom_continue hc] at h
      exact (List.prefix_append word [c]).trans (ih (by simp) h)
    | false =>
      cases hspace : SqlLexis.isSpace c with
      | true =>
        rw [tokensFrom_space hc hspace, flush_ne_nil hword] at h
        rw [(List.cons.inj h).1]
      | false =>
        rw [tokensFrom_sign hc hspace, flush_ne_nil hword] at h
        rw [(List.cons.inj h).1]

theorem mem_of_mem_tokensFrom (h : t ∈ tokensFrom word o) (hc : c ∈ t) : c ∈ word ∨ c ∈ o := by
  have hflush : ∀ w : Str, t ∈ flush w → t = w := by
    intro w hw
    unfold flush at hw
    split at hw
    · exact absurd hw List.not_mem_nil
    · exact List.mem_singleton.mp hw
  induction o generalizing word with
  | nil =>
    rw [hflush word h] at hc
    exact Or.inl hc
  | cons d o ih =>
    cases hd : continues word d with
    | true =>
      rw [tokensFrom_continue hd] at h
      rcases ih h with hmem | hmem
      · rcases List.mem_append.mp hmem with hmem | hmem
        · exact Or.inl hmem
        · rw [List.mem_singleton.mp hmem]
          exact Or.inr List.mem_cons_self
      · exact Or.inr (List.mem_cons_of_mem d hmem)
    | false =>
      have hrest : t ∈ tokens o → c ∈ word ∨ c ∈ d :: o := by
        intro hmem
        have hin := (ih hmem).resolve_left List.not_mem_nil
        exact Or.inr (List.mem_cons_of_mem d hin)
      cases hspace : SqlLexis.isSpace d with
      | true =>
        rw [tokensFrom_space hd hspace] at h
        rcases List.mem_append.mp h with hmem | hmem
        · rw [hflush word hmem] at hc
          exact Or.inl hc
        · exact hrest hmem
      | false =>
        rw [tokensFrom_sign hd hspace] at h
        rcases List.mem_append.mp h with hmem | hmem
        · rw [hflush word hmem] at hc
          exact Or.inl hc
        rcases List.mem_cons.mp hmem with rfl | hmem
        · rw [List.mem_singleton.mp hc]
          exact Or.inr List.mem_cons_self
        · exact hrest hmem

end Tokens

/-! ## Plain tokens -/

/-- A word of ASCII letters, a dot or a bracket. -/
def isPlainToken (token : Str) : Bool :=
  token.all Char.isAlpha || token == ['.'] || token == ['(']

/-- The tokens of the statements that the check compares with something. -/
def compared : List (List Str) → List Str
  | [] => []
  | [first] => first
  | first :: second :: others => first ++ second.take 7 ++ others.flatten

/-- No letter goes on with the word, with regard to case or without. -/
def EndsWord (t s : Str) : Prop :=
  t.all Char.isAlpha = true → ∀ c, s.head? = some c → (foldCase c).isAlpha = false

/-- Tokens apart from each other, spaces between them, and a text after them. -/
inductive Spaced : List Str → Str → Str → Prop where
  | nil (s : Str) : Spaced [] s s
  | cons (space token : Str) {s rest : Str} {ts : List Str}
    (hspace : ∀ c ∈ space, Python.isSpace c = true)
    (hnext : EndsWord token s)
    (h : Spaced ts s rest) : Spaced (token :: ts) (space ++ (token ++ s)) rest

section Covered
variable {c : Char} {o s word t : Str} {ts us : List Str}

theorem continues_nil (h : continues word c = false) : continues [] c = false := by
  unfold continues at h ⊢
  rw [Bool.or_eq_false_iff] at h ⊢
  exact ⟨h.1, by simp⟩

theorem foldCase_not_alpha (h : isWordChar c = false) : (foldCase c).isAlpha = false := by
  unfold isWordChar at h
  rw [Bool.or_eq_false_iff, Bool.or_eq_false_iff, decide_eq_false_iff_not] at h
  obtain ⟨⟨halnum, -⟩, hascii⟩ := h
  have hfold : foldCase c = c.toLower := by
    unfold foldCase
    rw [if_neg (by omega), if_neg (by omega), if_neg (by omega)]
  rw [hfold, Char.isAlpha_toLower_eq_isAlpha]
  unfold Char.isAlphanum at halnum
  exact (Bool.or_eq_false_iff.mp halnum).1

theorem isWordChar_of_isAlpha (h : c.isAlpha = true) : isWordChar c = true := by
  unfold isWordChar Char.isAlphanum
  rw [h]
  rfl

theorem isAlpha_of_isPlainToken {x : Str} (hx : x ≠ []) (hstart : x ++ [c] <+: t)
    (hplain : isPlainToken t = true) : c.isAlpha = true := by
  have hlength := hstart.length_le
  have hpos := List.length_pos_of_ne_nil hx
  rw [List.length_append, List.length_singleton] at hlength
  have hmem : c ∈ t := hstart.subset (List.mem_append_right x List.mem_cons_self)
  unfold isPlainToken at hplain
  rw [Bool.or_eq_true, Bool.or_eq_true, beq_iff_eq, beq_iff_eq] at hplain
  rcases hplain with (hall | rfl) | rfl
  · exact List.all_eq_true.mp hall c hmem
  · rw [List.length_singleton] at hlength
    omega
  · rw [List.length_singleton] at hlength
    omega

theorem letter_bounds (h : c.isAlpha = true) : 65 ≤ c.toNat ∧ c.toNat ≤ 122 := by
  unfold Char.isAlpha Char.isUpper Char.isLower at h
  simp only [Bool.or_eq_true, Bool.and_eq_true, decide_eq_true_eq, UInt32.le_iff_toNat_le,
    ge_iff_le] at h
  have hval : c.toNat = c.val.toNat := rfl
  have hA : 'A'.val.toNat = 65 := rfl
  have hZ : 'Z'.val.toNat = 90 := rfl
  have ha : 'a'.val.toNat = 97 := rfl
  have hz : 'z'.val.toNat = 122 := rfl
  omega

theorem not_isBreak_of_isAlpha (h : c.isAlpha = true) : ¬ isBreak c = true := by
  intro hbreak
  have hletter := letter_bounds h
  unfold isBreak at hbreak
  simp only [Bool.or_eq_true, Bool.and_eq_true, decide_eq_true_eq, beq_iff_eq] at hbreak
  omega

/-- What is left of a text after a word that ends in it. -/
def Follows (o s : Str) (ts : List Str) : Prop :=
  Covers o s ∧ tokens o = ts ∧ ∀ c, s.head? = some c → (foldCase c).isAlpha = false

theorem atEnd_not_alpha (h : AtEnd s) (c : Char) (hc : s.head? = some c) :
    (foldCase c).isAlpha = false := by
  rcases h with rfl | ⟨rest, rfl⟩
  · cases hc
  · rw [← Option.some.inj hc]
    decide

theorem word_of_covers (h : Covers o s) (hne : word ≠ []) (ht : tokensFrom word o = t :: ts)
    (hplain : isPlainToken t = true) :
    ∃ u o' s', t = word ++ u ∧ s = u ++ s' ∧ Follows o' s' ts := by
  induction h generalizing word with
  | nil =>
    rw [tokensFrom, flush_ne_nil hne] at ht
    obtain ⟨rfl, rfl⟩ := List.cons.inj ht
    exact ⟨[], [], [], (List.append_nil word).symm, rfl, Covers.nil, rfl, fun c hc => by cases hc⟩
  | @char c o s hc hcovers ih =>
    cases hcontinues : continues word c with
    | true =>
      rw [tokensFrom_continue hcontinues] at ht
      obtain ⟨u, o', s', rfl, rfl, hfollows⟩ := ih (by simp) ht
      exact ⟨c :: u, o', s', by simp, rfl, hfollows⟩
    | false =>
      rw [tokensFrom_stop hcontinues (continues_nil hcontinues), flush_ne_nil hne] at ht
      obtain ⟨rfl, rfl⟩ := List.cons.inj ht
      refine ⟨[], c :: o, c :: s, (List.append_nil word).symm, rfl, hcovers.char c hc, rfl, ?_⟩
      intro d hd
      rw [← Option.some.inj hd]
      exact foldCase_not_alpha (Bool.or_eq_false_iff.mp hcontinues).1
  | @newline c o s hc hcovers ih =>
    cases hcontinues : continues word c with
    | true =>
      rw [tokensFrom_continue hcontinues] at ht
      have halpha := isAlpha_of_isPlainToken hne (prefix_of_tokensFrom (by simp) ht) hplain
      exact absurd hc (not_isBreak_of_isAlpha halpha)
    | false =>
      rw [tokensFrom_stop hcontinues (continues_nil hcontinues), flush_ne_nil hne] at ht
      obtain ⟨rfl, rfl⟩ := List.cons.inj ht
      exact ⟨[], c :: o, '\n' :: s, (List.append_nil word).symm, rfl, hcovers.newline c hc, rfl,
        atEnd_not_alpha (Or.inr ⟨s, rfl⟩)⟩
  | @gap c o s hc hend hcovers ih =>
    cases hcontinues : continues word c with
    | true =>
      rw [tokensFrom_continue hcontinues] at ht
      have halpha := isAlpha_of_isPlainToken hne (prefix_of_tokensFrom (by simp) ht) hplain
      rcases hc with rfl | hc
      · exact absurd halpha (by decide)
      · exact absurd hc (not_isBreak_of_isAlpha halpha)
    | false =>
      rw [tokensFrom_stop hcontinues (continues_nil hcontinues), flush_ne_nil hne] at ht
      obtain ⟨rfl, rfl⟩ := List.cons.inj ht
      exact ⟨[], c :: o, s, (List.append_nil word).symm, rfl, hcovers.gap c hc hend, rfl,
        atEnd_not_alpha hend⟩
  | @quoted q inner o s hq hinner hcovers ih =>
    have hcontinues : continues word '\'' = false := rfl
    rw [tokensFrom_stop hcontinues (continues_nil hcontinues), flush_ne_nil hne] at ht
    obtain ⟨rfl, rfl⟩ := List.cons.inj ht
    refine ⟨[], _, _, (List.append_nil word).symm, rfl, hcovers.quoted q inner hq hinner, rfl, ?_⟩
    intro d hd
    rw [← Option.some.inj hd]
    rcases hq with rfl | rfl <;> decide

/-- In front of a plain token the end of a line is white space to the server. -/
theorem space_of_break (hc : isBreak c = true) (ht : tokensFrom [] (c :: o) = t :: ts)
    (hplain : isPlainToken t = true) : SqlLexis.isSpace c = true ∧ tokens o = t :: ts := by
  have hplainBreak : ∀ x : Str, [c] <+: x → isPlainToken x = false := by
    intro x hx
    obtain ⟨y, rfl⟩ := hx
    apply Bool.eq_false_of_not_eq_true
    intro hx
    unfold isPlainToken at hx
    rw [Bool.or_eq_true, Bool.or_eq_true, beq_iff_eq, beq_iff_eq] at hx
    rcases hx with (hall | hdot) | hbracket
    · exact not_isBreak_of_isAlpha (List.all_eq_true.mp hall c (by simp)) hc
    · rw [(List.cons.inj hdot).1] at hc
      cases hc
    · rw [(List.cons.inj hbracket).1] at hc
      cases hc
  cases hcontinues : continues [] c with
  | true =>
    rw [tokensFrom_continue hcontinues] at ht
    rw [hplainBreak t (prefix_of_tokensFrom (by simp) ht)] at hplain
    cases hplain
  | false =>
    cases hspace : SqlLexis.isSpace c with
    | true =>
      rw [tokensFrom_space hcontinues hspace] at ht
      exact ⟨rfl, ht⟩
    | false =>
      rw [tokensFrom_sign hcontinues hspace] at ht
      obtain ⟨rfl, -⟩ := List.cons.inj ht
      rw [hplainBreak [c] (List.prefix_refl _)] at hplain
      cases hplain

/-- The first token, if it is plain, stands in both texts. -/
theorem token_of_covers (h : Covers o s) (ht : tokens o = t :: ts) (hplain : isPlainToken t = true) :
    ∃ space s' o', s = space ++ (t ++ s') ∧ (∀ c ∈ space, SqlLexis.isSpace c = true) ∧
      EndsWord t s' ∧ Covers o' s' ∧ tokens o' = ts := by
  unfold tokens at ht
  induction h with
  | nil => cases ht
  | @char c o s hc hcovers ih =>
    cases hcontinues : continues [] c with
    | true =>
      rw [tokensFrom_continue hcontinues] at ht
      obtain ⟨u, o', s', rfl, rfl, hcovers', hrest, hnext⟩ :=
        word_of_covers hcovers (by simp) ht hplain
      exact ⟨[], s', o', rfl, fun d hd => absurd hd List.not_mem_nil, fun _ => hnext, hcovers', hrest⟩
    | false =>
      cases hspace : SqlLexis.isSpace c with
      | true =>
        rw [tokensFrom_space hcontinues hspace] at ht
        obtain ⟨space, s', o', rfl, hspaces, hnext, hcovers', hrest⟩ := ih ht
        exact ⟨c :: space, s', o', rfl, List.forall_mem_cons.mpr ⟨hspace, hspaces⟩, hnext, hcovers',
          hrest⟩
      | false =>
        rw [tokensFrom_sign hcontinues hspace] at ht
        obtain ⟨rfl, rfl⟩ := List.cons.inj ht
        refine ⟨[], s, o, rfl, fun d hd => absurd hd List.not_mem_nil, ?_, hcovers, rfl⟩
        intro hall
        have halpha : c.isAlpha = true := by simpa using hall
        have hword := isWordChar_of_isAlpha halpha
        rw [(Bool.or_eq_false_iff.mp hcontinues).1] at hword
        cases hword
  | @newline c o s hc hcovers ih =>
    obtain ⟨hspace, ht'⟩ := space_of_break hc ht hplain
    obtain ⟨space, s', o', rfl, hspaces, hnext, hcovers', hrest⟩ := ih ht'
    exact ⟨'\n' :: space, s', o', rfl, List.forall_mem_cons.mpr ⟨rfl, hspaces⟩, hnext, hcovers',
      hrest⟩
  | @gap c o s hc hend hcovers ih =>
    have ht' : tokens o = t :: ts := by
      rcases hc with rfl | hc
      · rwa [tokensFrom_space rfl rfl] at ht
      · exact (space_of_break hc ht hplain).2
    exact ih ht'
  | @quoted q inner o s hq hinner hcovers ih =>
    rw [tokensFrom_sign rfl rfl] at ht
    obtain ⟨rfl, -⟩ := List.cons.inj ht
    exact absurd hplain (by decide)

/-- The server's white space is white space for the check. -/
theorem isSpace_of_isSpace (h : SqlLexis.isSpace c = true) : Python.isSpace c = true := by
  unfold SqlLexis.isSpace at h
  simp only [Bool.or_eq_true, beq_iff_eq] at h
  rcases h with ((((rfl | rfl) | rfl) | rfl) | rfl) | rfl <;> decide

theorem spaced_of_covers (h : Covers o s) (ht : tokens o = ts ++ us)
    (hplain : ∀ token ∈ ts, isPlainToken token = true) :
    ∃ o' s', Spaced ts s s' ∧ Covers o' s' ∧ tokens o' = us := by
  induction ts generalizing o s with
  | nil => exact ⟨o, s, Spaced.nil s, h, ht⟩
  | cons t ts ih =>
    obtain ⟨space, s', o', rfl, hspace, hnext, hcovers, hrest⟩ :=
      token_of_covers h ht (hplain t List.mem_cons_self)
    obtain ⟨o'', s'', hspaced, hcovers', hrest'⟩ :=
      ih hcovers hrest fun token hmem => hplain token (List.mem_cons_of_mem t hmem)
    have hspace' : ∀ c ∈ space, Python.isSpace c = true := fun c hc => isSpace_of_isSpace (hspace c hc)
    exact ⟨o'', s'', Spaced.cons space t hspace' hnext hspaced, hcovers', hrest'⟩

end Covered

/-! ## Texts without regard to case -/

section Folded
variable {c d : Char} {s rest rest' space space' t u : Str} {ts us : List Str}

/-- Beyond ASCII only four characters are equal to a letter without regard to case. -/
theorem foldCase_cases (c : Char) :
    (c.toNat < 128 ∧ foldCase c = c.toLower) ∨ foldCase c = c ∨
      (Python.isSpace c = false ∧ (foldCase c = 'k' ∨ foldCase c = 's' ∨ foldCase c = 'i')) := by
  have hspecial : ∀ n, n = 0x212A ∨ n = 0x17F ∨ n = 0x130 ∨ n = 0x131 → c.toNat = n →
      Python.isSpace c = false := by
    intro n hn hc
    unfold Python.isSpace
    rw [hc]
    rcases hn with rfl | rfl | rfl | rfl <;> rfl
  unfold foldCase
  split
  · rename_i hc
    exact Or.inr (Or.inr ⟨hspecial _ (Or.inl rfl) hc, Or.inl rfl⟩)
  split
  · rename_i hc
    exact Or.inr (Or.inr ⟨hspecial _ (Or.inr (Or.inl rfl)) hc, Or.inr (Or.inl rfl)⟩)
  split
  · rename_i hc
    have hnone : Python.isSpace c = false := by
      rcases hc with hc | hc
      · exact hspecial _ (Or.inr (Or.inr (Or.inl rfl))) hc
      · exact hspecial _ (Or.inr (Or.inr (Or.inr rfl))) hc
    exact Or.inr (Or.inr ⟨hnone, Or.inr (Or.inr rfl)⟩)
  · rcases Nat.lt_or_ge c.toNat 128 with hascii | hbeyond
    · exact Or.inl ⟨hascii, rfl⟩
    · refine Or.inr (Or.inl (Char.toLower_eq_of_not_isUpper ?_))
      intro hupper
      have hletter := letter_bounds (Bool.or_eq_true _ _ ▸ Or.inl hupper)
      omega

theorem foldCase_foldCase (c : Char) : foldCase (foldCase c) = foldCase c := by
  rcases foldCase_cases c with ⟨hascii, -⟩ | hc | ⟨-, hc | hc | hc⟩
  · have hall : ∀ n < 128, foldCase (foldCase (Char.ofNat n)) = foldCase (Char.ofNat n) := by decide
    have hc := hall c.toNat hascii
    rwa [Char.ofNat_toNat] at hc
  · rw [hc, hc]
  all_goals rw [hc]; decide

theorem isSpace_foldCase (c : Char) : Python.isSpace (foldCase c) = Python.isSpace c := by
  rcases foldCase_cases c with ⟨hascii, -⟩ | hc | ⟨hnone, hc | hc | hc⟩
  · have hall : ∀ n < 128, Python.isSpace (foldCase (Char.ofNat n)) = Python.isSpace (Char.ofNat n) := by
      decide
    have hc := hall c.toNat hascii
    rwa [Char.ofNat_toNat] at hc
  · rw [hc]
  all_goals rw [hc, hnone]; decide

theorem foldCase_of_isAlpha (h : c.isAlpha = true) : foldCase c = c.toLower := by
  have hletter := letter_bounds h
  unfold foldCase
  rw [if_neg (by omega), if_neg (by omega), if_neg (by omega)]

/-- A plain token is a word of letters or one sign. -/
theorem isPlainToken_cons (h : isPlainToken (c :: t) = true) :
    (c.isAlpha = true ∧ (c :: t).all Char.isAlpha = true) ∨
      (t = [] ∧ (c = '.' ∨ c = '(')) := by
  unfold isPlainToken at h
  rw [Bool.or_eq_true, Bool.or_eq_true, beq_iff_eq, beq_iff_eq] at h
  rcases h with (hall | hdot) | hbracket
  · have hc := List.all_eq_true.mp hall c List.mem_cons_self
    exact Or.inl ⟨hc, hall⟩
  · obtain ⟨rfl, rfl⟩ := List.cons.inj hdot
    exact Or.inr ⟨rfl, Or.inl rfl⟩
  · obtain ⟨rfl, rfl⟩ := List.cons.inj hbracket
    exact Or.inr ⟨rfl, Or.inr rfl⟩

theorem not_isSpace_of_isPlainToken (h : isPlainToken (c :: t) = true) : Python.isSpace c = false := by
  rcases isPlainToken_cons h with ⟨hc, -⟩ | ⟨-, rfl | rfl⟩
  · have hletter := letter_bounds hc
    apply Bool.eq_false_of_not_eq_true
    unfold Python.isSpace
    simp only [Bool.or_eq_true, Bool.and_eq_true, decide_eq_true_eq, beq_iff_eq]
    omega
  · rfl
  · rfl

/-- Two plain tokens at the start of one text are one. -/
theorem token_unique (ht : t ≠ []) (hu : u ≠ []) (hplain : isPlainToken t = true)
    (hplain' : isPlainToken u = true) (hend : EndsWord t rest) (hend' : EndsWord u rest')
    (h : t ++ rest = u ++ rest') : t = u ∧ rest = rest' := by
  have heq : t = u := by
    obtain ⟨c, t, rfl⟩ := List.exists_cons_of_ne_nil ht
    obtain ⟨d, u, rfl⟩ := List.exists_cons_of_ne_nil hu
    obtain rfl : c = d := (List.cons.inj h).1
    have hsign : ∀ x : Char, x = '.' ∨ x = '(' → x.isAlpha = false := by
      intro x hx
      rcases hx with rfl | rfl <;> rfl
    rcases isPlainToken_cons hplain with ⟨hc, hall⟩ | ⟨rfl, hc⟩
    · rcases isPlainToken_cons hplain' with ⟨-, hall'⟩ | ⟨-, hc'⟩
      · have hrun : ∀ w r : Str, w.all Char.isAlpha = true → EndsWord w r →
            (w ++ r).takeWhile (fun x => (foldCase x).isAlpha) = w := by
          intro w r hw hr
          have hletters : ∀ x ∈ w, (foldCase x).isAlpha = true := by
            intro x hx
            have hx' := List.all_eq_true.mp hw x hx
            rw [foldCase_of_isAlpha hx', Char.isAlpha_toLower_eq_isAlpha]
            exact hx'
          rw [List.takeWhile_append_of_pos hletters]
          cases r with
          | nil => exact List.append_nil w
          | cons x r =>
            rw [List.takeWhile_cons_of_neg, List.append_nil]
            rw [hr hw x rfl]
            exact Bool.false_ne_true
        have hfirst := hrun _ _ hall hend
        rw [h, hrun _ _ hall' hend'] at hfirst
        exact hfirst.symm
      · rw [hsign c hc'] at hc
        cases hc
    · rcases isPlainToken_cons hplain' with ⟨hc', -⟩ | ⟨rfl, -⟩
      · rw [hsign c hc] at hc'
        cases hc'
      · rfl
  subst heq
  exact ⟨rfl, List.append_cancel_left h⟩

def Plain (ts : List Str) : Prop := ∀ token ∈ ts, token ≠ [] ∧ isPlainToken token = true

/-- Two ways to take a text apart agree as far as both go. -/
theorem spaced_unique (h : Spaced ts s rest) (h' : Spaced us s rest') (hts : Plain ts)
    (hus : Plain us) : (∃ vs, us = ts ++ vs ∧ Spaced vs rest rest') ∨
      (∃ vs, ts = us ++ vs ∧ Spaced vs rest' rest) := by
  induction h generalizing us with
  | nil s => exact Or.inl ⟨us, rfl, h'⟩
  | @cons space t s rest ts hspace hnext h ih =>
    generalize hall : space ++ (t ++ s) = text at h'
    cases h' with
    | nil => exact Or.inr ⟨t :: ts, rfl, hall ▸ Spaced.cons space t hspace hnext h⟩
    | @cons space' u s' _ us hspace' hnext' h' =>
      obtain ⟨ht, hplain⟩ := hts t List.mem_cons_self
      obtain ⟨hu, hplain'⟩ := hus u List.mem_cons_self
      have hskip : ∀ sp w r : Str, (∀ x ∈ sp, Python.isSpace x = true) → w ≠ [] →
          isPlainToken w = true → (sp ++ (w ++ r)).dropWhile Python.isSpace = w ++ r := by
        intro sp w r hsp hw hwplain
        rw [List.dropWhile_append_of_pos hsp]
        obtain ⟨x, w, rfl⟩ := List.exists_cons_of_ne_nil hw
        rw [List.cons_append, List.dropWhile_cons_of_neg]
        rw [not_isSpace_of_isPlainToken hwplain]
        exact Bool.false_ne_true
      have htail : t ++ s = u ++ s' := by
        rw [← hskip space t s hspace ht hplain, hall, hskip space' u s' hspace' hu hplain']
      obtain ⟨rfl, rfl⟩ := token_unique ht hu hplain hplain' hnext hnext' htail
      have hrest := ih h' (fun x hx => hts x (List.mem_cons_of_mem t hx))
        fun x hx => hus x (List.mem_cons_of_mem t hx)
      rcases hrest with ⟨vs, rfl, hvs⟩ | ⟨vs, rfl, hvs⟩
      · exact Or.inl ⟨vs, rfl, hvs⟩
      · exact Or.inr ⟨vs, rfl, hvs⟩

/-- No token is in a text of white space. -/
theorem spaced_blank (h : Spaced ts s rest) (hts : Plain ts)
    (hblank : ∀ c ∈ s, Python.isSpace c = true) : ts = [] := by
  cases h with
  | nil => rfl
  | cons space t hspace hnext h =>
    obtain ⟨hne, hplain⟩ := hts t List.mem_cons_self
    obtain ⟨c, t, rfl⟩ := List.exists_cons_of_ne_nil hne
    have hc := hblank c (by simp)
    rw [not_isSpace_of_isPlainToken hplain] at hc
    cases hc

theorem isPlainToken_fold (h : isPlainToken t = true) : isPlainToken (t.map foldCase) = true := by
  cases t with
  | nil => exact h
  | cons c t =>
    rcases isPlainToken_cons h with ⟨-, hall⟩ | ⟨rfl, rfl | rfl⟩
    · have hfold : ((c :: t).map foldCase).all Char.isAlpha = true := by
        rw [List.all_map, List.all_eq_true]
        intro d hd
        have hd' := List.all_eq_true.mp hall d hd
        rw [Function.comp_apply, foldCase_of_isAlpha hd', Char.isAlpha_toLower_eq_isAlpha]
        exact hd'
      unfold isPlainToken
      rw [hfold]
      rfl
    · decide
    · decide

theorem Plain.fold (h : Plain ts) : Plain (ts.map (List.map foldCase)) := by
  intro token hmem
  obtain ⟨t, ht, rfl⟩ := List.mem_map.mp hmem
  obtain ⟨hne, hplain⟩ := h t ht
  refine ⟨?_, isPlainToken_fold hplain⟩
  intro hnil
  exact hne (List.map_eq_nil_iff.mp hnil)

theorem EndsWord.fold (h : EndsWord t s) (hplain : isPlainToken t = true) :
    EndsWord (t.map foldCase) (s.map foldCase) := by
  intro hall c hc
  have hword : t.all Char.isAlpha = true := by
    cases t with
    | nil => rfl
    | cons d t =>
      rcases isPlainToken_cons hplain with ⟨-, hword⟩ | ⟨rfl, rfl | rfl⟩
      · exact hword
      · cases hall
      · cases hall
  rw [List.head?_map, Option.map_eq_some_iff] at hc
  obtain ⟨d, hd, rfl⟩ := hc
  rw [foldCase_foldCase]
  exact h hword d hd

theorem Spaced.fold (h : Spaced ts s rest) (hplain : Plain ts) :
    Spaced (ts.map (List.map foldCase)) (s.map foldCase) (rest.map foldCase) := by
  induction h with
  | nil s => exact Spaced.nil _
  | @cons space t s rest ts hspace hnext h ih =>
    have hblank : ∀ c ∈ space.map foldCase, Python.isSpace c = true := by
      intro c hc
      obtain ⟨d, hd, rfl⟩ := List.mem_map.mp hc
      rw [isSpace_foldCase]
      exact hspace d hd
    have hword := hnext.fold (hplain t List.mem_cons_self).2
    have hrest := ih fun x hx => hplain x (List.mem_cons_of_mem t hx)
    rw [List.map_append, List.map_append, List.map_cons]
    exact Spaced.cons _ _ hblank hword hrest

end Folded

/-! ## White space -/

section Squeezed
variable {c : Char} {s x y rest t lead tail : Str} {ts : List Str}

theorem not_isAlpha_of_isSpace (h : Python.isSpace c = true) : (foldCase c).isAlpha = false := by
  rw [← isSpace_foldCase] at h
  apply Bool.eq_false_of_not_eq_true
  intro halpha
  have hplain : isPlainToken [foldCase c] = true := by
    unfold isPlainToken
    rw [List.all_cons, halpha]
    rfl
  rw [not_isSpace_of_isPlainToken hplain] at h
  cases h

theorem squeeze_fold (b : Bool) (s : Str) : squeeze b (s.map foldCase) = (squeeze b s).map foldCase := by
  induction s generalizing b with
  | nil => rfl
  | cons c s ih =>
    rw [List.map_cons, squeeze, squeeze, isSpace_foldCase]
    split
    · split
      · exact ih true
      · rw [List.map_cons, ih]
        rfl
    · rw [List.map_cons, ih]

theorem mem_squeeze {b : Bool} (h : c ∈ squeeze b s) : c = ' ' ∨ (c ∈ s ∧ Python.isSpace c = false) := by
  induction s generalizing b with
  | nil => exact absurd h List.not_mem_nil
  | cons d s ih =>
    have hrest : ∀ b, c ∈ squeeze b s → c = ' ' ∨ (c ∈ d :: s ∧ Python.isSpace c = false) := by
      intro b hmem
      rcases ih hmem with hc | ⟨hc, hspace⟩
      · exact Or.inl hc
      · exact Or.inr ⟨List.mem_cons_of_mem d hc, hspace⟩
    rw [squeeze] at h
    split at h
    · split at h
      · exact hrest true h
      · rcases List.mem_cons.mp h with rfl | h
        · exact Or.inl rfl
        · exact hrest true h
    · rename_i hd
      rcases List.mem_cons.mp h with rfl | h
      · exact Or.inr ⟨List.mem_cons_self, Bool.eq_false_of_not_eq_true hd⟩
      · exact hrest false h

/-- A text is white space if it is squeezed to white space. -/
theorem blank_of_squeeze {b : Bool} (h : ∀ c ∈ squeeze b s, Python.isSpace c = true) :
    ∀ c ∈ s, Python.isSpace c = true := by
  induction s generalizing b with
  | nil => exact fun c hc => absurd hc List.not_mem_nil
  | cons d s ih =>
    rw [squeeze] at h
    split at h
    · rename_i hd
      split at h
      · exact List.forall_mem_cons.mpr ⟨hd, ih h⟩
      · exact List.forall_mem_cons.mpr ⟨hd, ih (List.forall_mem_cons.mp h).2⟩
    · exact List.forall_mem_cons.mpr ⟨(List.forall_mem_cons.mp h).1, ih (List.forall_mem_cons.mp h).2⟩

/-- A word in the squeezed text is one of the text. -/
theorem squeeze_word (h : squeeze false s = t ++ y) (ht : ∀ c ∈ t, Python.isSpace c = false) :
    ∃ s', s = t ++ s' ∧ squeeze false s' = y := by
  induction t generalizing s with
  | nil => exact ⟨s, rfl, h⟩
  | cons c t ih =>
    have hc := ht c List.mem_cons_self
    cases s with
    | nil => cases h
    | cons d s =>
      rw [squeeze] at h
      split at h
      · rename_i hd
        rw [if_neg Bool.false_ne_true] at h
        rw [← (List.cons.inj h).1] at hc
        cases hc
      · obtain ⟨rfl, htail⟩ := List.cons.inj h
        obtain ⟨s', rfl, hrest⟩ := ih htail fun x hx => ht x (List.mem_cons_of_mem d hx)
        exact ⟨s', rfl, hrest⟩

/-- White space before a word of the squeezed text is white space of the text. -/
theorem squeeze_spaces {b : Bool} (h : squeeze b s = x ++ c :: y)
    (hx : ∀ d ∈ x, Python.isSpace d = true) (hc : Python.isSpace c = false) :
    ∃ space s', s = space ++ s' ∧ (∀ d ∈ space, Python.isSpace d = true) ∧
      squeeze false s' = c :: y := by
  induction s generalizing b x with
  | nil =>
    rw [squeeze] at h
    exact absurd h.symm (by simp)
  | cons d s ih =>
    rw [squeeze] at h
    split at h
    · rename_i hd
      have hrest : ∀ x : Str, squeeze true s = x ++ c :: y → (∀ d ∈ x, Python.isSpace d = true) →
          ∃ space s', d :: s = space ++ s' ∧ (∀ d ∈ space, Python.isSpace d = true) ∧
            squeeze false s' = c :: y := by
        intro x hx hspace
        obtain ⟨space, s', rfl, hspaces, hs'⟩ := ih hx hspace
        exact ⟨d :: space, s', rfl, List.forall_mem_cons.mpr ⟨hd, hspaces⟩, hs'⟩
      split at h
      · exact hrest x h hx
      · cases x with
        | nil =>
          rw [← (List.cons.inj h).1] at hc
          cases hc
        | cons e x => exact hrest x (List.cons.inj h).2 (List.forall_mem_cons.mp hx).2
    · rename_i hd
      cases x with
      | nil =>
        refine ⟨[], d :: s, rfl, fun _ h => absurd h List.not_mem_nil, ?_⟩
        rw [squeeze, if_neg hd]
        exact h
      | cons e x =>
        obtain ⟨rfl, -⟩ := List.cons.inj h
        exact absurd (hx d List.mem_cons_self) hd

theorem isPlainToken_singleton (h : isPlainToken t = true) (hc : c ∈ t) : isPlainToken [c] = true := by
  cases t with
  | nil => exact absurd hc List.not_mem_nil
  | cons d t =>
    rcases isPlainToken_cons h with ⟨-, hall⟩ | ⟨rfl, -⟩
    · unfold isPlainToken
      rw [List.all_cons, List.all_eq_true.mp hall c hc]
      rfl
    · rw [List.mem_singleton.mp hc]
      exact h

theorem not_isSpace_of_plain (h : isPlainToken t = true) (hc : c ∈ t) : Python.isSpace c = false :=
  not_isSpace_of_isPlainToken (isPlainToken_singleton h hc)

/-- The tokens of the squeezed text are apart in the text as well. -/
theorem spaced_of_squeeze (h : Spaced ts x rest) (hx : squeeze false s = x) (hplain : Plain ts) :
    ∃ rest', Spaced ts s rest' ∧ squeeze false rest' = rest := by
  induction h generalizing s with
  | nil x => exact ⟨s, Spaced.nil s, hx⟩
  | @cons space t x rest ts hspace hnext h ih =>
    obtain ⟨hne, ht⟩ := hplain t List.mem_cons_self
    have hfirst : ∃ sp s', s = sp ++ s' ∧ (∀ d ∈ sp, Python.isSpace d = true) ∧
        squeeze false s' = t ++ x := by
      obtain ⟨c, t, rfl⟩ := List.exists_cons_of_ne_nil hne
      exact squeeze_spaces hx hspace (not_isSpace_of_isPlainToken ht)
    obtain ⟨sp, s', rfl, hsp, hs'⟩ := hfirst
    obtain ⟨s'', rfl, hs''⟩ := squeeze_word hs' fun c hc => not_isSpace_of_plain ht hc
    obtain ⟨rest', hspaced, hrest⟩ := ih hs'' fun y hy => hplain y (List.mem_cons_of_mem t hy)
    refine ⟨rest', Spaced.cons sp t hsp ?_ hspaced, hrest⟩
    intro hall c hc
    cases hspaceC : Python.isSpace c with
    | true => exact not_isAlpha_of_isSpace hspaceC
    | false =>
      obtain ⟨more, rfl⟩ := List.head?_eq_some_iff.mp hc
      apply hnext hall
      rw [← hs'', squeeze, if_neg (by rw [hspaceC]; exact Bool.false_ne_true)]
      rfl

theorem exists_trim (s : Str) : ∃ lead tail, s = lead ++ (Python.strip s ++ tail) ∧
    (∀ c ∈ lead, Python.isSpace c = true) ∧ ∀ c ∈ tail, Python.isSpace c = true := by
  refine ⟨s.takeWhile Python.isSpace, (s.dropWhile Python.isSpace).rtakeWhile Python.isSpace, ?_,
    fun c hc => List.mem_takeWhile_imp hc, fun c hc => List.mem_rtakeWhile_imp hc⟩
  unfold Python.strip Text.trim
  rw [List.rdropWhile_append_rtakeWhile, List.takeWhile_append_dropWhile]

theorem Spaced.append_blank (h : Spaced ts x rest) (htail : ∀ c ∈ tail, Python.isSpace c = true) :
    Spaced ts (x ++ tail) (rest ++ tail) := by
  induction h with
  | nil x => exact Spaced.nil _
  | @cons space t x rest ts hspace hnext h ih =>
    rw [List.append_assoc, List.append_assoc]
    refine Spaced.cons space t hspace ?_ ih
    intro hall c hc
    cases x with
    | nil => exact not_isAlpha_of_isSpace (htail c (List.mem_of_head? hc))
    | cons d x => exact hnext hall c hc

theorem Spaced.blank_append (h : Spaced ts x rest) (hne : ts ≠ [])
    (hlead : ∀ c ∈ lead, Python.isSpace c = true) : Spaced ts (lead ++ x) rest := by
  cases h with
  | nil => exact absurd rfl hne
  | cons space t hspace hnext h =>
    rw [← List.append_assoc]
    refine Spaced.cons (lead ++ space) t ?_ hnext h
    intro c hc
    rcases List.mem_append.mp hc with hc | hc
    · exact hlead c hc
    · exact hspace c hc

/-- What the check compares, white space collapsed and without regard to case. -/
theorem spaced_of_collapse (h : Spaced ts ((collapse s).map foldCase) rest) (hplain : Plain ts)
    (hne : ts ≠ []) : ∃ rest', Spaced ts (s.map foldCase) rest' ∧
      (rest = [] → ∀ c ∈ rest', Python.isSpace c = true) := by
  obtain ⟨lead, tail, htrim, hlead, htail⟩ := exists_trim (squeeze false s)
  have hfold : ∀ x : Str, (∀ c ∈ x, Python.isSpace c = true) →
      ∀ c ∈ x.map foldCase, Python.isSpace c = true := by
    intro x hx c hc
    obtain ⟨d, hd, rfl⟩ := List.mem_map.mp hc
    rw [isSpace_foldCase]
    exact hx d hd
  have hall : squeeze false (s.map foldCase) =
      lead.map foldCase ++ ((collapse s).map foldCase ++ tail.map foldCase) := by
    rw [squeeze_fold, htrim, List.map_append, List.map_append]
    rfl
  have hspaced := (h.append_blank (hfold tail htail)).blank_append hne (hfold lead hlead)
  obtain ⟨rest', hrest, hsqueeze⟩ := spaced_of_squeeze hspaced hall hplain
  refine ⟨rest', hrest, ?_⟩
  rintro rfl
  apply blank_of_squeeze (b := false)
  rw [hsqueeze]
  exact hfold tail htail

end Squeezed

end Decisya.Deploy.IdentitySql
