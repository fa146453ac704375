import Mathlib

/-!
# Trimming and splitting

Trimming takes elements off either end one at a time, so what does not notice one such
step does not notice a trim. Splitting notices it only in the first and the last piece.
-/

namespace Text

set_option autoImplicit false

variable {α : Type}

def trim (ws : α → Bool) (s : List α) : List α := (s.dropWhile ws).rdropWhile ws

theorem trim_cons {ws : α → Bool} {c : α} (hc : ws c = true) (s : List α) :
    trim ws (c :: s) = trim ws s := by simp [trim, hc]

theorem trim_concat {ws : α → Bool} {c : α} (hc : ws c = true) (s : List α) :
    trim ws (s ++ [c]) = trim ws s := by
  unfold trim
  rw [List.dropWhile_append]
  split
  · rename_i hnil
    have hs : s.dropWhile ws = [] := List.isEmpty_iff.mp hnil
    simp [hs, hc]
  · exact List.rdropWhile_concat_pos ws _ c hc

/-- A function that ignores one element of `ws` at either end ignores a trim. -/
theorem apply_trim {β : Type} {ws : α → Bool} {F : List α → β}
    (hfront : ∀ c s, ws c = true → F (c :: s) = F s)
    (hback : ∀ c s, ws c = true → F (s ++ [c]) = F s) (s : List α) : F (trim ws s) = F s := by
  have hdrop : ∀ s, F (s.dropWhile ws) = F s := by
    intro s
    induction s with
    | nil => rfl
    | cons c s ih =>
      rw [List.dropWhile_cons]
      split
      · rename_i hc
        exact ih.trans (hfront c s hc).symm
      · rfl
  have hrdrop : ∀ s, F (s.rdropWhile ws) = F s := by
    intro s
    induction s using List.reverseRecOn with
    | nil => rfl
    | append_singleton s c ih =>
      rw [List.rdropWhile_concat]
      split
      · rename_i hc
        exact ih.trans (hback c s hc).symm
      · rfl
  exact (hrdrop _).trans (hdrop s)

@[simp] theorem trim_trim (ws : α → Bool) (s : List α) : trim ws (trim ws s) = trim ws s :=
  apply_trim (fun _ _ hc => trim_cons hc _) (fun _ _ hc => trim_concat hc _) s

/-- Nothing of `ws` in it, nothing to trim. -/
theorem trim_eq_self {ws : α → Bool} {s : List α} (h : ∀ c ∈ s, ws c = false) :
    trim ws s = s := by
  have hdrop : s.dropWhile ws = s := by
    cases s with
    | nil => rfl
    | cons c s => simp [h c List.mem_cons_self]
  unfold trim
  rw [hdrop, List.rdropWhile_eq_self_iff]
  intro hne
  rw [h _ (List.getLast_mem hne)]
  exact Bool.false_ne_true

section Split
variable {p ws : α → Bool}

/-- An element that is no separator goes to the end of the last piece. -/
theorem splitOnP_concat {c : α} (hc : p c = false) (s : List α) :
    ∃ init last, s.splitOnP p = init ++ [last] ∧ (s ++ [c]).splitOnP p = init ++ [last ++ [c]] := by
  induction s with
  | nil => exact ⟨[], [], by simp, by simp [List.splitOnP_cons_eq_if_modifyHead, hc]⟩
  | cons x s ih =>
    obtain ⟨init, last, hs, hsc⟩ := ih
    rw [List.cons_append, List.splitOnP_cons_eq_if_modifyHead,
      List.splitOnP_cons_eq_if_modifyHead, hs, hsc]
    split
    · exact ⟨[] :: init, last, rfl, rfl⟩
    · cases init with
      | nil => exact ⟨[], x :: last, rfl, rfl⟩
      | cons i init => exact ⟨(x :: i) :: init, last, rfl, rfl⟩

/-- Pieces that are trimmed anyway do not show whether the whole was. -/
theorem map_trim_splitOnP_trim (h : ∀ c, ws c = true → p c = false) (s : List α) :
    ((trim ws s).splitOnP p).map (trim ws) = (s.splitOnP p).map (trim ws) := by
  refine apply_trim (F := fun s => (s.splitOnP p).map (trim ws)) (fun c s hc => ?_)
    (fun c s hc => ?_) s
  · rw [List.splitOnP_cons_eq_if_modifyHead, h c hc]
    cases hs : s.splitOnP p with
    | nil => exact absurd hs (List.splitOnP_ne_nil p s)
    | cons piece pieces => simp [trim_cons hc]
  · obtain ⟨init, last, hs, hsc⟩ := splitOnP_concat (h c hc) s
    simp [hs, hsc, trim_concat hc]

/-- Every piece is a part of the whole. -/
theorem infix_of_mem_splitOnP {s piece : List α} (h : piece ∈ s.splitOnP p) : piece <:+: s := by
  have hboth : (∀ x ∈ (s.splitOnP p).head?, x <+: s) ∧ ∀ x ∈ s.splitOnP p, x <:+: s := by
    clear h
    induction s with
    | nil => simp
    | cons c s ih =>
      rw [List.splitOnP_cons_eq_if_modifyHead]
      split
      · refine ⟨by simp, ?_⟩
        intro x hx
        rcases List.mem_cons.mp hx with rfl | hx
        · exact List.nil_infix
        · exact List.infix_cons (ih.2 x hx)
      · cases hs : s.splitOnP p with
        | nil => exact absurd hs (List.splitOnP_ne_nil p s)
        | cons first pieces =>
          rw [hs] at ih
          have hfirst : c :: first <+: c :: s :=
            List.cons_prefix_cons.mpr ⟨rfl, ih.1 first rfl⟩
          refine ⟨?_, ?_⟩
          · intro x hx
            obtain rfl : c :: first = x := Option.some.inj hx
            exact hfirst
          · intro x hx
            rcases List.mem_cons.mp hx with rfl | hx
            · exact hfirst.isInfix
            · exact List.infix_cons (ih.2 x (List.mem_cons_of_mem first hx))
  exact hboth.2 piece h

/-- Segments written with a separator before each are the pieces. -/
theorem splitOnP_segments {sep : α} (hsep : p sep = true) {s : List α} {segments : List (List α)}
    (hs : ∀ c ∈ s, p c = false) (h : ∀ t ∈ segments, ∀ c ∈ t, p c = false) :
    (s ++ segments.flatMap fun t => sep :: t).splitOnP p = s :: segments := by
  induction segments generalizing s with
  | nil =>
    rw [List.flatMap_nil, List.append_nil]
    exact List.splitOnP_eq_singleton hs
  | cons t segments ih =>
    have hrest := ih (h t List.mem_cons_self) fun u hu => h u (List.mem_cons_of_mem t hu)
    rw [List.flatMap_cons, List.cons_append, List.splitOnP_append_cons_of_forall_mem hs sep hsep, hrest]

end Split

/-! ## Joined pieces -/

section Join
variable [DecidableEq α] {sep : α}

/-- Pieces without the separator are told apart by what they join to. -/
theorem intercalate_injective {a b : List (List α)} (ha : ∀ s ∈ a, sep ∉ s) (hb : ∀ s ∈ b, sep ∉ s)
    (hane : a ≠ []) (hbne : b ≠ []) (h : [sep].intercalate a = [sep].intercalate b) : a = b := by
  have hsplit := List.splitOn_intercalate sep ha hane
  rw [h, List.splitOn_intercalate sep hb hbne] at hsplit
  exact hsplit.symm

omit [DecidableEq α] in
/-- One separator for each piece after the first. -/
theorem length_intercalate {a : List (List α)} (hane : a ≠ []) :
    ([sep].intercalate a).length + 1 = (a.map fun s => 1 + s.length).sum := by
  induction a with
  | nil => exact absurd rfl hane
  | cons s rest ih =>
    cases rest with
    | nil => simp [List.intercalate, Nat.add_comm]
    | cons t rest =>
      have hrest := ih (List.cons_ne_nil t rest)
      have hcons : [sep].intercalate (s :: t :: rest) = s ++ sep :: [sep].intercalate (t :: rest) := by
        simp [List.intercalate]
      rw [hcons, List.length_append, List.length_cons, List.map_cons, List.sum_cons]
      omega

/-- What a path's pieces name: `.` and empty pieces stay where they are, `..` goes up. -/
def resolveDots (dot : α) (pieces : List (List α)) : List (List α) :=
  pieces.foldl (fun path piece =>
    if piece = [] ∨ piece = [dot] then path
    else if piece = [dot, dot] then path.dropLast
    else path ++ [piece]) []

theorem resolveDots_eq_self {dot : α} {pieces : List (List α)}
    (h : ∀ s ∈ pieces, s ≠ [] ∧ s ≠ [dot] ∧ s ≠ [dot, dot]) : resolveDots dot pieces = pieces := by
  induction pieces using List.reverseRecOn with
  | nil => rfl
  | append_singleton pieces piece ih =>
    have hinit := ih fun s hs => h s (List.mem_append_left [piece] hs)
    obtain ⟨hempty, hdot, hdots⟩ := h piece (by simp)
    unfold resolveDots at hinit ⊢
    rw [List.foldl_concat, hinit, if_neg (not_or.mpr ⟨hempty, hdot⟩), if_neg hdots]

/-- Without `..` after them, the pieces at the start stay. -/
theorem resolveDots_append {dot : α} {a b : List (List α)} (hb : ∀ s ∈ b, s ≠ [dot, dot]) :
    resolveDots dot a <+: resolveDots dot (a ++ b) := by
  induction b using List.reverseRecOn with
  | nil => rw [List.append_nil]
  | append_singleton b piece ih =>
    have hinit := ih fun s hs => hb s (List.mem_append_left [piece] hs)
    have hpiece := hb piece (by simp)
    unfold resolveDots at hinit ⊢
    rw [← List.append_assoc, List.foldl_concat, if_neg hpiece]
    split
    · exact hinit
    · exact hinit.trans (List.prefix_append _ [piece])

end Join

/-! ## Starts of equal length -/

/-- Of two texts that start with parts of one length, one starts with the other only if the
parts are the same. -/
theorem eq_of_prefix_of_length {a b x y : List α} (hlen : a.length = b.length)
    (h : (a ++ x) <+: (b ++ y)) : a = b := by
  have ha : a <+: b ++ y := (List.prefix_append a x).trans h
  exact (List.prefix_of_prefix_length_le ha (List.prefix_append b y) hlen.le).eq_of_length hlen

end Text
