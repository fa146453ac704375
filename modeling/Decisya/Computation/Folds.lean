import Mathlib.Algebra.Ring.Nat
import Mathlib.Data.List.Basic
import Mathlib.Data.Nat.Notation

/-!
# Loops that collect

A loop over a list with an accumulator, of which one part only ever grows at the end, and
dictionaries that count.
-/

namespace Folds

set_option autoImplicit false

universe u v w

section Collect
variable {State : Type u} {α : Type v} {β : Type w}

/-- A part of the accumulator to which every step adds what depends on the element alone. -/
theorem foldl_collects (step : State → α → State) (part : State → List β) (added : α → List β)
    (h : ∀ s a, part (step s a) = part s ++ added a) (items : List α) (s : State) :
    part (items.foldl step s) = part s ++ items.flatMap added := by
  induction items generalizing s with
  | nil => simp
  | cons a items ih =>
    rw [List.foldl_cons, ih, h, List.flatMap_cons, List.append_assoc]

/-- A part of the accumulator that each step changes by a function of its own. -/
theorem foldl_part {γ : Type w} (step : State → α → State) (part : State → γ) (change : γ → α → γ)
    (h : ∀ s a, part (step s a) = change (part s) a) (items : List α) (s : State) :
    part (items.foldl step s) = items.foldl change (part s) := by
  induction items generalizing s with
  | nil => rfl
  | cons a items ih => rw [List.foldl_cons, ih, h, List.foldl_cons]

theorem foldl_flatMap {γ : Type w} (f : State → γ → State) (parts : α → List γ) (items : List α)
    (s : State) :
    (items.flatMap parts).foldl f s = items.foldl (fun s a => (parts a).foldl f s) s := by
  induction items generalizing s with
  | nil => rfl
  | cons a items ih => rw [List.flatMap_cons, List.foldl_append, ih, List.foldl_cons]

end Collect

/-! ## Counting dictionaries -/

section Count
variable {κ : Type u} [DecidableEq κ]

/-- One more of the key; a new key goes to the end. -/
def bump : List (κ × ℕ) → κ → List (κ × ℕ)
  | [], key => [(key, 1)]
  | (k, n) :: rest, key => if k = key then (k, n + 1) :: rest else (k, n) :: bump rest key

def countOf (counts : List (κ × ℕ)) (key : κ) : ℕ :=
  ((counts.find? fun entry => decide (entry.1 = key)).map Prod.snd).getD 0

theorem countOf_bump (counts : List (κ × ℕ)) (key other : κ) :
    countOf (bump counts key) other = countOf counts other + if key = other then 1 else 0 := by
  induction counts with
  | nil =>
    by_cases h : key = other
    · simp [bump, countOf, h]
    · simp [bump, countOf, h]
  | cons entry rest ih =>
    obtain ⟨k, n⟩ := entry
    unfold bump
    by_cases hk : k = key
    · subst hk
      by_cases h : k = other
      · simp [countOf, h]
      · simp [countOf, h]
    · rw [if_neg hk]
      by_cases h : k = other
      · subst h
        have hne : ¬ key = k := fun heq => hk heq.symm
        simp [countOf, hne]
      · unfold countOf at ih ⊢
        rw [List.find?_cons_of_neg (by simpa using h), List.find?_cons_of_neg (by simpa using h)]
        exact ih

theorem countOf_foldl_bump [BEq κ] [LawfulBEq κ] (keys : List κ) (counts : List (κ × ℕ)) (other : κ) :
    countOf (keys.foldl bump counts) other = countOf counts other + keys.count other := by
  induction keys generalizing counts with
  | nil => simp
  | cons key keys ih =>
    rw [List.foldl_cons, ih, countOf_bump, List.count_cons]
    by_cases h : key = other
    · simp [h]
      omega
    · simp [h]

theorem keys_bump (counts : List (κ × ℕ)) (key : κ) :
    (bump counts key).map Prod.fst =
      if key ∈ counts.map Prod.fst then counts.map Prod.fst else counts.map Prod.fst ++ [key] := by
  induction counts with
  | nil => simp [bump]
  | cons entry rest ih =>
    obtain ⟨k, n⟩ := entry
    unfold bump
    by_cases hk : k = key
    · simp [hk]
    · rw [if_neg hk, List.map_cons, ih]
      have hne : ¬ key = k := fun heq => hk heq.symm
      by_cases hmem : key ∈ rest.map Prod.fst
      · simp only [hmem, if_true, List.map_cons, List.mem_cons, or_true]
      · simp only [hmem, if_false, List.map_cons, List.mem_cons, hne, or_self, List.cons_append]

/-- No key is counted twice. -/
theorem nodup_bump {counts : List (κ × ℕ)} (h : (counts.map Prod.fst).Nodup) (key : κ) :
    ((bump counts key).map Prod.fst).Nodup := by
  rw [keys_bump]
  split
  · exact h
  · rename_i hnot
    rw [List.nodup_append]
    refine ⟨h, by simp, ?_⟩
    rintro a ha b hb rfl
    exact hnot (List.mem_singleton.mp hb ▸ ha)

theorem nodup_foldl_bump (keys : List κ) {counts : List (κ × ℕ)}
    (h : (counts.map Prod.fst).Nodup) : ((keys.foldl bump counts).map Prod.fst).Nodup := by
  induction keys generalizing counts with
  | nil => exact h
  | cons key keys ih => exact ih (nodup_bump h key)

theorem pos_bump {counts : List (κ × ℕ)} (h : ∀ entry ∈ counts, 0 < entry.2) (key : κ) :
    ∀ entry ∈ bump counts key, 0 < entry.2 := by
  induction counts with
  | nil => simp [bump]
  | cons first rest ih =>
    obtain ⟨k, n⟩ := first
    unfold bump
    split
    · intro entry hentry
      rcases List.mem_cons.mp hentry with rfl | hentry
      · exact Nat.succ_pos n
      · exact h entry (List.mem_cons_of_mem _ hentry)
    · intro entry hentry
      rcases List.mem_cons.mp hentry with rfl | hentry
      · exact h _ List.mem_cons_self
      · exact ih (fun e he => h e (List.mem_cons_of_mem _ he)) entry hentry

theorem pos_foldl_bump (keys : List κ) {counts : List (κ × ℕ)} (h : ∀ entry ∈ counts, 0 < entry.2) :
    ∀ entry ∈ keys.foldl bump counts, 0 < entry.2 := by
  induction keys generalizing counts with
  | nil => exact h
  | cons key keys ih => exact ih (pos_bump h key)

theorem countOf_of_mem {counts : List (κ × ℕ)} (h : (counts.map Prod.fst).Nodup) {key : κ} {n : ℕ}
    (hmem : (key, n) ∈ counts) : countOf counts key = n := by
  induction counts with
  | nil => cases hmem
  | cons entry rest ih =>
    rw [List.map_cons, List.nodup_cons] at h
    rcases List.mem_cons.mp hmem with rfl | hmem
    · simp [countOf]
    · have hne : entry.1 ≠ key := by
        rintro rfl
        exact h.1 (List.mem_map.mpr ⟨(entry.1, n), hmem, rfl⟩)
      have hrest := ih h.2 hmem
      unfold countOf at hrest ⊢
      rw [List.find?_cons_of_neg (by simpa using hne)]
      exact hrest

/-- A dictionary that counted a list holds its keys, each with how often it came. -/
theorem mem_foldl_bump_iff [BEq κ] [LawfulBEq κ] (keys : List κ) (key : κ) (n : ℕ) :
    (key, n) ∈ keys.foldl bump [] ↔ 0 < n ∧ keys.count key = n := by
  have hnodup : ((keys.foldl bump []).map Prod.fst).Nodup := nodup_foldl_bump keys (by simp)
  have hcount := countOf_foldl_bump keys [] key
  have hempty : countOf ([] : List (κ × ℕ)) key = 0 := rfl
  rw [hempty, Nat.zero_add] at hcount
  constructor
  · intro hmem
    have hstart : ∀ entry ∈ ([] : List (κ × ℕ)), 0 < entry.2 := by simp
    have hpos := pos_foldl_bump keys hstart _ hmem
    exact ⟨hpos, hcount.symm.trans (countOf_of_mem hnodup hmem)⟩
  · rintro ⟨hpos, hn⟩
    rw [← hcount] at hn
    unfold countOf at hn
    cases hfind : (keys.foldl bump []).find? fun entry => decide (entry.1 = key) with
    | none =>
      rw [hfind] at hn
      simp only [Option.map_none, Option.getD_none] at hn
      omega
    | some entry =>
      rw [hfind] at hn
      have hkey : entry.1 = key := by simpa using List.find?_some hfind
      have hvalue : entry.2 = n := hn
      have hmem := List.mem_of_find?_eq_some hfind
      rwa [show entry = (key, n) from Prod.ext hkey hvalue] at hmem

theorem sum_bump (counts : List (κ × ℕ)) (key : κ) :
    ((bump counts key).map Prod.snd).sum = (counts.map Prod.snd).sum + 1 := by
  induction counts with
  | nil => simp [bump]
  | cons entry rest ih =>
    obtain ⟨k, n⟩ := entry
    unfold bump
    split
    · simp only [List.map_cons, List.sum_cons]
      omega
    · simp only [List.map_cons, List.sum_cons, ih]
      omega

theorem sum_foldl_bump (keys : List κ) (counts : List (κ × ℕ)) :
    ((keys.foldl bump counts).map Prod.snd).sum = (counts.map Prod.snd).sum + keys.length := by
  induction keys generalizing counts with
  | nil => simp
  | cons key keys ih =>
    rw [List.foldl_cons, ih, sum_bump, List.length_cons]
    omega

end Count

end Folds
