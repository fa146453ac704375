import Mathlib.Data.List.Infix
import Mathlib.Logic.Basic

/-!
# Stacked changes to a keyed view

A change may set one key and may clear any number of others. What a key holds after a run of
changes is decided by the last one that set it and by whether anything cleared it since.
-/

namespace Overlay

set_option autoImplicit false

variable {κ φ : Type}

structure Change (κ φ : Type) where
  put : Option (κ × φ)
  clears : κ → Bool

abbrev View (κ φ : Type) := κ → Option φ

def Change.key (c : Change κ φ) : Option κ := c.put.map Prod.fst

variable [DecidableEq κ]

def apply (view : View κ φ) (c : Change κ φ) : View κ φ := fun x =>
  match c.put with
  | some (k, v) => if x = k then some v else if c.clears x = true then none else view x
  | none => if c.clears x = true then none else view x

def run (view : View κ φ) (changes : List (Change κ φ)) : View κ φ := changes.foldl apply view

def empty : View κ φ := fun _ => none

theorem run_append (view : View κ φ) (cs ds : List (Change κ φ)) :
    run view (cs ++ ds) = run (run view cs) ds := List.foldl_append

theorem apply_of_put {view : View κ φ} {c : Change κ φ} {x : κ} {v : φ} (h : c.put = some (x, v)) :
    apply view c x = some v := by simp [apply, h]

theorem apply_of_not_put {view : View κ φ} {c : Change κ φ} {x : κ} (h : c.key ≠ some x) :
    apply view c x = if c.clears x = true then none else view x := by
  unfold apply
  cases hp : c.put with
  | none => rfl
  | some kv =>
    obtain ⟨k, v⟩ := kv
    have hk : x ≠ k := fun hx => h (by simp [Change.key, hp, hx])
    simp [hk]

/-- A key that no change sets keeps what it holds, unless it is cleared. -/
theorem run_of_not_put {view : View κ φ} {cs : List (Change κ φ)} {x : κ}
    (h : ∀ c ∈ cs, c.key ≠ some x) :
    run view cs x = if cs.any (fun c => c.clears x) = true then none else view x := by
  induction cs generalizing view with
  | nil => rfl
  | cons c cs ih =>
    have hrest : run (apply view c) cs x
        = if cs.any (fun d => d.clears x) = true then none else apply view c x :=
      ih fun d hd => h d (List.mem_cons_of_mem c hd)
    change run (apply view c) cs x = _
    rw [hrest, apply_of_not_put (h c List.mem_cons_self)]
    cases hc : c.clears x <;> simp [hc]

/-- The last change that sets a key decides, with what clears it later. -/
theorem run_of_last_put {view : View κ φ} {before after : List (Change κ φ)} {c : Change κ φ} {x : κ}
    {v : φ} (hc : c.put = some (x, v)) (h : ∀ d ∈ after, d.key ≠ some x) :
    run view (before ++ c :: after) x =
      if after.any (fun d => d.clears x) = true then none else some v := by
  rw [run_append]
  change run (apply (run view before) c) after x = _
  rw [run_of_not_put h, apply_of_put hc]

theorem run_empty_of_not_put {cs : List (Change κ φ)} {x : κ} (h : ∀ c ∈ cs, c.key ≠ some x) :
    run empty cs x = none := by
  rw [run_of_not_put h]
  simp [empty]

/-- In a list of lists, the last element with a property, with what surrounds it. -/
theorem exists_last {α : Type} (p : α → Prop) {layers : List (List α)}
    (h : ∃ layer ∈ layers, ∃ a ∈ layer, p a) :
    ∃ below before a after above, layers = below ++ (before ++ a :: after) :: above ∧ p a ∧
      (∀ b ∈ after, ¬ p b) ∧ ∀ layer ∈ above, ∀ b ∈ layer, ¬ p b := by
  have inLayer : ∀ layer : List α, (∃ a ∈ layer, p a) →
      ∃ before a after, layer = before ++ a :: after ∧ p a ∧ ∀ b ∈ after, ¬ p b := by
    intro layer hlayer
    induction layer with
    | nil => simp at hlayer
    | cons a layer ih =>
      by_cases hrest : ∃ b ∈ layer, p b
      · obtain ⟨before, b, after, rfl, hb, hafter⟩ := ih hrest
        exact ⟨a :: before, b, after, rfl, hb, hafter⟩
      · obtain ⟨b, hb, hpb⟩ := hlayer
        rcases List.mem_cons.mp hb with rfl | hb
        · exact ⟨[], b, layer, rfl, hpb, fun d hd hpd => hrest ⟨d, hd, hpd⟩⟩
        · exact absurd ⟨b, hb, hpb⟩ hrest
  induction layers with
  | nil => simp at h
  | cons layer layers ih =>
    by_cases hrest : ∃ l ∈ layers, ∃ a ∈ l, p a
    · obtain ⟨below, before, a, after, above, rfl, ha, hafter, habove⟩ := ih hrest
      exact ⟨layer :: below, before, a, after, above, rfl, ha, hafter, habove⟩
    · obtain ⟨l, hl, hp⟩ := h
      rcases List.mem_cons.mp hl with rfl | hl
      · obtain ⟨before, a, after, rfl, ha, hafter⟩ := inLayer l hp
        exact ⟨[], before, a, after, layers, rfl, ha, hafter,
          fun m hm b hb hpb => hrest ⟨m, hm, b, hb, hpb⟩⟩
      · exact absurd ⟨l, hl, hp⟩ hrest

end Overlay
