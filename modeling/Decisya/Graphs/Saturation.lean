import Mathlib.Data.List.Basic
import Mathlib.Data.Nat.Notation
import Mathlib.Logic.Relation

/-!
# Marking in passes over the edges

`saturate` passes over a list of edges until a pass marks nothing. What it marks is what can be
reached, and one pass more than there are edges is enough.
-/

namespace Graphs

set_option autoImplicit false

variable {α : Type}

section Defs

variable [DecidableEq α]

/-- One pass, and whether it marked a node. A node marked early in the pass counts at once. -/
def pass (allowed : α → Bool) : List (α × α) → List α → List α × Bool
  | [], marked => (marked, false)
  | (src, dst) :: edges, marked =>
    if src ∈ marked ∧ dst ∉ marked ∧ allowed dst = true then
      ((pass allowed edges (dst :: marked)).1, true)
    else pass allowed edges marked

/-- `none` when the passes run out. -/
def saturate (allowed : α → Bool) (edges : List (α × α)) : ℕ → List α → Option (List α)
  | 0, _ => none
  | passes + 1, marked =>
    if (pass allowed edges marked).2 = true then
      saturate allowed edges passes (pass allowed edges marked).1
    else some (pass allowed edges marked).1

/-- The edges that still lead to an unmarked node. -/
def unmarked (edges : List (α × α)) (marked : List α) : ℕ :=
  edges.countP fun e => decide (e.2 ∉ marked)

end Defs

/-- An edge to a node that may be marked. -/
def Edge (allowed : α → Bool) (edges : List (α × α)) (a b : α) : Prop :=
  (a, b) ∈ edges ∧ allowed b = true

def Reached (allowed : α → Bool) (edges : List (α × α)) (start : List α) (b : α) : Prop :=
  ∃ a ∈ start, Relation.ReflTransGen (Edge allowed edges) a b

variable {allowed : α → Bool} {edges rest : List (α × α)} {marked start : List α} {a b : α}

theorem Reached.of_mem (h : b ∈ start) : Reached allowed edges start b :=
  ⟨b, h, Relation.ReflTransGen.refl⟩

theorem Reached.tail (h : Reached allowed edges start a) (hedge : Edge allowed edges a b) :
    Reached allowed edges start b := by
  obtain ⟨s, hs, hpath⟩ := h
  exact ⟨s, hs, hpath.tail hedge⟩

/-- Reaching depends on the set of edges and the set of starting nodes only. -/
theorem Reached.mono {edges' : List (α × α)} {start' : List α} (hedges : ∀ e ∈ edges, e ∈ edges')
    (hstart : ∀ s ∈ start, s ∈ start') (h : Reached allowed edges start b) :
    Reached allowed edges' start' b := by
  obtain ⟨s, hs, hpath⟩ := h
  have hsub : ∀ x y, Edge allowed edges x y → Edge allowed edges' x y :=
    fun x y hxy => ⟨hedges _ hxy.1, hxy.2⟩
  exact ⟨s, hstart s hs, Relation.ReflTransGen.mono hsub s b hpath⟩

section Marking

variable [DecidableEq α]

/-! ## One pass -/

theorem subset_pass (h : b ∈ marked) : b ∈ (pass allowed rest marked).1 := by
  induction rest generalizing marked with
  | nil => exact h
  | cons e rest ih =>
    obtain ⟨src, dst⟩ := e
    rw [pass]
    split
    · exact ih (List.mem_cons_of_mem dst h)
    · exact ih h

theorem reached_pass (hrest : ∀ e ∈ rest, e ∈ edges)
    (hmarked : ∀ c ∈ marked, Reached allowed edges start c)
    (h : b ∈ (pass allowed rest marked).1) : Reached allowed edges start b := by
  induction rest generalizing marked with
  | nil => exact hmarked b h
  | cons e rest ih =>
    obtain ⟨src, dst⟩ := e
    have htail : ∀ e ∈ rest, e ∈ edges := fun e he => hrest e (List.mem_cons_of_mem _ he)
    rw [pass] at h
    split at h
    · rename_i hedge
      apply ih htail _ h
      intro c hc
      rcases List.mem_cons.mp hc with rfl | hc
      · exact (hmarked src hedge.1).tail ⟨hrest _ List.mem_cons_self, hedge.2.2⟩
      · exact hmarked c hc
    · exact ih htail hmarked h

/-- A pass that marks nothing leaves the marked nodes closed. -/
theorem closed_of_pass (h : (pass allowed rest marked).2 = false) :
    (pass allowed rest marked).1 = marked ∧
      ∀ a b, Edge allowed rest a b → a ∈ marked → b ∈ marked := by
  induction rest with
  | nil => exact ⟨rfl, fun a b hedge _ => absurd hedge.1 List.not_mem_nil⟩
  | cons e rest ih =>
    obtain ⟨src, dst⟩ := e
    rw [pass] at h ⊢
    split at h
    · cases h
    · rename_i hskip
      obtain ⟨hsame, hclosed⟩ := ih h
      rw [if_neg hskip]
      refine ⟨hsame, fun a b hedge ha => ?_⟩
      rcases List.mem_cons.mp hedge.1 with heq | hmem
      · cases heq
        by_contra hb
        exact hskip ⟨ha, hb, hedge.2⟩
      · exact hclosed a b ⟨hmem, hedge.2⟩ ha

theorem exists_marked_of_pass (h : (pass allowed rest marked).2 = true) :
    ∃ e ∈ rest, e.2 ∉ marked ∧ e.2 ∈ (pass allowed rest marked).1 := by
  induction rest with
  | nil => cases h
  | cons e rest ih =>
    obtain ⟨src, dst⟩ := e
    rw [pass] at h ⊢
    split at h
    · rename_i hedge
      rw [if_pos hedge]
      exact ⟨(src, dst), List.mem_cons_self, hedge.2.1, subset_pass List.mem_cons_self⟩
    · rename_i hskip
      rw [if_neg hskip]
      obtain ⟨e, he, hnew, hmarked⟩ := ih h
      exact ⟨e, List.mem_cons_of_mem _ he, hnew, hmarked⟩

theorem unmarked_pass_lt (h : (pass allowed edges marked).2 = true) :
    unmarked edges (pass allowed edges marked).1 < unmarked edges marked := by
  obtain ⟨e, he, hnew, hmarked⟩ := exists_marked_of_pass h
  unfold unmarked
  rw [List.countP_eq_length_filter, List.countP_eq_length_filter]
  have hsub : (edges.filter fun e => decide (e.2 ∉ (pass allowed edges marked).1)).Sublist
      (edges.filter fun e => decide (e.2 ∉ marked)) := by
    apply List.monotone_filter_right
    intro x hx
    rw [decide_eq_true_eq] at hx ⊢
    exact fun hold => hx (subset_pass hold)
  apply Nat.lt_of_le_of_ne hsub.length_le
  intro hlen
  have heq := hsub.eq_of_length hlen
  have hin : e ∈ edges.filter fun e => decide (e.2 ∉ marked) :=
    List.mem_filter.mpr ⟨he, decide_eq_true hnew⟩
  rw [← heq, List.mem_filter, decide_eq_true_eq] at hin
  exact hin.2 hmarked

/-! ## All passes -/

/-- The passes end on every graph. -/
theorem saturate_isSome {passes : ℕ} (h : unmarked edges marked < passes) :
    ∃ result, saturate allowed edges passes marked = some result := by
  induction passes generalizing marked with
  | zero => omega
  | succ passes ih =>
    rw [saturate]
    split
    · rename_i hgrew
      have hlt := unmarked_pass_lt hgrew
      exact ih (by omega)
    · exact ⟨_, rfl⟩

theorem saturate_of_length_lt {passes : ℕ} (h : edges.length < passes) :
    ∃ result, saturate allowed edges passes marked = some result := by
  have hle : unmarked edges marked ≤ edges.length := List.countP_le_length
  exact saturate_isSome (by omega)

theorem saturate_spec {passes : ℕ} {result : List α}
    (h : saturate allowed edges passes marked = some result) :
    (∀ b ∈ marked, b ∈ result) ∧ (∀ b ∈ result, Reached allowed edges marked b) ∧
      ∀ a b, Edge allowed edges a b → a ∈ result → b ∈ result := by
  induction passes generalizing marked with
  | zero => cases h
  | succ passes ih =>
    have hreached : ∀ b ∈ (pass allowed edges marked).1, Reached allowed edges marked b :=
      fun b hb => reached_pass (fun _ he => he) (fun c hc => Reached.of_mem hc) hb
    rw [saturate] at h
    split at h
    · obtain ⟨hsub, hsound, hclosed⟩ := ih h
      refine ⟨fun b hb => hsub b (subset_pass hb), fun b hb => ?_, hclosed⟩
      obtain ⟨a, ha, hpath⟩ := hsound b hb
      obtain ⟨s, hs, hfirst⟩ := hreached a ha
      exact ⟨s, hs, hfirst.trans hpath⟩
    · rename_i hstopped
      cases h
      obtain ⟨hsame, hclosed⟩ := closed_of_pass (Bool.eq_false_iff.mpr hstopped)
      rw [hsame]
      exact ⟨fun b hb => hb, fun b hb => Reached.of_mem hb, hclosed⟩

/-- What is marked in the end is what can be reached. -/
theorem mem_saturate {passes : ℕ} {result : List α}
    (h : saturate allowed edges passes marked = some result) :
    b ∈ result ↔ Reached allowed edges marked b := by
  obtain ⟨hsub, hsound, hclosed⟩ := saturate_spec h
  constructor
  · exact hsound b
  · rintro ⟨s, hs, hpath⟩
    induction hpath with
    | refl => exact hsub s hs
    | tail _ hedge ih => exact hclosed _ _ hedge ih

end Marking

end Graphs
