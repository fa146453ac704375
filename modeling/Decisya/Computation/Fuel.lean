import Mathlib.Data.Nat.Notation

/-!
# Computations with fuel

A recursion that is not structural is run with an amount of fuel, and gives `none` when that
runs out. It ends if one result is given by every amount from some bound on.
-/

namespace Fuel

set_option autoImplicit false

variable {α β : Type} {bound more : ℕ}

/-- The result no longer depends on the fuel, and there is one. -/
def Settles (bound : ℕ) (run : ℕ → Option α) : Prop :=
  ∃ result, ∀ fuel, bound ≤ fuel → run fuel = some result

theorem settles_some (result : α) : Settles bound fun _ => some result :=
  ⟨result, fun _ _ => rfl⟩

theorem Settles.mono {run : ℕ → Option α} (h : Settles bound run) (hle : bound ≤ more) :
    Settles more run := by
  obtain ⟨result, hresult⟩ := h
  exact ⟨result, fun fuel hfuel => hresult fuel (Nat.le_trans hle hfuel)⟩

/-- A recursion passes on one unit of fuel less than it has. -/
theorem Settles.succ {run step : ℕ → Option α} (h : Settles bound step)
    (hstep : ∀ fuel, run (fuel + 1) = step fuel) : Settles (bound + 1) run := by
  obtain ⟨result, hresult⟩ := h
  refine ⟨result, fun fuel hfuel => ?_⟩
  obtain ⟨rest, rfl⟩ := Nat.exists_eq_add_of_le' hfuel
  have hrest := hresult (rest + bound) (Nat.le_add_left bound rest)
  rw [← hstep] at hrest
  exact hrest

theorem Settles.comp_succ {run : ℕ → Option α} (h : Settles (bound + 1) run) :
    Settles bound fun fuel => run (fuel + 1) := by
  obtain ⟨result, hresult⟩ := h
  exact ⟨result, fun fuel hfuel => hresult (fuel + 1) (Nat.succ_le_succ hfuel)⟩

theorem Settles.bind {run : ℕ → Option α} {next : ℕ → α → Option β} (h : Settles bound run)
    (hnext : ∀ a, Settles bound fun fuel => next fuel a) :
    Settles bound fun fuel => (run fuel).bind (next fuel) := by
  obtain ⟨a, ha⟩ := h
  obtain ⟨b, hb⟩ := hnext a
  refine ⟨b, fun fuel hfuel => ?_⟩
  change (run fuel).bind (next fuel) = some b
  rw [ha fuel hfuel]
  exact hb fuel hfuel

theorem Settles.map {run : ℕ → Option α} (h : Settles bound run) (f : α → β) :
    Settles bound fun fuel => (run fuel).map f := by
  obtain ⟨a, ha⟩ := h
  refine ⟨f a, fun fuel hfuel => ?_⟩
  change (run fuel).map f = some (f a)
  rw [ha fuel hfuel]
  rfl

theorem settles_ite {c : Prop} [Decidable c] {run other : ℕ → Option α}
    (hrun : c → Settles bound run) (hother : ¬ c → Settles bound other) :
    Settles bound fun fuel => if c then run fuel else other fuel := by
  by_cases hc : c
  · obtain ⟨a, ha⟩ := hrun hc
    refine ⟨a, fun fuel hfuel => ?_⟩
    change (if c then run fuel else other fuel) = some a
    rw [if_pos hc]
    exact ha fuel hfuel
  · obtain ⟨a, ha⟩ := hother hc
    refine ⟨a, fun fuel hfuel => ?_⟩
    change (if c then run fuel else other fuel) = some a
    rw [if_neg hc]
    exact ha fuel hfuel

/-- A search stops at the first element that passes the test. -/
def search (test : α → Option Bool) : List α → Option Bool
  | [] => some false
  | a :: rest => (test a).bind fun found => if found = true then some true else search test rest

theorem search_eq_false {test : α → Option Bool} {l : List α} :
    search test l = some false ↔ ∀ a ∈ l, test a = some false := by
  induction l with
  | nil => exact iff_of_true rfl fun _ ha => absurd ha List.not_mem_nil
  | cons a rest ih =>
    rw [search, List.forall_mem_cons, ← ih]
    cases test a with
    | none => exact iff_of_false (fun h => nomatch h) fun h => nomatch h.1
    | some found =>
      cases found with
      | false => exact (and_iff_right rfl).symm
      | true => exact iff_of_false (fun h => nomatch h) fun h => nomatch h.1

theorem settles_search {test : ℕ → α → Option Bool} {l : List α}
    (h : ∀ a ∈ l, Settles bound fun fuel => test fuel a) :
    Settles bound fun fuel => search (test fuel) l := by
  induction l with
  | nil => exact settles_some false
  | cons a rest ih =>
    have hrest := ih fun b hb => h b (List.mem_cons_of_mem a hb)
    apply (h a List.mem_cons_self).bind
    intro found
    exact settles_ite (fun _ => settles_some true) fun _ => hrest

end Fuel
