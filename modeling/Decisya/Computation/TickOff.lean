import Mathlib.Data.List.Nodup
import Mathlib.Data.List.Perm.Basic

/-!
# Ticking off a table

A table with one entry for each key. What is met is looked up by its key and taken out; all of it is
met exactly when nothing unlisted is and nothing is left.
-/

namespace TickOff

set_option autoImplicit false

variable {κ β : Type} [DecidableEq κ]

def entry (table : List (κ × β)) (k : κ) : Option β :=
  (table.find? fun e => decide (e.1 = k)).map Prod.snd

def without (table : List (κ × β)) (k : κ) : List (κ × β) := table.filter fun e => decide (e.1 ≠ k)

def Keyed (table : List (κ × β)) : Prop := (table.map Prod.fst).Nodup

variable {table : List (κ × β)} {k : κ} {b : β}

omit [DecidableEq κ] in
theorem Keyed.tail {e : κ × β} (h : Keyed (e :: table)) : Keyed table := (List.nodup_cons.mp h).2

theorem Keyed.without (h : Keyed table) (k : κ) : Keyed (without table k) :=
  h.sublist (List.filter_sublist.map Prod.fst)

theorem without_eq_self (h : ∀ e ∈ table, e.1 ≠ k) : without table k = table := by
  apply List.filter_eq_self.mpr
  intro e he
  exact decide_eq_true (h e he)

theorem mem_of_entry (h : entry table k = some b) : (k, b) ∈ table := by
  obtain ⟨e, hfind, rfl⟩ := Option.map_eq_some_iff.mp h
  have hfound := List.find?_some hfind
  have hkey : e.1 = k := of_decide_eq_true hfound
  rw [← hkey]
  exact List.mem_of_find?_eq_some hfind

/-- Of a table with one entry for each key, taking a key out takes out that entry. -/
theorem perm_without (h : Keyed table) (hmem : (k, b) ∈ table) :
    table.Perm ((k, b) :: without table k) := by
  induction table with
  | nil => cases hmem
  | cons e rest ih =>
    have hhead : e.1 ∉ rest.map Prod.fst := (List.nodup_cons.mp h).1
    by_cases hkey : e.1 = k
    · have hrest : ∀ e' ∈ rest, e'.1 ≠ k := by
        intro e' he' hk
        apply hhead
        rw [hkey, ← hk]
        exact List.mem_map_of_mem he'
      have he : (k, b) = e := by
        rcases List.mem_cons.mp hmem with he | hmem
        · exact he
        · exact absurd rfl (hrest _ hmem)
      have hwithout : without (e :: rest) k = rest := by
        unfold without
        rw [List.filter_cons_of_neg (by simp [hkey])]
        exact without_eq_self hrest
      rw [hwithout, he]
    · have hrest : (k, b) ∈ rest := by
        rcases List.mem_cons.mp hmem with he | hmem
        · rw [← he] at hkey
          exact absurd rfl hkey
        · exact hmem
      have hwithout : without (e :: rest) k = e :: without rest k := by
        unfold without
        rw [List.filter_cons_of_pos (by simp [hkey])]
      rw [hwithout]
      exact ((ih h.tail hrest).cons e).trans (List.Perm.swap _ _ _)

theorem entry_of_mem (h : Keyed table) (hmem : (k, b) ∈ table) : entry table k = some b := by
  induction table with
  | nil => cases hmem
  | cons e rest ih =>
    unfold entry
    by_cases hkey : e.1 = k
    · rw [List.find?_cons_of_pos (by simp [hkey])]
      rcases List.mem_cons.mp hmem with he | hmem
      · rw [← he]
        rfl
      · have hhead : e.1 ∉ rest.map Prod.fst := (List.nodup_cons.mp h).1
        rw [hkey] at hhead
        exact absurd (List.mem_map_of_mem hmem) hhead
    · rw [List.find?_cons_of_neg (by simp [hkey])]
      rcases List.mem_cons.mp hmem with he | hmem
      · rw [← he] at hkey
        exact absurd rfl hkey
      · exact ih h.tail hmem

/-- One more is met: it is in the table, and the rest is what is left of it. -/
theorem cons_perm_iff {rest : List (κ × β)} (h : Keyed table) :
    ((k, b) :: rest).Perm table ↔ entry table k = some b ∧ rest.Perm (without table k) := by
  constructor
  · intro hperm
    have hmem : (k, b) ∈ table := hperm.subset List.mem_cons_self
    exact ⟨entry_of_mem h hmem, (hperm.trans (perm_without h hmem)).cons_inv⟩
  · rintro ⟨hentry, hperm⟩
    exact (hperm.cons _).trans (perm_without h (mem_of_entry hentry)).symm

end TickOff
