import Decisya.Sql.Invariant
import Mathlib.Data.List.Perm.Basic

/-!
# What an operation leaves alone

The rows a transaction inserted are its own: others only wait for them. Where no operation
updates or deletes a kind of rows, everyone sees exactly the rows of that kind that
committed transactions inserted.
-/

namespace Sql

set_option autoImplicit false

section Frames
variable {τ ρ κ : Type} [DecidableEq τ] {T : Schema ρ κ}

/-- The rows of kind `q` that transaction `u` inserted. -/
def Db.own (s : Db τ ρ) (q : ρ → Bool) (u : τ) : List ρ :=
  (s.versions.filter fun v => decide (v.xmin = u) && q v.row).map Version.row

/-- Rows of kind `q` are neither updated nor deleted by it, nor made by an update. -/
def Op.Spares (q : ρ → Bool) : Op ρ → Prop
  | .update p f => ∀ row, p row = true → q row = false ∧ q (f row) = false
  | .delete p => ∀ row, p row = true → q row = false
  | _ => True

/-- No row of kind `q` is inserted either. -/
def Op.AddsNone (q : ρ → Bool) : Op ρ → Prop
  | .insert row => q row = false
  | o => o.Spares q

theorem Op.AddsNone.spares {q : ρ → Bool} {o : Op ρ} (h : o.AddsNone q) : o.Spares q := by
  cases o with
  | insert row => trivial
  | _ => exact h

def Untouched (s : Db τ ρ) (q : ρ → Bool) : Prop := ∀ v ∈ s.versions, q v.row = true → v.xmax = none

/-! ## Own rows -/

variable {s s' : Db τ ρ} {t u : τ} {q : ρ → Bool}

theorem own_congr (h : s'.versions = s.versions) (u : τ) : s'.own q u = s.own q u := by
  unfold Db.own
  rw [h]

/-- The rows of kind `q` are among all the rows a transaction inserted. -/
theorem own_filter (s : Db τ ρ) (q : ρ → Bool) (u : τ) :
    s.own q u = (s.own (fun _ => true) u).filter q := by
  unfold Db.own
  rw [List.filter_map, List.filter_filter]
  congr 1
  apply List.filter_congr
  intro v _
  simp [Bool.and_comm]

theorem own_push (s : Db τ ρ) (rows : List ρ) (u : τ) :
    (s.push t rows).own q u = s.own q u ++ if u = t then rows.filter q else [] := by
  unfold Db.own Db.push
  rw [List.filter_append, List.map_append]
  congr 1
  by_cases hu : u = t
  · subst hu
    rw [if_pos rfl, List.filter_map, List.map_map]
    simp [Function.comp_def]
  · rw [if_neg hu, List.map_eq_nil_iff, List.filter_eq_nil_iff]
    intro v hv
    obtain ⟨row, -, rfl⟩ := List.mem_map.mp hv
    simp [Ne.symm hu]

theorem own_mark (s : Db τ ρ) (p : ρ → Bool) (u : τ) : (s.mark t p).own q u = s.own q u := by
  refine filter_map_row (fun v => ?_) (fun v _ => ?_)
  · exact marked_row p v
  · change (decide ((marked s t p v).xmin = u) && q (marked s t p v).row) = _
    rw [marked_row, marked_xmin]

theorem own_undo (s : Db τ ρ) (u : τ) : (s.undo t).own q u =
    ((s.versions.filter fun v => decide ¬v.Since t (s.tx t).savepoint).filter
      fun v => decide (v.xmin = u) && q v.row).map Version.row :=
  filter_map_row (fun _ => rfl) fun _ _ => rfl

theorem own_undo_ne (s : Db τ ρ) (hu : u ≠ t) : (s.undo t).own q u = s.own q u := by
  rw [own_undo, List.filter_filter]
  congr 1
  apply List.filter_congr
  intro v _
  by_cases hv : v.xmin = u
  · simp [Version.Since, hv, hu]
  · simp [hv]

theorem own_undo_sublist (s : Db τ ρ) (u : τ) : ((s.undo t).own q u).Sublist (s.own q u) := by
  rw [own_undo]
  exact (List.filter_sublist.filter _).map _

theorem push_filter_nil {p : ρ → Bool} {f : ρ → ρ}
    (h : ∀ row, p row = true → q row = false ∧ q (f row) = false) :
    ((s.targets t p).map fun v => f v.row).filter q = [] := by
  rw [List.filter_eq_nil_iff]
  intro row hrow
  obtain ⟨v, hv, rfl⟩ := List.mem_map.mp hrow
  rw [(h v.row (mem_targets.mp hv).2.2).2]
  exact Bool.false_ne_true

/-- Other transactions keep their status and their own rows. -/
theorem run_ne {o : Op ρ} {v : Value ρ o} (hspares : o.Spares q) (h : run T t o s v s')
    (hu : u ≠ t) : s'.tx u = s.tx u ∧ s'.own q u = s.own q u := by
  cases o with
  | begin =>
    obtain ⟨-, rfl⟩ := h
    exact ⟨Db.setTx_ne _ _ _ hu, rfl⟩
  | savepoint =>
    obtain ⟨-, rfl⟩ := h
    exact ⟨Db.setTx_ne _ _ _ hu, rfl⟩
  | rollbackTo =>
    obtain ⟨-, rfl⟩ := h
    exact ⟨Db.setTx_ne _ _ _ hu, own_undo_ne s hu⟩
  | commit =>
    rcases h with ⟨-, rfl⟩ | ⟨-, -, rfl⟩
    · exact ⟨Db.setTx_ne _ _ _ hu, rfl⟩
    · exact ⟨Db.abort_ne _ _ hu, own_congr (Db.abort_versions s t) u⟩
  | rollback =>
    obtain rfl := h
    exact ⟨Db.abort_ne _ _ hu, own_congr (Db.abort_versions s t) u⟩
  | query p =>
    obtain ⟨-, -, rfl⟩ := h
    exact ⟨rfl, rfl⟩
  | insert row =>
    obtain ⟨-, -, -, rfl⟩ := h
    refine ⟨rfl, ?_⟩
    rw [own_push, if_neg hu, List.append_nil]
  | update p f =>
    obtain ⟨-, -, -, -, rfl⟩ := h
    refine ⟨rfl, ?_⟩
    rw [own_push, if_neg hu, List.append_nil, own_mark]
  | delete p =>
    obtain ⟨-, -, -, rfl⟩ := h
    exact ⟨rfl, own_mark s p u⟩

theorem exec_ne {o : Op ρ} {r : Reply ρ κ o} (hspares : o.Spares q) (h : exec T t o s r s')
    (hu : u ≠ t) : s'.tx u = s.tx u ∧ s'.own q u = s.own q u := by
  have hfail : (s.fail t).tx u = s.tx u ∧ (s.fail t).own q u = s.own q u :=
    ⟨Db.fail_ne _ _ hu, own_congr (Db.fail_versions s t) u⟩
  cases r with
  | ok v => exact run_ne hspares h hu
  | error e =>
    cases e with
    | unique k =>
      obtain ⟨_, -, -, -, -, rfl⟩ := h
      exact hfail
    | other =>
      rcases h with rfl | rfl | rfl | ⟨v, hrun⟩
      · exact ⟨rfl, rfl⟩
      · exact hfail
      · exact ⟨Db.abort_ne _ _ hu, own_congr (Db.abort_versions s t) u⟩
      · exact run_ne hspares hrun hu

theorem run_own_sublist {o : Op ρ} {v : Value ρ o} (hadds : o.AddsNone q) (h : run T t o s v s') :
    (s'.own q t).Sublist (s.own q t) := by
  cases o with
  | begin =>
    obtain ⟨-, rfl⟩ := h
    exact List.Sublist.refl _
  | savepoint =>
    obtain ⟨-, rfl⟩ := h
    exact List.Sublist.refl _
  | rollbackTo =>
    obtain ⟨-, rfl⟩ := h
    exact own_undo_sublist s t
  | commit =>
    rcases h with ⟨-, rfl⟩ | ⟨-, -, rfl⟩
    · exact List.Sublist.refl _
    · rw [own_congr (Db.abort_versions s t)]
  | rollback =>
    obtain rfl := h
    rw [own_congr (Db.abort_versions s t)]
  | query p =>
    obtain ⟨-, -, rfl⟩ := h
    exact List.Sublist.refl _
  | insert row =>
    obtain ⟨-, -, -, rfl⟩ := h
    have hnone : [row].filter q = [] := by
      change q row = false at hadds
      simp [hadds]
    rw [own_push, if_pos rfl, hnone, List.append_nil]
  | update p f =>
    obtain ⟨-, -, -, -, rfl⟩ := h
    rw [own_push, if_pos rfl, push_filter_nil hadds, List.append_nil, own_mark]
  | delete p =>
    obtain ⟨-, -, -, rfl⟩ := h
    rw [own_mark]

/-- What adds no row of the kind leaves its transaction at most the rows it had. -/
theorem exec_own_sublist {o : Op ρ} {r : Reply ρ κ o} (hadds : o.AddsNone q)
    (h : exec T t o s r s') : (s'.own q t).Sublist (s.own q t) := by
  cases r with
  | ok v => exact run_own_sublist hadds h
  | error e =>
    cases e with
    | unique k =>
      obtain ⟨_, -, -, -, -, rfl⟩ := h
      rw [own_congr (Db.fail_versions s t)]
    | other =>
      rcases h with rfl | rfl | rfl | ⟨v, hrun⟩
      · exact List.Sublist.refl _
      · rw [own_congr (Db.fail_versions s t)]
      · rw [own_congr (Db.abort_versions s t)]
      · exact run_own_sublist hadds hrun

/-- Only a commit makes a transaction a committed one. -/
theorem exec_not_committed {o : Op ρ} {r : Reply ρ κ o} (hc : Consistent T s)
    (hopen : (s.tx t).status ≠ .committed) (ho : o ≠ .commit) (h : exec T t o s r s') :
    (s'.tx t).status ≠ .committed := by
  have hc' := hc.exec h
  rcases exec_quiet h with hquiet | ⟨hcommit, -, -⟩
  · intro hcommitted
    have hmem := (hc'.logged t).mpr hcommitted
    rw [hquiet.commits] at hmem
    exact hopen ((hc.logged t).mp hmem)
  · exact absurd hcommit ho

/-! ## Rows that nobody deletes -/

omit [DecidableEq τ] in
theorem Untouched.of_all (h : Untouched s fun _ => true) (q : ρ → Bool) : Untouched s q :=
  fun v hv _ => h v hv rfl

theorem Untouched.congr (h : Untouched s q) (hv : s'.versions = s.versions) : Untouched s' q := by
  unfold Untouched
  rw [hv]
  exact h

theorem Untouched.push (h : Untouched s q) (rows : List ρ) : Untouched (s.push t rows) q := by
  intro v hv hq
  rcases List.mem_append.mp hv with hv | hv
  · exact h v hv hq
  · obtain ⟨row, -, rfl⟩ := List.mem_map.mp hv
    rfl

theorem Untouched.mark (h : Untouched s q) {p : ρ → Bool} (hp : ∀ row, p row = true → q row = false) :
    Untouched (s.mark t p) q := by
  intro v hv hq
  obtain ⟨w, hw, rfl⟩ := List.mem_map.mp hv
  split at hq
  · rename_i htarget
    change q w.row = true at hq
    rw [hp w.row htarget.2] at hq
    cases hq
  · rename_i htarget
    rw [if_neg htarget]
    exact h w hw hq

theorem Untouched.undo (h : Untouched s q) : Untouched (s.undo t) q := by
  intro v hv hq
  obtain ⟨w, hw, rfl⟩ := List.mem_map.mp hv
  have hx := h w (List.mem_filter.mp hw).1 hq
  simp [Version.restore, hx]

theorem Untouched.run {o : Op ρ} {v : Value ρ o} (hs : Untouched s q) (hspares : o.Spares q)
    (h : Sql.run T t o s v s') : Untouched s' q := by
  cases o with
  | begin =>
    obtain ⟨-, rfl⟩ := h
    exact hs
  | savepoint =>
    obtain ⟨-, rfl⟩ := h
    exact hs
  | rollbackTo =>
    obtain ⟨-, rfl⟩ := h
    exact hs.undo
  | commit =>
    rcases h with ⟨-, rfl⟩ | ⟨-, -, rfl⟩
    · exact hs
    · exact hs.congr (Db.abort_versions s t)
  | rollback =>
    obtain rfl := h
    exact hs.congr (Db.abort_versions s t)
  | query p =>
    obtain ⟨-, -, rfl⟩ := h
    exact hs
  | insert row =>
    obtain ⟨-, -, -, rfl⟩ := h
    exact hs.push _
  | update p f =>
    obtain ⟨-, -, -, -, rfl⟩ := h
    exact Untouched.push (s := s.mark t p) (hs.mark fun row hrow => (hspares row hrow).1) _
  | delete p =>
    obtain ⟨-, -, -, rfl⟩ := h
    exact hs.mark hspares

theorem Untouched.exec {o : Op ρ} {r : Reply ρ κ o} (hs : Untouched s q) (hspares : o.Spares q)
    (h : Sql.exec T t o s r s') : Untouched s' q := by
  cases r with
  | ok v => exact hs.run hspares h
  | error e =>
    cases e with
    | unique k =>
      obtain ⟨_, -, -, -, -, rfl⟩ := h
      exact hs.congr (Db.fail_versions s t)
    | other =>
      rcases h with rfl | rfl | rfl | ⟨v, hrun⟩
      · exact hs
      · exact hs.congr (Db.fail_versions s t)
      · exact hs.congr (Db.abort_versions s t)
      · exact hs.run hspares hrun

/-! ## What everyone sees of them -/

omit [DecidableEq τ] in
theorem committed_of_untouched {tx : τ → Tx} {v : Version τ ρ} (h : v.xmax = none) :
    v.Committed tx ↔ (tx v.xmin).status = .committed := by
  simp [Version.Committed, h]

theorem mem_own {row : ρ} : row ∈ s.own q u ↔
    ∃ v ∈ s.versions, v.xmin = u ∧ q v.row = true ∧ v.row = row := by
  simp [Db.own, and_assoc]

/-- A row of kind `q` is seen exactly when a committed transaction inserted it. -/
theorem mem_visible_iff (hs : Untouched s q) {row : ρ} (hq : q row = true) :
    row ∈ s.visible ↔ ∃ u, (s.tx u).status = .committed ∧ row ∈ s.own q u := by
  unfold Db.visible
  rw [List.mem_map]
  constructor
  · intro h
    obtain ⟨v, hv, rfl⟩ := h
    obtain ⟨hmem, hcommitted⟩ := List.mem_filter.mp hv
    have hx := hs v hmem hq
    exact ⟨v.xmin, (committed_of_untouched hx).mp (of_decide_eq_true hcommitted),
      mem_own.mpr ⟨v, hmem, rfl, hq, rfl⟩⟩
  · intro h
    obtain ⟨u, hu, hrow⟩ := h
    obtain ⟨v, hmem, rfl, hqv, rfl⟩ := mem_own.mp hrow
    exact ⟨v, List.mem_filter.mpr ⟨hmem, decide_eq_true ((committed_of_untouched (hs v hmem hqv)).mpr hu)⟩,
      rfl⟩

/-- Where each committed transaction inserted one row of kind `q`, everyone sees these rows. -/
theorem visible_perm (hc : Consistent T s) (hs : Untouched s q) {g : τ → ρ}
    (h : ∀ u, (s.tx u).status = .committed → s.own q u = [g u]) :
    (s.visible.filter q).Perm (s.commits.map g) := by
  let kept := s.versions.filter fun v => decide ((s.tx v.xmin).status = .committed) && q v.row
  have hvisible : s.visible.filter q = kept.map Version.row := by
    unfold Db.visible
    rw [List.filter_map, List.filter_filter]
    congr 1
    apply List.filter_congr
    intro v hv
    by_cases hq : q v.row = true
    · have hx : v.Committed s.tx ↔ (s.tx v.xmin).status = .committed :=
        committed_of_untouched (hs v hv hq)
      simp [hq, hx]
    · simp [hq]
  have hrow : kept.map Version.row = (kept.map Version.xmin).map g := by
    rw [List.map_map]
    apply List.map_congr_left
    intro v hv
    obtain ⟨hmem, hkeep⟩ := List.mem_filter.mp hv
    rw [Bool.and_eq_true, decide_eq_true_eq] at hkeep
    have hown : v.row ∈ s.own q v.xmin := mem_own.mpr ⟨v, hmem, rfl, hkeep.2, rfl⟩
    rw [h v.xmin hkeep.1] at hown
    exact List.mem_singleton.mp hown
  have hperm : (kept.map Version.xmin).Perm s.commits := by
    rw [List.perm_iff_count]
    intro u
    by_cases hu : (s.tx u).status = .committed
    · have hone : (kept.map Version.xmin).count u = (s.own q u).length := by
        rw [List.count_eq_countP, List.countP_map, List.countP_filter, List.countP_eq_length_filter,
          Db.own, List.length_map]
        congr 1
        apply List.filter_congr
        intro v _
        by_cases hv : v.xmin = u
        · simp [hv, hu]
        · simp [hv]
      rw [hone, h u hu, hc.nodup.count, if_pos ((hc.logged u).mpr hu)]
      rfl
    · have hnot : u ∉ s.commits := fun hmem => hu ((hc.logged u).mp hmem)
      rw [List.count_eq_zero_of_not_mem hnot, List.count_eq_zero]
      intro hmem
      obtain ⟨v, hv, rfl⟩ := List.mem_map.mp hmem
      have hkeep := (List.mem_filter.mp hv).2
      rw [Bool.and_eq_true, decide_eq_true_eq] at hkeep
      exact hu hkeep.1
  rw [hvisible, hrow]
  exact hperm.map g

/-- Everyone sees as many rows of a sort as transactions that inserted one committed. -/
theorem countP_visible (hc : Consistent T s) (hs : Untouched s q) {p : ρ → Bool} {m : τ → Bool}
    (hp : ∀ row, p row = true → q row = true)
    (h : ∀ u, (s.tx u).status = .committed → ∃ row, s.own q u = [row] ∧ p row = m u) :
    s.visible.countP p = s.commits.countP m := by
  by_cases hnonempty : Nonempty ρ
  · obtain ⟨default⟩ := hnonempty
    have hrow : ∀ u, ∃ row, (s.tx u).status = .committed → s.own q u = [row] ∧ p row = m u := by
      intro u
      by_cases hu : (s.tx u).status = .committed
      · obtain ⟨row, hown⟩ := h u hu
        exact ⟨row, fun _ => hown⟩
      · exact ⟨default, fun hc => absurd hc hu⟩
    choose g hg using hrow
    have hperm := visible_perm hc hs fun u hu => (hg u hu).1
    have hkind : s.visible.countP p = (s.visible.filter q).countP p := by
      rw [List.countP_filter]
      apply List.countP_congr
      intro row _
      constructor
      · intro hrow
        rw [hrow, hp row hrow]
        rfl
      · intro hboth
        exact (Bool.and_eq_true_iff.mp hboth).1
    rw [hkind, hperm.countP_eq, List.countP_map]
    apply List.countP_congr
    intro u hu
    rw [Function.comp_apply, (hg u ((hc.logged u).mp hu)).2]
  · have hcommits : s.commits = [] := by
      rw [List.eq_nil_iff_forall_not_mem]
      intro u hu
      obtain ⟨row, -⟩ := h u ((hc.logged u).mp hu)
      exact hnonempty ⟨row⟩
    have hvisible : s.visible = [] := by
      rw [List.eq_nil_iff_forall_not_mem]
      exact fun row _ => hnonempty ⟨row⟩
    rw [hcommits, hvisible]
    rfl

end Frames

end Sql
