import Decisya.Sql.Invariant

/-!
# The tables as one transaction sees them

Between its `begin` and its `commit` a transaction reads and writes its own view of the
tables. It starts from what everyone sees; when it commits, everyone sees its view.
-/

namespace Sql

set_option autoImplicit false

section View
variable {τ ρ κ : Type} [DecidableEq τ] {T : Schema ρ κ} {s s' : Db τ ρ} {t : τ}

theorem visibleTo_of_idle (hs : Consistent T s) (h : (s.tx t).status = .idle) :
    s.visibleTo t = s.visible := by
  unfold Db.visibleTo Db.visible
  congr 1
  apply List.filter_congr
  intro v hv
  rw [decide_eq_decide]
  have hdeleted : ∀ d ∈ v.xmax, d.1 ≠ t := by
    intro d hd heq
    subst heq
    exact (hs.deleted v hv d hd).1 h
  constructor
  · intro hvis
    refine ⟨?_, fun d hd => (hvis.2 d hd).2⟩
    rcases hvis.1 with ⟨-, hactive⟩ | hcommitted
    · rw [h] at hactive
      cases hactive
    · exact hcommitted
  · intro hc
    exact ⟨.inr hc.1, fun d hd => ⟨hdeleted d hd, hc.2 d hd⟩⟩

theorem visibleTo_begin (hs : Consistent T s) (h : (s.tx t).status = .idle) {n : ℕ} {b : Bool} :
    (s.setTx t ⟨.active, n, b⟩).visibleTo t = s.visible := by
  rw [← visibleTo_of_idle hs h]
  unfold Db.visibleTo
  congr 1
  apply List.filter_congr
  intro v hv
  rw [decide_eq_decide]
  have hne : v.xmin ≠ t := by
    intro heq
    subst heq
    exact (hs.inserted v hv).1 h
  have hother : ∀ d ∈ v.xmax, d.1 ≠ t := by
    intro d hd heq
    subst heq
    exact (hs.deleted v hv d hd).1 h
  unfold Version.VisibleTo
  rw [Db.setTx_ne s t _ hne, Db.setTx_versions] at *
  refine and_congr (by simp [hne]) ?_
  constructor
  · intro hd d hdx
    rw [← Db.setTx_ne s t ⟨.active, n, b⟩ (hother d hdx)]
    exact hd d hdx
  · intro hd d hdx
    rw [Db.setTx_ne s t ⟨.active, n, b⟩ (hother d hdx)]
    exact hd d hdx

theorem visibleTo_setTx {tx : Tx} (h : tx.status = (s.tx t).status) :
    (s.setTx t tx).visibleTo t = s.visibleTo t := by
  have hstatus : ∀ u, ((s.setTx t tx).tx u).status = (s.tx u).status := by
    intro u
    by_cases hu : u = t
    · subst hu
      rw [Db.setTx_self, h]
    · rw [Db.setTx_ne _ _ _ hu]
  unfold Db.visibleTo
  congr 1
  apply List.filter_congr
  intro v _
  rw [decide_eq_decide]
  unfold Version.VisibleTo
  simp only [hstatus]

omit [DecidableEq τ] in
theorem not_visibleTo_deleted (tx : τ → Tx) {v : Version τ ρ} {n : ℕ} (h : v.xmax = some (t, n)) :
    ¬ v.VisibleTo tx t := by
  intro hv
  exact (hv.2 (t, n) h).1 rfl

theorem visibleTo_push (h : (s.tx t).status = .active) (rows : List ρ) :
    (s.push t rows).visibleTo t = s.visibleTo t ++ rows := by
  have hnew : (rows.map fun row => (⟨row, t, (s.tx t).savepoint, none⟩ : Version τ ρ)).filter
      (fun v => decide (v.VisibleTo s.tx t)) =
      rows.map fun row => ⟨row, t, (s.tx t).savepoint, none⟩ := by
    rw [List.filter_eq_self]
    intro v hv
    obtain ⟨row, -, rfl⟩ := List.mem_map.mp hv
    simp [Version.VisibleTo, h]
  unfold Db.visibleTo Db.push
  rw [List.filter_append, hnew, List.map_append, List.map_map]
  simp [Function.comp_def]

theorem targets_row (s : Db τ ρ) (t : τ) (p : ρ → Bool) :
    (s.targets t p).map Version.row = (s.visibleTo t).filter p := by
  unfold Db.targets Db.visibleTo
  rw [List.filter_map, List.filter_filter]
  congr 1
  apply List.filter_congr
  intro v _
  exact Bool.and_comm _ _

theorem visibleTo_mark (s : Db τ ρ) (t : τ) (p : ρ → Bool) :
    (s.mark t p).visibleTo t = (s.visibleTo t).filter fun row => !p row := by
  have hkept : (s.mark t p).visibleTo t =
      (s.versions.filter fun v => decide (v.VisibleTo s.tx t) && !p v.row).map Version.row := by
    refine filter_map_row (fun v => ?_) (fun v _ => ?_)
    · exact marked_row p v
    · change decide ((marked s t p v).VisibleTo s.tx t) = _
      unfold marked
      split
      · rename_i htarget
        have hgone := not_visibleTo_deleted s.tx (v := { v with
          xmax := some (t, (s.tx t).savepoint) }) rfl
        simp [hgone, htarget.2]
      · rename_i hspared
        by_cases hv : v.VisibleTo s.tx t
        · have hp : p v.row = false := by
            cases hp : p v.row with
            | false => rfl
            | true => exact absurd ⟨hv, hp⟩ hspared
          simp [hv, hp]
        · simp [hv]
  rw [hkept]
  unfold Db.visibleTo
  rw [List.filter_map, List.filter_filter]
  congr 1
  apply List.filter_congr
  intro v _
  exact Bool.and_comm _ _

/-- When a transaction commits, everyone sees what it saw. -/
theorem visible_commit (h : (s.tx t).status = .active) (commits : List τ) :
    ({ s.setTx t { s.tx t with status := .committed } with commits := commits } : Db τ ρ).visible =
      s.visibleTo t := by
  have hstatus : ∀ u, ((s.setTx t { s.tx t with status := .committed }).tx u).status = .committed ↔
      u = t ∨ (s.tx u).status = .committed := by
    intro u
    by_cases hu : u = t
    · subst hu
      simp
    · rw [Db.setTx_ne _ _ _ hu]
      simp [hu]
  unfold Db.visible Db.visibleTo
  congr 1
  apply List.filter_congr
  intro v _
  rw [decide_eq_decide]
  unfold Version.Committed Version.VisibleTo
  simp only [ne_eq, hstatus, h, not_or, and_true]

/-- No two rows that one transaction sees share a key. -/
theorem visibleTo_unique (hs : Consistent T s) :
    (s.visibleTo t).Pairwise fun r x => ∀ k ∈ T.keys r, k ∉ T.keys x := by
  unfold Db.visibleTo
  rw [List.pairwise_map]
  have hkept := List.Pairwise.filter (fun v => decide (v.VisibleTo s.tx t)) hs.unique
  refine List.Pairwise.imp_of_mem ?_ hkept
  intro v w hv hw hrep k hvk hwk
  have hvis : v.VisibleTo s.tx t := of_decide_eq_true (List.mem_filter.mp hv).2
  have hwis : w.VisibleTo s.tx t := of_decide_eq_true (List.mem_filter.mp hw).2
  obtain ⟨n, -, hx⟩ := hrep k hvk hwk hvis.not_dead hwis.not_dead
  obtain ⟨hne, hopen⟩ := hvis.2 (w.xmin, n) hx
  rcases hwis.1 with ⟨hown, -⟩ | hcommitted
  · exact hne hown
  · exact hopen hcommitted

theorem Conflicts.mem_visibleTo {k : κ} (h : Conflicts T s t k) :
    ∃ row ∈ s.visibleTo t, k ∈ T.keys row := by
  obtain ⟨v, hv, hk, hvis, -⟩ := h
  exact ⟨v.row, List.mem_map_of_mem (List.mem_filter.mpr ⟨hv, decide_eq_true hvis⟩), hk⟩

/-! ## Statements -/

/-- `t` is open, has met no error and sees these rows. -/
def Sees (t : τ) (rows : List ρ) (s : Db τ ρ) : Prop := (s.tx t).Ready ∧ s.visibleTo t = rows

/-- What a statement answers and shows next to a transaction that sees `rows`. -/
def Op.Shows (rows : List ρ) : (o : Op ρ) → Value ρ o → List ρ → Prop
  | .savepoint, _, rows' => rows' = rows
  | .query p, found, rows' => found = rows.filter p ∧ rows' = rows
  | .insert row, _, rows' => rows' = rows ++ [row]
  | .update p f, n, rows' => n = (rows.filter p).length ∧
      rows' = (rows.filter fun row => !p row) ++ (rows.filter p).map f
  | .delete p, n, rows' => n = (rows.filter p).length ∧ rows' = rows.filter fun row => !p row
  | _, _, _ => False

/-- No begin, commit or roll back. -/
def Op.Statement : Op ρ → Prop
  | .savepoint => True
  | .query _ => True
  | .insert _ => True
  | .update _ _ => True
  | .delete _ => True
  | _ => False

theorem Sees.begin (hs : Consistent T s) (h : run T t .begin s () s') : Sees t s.visible s' := by
  obtain ⟨hidle, rfl⟩ := h
  refine ⟨?_, visibleTo_begin hs hidle⟩
  rw [Db.setTx_self]
  exact ⟨rfl, rfl⟩

theorem Sees.run {rows : List ρ} {o : Op ρ} {v : Value ρ o} (hsees : Sees t rows s)
    (ho : o.Statement) (h : Sql.run T t o s v s') : ∃ rows', o.Shows rows v rows' ∧ Sees t rows' s' := by
  obtain ⟨hready, rfl⟩ := hsees
  have hactive := hready.1
  cases o with
  | begin => exact ho.elim
  | rollbackTo => exact ho.elim
  | commit => exact ho.elim
  | rollback => exact ho.elim
  | savepoint =>
    obtain ⟨-, rfl⟩ := h
    refine ⟨_, rfl, ?_, visibleTo_setTx rfl⟩
    rw [Db.setTx_self]
    exact hready
  | query p =>
    obtain ⟨-, rfl, rfl⟩ := h
    exact ⟨_, ⟨rfl, rfl⟩, hready, rfl⟩
  | insert row =>
    obtain ⟨-, -, -, rfl⟩ := h
    exact ⟨_, rfl, hready, visibleTo_push hactive [row]⟩
  | update p f =>
    obtain ⟨-, -, -, rfl, rfl⟩ := h
    have hlength : (s.targets t p).length = ((s.visibleTo t).filter p).length := by
      rw [← targets_row, List.length_map]
    refine ⟨_, ⟨hlength, rfl⟩, hready, ?_⟩
    have hpush := visibleTo_push (s := s.mark t p) hactive ((s.targets t p).map fun v => f v.row)
    rw [hpush, visibleTo_mark, ← targets_row (p := p), List.map_map]
    rfl
  | delete p =>
    obtain ⟨-, -, rfl, rfl⟩ := h
    have hlength : (s.targets t p).length = ((s.visibleTo t).filter p).length := by
      rw [← targets_row, List.length_map]
    exact ⟨_, ⟨hlength, rfl⟩, hready, visibleTo_mark s t p⟩

/-- A transaction that has met no error commits what it sees, or does not commit. -/
theorem Sees.commit {rows : List ρ} (hsees : Sees t rows s) (h : Sql.run T t .commit s () s') :
    (s'.tx t).status = .committed ∧ s'.visible = rows := by
  obtain ⟨hready, rfl⟩ := hsees
  rcases h with ⟨-, rfl⟩ | ⟨-, hfailed, -⟩
  · refine ⟨?_, visible_commit hready.1 _⟩
    simp
  · rw [hready.2] at hfailed
    cases hfailed

theorem Sees.conflict {rows : List ρ} {k : κ} (hsees : Sees t rows s) (h : Conflicts T s t k) :
    ∃ row ∈ rows, k ∈ T.keys row := by
  obtain ⟨-, rfl⟩ := hsees
  exact h.mem_visibleTo

end View

end Sql
