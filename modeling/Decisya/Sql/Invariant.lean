import Decisya.Sql.ReadCommitted

/-!
# What every run of transactions keeps

Two versions of one unique key are never both alive, unless the transaction that inserted
the later one deleted the earlier one. The commit log lists each committed transaction once.
-/

namespace Sql

set_option autoImplicit false

section Invariant
variable {τ ρ κ : Type} (T : Schema ρ κ)

/-- Of two versions of one key that are alive, the later one's transaction deleted the earlier. -/
def Replaces (tx : τ → Tx) (v w : Version τ ρ) : Prop :=
  ∀ k, k ∈ T.keys v.row → k ∈ T.keys w.row → ¬ v.Dead tx → ¬ w.Dead tx →
    ∃ n ≤ w.cmin, v.xmax = some (w.xmin, n)

structure Consistent (s : Db τ ρ) : Prop where
  inserted : ∀ v ∈ s.versions, (s.tx v.xmin).status ≠ .idle ∧ v.cmin ≤ (s.tx v.xmin).savepoint
  deleted : ∀ v ∈ s.versions, ∀ d ∈ v.xmax, (s.tx d.1).status ≠ .idle ∧ d.2 ≤ (s.tx d.1).savepoint
  unique : s.versions.Pairwise (Replaces T s.tx)
  logged : ∀ t, t ∈ s.commits ↔ (s.tx t).status = .committed
  nodup : s.commits.Nodup

theorem Consistent.empty : Consistent T (Db.empty τ ρ) where
  inserted := fun _ hv => absurd hv List.not_mem_nil
  deleted := fun _ hv => absurd hv List.not_mem_nil
  unique := .nil
  logged := fun _ => ⟨fun h => absurd h List.not_mem_nil, fun h => Status.noConfusion h⟩
  nodup := .nil

/-- No two rows that everyone sees have one unique key. -/
theorem Consistent.visible_unique {s : Db τ ρ} (h : Consistent T s) :
    s.visible.Pairwise fun r x => ∀ k ∈ T.keys r, k ∉ T.keys x := by
  unfold Db.visible
  rw [List.pairwise_map]
  have hkept := List.Pairwise.filter (fun v => decide (v.Committed s.tx)) h.unique
  refine List.Pairwise.imp_of_mem ?_ hkept
  intro v w hv hw hrep k hvk hwk
  have hvc : v.Committed s.tx := of_decide_eq_true (List.mem_filter.mp hv).2
  have hwc : w.Committed s.tx := of_decide_eq_true (List.mem_filter.mp hw).2
  have hvalive : ¬ v.Dead s.tx := by
    intro hdead
    rcases hdead with habort | ⟨d, hd, hcommit⟩
    · rw [hvc.1] at habort
      cases habort
    · exact hvc.2 d hd hcommit
  have hwalive : ¬ w.Dead s.tx := by
    intro hdead
    rcases hdead with habort | ⟨d, hd, hcommit⟩
    · rw [hwc.1] at habort
      cases habort
    · exact hwc.2 d hd hcommit
  obtain ⟨n, -, hx⟩ := hrep k hvk hwk hvalive hwalive
  exact hvc.2 (w.xmin, n) hx hwc.1

/-- Rows without a common key, all of which have key `k`, are one row or none. -/
theorem length_filter_le_one {rows : List ρ} {p : ρ → Bool} {k : κ}
    (h : rows.Pairwise fun r x => ∀ k ∈ T.keys r, k ∉ T.keys x)
    (hp : ∀ row, p row = true → k ∈ T.keys row) : (rows.filter p).length ≤ 1 := by
  have hpair := h.filter p
  cases hrows : rows.filter p with
  | nil => simp
  | cons r rest =>
    cases rest with
    | nil => simp
    | cons x rest =>
      have hkey : ∀ row ∈ rows.filter p, k ∈ T.keys row := fun row hrow =>
        hp row (List.mem_filter.mp hrow).2
      rw [hrows] at hpair hkey
      have hx : x ∈ r :: x :: rest := List.mem_cons_of_mem r List.mem_cons_self
      exact absurd (hkey x hx) (List.rel_of_pairwise_cons hpair List.mem_cons_self k
        (hkey r List.mem_cons_self))

theorem Consistent.countP_le_one {s : Db τ ρ} (h : Consistent T s) {p : ρ → Bool} {k : κ}
    (hp : ∀ row, p row = true → k ∈ T.keys row) : s.visible.countP p ≤ 1 := by
  rw [List.countP_eq_length_filter]
  exact length_filter_le_one T (h.visible_unique T) hp

variable [DecidableEq τ]

/-! ## Changes of a status -/

/-- A transaction goes on, or ends; its savepoints go up, from nothing when it begins. -/
structure Advances (old new : Tx) : Prop where
  open_ : old.status ≠ .committed ∧ old.status ≠ .aborted
  begun : new.status ≠ .idle
  savepoint : old.status = .idle ∨ old.savepoint ≤ new.savepoint

variable {T} {s : Db τ ρ} {t : τ} {tx : Tx}

theorem Version.Dead.advance (h : Advances (s.tx t) tx) {v : Version τ ρ} (hv : v.Dead s.tx) :
    v.Dead (s.setTx t tx).tx := by
  have hne : ∀ u, (s.tx u).status = .committed ∨ (s.tx u).status = .aborted → u ≠ t := by
    intro u hu heq
    subst heq
    rcases hu with hu | hu
    · exact h.open_.1 hu
    · exact h.open_.2 hu
  rcases hv with habort | ⟨d, hd, hcommit⟩
  · left
    rw [Db.setTx_ne _ _ _ (hne _ (.inr habort))]
    exact habort
  · right
    refine ⟨d, hd, ?_⟩
    rw [Db.setTx_ne _ _ _ (hne _ (.inl hcommit))]
    exact hcommit

theorem Consistent.setTx (hs : Consistent T s) (h : Advances (s.tx t) tx)
    {commits : List τ} (hlog : ∀ u, u ∈ commits ↔ ((s.setTx t tx).tx u).status = .committed)
    (hnodup : commits.Nodup) : Consistent T { s.setTx t tx with commits := commits } := by
  have hmark : ∀ (u : τ) (n : ℕ), (s.tx u).status ≠ .idle ∧ n ≤ (s.tx u).savepoint →
      ((s.setTx t tx).tx u).status ≠ .idle ∧ n ≤ ((s.setTx t tx).tx u).savepoint := by
    intro u n hu
    by_cases heq : u = t
    · subst heq
      rw [Db.setTx_self]
      rcases h.savepoint with hidle | hle
      · exact absurd hidle hu.1
      · exact ⟨h.begun, Nat.le_trans hu.2 hle⟩
    · rw [Db.setTx_ne _ _ _ heq]
      exact hu
  refine ⟨fun v hv => hmark _ _ (hs.inserted v hv), fun v hv d hd => hmark _ _ (hs.deleted v hv d hd),
    ?_, hlog, hnodup⟩
  refine hs.unique.imp ?_
  intro v w hrep k hvk hwk hvalive hwalive
  exact hrep k hvk hwk (fun hd => hvalive (hd.advance h)) (fun hd => hwalive (hd.advance h))

/-- The log does not change where the transaction neither was nor becomes committed. -/
theorem Consistent.setTx_open (hs : Consistent T s) (h : Advances (s.tx t) tx)
    (hstatus : tx.status ≠ .committed) : Consistent T (s.setTx t tx) := by
  refine hs.setTx h (fun u => ?_) hs.nodup
  rw [hs.logged u]
  by_cases heq : u = t
  · subst heq
    rw [Db.setTx_self]
    exact ⟨fun hc => absurd hc h.open_.1, fun hc => absurd hc hstatus⟩
  · rw [Db.setTx_ne _ _ _ heq]

omit [DecidableEq τ] in
theorem Advances.of_active (h : (s.tx t).status = .active) (hbegun : tx.status ≠ .idle)
    (hle : (s.tx t).savepoint ≤ tx.savepoint) : Advances (s.tx t) tx := by
  refine ⟨⟨?_, ?_⟩, hbegun, .inr hle⟩
  · rw [h]
    exact Status.noConfusion
  · rw [h]
    exact Status.noConfusion

theorem Consistent.abort (hs : Consistent T s) : Consistent T (s.abort t) := by
  unfold Db.abort
  split
  · rename_i hactive
    refine hs.setTx_open (.of_active hactive ?_ (Nat.le_refl _)) ?_ <;> exact Status.noConfusion
  · exact hs

theorem Consistent.fail (hs : Consistent T s) : Consistent T (s.fail t) := by
  unfold Db.fail
  split
  · rename_i hactive
    refine hs.setTx_open (.of_active hactive ?_ (Nat.le_refl _)) ?_
    · simp [hactive]
    · simp [hactive]
  · exact hs

/-! ## Changes of the versions -/

omit [DecidableEq τ] in
theorem Consistent.push (hs : Consistent T s) (hactive : (s.tx t).status = .active)
    {rows : List ρ} (hnew : ∀ row ∈ rows, Insertable T s t row)
    (hrows : rows.Pairwise fun r x => ∀ k ∈ T.keys r, k ∉ T.keys x) :
    Consistent T (s.push t rows) := by
  have hmem : ∀ v, v ∈ (s.push t rows).versions → v ∈ s.versions ∨
      ∃ row ∈ rows, v = ⟨row, t, (s.tx t).savepoint, none⟩ := by
    intro v hv
    rcases List.mem_append.mp hv with hv | hv
    · exact .inl hv
    · obtain ⟨row, hrow, rfl⟩ := List.mem_map.mp hv
      exact .inr ⟨row, hrow, rfl⟩
  refine ⟨fun v hv => ?_, fun v hv d hd => ?_, ?_, hs.logged, hs.nodup⟩
  · rcases hmem v hv with hv | ⟨row, -, rfl⟩
    · exact hs.inserted v hv
    · refine ⟨?_, Nat.le_refl _⟩
      change (s.tx t).status ≠ .idle
      rw [hactive]
      exact Status.noConfusion
  · rcases hmem v hv with hv | ⟨row, -, rfl⟩
    · exact hs.deleted v hv d hd
    · cases hd
  · apply List.pairwise_append.mpr
    refine ⟨hs.unique, ?_, ?_⟩
    · rw [List.pairwise_map]
      refine hrows.imp ?_
      intro r x hdisjoint k hr hx
      exact absurd hx (hdisjoint k hr)
    · intro v hv w hw k hvk hwk hvalive _
      obtain ⟨row, hrow, rfl⟩ := List.mem_map.mp hw
      obtain ⟨n, hx⟩ := hnew row hrow k hwk v hv hvk hvalive
      exact ⟨n, (hs.deleted v hv (t, n) hx).2, hx⟩

omit [DecidableEq τ] in
/-- A version that is visible to `t` and unlocked was deleted, if ever, by a transaction that
rolled back. -/
theorem aborted_of_visible {v : Version τ ρ} (hs : Consistent T s) (hv : v ∈ s.versions)
    (hvis : v.VisibleTo s.tx t) (hfree : v.Unlocked s.tx) {d : τ × ℕ} (hd : d ∈ v.xmax) :
    (s.tx d.1).status = .aborted := by
  have hidle := (hs.deleted v hv d hd).1
  have hcommit := (hvis.2 d hd).2
  have hactive := hfree d hd
  cases hstatus : (s.tx d.1).status with
  | idle => exact absurd hstatus hidle
  | active => exact absurd hstatus hactive
  | committed => exact absurd hstatus hcommit
  | aborted => rfl

theorem mem_targets {p : ρ → Bool} {v : Version τ ρ} :
    v ∈ s.targets t p ↔ v ∈ s.versions ∧ v.VisibleTo s.tx t ∧ p v.row = true := by
  simp [Db.targets]

/-- A version as `mark` leaves it. -/
def marked (s : Db τ ρ) (t : τ) (p : ρ → Bool) (v : Version τ ρ) : Version τ ρ :=
  if v.VisibleTo s.tx t ∧ p v.row = true then { v with xmax := some (t, (s.tx t).savepoint) } else v

theorem marked_row (p : ρ → Bool) (v : Version τ ρ) : (marked s t p v).row = v.row := by
  unfold marked
  split <;> rfl

theorem marked_xmin (p : ρ → Bool) (v : Version τ ρ) : (marked s t p v).xmin = v.xmin := by
  unfold marked
  split <;> rfl

theorem marked_cmin (p : ρ → Bool) (v : Version τ ρ) : (marked s t p v).cmin = v.cmin := by
  unfold marked
  split <;> rfl

theorem not_dead_of_marked {p : ρ → Bool} {v : Version τ ρ}
    (h : ¬ (marked s t p v).Dead s.tx) : ¬ v.Dead s.tx := by
  unfold marked at h
  split at h
  · rename_i hv
    intro hdead
    rcases hdead with habort | ⟨d, hd, hcommit⟩
    · exact h (.inl habort)
    · exact (hv.1.2 d hd).2 hcommit
  · exact h

theorem Consistent.mark (hs : Consistent T s) (hactive : (s.tx t).status = .active) {p : ρ → Bool}
    (hfree : ∀ v ∈ s.targets t p, v.Unlocked s.tx) : Consistent T (s.mark t p) := by
  have hbegun : (s.tx t).status ≠ .idle := by
    rw [hactive]
    exact Status.noConfusion
  refine ⟨fun v hv => ?_, fun v hv d hd => ?_, ?_, hs.logged, hs.nodup⟩
  · obtain ⟨w, hw, rfl⟩ := List.mem_map.mp hv
    change (s.tx (marked s t p w).xmin).status ≠ .idle ∧
      (marked s t p w).cmin ≤ (s.tx (marked s t p w).xmin).savepoint
    rw [marked_xmin, marked_cmin]
    exact hs.inserted w hw
  · obtain ⟨w, hw, rfl⟩ := List.mem_map.mp hv
    split at hd
    · cases hd
      exact ⟨hbegun, Nat.le_refl _⟩
    · exact hs.deleted w hw d hd
  · change (s.versions.map (marked s t p)).Pairwise (Replaces T s.tx)
    rw [List.pairwise_map]
    refine List.Pairwise.imp_of_mem ?_ hs.unique
    intro v w hv hw hrep k hvk hwk hvalive hwalive
    rw [marked_row] at hvk hwk
    have hwlive := not_dead_of_marked hwalive
    obtain ⟨n, hle, hx⟩ := hrep k hvk hwk (not_dead_of_marked hvalive) hwlive
    rw [marked_xmin, marked_cmin]
    refine ⟨n, hle, ?_⟩
    unfold marked
    rw [if_neg]
    · exact hx
    · -- A target's deleter rolled back, and so would the later version's transaction have.
      intro htarget
      have hfree' := hfree v (mem_targets.mpr ⟨hv, htarget⟩)
      exact hwlive (.inl (aborted_of_visible hs hv htarget.1 hfree' hx))

theorem Consistent.undo (hs : Consistent T s) (hactive : (s.tx t).status = .active) :
    Consistent T (s.undo t) := by
  let n := (s.tx t).savepoint
  have hrestore : ∀ v : Version τ ρ, ¬ (v.restore t n).Dead s.tx → ¬ v.Dead s.tx := by
    intro v hv hdead
    rcases hdead with habort | ⟨d, hd, hcommit⟩
    · exact hv (.inl habort)
    · refine hv (.inr ⟨d, ?_, hcommit⟩)
      have hne : d.1 ≠ t := by
        intro heq
        rw [heq, hactive] at hcommit
        cases hcommit
      simp [Version.restore, Option.mem_def.mp hd, hne]
  have hxmax : ∀ v : Version τ ρ, ∀ d ∈ (v.restore t n).xmax, d ∈ v.xmax := by
    intro v d hd
    simp only [Version.restore, Option.mem_def, Option.filter_eq_some_iff] at hd
    exact hd.1
  refine ⟨fun v hv => ?_, fun v hv d hd => ?_, ?_, hs.logged, hs.nodup⟩
  · obtain ⟨w, hw, rfl⟩ := List.mem_map.mp hv
    exact hs.inserted w (List.mem_filter.mp hw).1
  · obtain ⟨w, hw, rfl⟩ := List.mem_map.mp hv
    exact hs.deleted w (List.mem_filter.mp hw).1 d (hxmax w d hd)
  · change ((s.versions.filter fun v => decide ¬v.Since t n).map (Version.restore t n)).Pairwise
      (Replaces T s.tx)
    rw [List.pairwise_map]
    refine List.Pairwise.imp_of_mem ?_ (hs.unique.filter _)
    intro v w hv hw hrep k hvk hwk hvalive hwalive
    obtain ⟨m, hle, hx⟩ := hrep k hvk hwk (hrestore v hvalive) (hrestore w hwalive)
    refine ⟨m, hle, ?_⟩
    have hkept : ¬ w.Since t n := of_decide_eq_true (List.mem_filter.mp hw).2
    have hold : ¬ (w.xmin = t ∧ n ≤ m) := by
      intro hsince
      exact hkept ⟨hsince.1, Nat.le_trans hsince.2 hle⟩
    simp only [Version.restore, hx, Option.filter_some, hold, not_false_eq_true, decide_true, if_true]

omit [DecidableEq τ] in
theorem Version.VisibleTo.not_dead {v : Version τ ρ} (h : v.VisibleTo s.tx t) : ¬ v.Dead s.tx := by
  intro hdead
  rcases hdead with habort | ⟨d, hd, hcommit⟩
  · rcases h.1 with ⟨hown, hactive⟩ | hcommitted
    · rw [hown, hactive] at habort
      cases habort
    · rw [hcommitted] at habort
      cases habort
  · exact (h.2 d hd).2 hcommit

/-- Of two versions of one key only one can be visible and unlocked. -/
theorem not_replaces_target (hs : Consistent T s) {v w : Version τ ρ} (hv : v ∈ s.versions)
    (hvis : v.VisibleTo s.tx t) (hfree : v.Unlocked s.tx) (hwalive : ¬ w.Dead s.tx) {n : ℕ}
    (hx : v.xmax = some (w.xmin, n)) : False :=
  hwalive (.inl (aborted_of_visible hs hv hvis hfree hx))

theorem Consistent.update (hs : Consistent T s) (hactive : (s.tx t).status = .active)
    {p : ρ → Bool} {f : ρ → ρ}
    (hfree : ∀ v ∈ s.targets t p, v.Unlocked s.tx ∧ T.keys (f v.row) = T.keys v.row) :
    Consistent T ((s.mark t p).push t ((s.targets t p).map fun v => f v.row)) := by
  have hmark := hs.mark hactive fun v hv => (hfree v hv).1
  refine hmark.push hactive (fun row hrow => ?_) ?_
  · obtain ⟨v, hv, rfl⟩ := List.mem_map.mp hrow
    obtain ⟨hvfree, hkey⟩ := hfree v hv
    obtain ⟨hvmem, hvis, hp⟩ := mem_targets.mp hv
    intro k hk x hx hxk hxalive
    rw [hkey] at hk
    obtain ⟨y, hy, rfl⟩ := List.mem_map.mp hx
    change k ∈ T.keys (marked s t p y).row at hxk
    change ¬ (marked s t p y).Dead s.tx at hxalive
    rw [marked_row] at hxk
    have hyalive := not_dead_of_marked hxalive
    by_cases htarget : y.VisibleTo s.tx t ∧ p y.row = true
    · exact ⟨(s.tx t).savepoint, by rw [if_pos htarget]⟩
    · rw [if_neg htarget]
      have hne : y ≠ v := by
        intro heq
        subst heq
        exact htarget ⟨hvis, hp⟩
      let Either (a b : Version τ ρ) : Prop := Replaces T s.tx a b ∨ Replaces T s.tx b a
      have hsymm : Std.Symm Either := ⟨fun _ _ h => h.symm⟩
      have hboth : s.versions.Pairwise Either := hs.unique.imp Or.inl
      have hpair := hboth.forall hy hvmem hne
      rcases hpair with hrep | hrep
      · obtain ⟨n, -, hxmax⟩ := hrep k hxk hk hyalive hvis.not_dead
        rcases hvis.1 with ⟨hown, -⟩ | hcommitted
        · rw [hown] at hxmax
          exact ⟨n, hxmax⟩
        · exact absurd (.inr ⟨_, hxmax, hcommitted⟩) hyalive
      · obtain ⟨n, -, hxmax⟩ := hrep k hk hxk hvis.not_dead hyalive
        exact (not_replaces_target hs hvmem hvis hvfree hyalive hxmax).elim
  · rw [List.pairwise_map]
    have hkept : (s.targets t p).Pairwise (Replaces T s.tx) := hs.unique.filter _
    refine List.Pairwise.imp_of_mem ?_ hkept
    intro v w hv hw hrep k hvk hwk
    obtain ⟨hvmem, hvis, -⟩ := mem_targets.mp hv
    obtain ⟨-, hwvis, -⟩ := mem_targets.mp hw
    rw [(hfree v hv).2] at hvk
    rw [(hfree w hw).2] at hwk
    obtain ⟨n, -, hxmax⟩ := hrep k hvk hwk hvis.not_dead hwvis.not_dead
    exact not_replaces_target hs hvmem hvis (hfree v hv).1 hwvis.not_dead hxmax

/-! ## Operations -/

theorem Consistent.run {o : Op ρ} {v : Value ρ o} {s' : Db τ ρ} (hs : Consistent T s)
    (h : Sql.run T t o s v s') : Consistent T s' := by
  cases o with
  | begin =>
    obtain ⟨hidle, rfl⟩ := h
    have hadvance : Advances (s.tx t) ⟨.active, 0, false⟩ := by
      refine ⟨⟨?_, ?_⟩, Status.noConfusion, .inl hidle⟩
      · rw [hidle]
        exact Status.noConfusion
      · rw [hidle]
        exact Status.noConfusion
    exact hs.setTx_open hadvance Status.noConfusion
  | savepoint =>
    obtain ⟨⟨hactive, -⟩, rfl⟩ := h
    refine hs.setTx_open (.of_active hactive ?_ (Nat.le_succ _)) ?_ <;> simp [hactive]
  | rollbackTo =>
    obtain ⟨hactive, rfl⟩ := h
    have hundo := hs.undo hactive
    refine Consistent.setTx_open (s := s.undo t) hundo (.of_active hactive ?_ (Nat.le_refl _)) ?_
    · simp [hactive]
    · simp [hactive]
  | commit =>
    rcases h with ⟨⟨hactive, -⟩, rfl⟩ | ⟨-, -, rfl⟩
    · have hnew : t ∉ s.commits := by
        rw [hs.logged, hactive]
        exact Status.noConfusion
      have hadvance : Advances (s.tx t) { s.tx t with status := .committed } :=
        .of_active hactive Status.noConfusion (Nat.le_refl _)
      refine hs.setTx hadvance (fun u => ?_) ?_
      · rw [List.mem_cons, hs.logged]
        by_cases heq : u = t
        · subst heq
          simp
        · rw [Db.setTx_ne _ _ _ heq]
          simp [heq]
      · exact List.nodup_cons.mpr ⟨hnew, hs.nodup⟩
    · exact hs.abort
  | rollback =>
    obtain rfl := h
    exact hs.abort
  | query p =>
    obtain ⟨-, -, rfl⟩ := h
    exact hs
  | insert row =>
    obtain ⟨⟨hactive, -⟩, -, hnew, rfl⟩ := h
    refine hs.push hactive (fun r hr => ?_) (List.pairwise_singleton _ _)
    rw [List.mem_singleton.mp hr]
    exact hnew
  | update p f =>
    obtain ⟨⟨hactive, -⟩, hfree, -, -, rfl⟩ := h
    exact hs.update hactive hfree
  | delete p =>
    obtain ⟨⟨hactive, -⟩, hfree, -, rfl⟩ := h
    exact hs.mark hactive hfree

theorem Consistent.exec {o : Op ρ} {r : Reply ρ κ o} {s' : Db τ ρ} (hs : Consistent T s)
    (h : Sql.exec T t o s r s') : Consistent T s' := by
  cases r with
  | ok v => exact hs.run h
  | error e =>
    cases e with
    | unique k =>
      obtain ⟨_, -, -, -, -, rfl⟩ := h
      exact hs.fail
    | other =>
      rcases h with rfl | rfl | rfl | ⟨v, hrun⟩
      · exact hs
      · exact hs.fail
      · exact hs.abort
      · exact hs.run hrun

/-! ## What everyone sees -/

/-- The tables as everyone sees them, and the log. -/
structure Quiet (s s' : Db τ ρ) : Prop where
  visible : s'.visible = s.visible
  commits : s'.commits = s.commits

omit [DecidableEq τ] in
theorem Quiet.refl (s : Db τ ρ) : Quiet s s := ⟨rfl, rfl⟩

theorem Quiet.abort (s : Db τ ρ) (t : τ) : Quiet s (s.abort t) :=
  ⟨s.visible_abort t, s.abort_commits t⟩

theorem Quiet.fail (s : Db τ ρ) (t : τ) : Quiet s (s.fail t) := ⟨s.visible_fail t, s.fail_commits t⟩

theorem run_quiet {o : Op ρ} {v : Value ρ o} {s' : Db τ ρ} (h : Sql.run T t o s v s') :
    Quiet s s' ∨ (o = .commit ∧ (s.tx t).Ready ∧ s' = { s.setTx t { s.tx t with status := .committed } with
      commits := t :: s.commits }) := by
  cases o with
  | begin =>
    obtain ⟨hidle, rfl⟩ := h
    have hsame : SameOutcome ⟨.active, 0, false⟩ (s.tx t) := by
      simp [SameOutcome, hidle]
    exact .inl ⟨Db.visible_setTx hsame, rfl⟩
  | savepoint =>
    obtain ⟨-, rfl⟩ := h
    exact .inl ⟨Db.visible_setTx Iff.rfl, rfl⟩
  | rollbackTo =>
    obtain ⟨hactive, rfl⟩ := h
    have hundo := Db.visible_undo hactive
    refine .inl ⟨?_, rfl⟩
    rw [← hundo]
    exact Db.visible_setTx (s := s.undo t) Iff.rfl
  | commit =>
    rcases h with ⟨hready, rfl⟩ | ⟨-, -, rfl⟩
    · exact .inr ⟨rfl, hready, rfl⟩
    · exact .inl (.abort s t)
  | rollback =>
    obtain rfl := h
    exact .inl (.abort s t)
  | query p =>
    obtain ⟨-, -, rfl⟩ := h
    exact .inl (.refl _)
  | insert row =>
    obtain ⟨⟨hactive, -⟩, -, -, rfl⟩ := h
    exact .inl ⟨Db.visible_push hactive _, rfl⟩
  | update p f =>
    obtain ⟨⟨hactive, -⟩, -, -, -, rfl⟩ := h
    refine .inl ⟨?_, rfl⟩
    rw [← Db.visible_mark hactive p]
    exact Db.visible_push (s := s.mark t p) hactive _
  | delete p =>
    obtain ⟨⟨hactive, -⟩, -, -, rfl⟩ := h
    exact .inl ⟨Db.visible_mark hactive p, rfl⟩

/-- Everyone sees the same tables after an operation, unless it is a commit. -/
theorem exec_quiet {o : Op ρ} {r : Reply ρ κ o} {s' : Db τ ρ} (h : Sql.exec T t o s r s') :
    Quiet s s' ∨ (o = .commit ∧ (s.tx t).Ready ∧ s' = { s.setTx t { s.tx t with status := .committed } with
      commits := t :: s.commits }) := by
  cases r with
  | ok v => exact run_quiet h
  | error e =>
    cases e with
    | unique k =>
      obtain ⟨_, -, -, -, -, rfl⟩ := h
      exact .inl (.fail s t)
    | other =>
      rcases h with rfl | rfl | rfl | ⟨v, hrun⟩
      · exact .inl (.refl _)
      · exact .inl (.fail s t)
      · exact .inl (.abort s t)
      · exact run_quiet hrun

end Invariant

end Sql
